import Mathlib.Data.List.Basic
import Mathlib.Logic.Function.Iterate
import Mathlib.Order.Basic

namespace ServerFramework.Library.Crc

variable {w : Nat} (poly : BitVec w)

def bitStep (x : BitVec w) : BitVec w := if x.getLsbD 0 then poly ^^^ (x >>> 1) else x >>> 1

def undoBit (x : BitVec w) : BitVec w := if x.msb then ((x ^^^ poly) <<< 1) ||| 1#w else x <<< 1

def bitSteps (n : Nat) (x : BitVec w) : BitVec w := (bitStep poly)^[n] x

def undoBits (n : Nat) (x : BitVec w) : BitVec w := (undoBit poly)^[n] x

def feed (x : BitVec w) (bytes : List (BitVec w)) : BitVec w :=
  bytes.foldl (fun y b => bitSteps poly 8 (y ^^^ b)) x

def unfeed (x : BitVec w) (bytes : List (BitVec w)) : BitVec w :=
  bytes.foldr (fun b y => undoBits poly 8 y ^^^ b) x

/-! ## Linearity -/

theorem bitStep_xor (x y : BitVec w) :
    bitStep poly (x ^^^ y) = bitStep poly x ^^^ bitStep poly y := by
  unfold bitStep
  rw [BitVec.getLsbD_xor, BitVec.ushiftRight_xor_distrib]
  cases x.getLsbD 0 <;> cases y.getLsbD 0 <;> simp
  · ac_rfl
  · ac_rfl
  · rw [show poly ^^^ x >>> 1 ^^^ (poly ^^^ y >>> 1) = (poly ^^^ poly) ^^^ (x >>> 1 ^^^ y >>> 1) by ac_rfl]
    simp

theorem bitSteps_succ (n : Nat) (x : BitVec w) :
    bitSteps poly (n + 1) x = bitSteps poly n (bitStep poly x) := rfl

theorem bitSteps_add (m n : Nat) (x : BitVec w) :
    bitSteps poly (m + n) x = bitSteps poly m (bitSteps poly n x) :=
  Function.iterate_add_apply _ m n x

theorem bitSteps_xor (n : Nat) (x y : BitVec w) :
    bitSteps poly n (x ^^^ y) = bitSteps poly n x ^^^ bitSteps poly n y := by
  induction n generalizing x y with
  | zero => rfl
  | succ n ih => rw [bitSteps_succ, bitStep_xor, ih, ← bitSteps_succ, ← bitSteps_succ]

theorem feed_cons (x b : BitVec w) (bytes : List (BitVec w)) :
    feed poly x (b :: bytes) = feed poly (bitSteps poly 8 (x ^^^ b)) bytes := rfl

theorem feed_append (x : BitVec w) (as bs : List (BitVec w)) :
    feed poly x (as ++ bs) = feed poly (feed poly x as) bs := List.foldl_append

theorem feed_xor (x y : BitVec w) (as bs : List (BitVec w)) (same : as.length = bs.length) :
    feed poly (x ^^^ y) (List.zipWith (· ^^^ ·) as bs) = feed poly x as ^^^ feed poly y bs := by
  induction as generalizing x y bs with
  | nil =>
      obtain rfl := List.length_eq_zero_iff.mp same.symm
      rfl
  | cons a as ih =>
      cases bs with
      | nil => simp at same
      | cons b bs =>
          rw [List.zipWith_cons_cons, feed_cons, feed_cons, feed_cons,
            show x ^^^ y ^^^ (a ^^^ b) = x ^^^ a ^^^ (y ^^^ b) by ac_rfl, bitSteps_xor]
          exact ih _ _ _ (by simpa using same)

/-- Whatever is fed to both, two registers keep the difference that as many steps make of theirs. -/
theorem feed_difference (x y : BitVec w) (bytes : List (BitVec w)) :
    feed poly x bytes ^^^ feed poly y bytes = bitSteps poly (8 * bytes.length) (x ^^^ y) := by
  induction bytes generalizing x y with
  | nil => rfl
  | cons b bytes ih =>
      have cancelled : x ^^^ b ^^^ (y ^^^ b) = x ^^^ y := by
        rw [show x ^^^ b ^^^ (y ^^^ b) = x ^^^ y ^^^ (b ^^^ b) by ac_rfl, BitVec.xor_self, BitVec.xor_zero]
      rw [feed_cons, feed_cons, ih, ← bitSteps_xor, cancelled, ← bitSteps_add, List.length_cons, Nat.mul_succ]

theorem feed_change (x : BitVec w) (pre post : List (BitVec w)) (a b : BitVec w) :
    feed poly x (pre ++ a :: post) ^^^ feed poly x (pre ++ b :: post) =
      bitSteps poly (8 * (post.length + 1)) (a ^^^ b) := by
  have state : ∀ y : BitVec w, y ^^^ a ^^^ (y ^^^ b) = a ^^^ b := by
    intro y
    rw [show y ^^^ a ^^^ (y ^^^ b) = y ^^^ y ^^^ (a ^^^ b) by ac_rfl, BitVec.xor_self, BitVec.zero_xor]
  rw [feed_append, feed_append, feed_cons, feed_cons, feed_difference, ← bitSteps_xor, state, ← bitSteps_add,
    Nat.mul_succ]

/-! ## Shifting a word out -/

theorem bitSteps_of_clear (n : Nat) (x : BitVec w) (clear : ∀ i < n, x.getLsbD i = false) :
    bitSteps poly n x = x >>> n := by
  induction n generalizing x with
  | zero => simp [bitSteps]
  | succ n ih =>
      have low : x.getLsbD 0 = false := clear 0 (Nat.succ_pos n)
      have first : bitStep poly x = x >>> 1 := by simp [bitStep, low]
      rw [bitSteps_succ, first, ih, Nat.add_comm n 1, BitVec.shiftRight_add]
      intro i bound
      rw [BitVec.getLsbD_ushiftRight]
      exact clear (1 + i) (by omega)

/-- The bits of a register apart from its lowest `n` only move down during `n` steps. -/
theorem bitSteps_split (n : Nat) (x low : BitVec w) (agree : ∀ i < n, low.getLsbD i = x.getLsbD i)
    (high : low >>> n = 0#w) : bitSteps poly n x = bitSteps poly n low ^^^ (x >>> n) := by
  have clear : ∀ i < n, (low ^^^ x).getLsbD i = false := by
    intro i bound
    rw [BitVec.getLsbD_xor, agree i bound, Bool.xor_self]
  have moved := bitSteps_of_clear poly n (low ^^^ x) clear
  rw [bitSteps_xor, BitVec.ushiftRight_xor_distrib, high, BitVec.zero_xor] at moved
  rw [← moved, ← BitVec.xor_assoc, BitVec.xor_self, BitVec.zero_xor]

def word : List (BitVec w) → BitVec w
  | [] => 0#w
  | b :: bytes => b ^^^ (word bytes <<< 8)

theorem word_high (bytes : List (BitVec w)) (small : ∀ b ∈ bytes, ∀ i ≥ 8, b.getLsbD i = false) :
    ∀ i ≥ 8 * bytes.length, (word bytes).getLsbD i = false := by
  induction bytes with
  | nil => simp [word]
  | cons b bytes ih =>
      intro i bound
      rw [List.length_cons] at bound
      have first := small b (by simp) i (by omega)
      have rest := ih (fun c member => small c (by simp [member])) (i - 8) (by omega)
      simp [word, first, rest]

theorem word_change (pre post : List (BitVec w)) (a b : BitVec w) :
    word (pre ++ a :: post) ^^^ word (pre ++ b :: post) = (a ^^^ b) <<< (8 * pre.length) := by
  induction pre with
  | nil =>
      rw [List.nil_append, List.nil_append, word, word, List.length_nil, Nat.mul_zero, BitVec.shiftLeft_zero,
        show a ^^^ word post <<< 8 ^^^ (b ^^^ word post <<< 8) =
          a ^^^ b ^^^ (word post <<< 8 ^^^ word post <<< 8) by ac_rfl, BitVec.xor_self, BitVec.xor_zero]
  | cons c pre ih =>
      rw [List.cons_append, List.cons_append, word, word, List.length_cons,
        show c ^^^ word (pre ++ a :: post) <<< 8 ^^^ (c ^^^ word (pre ++ b :: post) <<< 8) =
          c ^^^ c ^^^ (word (pre ++ a :: post) <<< 8 ^^^ word (pre ++ b :: post) <<< 8) by ac_rfl,
        BitVec.xor_self, BitVec.zero_xor, ← BitVec.shiftLeft_xor_distrib, ih, Nat.mul_succ, BitVec.shiftLeft_add]

/-- Shifting in a word's worth of bytes is shifting the word out of the register. -/
theorem feed_eq_bitSteps (x : BitVec w) (bytes : List (BitVec w))
    (small : ∀ b ∈ bytes, ∀ i ≥ 8, b.getLsbD i = false) (fits : 8 * bytes.length ≤ w) :
    feed poly x bytes = bitSteps poly (8 * bytes.length) (x ^^^ word bytes) := by
  induction bytes generalizing x with
  | nil => simp [feed, bitSteps, word]
  | cons b bytes ih =>
      rw [List.length_cons] at fits
      have rest : ∀ c ∈ bytes, ∀ i ≥ 8, c.getLsbD i = false :=
        fun c member => small c (by simp [member])
      have out : bitSteps poly 8 (word bytes <<< 8) = word bytes := by
        rw [bitSteps_of_clear poly 8 _ (by intro i bound; simp [bound])]
        apply BitVec.eq_of_getLsbD_eq
        intro i bound
        rw [BitVec.getLsbD_ushiftRight, BitVec.getLsbD_shiftLeft]
        by_cases inside : 8 + i < w
        · simp [inside]
        · simp [inside, word_high bytes rest i (by omega)]
      rw [feed_cons, ih _ rest (by omega), List.length_cons, Nat.mul_succ, bitSteps_add, word,
        ← BitVec.xor_assoc, bitSteps_xor poly 8 (x ^^^ b), out]

/-! ## One bit of the message at a time -/

def lowBits {v : Nat} (n : Nat) (b : BitVec v) : List Bool := (List.range n).map b.getLsbD

def shiftIn (x : BitVec w) (bit : Bool) : BitVec w :=
  if x.getLsbD 0 ^^ bit then poly ^^^ (x >>> 1) else x >>> 1

theorem lowBits_succ (n : Nat) (b : BitVec w) :
    lowBits (n + 1) b = b.getLsbD 0 :: lowBits n (b >>> 1) := by
  rw [lowBits, lowBits, List.range_succ_eq_map, List.map_cons, List.map_map]
  congr 1
  apply List.map_congr_left
  intro i _
  rw [Function.comp_apply, BitVec.getLsbD_ushiftRight, Nat.add_comm]

theorem bitStep_shiftIn (x b : BitVec w) :
    bitStep poly (x ^^^ b) = shiftIn poly x (b.getLsbD 0) ^^^ (b >>> 1) := by
  rw [bitStep, shiftIn, BitVec.getLsbD_xor, BitVec.ushiftRight_xor_distrib]
  split
  · rw [BitVec.xor_assoc]
  · rfl

theorem shiftIn_lowBits (n : Nat) (x b : BitVec w) (small : ∀ i ≥ n, b.getLsbD i = false) :
    (lowBits n b).foldl (shiftIn poly) x = bitSteps poly n (x ^^^ b) := by
  induction n generalizing x b with
  | zero =>
      have zero : b = 0#w := BitVec.eq_of_getLsbD_eq fun i _ => by simp [small i (Nat.zero_le i)]
      simp [zero, lowBits, bitSteps]
  | succ n ih =>
      have shifted : ∀ i ≥ n, (b >>> 1).getLsbD i = false := by
        intro i bound
        rw [BitVec.getLsbD_ushiftRight]
        exact small (1 + i) (by omega)
      rw [lowBits_succ, List.foldl_cons, ih _ _ shifted, bitSteps_succ, bitStep_shiftIn]

/-! ## Reversibility -/

variable {poly}

theorem width_pos_of_msb {x : BitVec w} (top : x.msb = true) : 0 < w := by
  cases w with
  | zero => simp [BitVec.msb, BitVec.getMsbD] at top
  | succ w => exact Nat.succ_pos w

theorem undoBit_bitStep (top : poly.msb = true) (x : BitVec w) :
    undoBit poly (bitStep poly x) = x := by
  have positive := width_pos_of_msb top
  have clear : (x >>> 1).msb = false := by simp [BitVec.msb_ushiftRight]
  cases low : x.getLsbD 0 with
  | false =>
      rw [bitStep, undoBit, low, if_neg (by simp), if_neg (by simp)]
      apply BitVec.eq_of_getLsbD_eq
      intro i bound
      cases i with
      | zero => simp [low]
      | succ i => simp [bound, Nat.add_comm 1 i]
  | true =>
      rw [bitStep, undoBit, low, if_pos rfl, if_pos (by simp [clear, top]), BitVec.xor_comm poly,
        BitVec.xor_assoc, BitVec.xor_self, BitVec.xor_zero]
      apply BitVec.eq_of_getLsbD_eq
      intro i bound
      cases i with
      | zero => simp [low, positive]
      | succ i => simp [bound, Nat.add_comm 1 i]

theorem bitStep_undoBit (top : poly.msb = true) (x : BitVec w) :
    bitStep poly (undoBit poly x) = x := by
  have positive := width_pos_of_msb top
  cases high : x.msb with
  | false =>
      rw [undoBit, high, if_neg (by simp), bitStep, if_neg (by simp)]
      apply BitVec.eq_of_getLsbD_eq
      intro i bound
      rw [BitVec.getLsbD_ushiftRight, BitVec.getLsbD_shiftLeft]
      by_cases inside : 1 + i < w
      · simp [inside]
      · have last : i = w - 1 := by omega
        rw [BitVec.msb_eq_getLsbD_last] at high
        simp [last, high]
  | true =>
      rw [undoBit, high, if_pos rfl, bitStep, if_pos (by simp [positive])]
      apply BitVec.eq_of_getLsbD_eq
      intro i bound
      rw [BitVec.msb_eq_getLsbD_last] at high top
      by_cases inside : 1 + i < w
      · simp [inside, BitVec.getLsbD_eq_getElem bound]
        cases x[i] <;> cases poly[i] <;> rfl
      · have last : i = w - 1 := by omega
        subst last
        simp [high, top]

theorem undoBits_bitSteps (top : poly.msb = true) (n : Nat) (x : BitVec w) :
    undoBits poly n (bitSteps poly n x) = x :=
  Function.LeftInverse.iterate (undoBit_bitStep top) n x

theorem bitSteps_undoBits (top : poly.msb = true) (n : Nat) (x : BitVec w) :
    bitSteps poly n (undoBits poly n x) = x :=
  Function.LeftInverse.iterate (bitStep_undoBit top) n x

theorem bitSteps_eq_iff (top : poly.msb = true) (n : Nat) (x y : BitVec w) :
    bitSteps poly n x = y ↔ x = undoBits poly n y :=
  ⟨fun equal => by rw [← equal, undoBits_bitSteps top],
    fun equal => by rw [equal, bitSteps_undoBits top]⟩

theorem feed_eq_iff (top : poly.msb = true) (x y : BitVec w) (bytes : List (BitVec w)) :
    feed poly x bytes = y ↔ x = unfeed poly y bytes := by
  induction bytes generalizing x with
  | nil => rfl
  | cons b bytes ih =>
      rw [feed_cons, ih, bitSteps_eq_iff top]
      change _ ↔ x = undoBits poly 8 (unfeed poly y bytes) ^^^ b
      constructor
      · intro equal
        rw [← equal, BitVec.xor_assoc, BitVec.xor_self, BitVec.xor_zero]
      · intro equal
        rw [equal, BitVec.xor_assoc, BitVec.xor_self, BitVec.xor_zero]

theorem feed_injective (top : poly.msb = true) (bytes : List (BitVec w)) :
    Function.Injective fun x => feed poly x bytes := by
  intro x y equal
  rw [(feed_eq_iff top x _ bytes).mp equal]
  exact ((feed_eq_iff top y _ bytes).mp rfl).symm

/-! ## Bursts -/

theorem word_injective (as bs : List (BitVec w)) (same : as.length = bs.length)
    (smallA : ∀ a ∈ as, ∀ i ≥ 8, a.getLsbD i = false) (smallB : ∀ b ∈ bs, ∀ i ≥ 8, b.getLsbD i = false)
    (fits : 8 * as.length ≤ w) (equal : word as = word bs) : as = bs := by
  induction as generalizing bs with
  | nil => exact (List.length_eq_zero_iff.mp same.symm).symm
  | cons a as ih =>
      cases bs with
      | nil => simp at same
      | cons b bs =>
          rw [List.length_cons] at fits
          have bits : ∀ i, (word (a :: as)).getLsbD i = (word (b :: bs)).getLsbD i :=
            fun i => congrArg (·.getLsbD i) equal
          simp only [word, BitVec.getLsbD_xor, BitVec.getLsbD_shiftLeft] at bits
          have first : a = b := by
            apply BitVec.eq_of_getLsbD_eq
            intro i bound
            by_cases low : i < 8
            · simpa [low] using bits i
            · rw [smallA a (by simp) i (by omega), smallB b (by simp) i (by omega)]
          have restA : ∀ c ∈ as, ∀ i ≥ 8, c.getLsbD i = false := fun c member => smallA c (by simp [member])
          have restB : ∀ c ∈ bs, ∀ i ≥ 8, c.getLsbD i = false := fun c member => smallB c (by simp [member])
          have sameRest : as.length = bs.length := by simpa using same
          have behind : word as = word bs := by
            apply BitVec.eq_of_getLsbD_eq
            intro i bound
            by_cases inside : 8 + i < w
            · simpa [first, inside, show ¬ 8 + i < 8 by omega] using bits (8 + i)
            · rw [word_high as restA i (by omega), word_high bs restB i (by omega)]
          rw [first, ih bs sameRest restA restB (by omega) behind]

/-- A burst no longer than the register always shows, whatever was fed before and after it. -/
theorem feed_burst (top : poly.msb = true) (x : BitVec w) {mid mid' : List (BitVec w)} (post : List (BitVec w))
    (same : mid.length = mid'.length) (small : ∀ b ∈ mid, ∀ i ≥ 8, b.getLsbD i = false)
    (small' : ∀ b ∈ mid', ∀ i ≥ 8, b.getLsbD i = false) (fits : 8 * mid.length ≤ w)
    (equal : feed poly x (mid ++ post) = feed poly x (mid' ++ post)) : mid = mid' := by
  rw [feed_append, feed_append] at equal
  have before := feed_injective top post equal
  rw [feed_eq_bitSteps poly x mid small fits, feed_eq_bitSteps poly x mid' small' (same ▸ fits), ← same,
    bitSteps_eq_iff top, undoBits_bitSteps top, BitVec.xor_right_inj] at before
  exact word_injective mid mid' same small small' fits before

end ServerFramework.Library.Crc
