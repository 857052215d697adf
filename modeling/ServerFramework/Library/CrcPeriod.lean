import ServerFramework.Library.Crc
import Mathlib.Data.Nat.Prime.Basic
import Mathlib.Dynamics.PeriodicPts.Defs

namespace ServerFramework.Library.Crc

variable {w : Nat} (poly : BitVec w)

/-- The register that `i < w` steps take to the register with bit `w - 1 - i` alone. -/
def one : BitVec w := BitVec.twoPow w (w - 1)

def timesBits : Nat → BitVec w → BitVec w → BitVec w
  | 0, _, _ => 0#w
  | n + 1, a, b => (if b.msb then a else 0#w) ^^^ timesBits n (bitStep poly a) (b <<< 1)

def times (a b : BitVec w) : BitVec w := timesBits poly w a b

def powerWithin : Nat → Nat → BitVec w
  | 0, _ => one
  | fuel + 1, n =>
      let half := powerWithin fuel (n / 2)
      if n % 2 = 1 then bitStep poly (times poly half half) else times poly half half

/-! ## Linear maps that commute with a step -/

structure Commutes (f : BitVec w → BitVec w) : Prop where
  xor : ∀ x y, f (x ^^^ y) = f x ^^^ f y
  step : ∀ x, f (bitStep poly x) = bitStep poly (f x)

variable {poly}

theorem Commutes.zero {f : BitVec w → BitVec w} (linear : Commutes poly f) : f 0#w = 0#w := by
  have doubled := linear.xor 0#w 0#w
  rwa [BitVec.xor_self, BitVec.xor_self] at doubled

theorem commutes_id : Commutes poly fun x => x := ⟨fun _ _ => rfl, fun _ => rfl⟩

theorem Commutes.comp {f g : BitVec w → BitVec w} (outer : Commutes poly f) (inner : Commutes poly g) :
    Commutes poly fun x => f (g x) :=
  ⟨fun x y => by rw [inner.xor, outer.xor], fun x => by rw [inner.step, outer.step]⟩

theorem Commutes.add {f g : BitVec w → BitVec w} (left : Commutes poly f) (right : Commutes poly g) :
    Commutes poly fun x => f x ^^^ g x where
  xor x y := by
    rw [left.xor, right.xor]
    ac_rfl
  step x := by rw [left.step, right.step, bitStep_xor]

theorem commutes_bitStep : Commutes poly (bitStep poly) := ⟨bitStep_xor poly, fun _ => rfl⟩

theorem commutes_bitSteps (n : Nat) : Commutes poly (bitSteps poly n) where
  xor := bitSteps_xor poly n
  step x := by
    rw [← bitSteps_succ, Nat.add_comm]
    exact bitSteps_add poly 1 n x

theorem commutes_timesBits (n : Nat) (b : BitVec w) : Commutes poly fun a => timesBits poly n a b := by
  induction n generalizing b with
  | zero => exact ⟨fun _ _ => by simp [timesBits], fun _ => by simp [timesBits, bitStep]⟩
  | succ n ih =>
      have rest := (ih (b <<< 1)).comp commutes_bitStep
      cases top : b.msb with
      | false =>
          simpa [timesBits, top] using rest
      | true =>
          simpa [timesBits, top] using commutes_id.add rest

theorem Commutes.eq_timesBits {f : BitVec w → BitVec w} (linear : Commutes poly f) (n : Nat) (b : BitVec w)
    (clear : ∀ i, i + n < w → b.getLsbD i = false) : f b = timesBits poly n (f one) b := by
  induction n generalizing f b with
  | zero =>
      have zero : b = 0#w := BitVec.eq_of_getLsbD_eq fun i bound => by simp [clear i bound]
      rw [zero, linear.zero, timesBits]
  | succ n ih =>
      have lower : bitStep poly (b <<< 1) = (b <<< 1) >>> 1 := by
        rw [bitStep, BitVec.getLsbD_shiftLeft]
        simp
      have split : b = (if b.msb then one else 0#w) ^^^ bitStep poly (b <<< 1) := by
        rw [lower]
        apply BitVec.eq_of_getLsbD_eq
        intro i bound
        rw [BitVec.getLsbD_xor, BitVec.getLsbD_ushiftRight, BitVec.getLsbD_shiftLeft, BitVec.msb_eq_getLsbD_last]
        by_cases last : i = w - 1
        · subst last
          have outside : ¬ 1 + (w - 1) < w := by omega
          have positive : 0 < w := by omega
          cases b.getLsbD (w - 1) <;> simp [one, outside, positive]
        · have apart : w - 1 ≠ i := Ne.symm last
          cases b.getLsbD (w - 1) <;> simp [one, apart, show 1 + i < w by omega]
      have shifted : ∀ i, i + n < w → (b <<< 1).getLsbD i = false := by
        intro i bound
        rw [BitVec.getLsbD_shiftLeft]
        rcases i with _ | i
        · simp
        · simp [clear i (by omega)]
      have rest := ih (commutes_bitStep.comp linear) (b <<< 1) shifted
      have whole : f b = (if b.msb then f one else 0#w) ^^^ bitStep poly (f (b <<< 1)) := by
        conv => lhs; rw [split]
        rw [linear.xor, linear.step]
        split
        · rfl
        · rw [linear.zero]
      rw [whole, rest, timesBits]

theorem Commutes.eq_times {f : BitVec w → BitVec w} (linear : Commutes poly f) (b : BitVec w) :
    f b = times poly (f one) b :=
  linear.eq_timesBits w b fun i bound => absurd bound (by omega)

/-! ## Multiplication and powers -/

theorem commutes_times_left (b : BitVec w) : Commutes poly fun a => times poly a b := commutes_timesBits w b

theorem one_times (b : BitVec w) : times poly one b = b := (commutes_id.eq_times b).symm

theorem times_comm (a b : BitVec w) : times poly a b = times poly b a := by
  rw [(commutes_times_left b).eq_times a, one_times]

theorem commutes_times (a : BitVec w) : Commutes poly (times poly a) := by
  have swapped : times poly a = fun b => times poly b a := funext (times_comm a)
  rw [swapped]
  exact commutes_times_left a

theorem times_bitSteps_one (m n : Nat) :
    times poly (bitSteps poly m one) (bitSteps poly n one) = bitSteps poly (m + n) one := by
  rw [bitSteps_add, ← (commutes_bitSteps m).eq_times]

theorem powerWithin_eq (fuel n : Nat) (bound : n < 2 ^ fuel) : powerWithin poly fuel n = bitSteps poly n one := by
  induction fuel generalizing n with
  | zero =>
      rw [pow_zero, Nat.lt_one_iff] at bound
      rw [bound]
      rfl
  | succ fuel ih =>
      rw [powerWithin, ih (n / 2) (by omega)]
      simp only [times_bitSteps_one]
      split
      · rename_i odd
        have halves : n = 1 + (n / 2 + n / 2) := by omega
        conv => rhs; rw [halves, bitSteps_add]
        rfl
      · rename_i even
        have halves : n = n / 2 + n / 2 := by omega
        conv => rhs; rw [halves]

/-! ## Periods of the register -/

theorem bitSteps_of_power {n : Nat} (whole : bitSteps poly n one = one) (x : BitVec w) : bitSteps poly n x = x := by
  rw [(commutes_bitSteps n).eq_times, whole, one_times]

theorem zero_of_bitSteps_fixed {n : Nat} {inverse x : BitVec w}
    (inverts : times poly inverse (bitSteps poly n one ^^^ one) = one) (fixed : bitSteps poly n x = x) : x = 0#w := by
  have change : Commutes poly fun y => bitSteps poly n y ^^^ y := (commutes_bitSteps n).add commutes_id
  have undone := ((commutes_times inverse).comp change).eq_times x
  rw [inverts, one_times, fixed, BitVec.xor_self, (commutes_times inverse).zero] at undone
  exact undone.symm

theorem dvd_of_isPeriodicPt {α : Type*} {f : α → α} {x : α} {period : Nat}
    (whole : Function.IsPeriodicPt f period x)
    (least : ∀ p, p.Prime → p ∣ period → ¬ Function.IsPeriodicPt f (period / p) x) {m : Nat}
    (again : Function.IsPeriodicPt f m x) : period ∣ m := by
  have divides : Nat.gcd m period ∣ period := Nat.gcd_dvd_right m period
  by_cases proper : period / Nat.gcd m period = 1
  · rw [← Nat.eq_of_dvd_of_div_eq_one divides proper]
    exact Nat.gcd_dvd_left m period
  · obtain ⟨p, prime, ⟨cofactor, quotient⟩⟩ := Nat.exists_prime_and_dvd proper
    have factored : period = p * (Nat.gcd m period * cofactor) := by
      conv => lhs; rw [← Nat.div_mul_cancel divides, quotient]
      ac_rfl
    have part : period / p = Nat.gcd m period * cofactor := Nat.div_eq_of_eq_mul_right prime.pos factored
    refine absurd ?_ (least p prime ⟨_, factored⟩)
    rw [part]
    exact (again.gcd whole).trans_dvd (Nat.dvd_mul_right _ _)

theorem period_dvd {period : Nat} (whole : bitSteps poly period one = one)
    (inverses : ∀ p, p.Prime → p ∣ period →
      ∃ inverse, times poly inverse (bitSteps poly (period / p) one ^^^ one) = one)
    {x : BitVec w} (moved : x ≠ 0#w) {m : Nat} (again : bitSteps poly m x = x) : period ∣ m := by
  refine dvd_of_isPeriodicPt (f := bitStep poly) (bitSteps_of_power whole x) ?_ again
  intro p prime divides fixed
  obtain ⟨inverse, inverts⟩ := inverses p prime divides
  exact moved (zero_of_bitSteps_fixed inverts fixed)

end ServerFramework.Library.Crc
