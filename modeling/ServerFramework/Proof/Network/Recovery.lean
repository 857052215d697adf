import ServerFramework.Proof.Network.Corruption

namespace ServerFramework.Network
open Bytes Library

namespace Codec

structure BadLength (b : List UInt8) : Prop where
  size : b.length = headerSize
  range : lengthField b < headerSize ∨ lengthField b > maxPacketSize

structure BadChecksum (b : List UInt8) : Prop where
  framed : lengthField b = b.length
  header : headerSize ≤ b.length
  bounded : b.length ≤ maxPacketSize
  checksum : CRC32.calculate (b.drop 5) ≠ crcField b

def BadUnit (b : List UInt8) : Prop := BadLength b ∨ BadChecksum b

inductive Arrival
  | together
  | apart
  deriving DecidableEq

def Arrival.chunks (b v : List UInt8) : Arrival → List (List UInt8)
  | .together => [b ++ v]
  | .apart => [b, v]

/-- Some call returns the packet: one that brings a chunk, or a later one that brings no more bytes. -/
def Gives (codec : Codec) (chunks : List (List UInt8)) (pkt : Packet) : Prop :=
  ∃ k results last, decodeAll codec (chunks ++ List.replicate k []) = .ok (results, last) ∧ some pkt ∈ results

def Returns (chunks : List (List UInt8)) (v : List UInt8) : Prop := Gives {} chunks (packetOf v)

/-- The length field that is read one byte inside `b`. -/
def secondLength (b : List UInt8) : Nat := 256 * b.length + (b.getD 4 0).toNat

/-- A frame that begins one byte inside `b`, or two bytes inside with none before it, spells the packet of `v`. -/
def SpelledBefore (b v : List UInt8) : Prop :=
  FrameAt (b ++ v) 1 v.length (packetOf v) ∨
  (FrameAt (b ++ v) 2 v.length (packetOf v) ∧ secondLength b ≤ maxPacketSize ∧ ∀ len pkt, ¬ FrameAt (b ++ v) 1 len pkt)

/-! ## How far a call gets -/

theorem tryDecode_skip {buffer : List UInt8} (skips : examine buffer = .ok .skip) :
    tryDecode buffer = tryDecode (buffer.drop 1) := by
  cases buffer with
  | nil => cases skips
  | cons b rest =>
      rw [tryDecode, skips]
      rfl

theorem tryDecode_clear {buffer : List UInt8} (clears : examine buffer = .ok .clear) :
    tryDecode buffer = .ok (none, []) := by
  cases buffer with
  | nil => cases clears
  | cons b rest => rw [tryDecode, clears]

theorem skip_length {buffer : List UInt8} (skips : examine buffer = .ok .skip) :
    headerSize ≤ lengthField buffer ∧ lengthField buffer ≤ maxPacketSize ∧ lengthField buffer ≤ buffer.length := by
  by_cases enough : headerSize ≤ buffer.length
  · rw [examine_long enough] at skips
    split_ifs at skips with range missing checksum
    · cases skips
    · cases skips
    · omega
    · cases skips
  · rw [examine_short (Nat.lt_of_not_le enough)] at skips
    cases skips

theorem tryDecode_walk {s rest : List UInt8} {pkt : Packet} (call : tryDecode s = .ok (some pkt, rest)) :
    ∃ a len, (∀ i < a, examine (s.drop i) = .ok .skip) ∧ examine (s.drop a) = .ok (.emit pkt len) ∧
      rest = (s.drop a).drop len := by
  induction s with
  | nil => cases call
  | cons b tail ih =>
      obtain ⟨verdict, round⟩ := examine_total (b :: tail)
      rw [tryDecode, round] at call
      cases verdict with
      | wait => cases call
      | clear => cases call
      | emit other len =>
          cases call
          exact ⟨0, len, by simp, round, rfl⟩
      | skip =>
          obtain ⟨a, len, skipped, emits, rfl⟩ := ih call
          refine ⟨a + 1, len, ?_, emits, rfl⟩
          intro i before
          cases i with
          | zero => exact round
          | succ i => exact skipped i (Nat.lt_of_succ_lt_succ before)

/-- Each byte skipped multiplies the length read behind it, so a frame is reached within two skips of the start. -/
theorem walk_length {s : List UInt8} {a : Nat} (skipped : ∀ i < a, examine (s.drop i) = .ok .skip)
    (bounded : lengthField (s.drop a) ≤ maxPacketSize) (enough : a + 4 ≤ s.length) :
    256 ^ a * lengthField s ≤ lengthField (s.drop a) := by
  induction a with
  | zero => simp
  | succ a ih =>
      have skips := skip_length (skipped a (Nat.lt_succ_self a))
      have before := ih (fun i earlier => skipped i (Nat.lt_succ_of_lt earlier)) skips.2.1 (by omega)
      have step : s.drop a = s[a] :: s.drop (a + 1) := List.drop_eq_getElem_cons (by omega)
      rw [step] at skips
      have longer := lengthField_tail (by rw [List.length_drop]; omega) skips.2.1
      rw [← step] at longer
      calc 256 ^ (a + 1) * lengthField s = 256 * (256 ^ a * lengthField s) := by
            rw [Nat.pow_succ, Nat.mul_comm (256 ^ a), Nat.mul_assoc]
        _ ≤ 256 * lengthField (s.drop a) := Nat.mul_le_mul_left 256 before
        _ ≤ lengthField (s.drop (a + 1)) := by omega

theorem packetOf_length (v : List UInt8) : (packetOf v).data.length = v.length - headerSize := List.length_drop ..

/-- A packet found behind a bad frame begins one byte or two inside it and takes bytes of what follows it. -/
theorem walk_straddles {b v rest : List UInt8} {pkt : Packet} (framed : lengthField b = b.length)
    (header : headerSize ≤ b.length) (skips : examine (b ++ v) = .ok .skip)
    (call : tryDecode (b ++ v) = .ok (some pkt, rest)) :
    rest.length < v.length ∧ ∃ a len, (a = 1 ∨ a = 2) ∧ (∀ i < a, examine ((b ++ v).drop i) = .ok .skip) ∧
      FrameAt (b ++ v) a len pkt := by
  have size : headerSize = 15 := rfl
  have most : maxPacketSize = 10485760 := rfl
  obtain ⟨a, len, skipped, emits, rfl⟩ := tryDecode_walk call
  have frame := frameAt_of_emit emits
  have inside := frame.inside
  have bounded := frame.bounded
  have field : lengthField ((b ++ v).drop a) = len := frame.length_field
  have own : lengthField (b ++ v) = b.length := by
    rw [← framed, lengthField, lengthField, List.take_append_of_le_length (by omega)]
  rw [List.length_drop, List.length_append] at inside
  have large := frame.header
  have longer := walk_length skipped (field ▸ bounded) (by rw [List.length_append]; omega)
  rw [own, field] at longer
  have behind : 1 ≤ a := by
    rcases Nat.eq_zero_or_pos a with rfl | positive
    · rw [List.drop_zero, skips] at emits
      cases emits
    · exact positive
  have near : a < 3 := by
    by_contra far
    have power : 256 ^ 3 ≤ 256 ^ a := Nat.pow_le_pow_right (by decide) (Nat.le_of_not_lt far)
    have product := Nat.mul_le_mul power header
    omega
  have apart : 256 * b.length ≤ len := by
    have power : 256 ^ 1 ≤ 256 ^ a := Nat.pow_le_pow_right (by decide) behind
    exact Nat.le_trans (Nat.mul_le_mul_right b.length power) longer
  refine ⟨?_, a, len, by omega, skipped, frame.shift⟩
  rw [List.length_drop, List.length_drop, List.length_append]
  omega

/-! ## What later calls return -/

theorem decodeAll_cons (codec : Codec) (chunk : List UInt8) {last : Codec} {rest : List UInt8} {chunks : List (List UInt8)}
    {result : Option Packet} {results : List (Option Packet)}
    (call : tryDecode (codec.buffer ++ chunk) = .ok (result, rest)) :
    decodeAll codec (chunk :: chunks) = .ok (results, last) ↔
      ∃ later, results = result :: later ∧ decodeAll ⟨rest⟩ chunks = .ok (later, last) := by
  have split : decodeAll codec (chunk :: chunks) =
      (decodeAll ⟨rest⟩ chunks >>= fun outcome => .ok (result :: outcome.1, outcome.2)) := by
    rw [decodeAll, decode, call]
    rfl
  rw [split]
  cases behind : decodeAll ⟨rest⟩ chunks with
  | error fault =>
      constructor
      · intro run
        cases run
      · rintro ⟨later, -, run⟩
        cases run
  | ok outcome =>
      obtain ⟨later, final⟩ := outcome
      simp only [ok_bind, Except.ok.injEq, Prod.mk.injEq]
      constructor
      · rintro ⟨rfl, rfl⟩
        exact ⟨later, rfl, rfl, rfl⟩
      · rintro ⟨_, rfl, rfl, rfl⟩
        exact ⟨rfl, rfl⟩

theorem gives_cons (codec : Codec) (chunk : List UInt8) (chunks : List (List UInt8)) {rest : List UInt8}
    {result : Option Packet} {p : Packet} (call : tryDecode (codec.buffer ++ chunk) = .ok (result, rest)) :
    Gives codec (chunk :: chunks) p ↔ result = some p ∨ Gives ⟨rest⟩ chunks p := by
  constructor
  · rintro ⟨k, results, last, run, member⟩
    obtain ⟨later, rfl, behind⟩ := (decodeAll_cons codec chunk call).mp run
    rcases List.mem_cons.mp member with first | other
    · exact Or.inl first.symm
    · exact Or.inr ⟨k, later, last, behind, other⟩
  · rintro (first | ⟨k, later, last, behind, member⟩)
    · obtain ⟨later, last, -, behind, -⟩ := decodeAll_sound ⟨rest⟩ (chunks ++ List.replicate 0 [])
      refine ⟨0, result :: later, last, (decodeAll_cons codec chunk call).mpr ⟨later, rfl, behind⟩, ?_⟩
      rw [first]
      exact List.mem_cons_self
    · exact ⟨k, result :: later, last, (decodeAll_cons codec chunk call).mpr ⟨later, rfl, behind⟩,
        List.mem_cons_of_mem _ member⟩

theorem never_returned {p : Packet} (I : List UInt8 → Prop)
    (step : ∀ s, I s → ∃ result rest, tryDecode s = .ok (result, rest) ∧ result ≠ some p ∧ I rest)
    {s : List UInt8} (start : I s) : ¬ Gives ⟨s⟩ [] p := by
  rintro ⟨k, results, last, run, member⟩
  rw [List.nil_append] at run
  induction k generalizing s results with
  | zero =>
      cases run
      cases member
  | succ k ih =>
      obtain ⟨result, rest, call, other, kept⟩ := step s start
      obtain ⟨later, rfl, behind⟩ := (decodeAll_cons ⟨s⟩ [] (by rw [List.append_nil]; exact call)).mp run
      rcases List.mem_cons.mp member with first | among
      · exact other first.symm
      · exact ih kept later behind among

theorem tryDecode_kept {s kept : List UInt8} (call : tryDecode s = .ok (none, kept)) :
    tryDecode kept = .ok (none, kept) := by
  induction s with
  | nil =>
      cases call
      rfl
  | cons b tail ih =>
      have whole := call
      obtain ⟨verdict, round⟩ := examine_total (b :: tail)
      rw [tryDecode, round] at call
      cases verdict with
      | wait =>
          cases call
          exact whole
      | clear =>
          cases call
          rfl
      | emit pkt len => cases call
      | skip => exact ih call

theorem never_returned_kept {s kept : List UInt8} (call : tryDecode s = .ok (none, kept)) (p : Packet) :
    ¬ Gives ⟨kept⟩ [] p :=
  never_returned (fun s => tryDecode s = .ok (none, s)) (fun s waits => ⟨none, s, waits, by simp, waits⟩)
    (tryDecode_kept call)

theorem FrameAt.length_eq {s v : List UInt8} {a len : Nat} (valid : headerSize ≤ v.length)
    (frame : FrameAt s a len (packetOf v)) : len = v.length := by
  have inside := frame.inside
  have large := frame.header
  have data := congrArg List.length frame.data
  rw [packetOf_length, slice, List.length_take, List.length_drop] at data
  omega

theorem never_returned_short {s v : List UInt8} (valid : headerSize ≤ v.length) (short : s.length < v.length) :
    ¬ Gives ⟨s⟩ [] (packetOf v) := by
  refine never_returned (fun s => s.length < v.length) ?_ short
  intro s short
  obtain ⟨result, n, call, bound, found⟩ := tryDecode_sound s
  refine ⟨result, s.drop n, call, ?_, by rw [List.length_drop]; omega⟩
  rintro rfl
  obtain ⟨a, len, frame, -⟩ := found _ rfl
  have inside := frame.inside
  rw [frame.length_eq valid] at inside
  omega

theorem examine_frameAt {s : List UInt8} {a len : Nat} {pkt : Packet} (frame : FrameAt s a len pkt) :
    examine (s.drop a) = .ok (.emit pkt len) := by
  have inside := frame.inside
  have header := frame.header
  have size : headerSize = 15 := rfl
  have length : (slice s a len).length = len := by
    rw [slice, List.length_take, List.length_drop]
    omega
  have part {i n : Nat} (within : i + n ≤ len) : slice (slice s a len) i n = slice s (a + i) n := by
    rw [slice, slice, slice, List.drop_take, List.take_take, List.drop_drop, Nat.min_eq_left (by omega)]
  have behind (i : Nat) : (slice s a len).drop i = slice s (a + i) (len - i) := by
    rw [slice, slice, List.drop_take, List.drop_drop]
  have valid : ValidFrame (slice s a len) := by
    refine ⟨?_, ?_, ?_, ?_⟩
    · have field : (slice s a len).take 4 = slice s a 4 := by
        rw [slice, slice, List.take_take, Nat.min_eq_left (by omega)]
      rw [length, field, frame.length_field]
    · rw [length]
      exact header
    · rw [length]
      exact frame.bounded
    · rw [part (by omega), behind]
      exact frame.checksum
  have packet : packetOf (slice s a len) = pkt := by
    rw [packetOf, part (by omega), part (by omega), behind, ← frame.seq, ← frame.cmd, ← frame.data,
      UInt32.ofNat_toNat, UInt16.ofNat_toNat]
  have whole : s.drop a = slice s a len ++ (s.drop a).drop len := (List.take_append_drop len _).symm
  rw [whole, examine_frame valid, packet, length]

/-! ## Bad units -/

theorem BadChecksum.examine {b : List UInt8} (bad : BadChecksum b) (more : List UInt8) :
    Codec.examine (b ++ more) = .ok .skip := by
  have size : headerSize = 15 := rfl
  have header := bad.header
  have bounded := bad.bounded
  have field : lengthField (b ++ more) = b.length := by
    rw [← bad.framed, lengthField, lengthField, List.take_append_of_le_length (by omega)]
  have covered : ((b ++ more).drop 5).take (b.length - 5) = b.drop 5 := by
    rw [List.drop_append_of_le_length (by omega), List.take_left' (List.length_drop ..)]
  have crc : crcField (b ++ more) = crcField b := by
    have part : ((b ++ more).drop 5).take 4 = (b.drop 5).take 4 := slice_append more (by omega)
    rw [crcField, crcField, part]
  rw [examine_long (by rw [List.length_append]; omega), field, covered, crc, if_neg (by omega),
    if_neg (by rw [List.length_append]; omega), if_pos bad.checksum]

theorem BadLength.examine {b : List UInt8} (bad : BadLength b) (more : List UInt8) :
    Codec.examine (b ++ more) = .ok .clear := by
  have size : headerSize = 15 := rfl
  have length := bad.size
  have field : lengthField (b ++ more) = lengthField b := by
    rw [lengthField, lengthField, List.take_append_of_le_length (by omega)]
  rw [examine_long (by rw [List.length_append]; omega), field, if_pos bad.range]

theorem BadChecksum.tryDecode {b : List UInt8} (bad : BadChecksum b) (more : List UInt8) :
    Codec.tryDecode (b ++ more) = Codec.tryDecode (b.drop 1 ++ more) := by
  rw [tryDecode_skip (bad.examine more), List.drop_append_of_le_length (Nat.le_trans (by decide) bad.header)]

theorem BadChecksum.second {b : List UInt8} (bad : BadChecksum b) (v : List UInt8) :
    lengthField ((b ++ v).drop 1) = secondLength b := by
  have size : headerSize = 15 := rfl
  have framed := bad.framed
  have header := bad.header
  have bounded := bad.bounded
  cases b with
  | nil => cases header
  | cons first rest =>
      rw [List.length_cons] at framed header bounded
      have field : lengthField (first :: (rest ++ v)) = rest.length + 1 := by
        rw [← framed, lengthField, lengthField, ← List.cons_append, List.take_append_of_le_length (by
          rw [List.length_cons]; omega)]
      have fourth : (rest ++ v).getD 3 0 = rest.getD 3 0 := by
        rw [List.getD_eq_getElem?_getD, List.getD_eq_getElem?_getD, List.getElem?_append_left (by omega)]
      have behind := @lengthField_tail first (rest ++ v) (by rw [List.length_append]; omega) (by omega)
      rw [field, fourth] at behind
      exact behind

/-- With a frame for `v` two bytes inside, a second length in range leads there unless there is a frame before. -/
theorem second_skips {b v : List UInt8} (bad : BadChecksum b) (frame : FrameAt (b ++ v) 2 v.length (packetOf v))
    (range : secondLength b ≤ maxPacketSize) (none : ∀ len pkt, ¬ FrameAt (b ++ v) 1 len pkt) :
    examine ((b ++ v).drop 1) = .ok .skip := by
  have size : headerSize = 15 := rfl
  have header := bad.header
  have large := frame.header
  have second := bad.second v
  have behind : 256 * secondLength b ≤ v.length := by
    have longer : 1 < (b ++ v).length := by
      rw [List.length_append]
      omega
    have split := List.drop_eq_getElem_cons longer
    have third : lengthField ((b ++ v).drop 2) = v.length := frame.length_field
    rw [split] at second
    have behind := lengthField_tail (by rw [List.length_drop, List.length_append]; omega) (second ▸ range)
    rw [second, third] at behind
    omega
  have enough : headerSize ≤ ((b ++ v).drop 1).length := by
    rw [List.length_drop, List.length_append]
    omega
  have round := examine_long enough
  rw [second] at round
  have least : 15 ≤ secondLength b := by
    rw [secondLength]
    omega
  rw [if_neg (by omega), if_neg (by rw [List.length_drop, List.length_append]; omega)] at round
  split_ifs at round with mismatch
  · exact round
  · exact absurd (frameAt_of_emit round).shift (none _ _)

theorem spelled_iff {b v rest : List UInt8} {result : Option Packet} (bad : BadChecksum b) (valid : ValidFrame v)
    (call : tryDecode (b ++ v) = .ok (result, rest)) : result = some (packetOf v) ↔ SpelledBefore b v := by
  constructor
  · rintro rfl
    obtain ⟨-, a, len, near, skipped, frame⟩ := walk_straddles bad.framed bad.header (bad.examine v) call
    obtain rfl := frame.length_eq valid.header
    rcases near with rfl | rfl
    · exact Or.inl frame
    · have skips := skipped 1 (by decide)
      have range := (skip_length skips).2.1
      rw [bad.second v] at range
      refine Or.inr ⟨frame, range, ?_⟩
      intro len pkt other
      rw [examine_frameAt other] at skips
      cases skips
  · have first : tryDecode (b ++ v) = tryDecode ((b ++ v).drop 1) := tryDecode_skip (bad.examine v)
    rintro (frame | ⟨frame, range, none⟩)
    · rw [first, tryDecode_emit (examine_frameAt frame)] at call
      cases call
      rfl
    · have second := tryDecode_skip (second_skips bad frame range none)
      rw [List.drop_drop] at second
      rw [first, second, tryDecode_emit (examine_frameAt frame)] at call
      cases call
      rfl

theorem gives_behind {b v chunk : List UInt8} {codec : Codec} (bad : BadChecksum b) (valid : ValidFrame v)
    (same : tryDecode (codec.buffer ++ chunk) = tryDecode (b ++ v)) :
    Gives codec [chunk] (packetOf v) ↔ SpelledBefore b v := by
  obtain ⟨result, n, call, -⟩ := tryDecode_sound (b ++ v)
  have later : ¬ Gives ⟨(b ++ v).drop n⟩ [] (packetOf v) := by
    cases result with
    | none => exact never_returned_kept call _
    | some pkt =>
        have short := (walk_straddles bad.framed bad.header (bad.examine v) call).1
        exact never_returned_short valid.header short
  rw [gives_cons codec chunk [] (same.trans call), ← spelled_iff bad valid call]
  simp [later]

theorem BadLength.tryDecode {b : List UInt8} (bad : BadLength b) (more : List UInt8) :
    Codec.tryDecode (b ++ more) = .ok (none, []) := tryDecode_clear (bad.examine more)

theorem together_returns_iff {b v : List UInt8} (bad : BadUnit b) (valid : ValidFrame v) :
    Returns [b ++ v] v ↔ lengthField b = b.length ∧ SpelledBefore b v := by
  rcases bad with length | checksum
  · have lost : ¬ Returns [b ++ v] v := by
      rw [Returns, gives_cons {} (b ++ v) [] (length.tryDecode v)]
      simpa using never_returned_kept (length.tryDecode v) (packetOf v)
    have range := length.range
    have size := length.size
    have large : headerSize < maxPacketSize := by decide
    constructor
    · exact fun returned => absurd returned lost
    · rintro ⟨framed, -⟩
      omega
  · have behind : Returns [b ++ v] v ↔ SpelledBefore b v := gives_behind checksum valid rfl
    rw [behind, and_iff_right checksum.framed]

theorem tryDecode_bad {b : List UInt8} (bad : BadUnit b) :
    tryDecode b = .ok (none,
      if lengthField b < headerSize ∨ lengthField b > maxPacketSize ∨ maxPacketSize < secondLength b then []
      else b.drop 1) := by
  have size : headerSize = 15 := rfl
  have most : maxPacketSize = 10485760 := rfl
  rcases bad with length | checksum
  · have cleared := length.tryDecode []
    have range := length.range
    rw [List.append_nil] at cleared
    rw [if_pos (by omega), cleared]
  · have framed := checksum.framed
    have header := checksum.header
    have bounded := checksum.bounded
    have first := checksum.tryDecode []
    have second := checksum.second []
    rw [List.append_nil] at first second
    rw [List.append_nil] at first
    have least : 256 * b.length ≤ secondLength b := Nat.le_add_right ..
    have small : secondLength b < 256 * b.length + 256 := Nat.add_lt_add_left (b.getD 4 0).toNat_lt _
    have shorter : (b.drop 1).length = b.length - 1 := List.length_drop ..
    rw [first]
    by_cases range : maxPacketSize < secondLength b
    · have round := examine_long (show headerSize ≤ (b.drop 1).length by omega)
      rw [second, if_pos (Or.inr range)] at round
      rw [if_pos (by omega), tryDecode_clear round]
    · rw [if_neg (by omega)]
      apply tryDecode_wait
      by_cases enough : headerSize ≤ (b.drop 1).length
      · rw [examine_long enough, second, if_neg (by omega), if_pos (by omega)]
      · exact examine_short (Nat.lt_of_not_le enough)

theorem apart_returns_iff {b v : List UInt8} (bad : BadUnit b) (valid : ValidFrame v) :
    Returns [b, v] v ↔
      (lengthField b < headerSize ∨ lengthField b > maxPacketSize ∨ maxPacketSize < secondLength b) ∨
      (lengthField b = b.length ∧ SpelledBefore b v) := by
  have call := tryDecode_bad bad
  rw [Returns, gives_cons {} b [v] call]
  by_cases cleared : lengthField b < headerSize ∨ lengthField b > maxPacketSize ∨ maxPacketSize < secondLength b
  · have frame := examine_frame valid []
    rw [List.append_nil] at frame
    rw [if_pos cleared, gives_cons ⟨[]⟩ v [] (tryDecode_emit frame)]
    simp [cleared]
  · rw [if_neg cleared]
    rcases bad with length | checksum
    · have range := length.range
      omega
    · have behind := gives_behind checksum valid (checksum.tryDecode v).symm
      have never : ¬ none = some (packetOf v) := by simp
      rw [behind, or_iff_right never, or_iff_right cleared, and_iff_right checksum.framed]

theorem returns_iff {b v : List UInt8} (bad : BadUnit b) (valid : ValidFrame v) (arrival : Arrival) :
    Returns (arrival.chunks b v) v ↔
      (arrival = .apart ∧
        (lengthField b < headerSize ∨ lengthField b > maxPacketSize ∨ maxPacketSize < secondLength b)) ∨
      (lengthField b = b.length ∧ SpelledBefore b v) := by
  cases arrival with
  | together =>
      rw [Arrival.chunks, together_returns_iff bad valid]
      simp
  | apart =>
      rw [Arrival.chunks, apart_returns_iff bad valid]
      simp

-- a frame whose only fault is its checksum
def broken : List UInt8 := [0, 0, 0, 15, 1, 0, 0, 0, 0, 0, 0, 0, 7, 0, 3]

theorem broken_bad : BadUnit broken := Or.inr ⟨by decide, by decide, by decide, by decide +kernel⟩

theorem broken_unspelled : ¬ SpelledBefore broken survivor := by
  rintro (frame | ⟨frame, -⟩)
  · exact absurd frame.length_field (by decide +kernel)
  · exact absurd frame.length_field (by decide +kernel)

def overlong : List UInt8 := List.replicate 15 255

theorem overlong_bad : BadUnit overlong := Or.inl ⟨by decide, by decide⟩

theorem returns_survivor :
    BadUnit overlong ∧ ValidFrame survivor ∧ Returns (Arrival.apart.chunks overlong survivor) survivor ∧
    ¬ Returns (Arrival.together.chunks overlong survivor) survivor := by
  refine ⟨overlong_bad, survivor_valid, ?_, ?_⟩
  · exact (returns_iff overlong_bad survivor_valid .apart).mpr (Or.inl ⟨rfl, by decide⟩)
  · intro returned
    rcases (returns_iff overlong_bad survivor_valid .together).mp returned with ⟨apart, -⟩ | ⟨framed, -⟩
    · cases apart
    · exact absurd framed (by decide)

theorem broken_loses_survivor :
    BadUnit broken ∧ ValidFrame survivor ∧
    ¬ Returns (Arrival.together.chunks broken survivor) survivor ∧
    ¬ Returns (Arrival.apart.chunks broken survivor) survivor := by
  refine ⟨broken_bad, survivor_valid, ?_, ?_⟩
  · rw [Arrival.chunks, together_returns_iff broken_bad survivor_valid]
    exact fun returned => broken_unspelled returned.2
  · rw [Arrival.chunks, apart_returns_iff broken_bad survivor_valid]
    rintro (cleared | returned)
    · exact absurd cleared (by decide)
    · exact broken_unspelled returned.2

end Codec

end ServerFramework.Network
