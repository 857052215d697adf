import ServerFramework.Library.CrcPeriod
import ServerFramework.Proof.Network.Crc32
import ServerFramework.Proof.Network.Streaming
import Mathlib.Tactic.NormNum.Prime

namespace ServerFramework.Network
open Bytes Library Library.Crc

/-! ## The period of the checksum register -/

namespace CRC32

theorem prime_dvd_period {p : Nat} (prime : p.Prime) (divides : p ∣ 2 ^ 32 - 1) :
    p = 3 ∨ p = 5 ∨ p = 17 ∨ p = 257 ∨ p = 65537 := by
  have factored : 2 ^ 32 - 1 = 3 * (5 * (17 * (257 * 65537))) := by norm_num
  rw [factored] at divides
  rcases prime.dvd_mul.mp divides with three | divides
  · exact Or.inl ((Nat.prime_dvd_prime_iff_eq prime (by norm_num)).mp three)
  rcases prime.dvd_mul.mp divides with five | divides
  · exact Or.inr (Or.inl ((Nat.prime_dvd_prime_iff_eq prime (by norm_num)).mp five))
  rcases prime.dvd_mul.mp divides with seventeen | divides
  · exact Or.inr (Or.inr (Or.inl ((Nat.prime_dvd_prime_iff_eq prime (by norm_num)).mp seventeen)))
  rcases prime.dvd_mul.mp divides with small | large
  · exact Or.inr (Or.inr (Or.inr (Or.inl ((Nat.prime_dvd_prime_iff_eq prime (by norm_num)).mp small))))
  · exact Or.inr (Or.inr (Or.inr (Or.inr ((Nat.prime_dvd_prime_iff_eq prime (by norm_num)).mp large))))

/-- What undoes the change of the steps of `(2 ^ 32 - 1) / p`, for each prime `p` dividing the period. -/
def inverseOf : Nat → BitVec 32
  | 3 => 0xC736EB52#32
  | 5 => 0x3D436701#32
  | 17 => 0xE1A0922E#32
  | 257 => 0x3C1C66B1#32
  | _ => 0xD4E6C8CA#32

theorem inverseOf_inverts {p : Nat} (prime : p.Prime) (divides : p ∣ 2 ^ 32 - 1) :
    times poly (inverseOf p) (bitSteps poly ((2 ^ 32 - 1) / p) one ^^^ one) = one := by
  rw [← powerWithin_eq 32 _ (Nat.lt_of_le_of_lt (Nat.div_le_self _ _) (by decide))]
  rcases prime_dvd_period prime divides with rfl | rfl | rfl | rfl | rfl <;> decide +kernel

/-- The polynomial is primitive: no nonzero register comes back within fewer than `2 ^ 32 - 1` steps. -/
theorem period_dvd {x : BitVec 32} (moved : x ≠ 0#32) {m : Nat} (again : bitSteps poly m x = x) : 2 ^ 32 - 1 ∣ m := by
  have whole : bitSteps poly (2 ^ 32 - 1) one = one := by
    rw [← powerWithin_eq 32 _ (by decide)]
    decide +kernel
  exact Crc.period_dvd whole (fun p prime divides => ⟨inverseOf p, inverseOf_inverts prime divides⟩) moved again

/-! ## One changed byte -/

theorem calculate_change (pre post : List UInt8) (d y : UInt8) :
    (calculate (pre ++ d :: post)).toBitVec ^^^ (calculate (pre ++ y :: post)).toBitVec =
      bitSteps poly (8 * (post.length + 1)) (widen d ^^^ widen y) := by
  have cancelled : ∀ a b c : BitVec 32, a ^^^ c ^^^ (b ^^^ c) = a ^^^ b := by
    intro a b c
    rw [show a ^^^ c ^^^ (b ^^^ c) = a ^^^ b ^^^ (c ^^^ c) by ac_rfl, BitVec.xor_self, BitVec.xor_zero]
  rw [calculate, calculate, UInt32.toBitVec_xor, UInt32.toBitVec_xor, cancelled, foldl_update_toBitVec,
    foldl_update_toBitVec, List.map_append, List.map_append, List.map_cons, List.map_cons, feed_change,
    List.length_map]

theorem ntohl_toBitVec {bytes : List UInt8} (four : bytes.length = 4) :
    (ByteOrder.ntohl (load32 bytes)).toBitVec = word (bytes.reverse.map widen) := by
  match bytes, four with
  | [a, b, c, d], _ =>
      rw [byteOrder_ntohl, ntohl_load32, ← word_le32, le32_load32]
      rfl

theorem ntohl_change {pre post : List UInt8} (d y : UInt8) (four : (pre ++ d :: post).length = 4) :
    (ByteOrder.ntohl (load32 (pre ++ d :: post))).toBitVec ^^^ (ByteOrder.ntohl (load32 (pre ++ y :: post))).toBitVec =
      (widen d ^^^ widen y) <<< (8 * post.length) := by
  have four' : (pre ++ y :: post).length = 4 := by
    rw [← four]
    simp
  rw [ntohl_toBitVec four, ntohl_toBitVec four', List.reverse_append, List.reverse_append, List.reverse_cons,
    List.reverse_cons, List.append_assoc, List.append_assoc, List.singleton_append, List.singleton_append,
    List.map_append, List.map_append, List.map_cons, List.map_cons, word_change, List.length_map, List.length_reverse]

theorem widen_change_ne {d y : UInt8} (changed : d ≠ y) : widen d ^^^ widen y ≠ 0#32 :=
  fun zero => changed (widen_injective (BitVec.xor_eq_zero_iff.mp zero))

theorem widen_change_small (d y : UInt8) (i : Nat) (high : i ≥ 8) : (widen d ^^^ widen y).getLsbD i = false := by
  rw [BitVec.getLsbD_xor, widen_small d i high, widen_small y i high, Bool.xor_false]

theorem bitSteps_shiftLeft {x : BitVec 32} (small : ∀ i ≥ 8, x.getLsbD i = false) {n : Nat} (fits : n + 8 ≤ 32) :
    bitSteps poly n (x <<< n) = x := by
  rw [bitSteps_of_clear poly n _ (by intro i bound; simp [bound])]
  apply BitVec.eq_of_getLsbD_eq
  intro i bound
  rw [BitVec.getLsbD_ushiftRight, BitVec.getLsbD_shiftLeft]
  by_cases inside : n + i < 32
  · simp [inside]
  · simp [inside, small i (by omega)]

/-- The checksum of bytes that begin with it, as a header's does, always notices one changed byte. -/
theorem own_checksum_change {pre post : List UInt8} {d y : UInt8} (changed : d ≠ y) (header : 4 ≤ (pre ++ d :: post).length)
    (bounded : (pre ++ d :: post).length ≤ maxPacketSize)
    (kept : calculate (pre ++ d :: post) = ByteOrder.ntohl (load32 ((pre ++ d :: post).take 4))) :
    calculate (pre ++ y :: post) ≠ ByteOrder.ntohl (load32 ((pre ++ y :: post).take 4)) := by
  intro kept'
  have size : maxPacketSize = 10485760 := rfl
  have difference := calculate_change pre post d y
  rw [kept, kept'] at difference
  rw [List.length_append, List.length_cons] at header bounded
  have moved := widen_change_ne changed
  by_cases covered : 4 ≤ pre.length
  · rw [List.take_append_of_le_length covered, List.take_append_of_le_length covered, BitVec.xor_self] at difference
    have zero := (bitSteps_eq_iff poly_msb _ _ _).mp difference.symm
    rw [← (bitSteps_eq_iff poly_msb _ _ _).mp (commutes_bitSteps _).zero] at zero
    exact moved zero
  · let room := 4 - pre.length - 1
    have first : ∀ z, (pre ++ z :: post).take 4 = pre ++ z :: post.take room := by
      intro z
      rw [List.take_append, List.take_of_length_le (by omega), show 4 - pre.length = room + 1 by omega, List.take_succ_cons]
    have filled : (post.take room).length = room := List.length_take_of_le (by omega)
    rw [first, first, ntohl_change d y (by simp [filled]; omega), filled] at difference
    have back := bitSteps_shiftLeft (widen_change_small d y) (show 8 * room + 8 ≤ 32 by omega)
    have again : bitSteps poly (8 * (post.length + 1) + 8 * room) ((widen d ^^^ widen y) <<< (8 * room)) =
        (widen d ^^^ widen y) <<< (8 * room) := by
      rw [bitSteps_add, back, ← difference]
    have kept : (widen d ^^^ widen y) <<< (8 * room) ≠ 0#32 := by
      intro zero
      rw [zero, (commutes_bitSteps _).zero] at back
      exact moved back.symm
    have divides := Nat.le_of_dvd (by omega) (period_dvd kept again)
    omega

end CRC32

/-! ## Frames accepted as a whole -/

namespace Codec

def AcceptsWhole (frame : List UInt8) : Prop := ∃ pkt, decode {} frame = .ok (some pkt, {})

theorem decode_whole_iff {frame : List UInt8} {pkt : Packet} :
    decode {} frame = .ok (some pkt, {}) ↔ tryDecode frame = .ok (some pkt, []) := by
  rw [decode, List.nil_append]
  constructor
  · intro returned
    cases call : tryDecode frame with
    | error fault =>
        rw [call] at returned
        cases returned
    | ok outcome =>
        rw [call, ok_bind] at returned
        obtain ⟨result, buffer⟩ := outcome
        simp only [pure, Except.pure, Except.ok.injEq, Prod.mk.injEq, Codec.mk.injEq] at returned
        rw [returned.1, returned.2]
  · intro call
    rw [call]
    rfl

theorem lengthField_cons (a b c d : UInt8) (rest : List UInt8) :
    lengthField (a :: b :: c :: d :: rest) = ((a.toNat * 256 + b.toNat) * 256 + c.toNat) * 256 + d.toNat := by
  change bigEndian [a, b, c, d] = _
  simp only [bigEndian, List.foldl_cons, List.foldl_nil]
  omega

theorem lengthField_tail {b : UInt8} {rest : List UInt8} (enough : 4 ≤ rest.length)
    (bounded : lengthField (b :: rest) ≤ maxPacketSize) :
    lengthField rest = 256 * lengthField (b :: rest) + (rest.getD 3 0).toNat := by
  have size : maxPacketSize = 10485760 := rfl
  obtain ⟨c, d, e, g, more, rfl⟩ : ∃ c d e g more, rest = c :: d :: e :: g :: more := by
    clear bounded
    match rest, enough with
    | c :: d :: e :: g :: more, _ => exact ⟨c, d, e, g, more, rfl⟩
  rw [lengthField_cons] at bounded ⊢
  rw [lengthField_cons]
  simp only [List.getD_cons_succ, List.getD_cons_zero]
  omega

theorem examine_overlong {buffer : List UInt8} (long : buffer.length < lengthField buffer) :
    examine buffer = .ok .wait ∨ examine buffer = .ok .clear := by
  by_cases enough : headerSize ≤ buffer.length
  · rw [examine_long enough]
    split_ifs
    · exact Or.inr rfl
    · exact Or.inl rfl
  · exact Or.inl (examine_short (Nat.lt_of_not_le enough))

theorem tryDecode_overlong {buffer : List UInt8} (long : buffer.length < lengthField buffer) :
    ∃ kept, tryDecode buffer = .ok (none, kept) := by
  cases buffer with
  | nil => exact ⟨[], rfl⟩
  | cons b rest =>
      rcases examine_overlong long with round | round
      · exact ⟨b :: rest, by rw [tryDecode, round]⟩
      · exact ⟨[], by rw [tryDecode, round]⟩

theorem tryDecode_behind {b : UInt8} {rest : List UInt8} (framed : lengthField (b :: rest) = (b :: rest).length)
    (header : headerSize ≤ (b :: rest).length) (bounded : (b :: rest).length ≤ maxPacketSize) :
    ∃ kept, tryDecode rest = .ok (none, kept) := by
  have size : headerSize = 15 := rfl
  rw [List.length_cons] at header
  have longer := lengthField_tail (by omega) (framed ▸ bounded)
  rw [framed, List.length_cons] at longer
  exact tryDecode_overlong (by omega)

theorem acceptsWhole_iff {frame : List UInt8} (framed : lengthField frame = frame.length) :
    AcceptsWhole frame ↔ headerSize ≤ frame.length ∧ frame.length ≤ maxPacketSize ∧
      CRC32.calculate (frame.drop 5) = crcField frame := by
  unfold AcceptsWhole
  simp only [decode_whole_iff]
  by_cases enough : headerSize ≤ frame.length
  · have round := examine_long enough
    rw [framed, List.take_of_length_le (by rw [List.length_drop])] at round
    cases frame with
    | nil => cases enough
    | cons b rest =>
        split_ifs at round with range missing checksum
        · have bounded : ¬ (b :: rest).length ≤ maxPacketSize := by omega
          simp [tryDecode, round, bounded, -List.length_cons]
        · exact absurd missing (Nat.lt_irrefl _)
        · obtain ⟨kept, call⟩ := tryDecode_behind framed enough (by omega)
          simp [tryDecode, round, call, checksum, -List.drop_succ_cons]
        · rw [not_or, Nat.not_lt, Nat.not_lt] at range
          simp [tryDecode, round, enough, range.2, not_not.mp checksum, -List.length_cons, -List.drop_succ_cons]
  · have call := tryDecode_wait (examine_short (Nat.lt_of_not_le enough))
    simp [call, enough]

theorem changed_byte_detected_iff {frame : List UInt8} (framed : lengthField frame = frame.length)
    (accepted : AcceptsWhole frame) {i : Nat} (behind : 4 ≤ i) (inside : i < frame.length) {x : UInt8}
    (changed : frame[i] ≠ x) : ¬ AcceptsWhole (frame.set i x) ↔ i ≠ 4 := by
  have framed' : lengthField (frame.set i x) = (frame.set i x).length := by
    rw [lengthField, List.take_set_of_le behind, List.length_set]
    exact framed
  obtain ⟨header, bounded, checksum⟩ := (acceptsWhole_iff framed).mp accepted
  have size : headerSize = 15 := rfl
  rw [acceptsWhole_iff framed', List.length_set]
  by_cases version : i = 4
  · have same : (frame.set i x).drop 5 = frame.drop 5 := List.drop_set_of_lt (by omega)
    rw [crcField, same]
    exact ⟨fun rejected => absurd ⟨header, bounded, checksum⟩ rejected, fun other => absurd version other⟩
  · have position : i - 5 < (frame.drop 5).length := by
      rw [List.length_drop]
      omega
    have split : frame.drop 5 = (frame.drop 5).take (i - 5) ++ frame[i] :: (frame.drop 5).drop (i - 5 + 1) := by
      conv => lhs; rw [← List.take_append_drop (i - 5) (frame.drop 5), List.drop_eq_getElem_cons position]
      rw [List.getElem_drop]
      simp only [show 5 + (i - 5) = i by omega]
    have split' : (frame.set i x).drop 5 = (frame.drop 5).take (i - 5) ++ x :: (frame.drop 5).drop (i - 5 + 1) := by
      rw [List.drop_set, if_neg (by omega), List.set_eq_take_append_cons_drop, if_pos position]
    rw [crcField, split] at checksum
    have length := congrArg List.length split
    rw [List.length_drop] at length
    have detected := CRC32.own_checksum_change changed (by omega) (by omega) checksum
    rw [crcField, split']
    exact ⟨fun _ => version, fun _ whole => detected whole.2.2⟩

theorem survivor_accepted : AcceptsWhole survivor := ⟨⟨123, 4, [61, 228, 144, 50]⟩, by decide +kernel⟩

theorem changed_byte_detected_survivor :
    lengthField survivor = survivor.length ∧ AcceptsWhole survivor ∧ ¬ AcceptsWhole (survivor.set 6 255) := by
  have framed : lengthField survivor = survivor.length := by decide +kernel
  have inside : 6 < survivor.length := by decide +kernel
  have changed : ∀ inside : 6 < survivor.length, survivor[6] ≠ 255 := by decide +kernel
  have detected := changed_byte_detected_iff framed survivor_accepted (by decide) inside (changed inside)
  exact ⟨framed, survivor_accepted, detected.mpr (by decide)⟩

theorem changed_version_accepted :
    lengthField survivor = survivor.length ∧ AcceptsWhole survivor ∧
    survivor[4]? ≠ some 2 ∧ AcceptsWhole (survivor.set 4 2) :=
  ⟨by decide +kernel, survivor_accepted, by decide +kernel, ⟨⟨123, 4, [61, 228, 144, 50]⟩, by decide +kernel⟩⟩

end Codec

end ServerFramework.Network
