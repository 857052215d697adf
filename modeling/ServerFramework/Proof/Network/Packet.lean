import ServerFramework.Network.Packet
import ServerFramework.Library.Framing

namespace ServerFramework.Protocol
open Bytes

theorem encode_eq (pkt : Packet) :
    encode pkt = be32 (.ofNat (6 + pkt.data.length)) ++ (be16 pkt.cmd ++ pkt.data) := by
  simp only [encode, le32_htonl, le16_htons, List.append_assoc]

@[simp] theorem encode_length (pkt : Packet) : (encode pkt).length = 6 + pkt.data.length := by
  simp only [encode_eq, List.length_append, be32_length, be16_length]
  omega

theorem lengthField_encode (pkt : Packet) (rest : List UInt8)
    (small : (encode pkt).length < 2 ^ 32) :
    (lengthField (encode pkt ++ rest)).toNat = (encode pkt).length := by
  have front : (encode pkt ++ rest).take 4 = be32 (.ofNat (6 + pkt.data.length)) := by
    rw [encode_eq, List.append_assoc, List.take_left' (be32_length _)]
  rw [encode_length] at small ⊢
  rw [lengthField, front, ntohl_load32_be32, UInt32.toNat_ofNat_of_lt' small]

theorem lengthField_append {data : List UInt8} (more : List UInt8) (enough : 4 ≤ data.length) :
    lengthField (data ++ more) = lengthField data := by
  rw [lengthField, lengthField, List.take_append_of_le_length enough]

theorem be32_lengthField {data : List UInt8} (enough : 4 ≤ data.length) :
    be32 (lengthField data) = data.take 4 := by
  rw [lengthField, be32_ntohl_load32 (List.length_take_of_le enough)]

theorem peekPacketLength_eq {data : List UInt8} (enough : 4 ≤ data.length) :
    peekPacketLength data = .ok (lengthField data) := by
  have inside : 0 + 4 ≤ data.length := by omega
  rw [peekPacketLength, if_neg (Nat.not_lt.mpr enough), memcpy_inside inside, lengthField]
  rfl

/-! ## What `decode_from` does on each buffer -/

theorem decodeFrom_short {data : List UInt8} (short : data.length < 4) :
    decodeFrom data = .ok none := by
  simp [decodeFrom, short, pure, Except.pure]

theorem decodeFrom_of_peek {data : List UInt8} (enough : 4 ≤ data.length) {totalLen : UInt32}
    (peek : peekPacketLength data = .ok totalLen) :
    decodeFrom data =
      if totalLen = 0 then .ok none
      else if data.length < totalLen.toNat then .ok none
      else do
        let cmdBe ← memcpy data 4 2
        let body ← assignData data (totalLen - 6).toNat
        return some (⟨ntohs (load16 cmdBe), body⟩, totalLen.toNat) := by
  rw [decodeFrom, if_neg (Nat.not_lt.mpr enough), peek]
  rfl

theorem decodeFrom_zero {data : List UInt8} (enough : 4 ≤ data.length)
    (zero : lengthField data = 0) : decodeFrom data = .ok none := by
  rw [decodeFrom_of_peek enough (peekPacketLength_eq enough), if_pos zero]

theorem decodeFrom_wait {data : List UInt8} (enough : 4 ≤ data.length)
    (missing : data.length < (lengthField data).toNat) : decodeFrom data = .ok none := by
  rw [decodeFrom_of_peek enough (peekPacketLength_eq enough), if_pos missing, ite_self]

theorem sub_six_toNat {v : UInt32} (six : 6 ≤ v.toNat) : (v - 6).toNat = v.toNat - 6 :=
  UInt32.toNat_sub_of_le v 6 (UInt32.le_iff_toNat_le.mpr six)

theorem sub_six_wrapped {v : UInt32} (small : v.toNat < 6) : (v - 6).toNat = 2 ^ 32 + v.toNat - 6 := by
  have six : (6 : UInt32).toNat = 6 := by decide
  rw [UInt32.toNat_sub, six]
  omega

theorem assignData_inside {data : List UInt8} {n : Nat} (inside : 6 + n ≤ data.length) :
    assignData data n = .ok ((data.drop 6).take n) := by
  rw [assignData, memcpy_inside inside]
  split
  · rfl
  · rename_i empty
    rw [Nat.eq_zero_of_not_pos empty, List.take_zero]

theorem decodeFrom_inside {data : List UInt8} (enough : 4 + 2 ≤ data.length)
    (positive : lengthField data ≠ 0) (whole : (lengthField data).toNat ≤ data.length)
    (inside : 6 + (lengthField data - 6).toNat ≤ data.length) :
    decodeFrom data = .ok (some (⟨ntohs (load16 ((data.drop 4).take 2)),
      (data.drop 6).take (lengthField data - 6).toNat⟩, (lengthField data).toNat)) := by
  have peek := peekPacketLength_eq (Nat.le_trans (by decide) enough)
  rw [decodeFrom_of_peek (Nat.le_trans (by decide) enough) peek, if_neg positive,
    if_neg (Nat.not_lt.mpr whole), memcpy_inside enough, assignData_inside inside]
  rfl

theorem decodeFrom_frame {data : List UInt8} (six : 6 ≤ (lengthField data).toNat)
    (whole : (lengthField data).toNat ≤ data.length) :
    decodeFrom data = .ok (some (⟨ntohs (load16 ((data.drop 4).take 2)),
      (data.drop 6).take ((lengthField data).toNat - 6)⟩, (lengthField data).toNat)) := by
  have positive : lengthField data ≠ 0 := fun zero => by simp [zero] at six
  have inside : 6 + (lengthField data - 6).toNat ≤ data.length := by
    rw [sub_six_toNat six]
    omega
  rw [decodeFrom_inside (by omega) positive whole inside, sub_six_toNat six]

theorem decodeFrom_outside {data : List UInt8} (enough : 4 ≤ data.length)
    (positive : lengthField data ≠ 0) (small : (lengthField data).toNat < 6)
    (whole : (lengthField data).toNat ≤ data.length)
    (outside : ¬ (4 + 2 ≤ data.length ∧ 6 + (lengthField data - 6).toNat ≤ data.length)) :
    decodeFrom data = .error .outOfBounds := by
  rw [decodeFrom_of_peek enough (peekPacketLength_eq enough), if_neg positive, if_neg (Nat.not_lt.mpr whole)]
  by_cases cmdInside : 4 + 2 ≤ data.length
  · rw [memcpy_inside cmdInside, assignData, if_pos (by rw [sub_six_wrapped small]; omega),
      memcpy_outside fun bodyInside => outside ⟨cmdInside, bodyInside⟩]
    rfl
  · rw [memcpy_outside cmdInside]
    rfl

-- `total_len - 6` wraps, so the copy runs out of any buffer of less than four gigabytes.
theorem decodeFrom_wrapped {data : List UInt8} (enough : 4 ≤ data.length)
    (positive : lengthField data ≠ 0) (small : (lengthField data).toNat < 6)
    (whole : (lengthField data).toNat ≤ data.length) :
    decodeFrom data = .error .outOfBounds ∨
      ∃ pkt, decodeFrom data = .ok (some (pkt, (lengthField data).toNat)) := by
  by_cases inside : 4 + 2 ≤ data.length ∧ 6 + (lengthField data - 6).toNat ≤ data.length
  · exact Or.inr ⟨_, decodeFrom_inside inside.1 positive whole inside.2⟩
  · exact Or.inl (decodeFrom_outside enough positive small whole inside)

theorem take_eq_encode {data : List UInt8} (six : 6 ≤ (lengthField data).toNat)
    (whole : (lengthField data).toNat ≤ data.length) :
    data.take (lengthField data).toNat = encode ⟨ntohs (load16 ((data.drop 4).take 2)),
      (data.drop 6).take ((lengthField data).toNat - 6)⟩ := by
  have size : 6 + ((data.drop 6).take ((lengthField data).toNat - 6)).length =
      (lengthField data).toNat := by
    simp only [List.length_take, List.length_drop]
    omega
  rw [encode_eq, size, UInt32.ofNat_toNat, be32_lengthField (by omega),
    be16_ntohs_load16 (by simp only [List.length_take, List.length_drop]; omega)]
  have split : (lengthField data).toNat = 4 + (2 + ((lengthField data).toNat - 6)) := by omega
  conv_lhs => rw [split, List.take_add, List.take_add, List.drop_drop]

/-! ## The accepted buffers -/

/-- `decode_from` takes only encoded frames, reads nothing outside the buffer, and never waits for a
frame that cannot come. -/
def AcceptsExactlyFrames (buf : List UInt8) : Prop :=
  match decodeFrom buf with
  | .ok (some (pkt, consumed)) => consumed ≤ buf.length ∧ buf.take consumed = encode pkt
  | .ok none => ∃ more pkt consumed, decodeFrom (buf ++ more) = .ok (some (pkt, consumed))
  | .error _ => False

theorem acceptsExactlyFrames_of_wait {buf : List UInt8} (wait : decodeFrom buf = .ok none) :
    AcceptsExactlyFrames buf ↔
      ∃ more pkt consumed, decodeFrom (buf ++ more) = .ok (some (pkt, consumed)) := by
  rw [AcceptsExactlyFrames, wait]

theorem decodeFrom_completes {buf : List UInt8} (enough : 4 ≤ buf.length)
    (six : 6 ≤ (lengthField buf).toNat) :
    ∃ more pkt consumed, decodeFrom (buf ++ more) = .ok (some (pkt, consumed)) := by
  let more := List.replicate (lengthField buf).toNat (0 : UInt8)
  have same : lengthField (buf ++ more) = lengthField buf := lengthField_append more enough
  refine ⟨more, _, _, decodeFrom_frame (by rwa [same]) ?_⟩
  rw [same, List.length_append, List.length_replicate]
  omega

theorem decodeFrom_completes_padded (a b c : UInt8) :
    ∃ more pkt consumed, decodeFrom ([a, b, c, 255] ++ more) = .ok (some (pkt, consumed)) := by
  have enough : 4 ≤ [a, b, c, 255].length := Nat.le_refl 4
  apply decodeFrom_completes enough
  rw [lengthField, List.take_of_length_le (Nat.le_refl 4), ntohl_load32, load32, UInt32.toNat_ofNat']
  have ha := a.toNat_lt
  have hb := b.toNat_lt
  have hc := c.toNat_lt
  have hd : (255 : UInt8).toNat = 255 := rfl
  omega

theorem acceptsExactlyFrames_of_short {buf : List UInt8} (short : buf.length < 4) :
    AcceptsExactlyFrames buf := by
  rw [acceptsExactlyFrames_of_wait (decodeFrom_short short)]
  match buf, short with
  | [], _ =>
      obtain ⟨more, accepted⟩ := decodeFrom_completes_padded 255 255 255
      exact ⟨[255, 255, 255, 255] ++ more, by simpa only [List.cons_append, List.nil_append] using accepted⟩
  | [a], _ =>
      obtain ⟨more, accepted⟩ := decodeFrom_completes_padded a 255 255
      exact ⟨[255, 255, 255] ++ more, by simpa only [List.cons_append, List.nil_append] using accepted⟩
  | [a, b], _ =>
      obtain ⟨more, accepted⟩ := decodeFrom_completes_padded a b 255
      exact ⟨[255, 255] ++ more, by simpa only [List.cons_append, List.nil_append] using accepted⟩
  | [a, b, c], _ =>
      obtain ⟨more, accepted⟩ := decodeFrom_completes_padded a b c
      exact ⟨255 :: more, by simpa only [List.cons_append, List.nil_append] using accepted⟩

theorem acceptsExactlyFrames_of_six {buf : List UInt8} (enough : 4 ≤ buf.length)
    (six : 6 ≤ (lengthField buf).toNat) : AcceptsExactlyFrames buf := by
  by_cases whole : (lengthField buf).toNat ≤ buf.length
  · rw [AcceptsExactlyFrames, decodeFrom_frame six whole]
    exact ⟨whole, take_eq_encode six whole⟩
  · rw [acceptsExactlyFrames_of_wait (decodeFrom_wait enough (by omega))]
    exact decodeFrom_completes enough six

theorem not_acceptsExactlyFrames_of_zero {buf : List UInt8} (enough : 4 ≤ buf.length)
    (zero : lengthField buf = 0) : ¬ AcceptsExactlyFrames buf := by
  rw [acceptsExactlyFrames_of_wait (decodeFrom_zero enough zero)]
  rintro ⟨more, pkt, consumed, accepted⟩
  have stuck : decodeFrom (buf ++ more) = .ok none :=
    decodeFrom_zero (by rw [List.length_append]; omega) (by rw [lengthField_append more enough, zero])
  rw [stuck] at accepted
  cases accepted

theorem not_acceptsExactlyFrames_of_wrapped {buf : List UInt8} (enough : 4 ≤ buf.length)
    (positive : lengthField buf ≠ 0) (small : (lengthField buf).toNat < 6)
    (whole : (lengthField buf).toNat ≤ buf.length) : ¬ AcceptsExactlyFrames buf := by
  rw [AcceptsExactlyFrames]
  rcases decodeFrom_wrapped enough positive small whole with fault | ⟨pkt, accepted⟩
  · rw [fault]
    exact id
  · rw [accepted]
    rintro ⟨-, frame⟩
    -- An encoded frame has at least six bytes.
    have size := congrArg List.length frame
    rw [encode_length, List.length_take] at size
    omega

-- Four bytes that announce a frame of five wait for a fifth. With four gigabytes behind them the
-- wrapped copy stays inside the buffer and the call returns true.
theorem acceptsExactlyFrames_of_five {buf : List UInt8} (four : buf.length = 4)
    (five : (lengthField buf).toNat = 5) : AcceptsExactlyFrames buf := by
  rw [acceptsExactlyFrames_of_wait (decodeFrom_wait (Nat.le_of_eq four.symm) (by omega))]
  let more := List.replicate (2 ^ 32 + 1) (0 : UInt8)
  have size : (buf ++ more).length = 2 ^ 32 + 5 := by
    have length : more.length = 2 ^ 32 + 1 := List.length_replicate
    rw [List.length_append, length]
    omega
  have same : lengthField (buf ++ more) = lengthField buf := lengthField_append more (Nat.le_of_eq four.symm)
  have positive : lengthField (buf ++ more) ≠ 0 := fun zero => by
    rw [← same, zero] at five
    exact absurd five (by decide)
  have inside : 6 + (lengthField (buf ++ more) - 6).toNat ≤ (buf ++ more).length := by
    rw [same, sub_six_wrapped (by omega)]
    omega
  exact ⟨more, _, _, decodeFrom_inside (by omega) positive (by rw [same]; omega) inside⟩

theorem acceptsExactlyFrames_iff (buf : List UInt8) :
    AcceptsExactlyFrames buf ↔ buf.length < 4 ∨ 6 ≤ (lengthField buf).toNat ∨
      (buf.length = 4 ∧ (lengthField buf).toNat = 5) := by
  by_cases short : buf.length < 4
  · simp only [short, acceptsExactlyFrames_of_short short, true_or]
  have enough : 4 ≤ buf.length := by omega
  by_cases six : 6 ≤ (lengthField buf).toNat
  · simp only [six, acceptsExactlyFrames_of_six enough six, true_or, or_true]
  by_cases waits : buf.length = 4 ∧ (lengthField buf).toNat = 5
  · simp only [waits, acceptsExactlyFrames_of_five waits.1 waits.2, and_self, or_true]
  simp only [short, six, waits, or_self, iff_false]
  by_cases zero : lengthField buf = 0
  · exact not_acceptsExactlyFrames_of_zero enough zero
  · exact not_acceptsExactlyFrames_of_wrapped enough zero (by omega) (by omega)

theorem decodeFrom_reads_outside_and_stalls :
    ¬ AcceptsExactlyFrames [0, 0, 0, 1] ∧ ¬ AcceptsExactlyFrames [0, 0, 0, 0] := by
  have outside : decodeFrom [0, 0, 0, 1] = .error .outOfBounds := by rfl
  refine ⟨?_, not_acceptsExactlyFrames_of_zero (Nat.le_refl 4) (by rw [lengthField]; rfl)⟩
  rw [AcceptsExactlyFrames, outside]
  exact id

end ServerFramework.Protocol
