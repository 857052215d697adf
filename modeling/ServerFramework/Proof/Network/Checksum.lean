import ServerFramework.Library.Crc
import ServerFramework.Proof.Network.Codec

namespace ServerFramework.Network
open Bytes Library

namespace CRC32
open Library.Crc

def poly : BitVec 32 := 0xEDB88320#32

theorem poly_msb : poly.msb = true := by decide

def widen (b : UInt8) : BitVec 32 := b.toBitVec.setWidth 32

theorem widen_small (b : UInt8) (i : Nat) (high : i ≥ 8) : (widen b).getLsbD i = false := by
  rw [widen, BitVec.getLsbD_setWidth, BitVec.getLsbD_of_ge _ _ high, Bool.and_false]

theorem map_widen_small (bytes : List UInt8) : ∀ b ∈ bytes.map widen, ∀ i ≥ 8, b.getLsbD i = false := by
  intro b member i high
  obtain ⟨byte, -, rfl⟩ := List.mem_map.mp member
  exact widen_small byte i high

theorem tableStep_toBitVec (c : UInt32) : (tableStep c).toBitVec = bitStep poly c.toBitVec := by
  have low : c &&& 1 = 0 ↔ c.toBitVec.getLsbD 0 = false := by
    rw [← UInt32.toBitVec_inj, UInt32.toBitVec_and]
    constructor
    · intro zero
      have bit := congrArg (·.getLsbD 0) zero
      simpa using bit
    · intro bit
      apply BitVec.eq_of_getLsbD_eq
      intro i bound
      cases i with
      | zero => simpa using bit
      | succ i => simp [BitVec.getLsbD_one]
  unfold tableStep bitStep
  by_cases odd : c &&& 1 = 0
  · rw [if_neg (not_not.mpr odd), low.mp odd]
    simp
  · rw [if_pos odd, (Bool.not_eq_false _).mp fun bit => odd (low.mpr bit)]
    simp [poly]

theorem crc32Table_toBitVec (i : UInt32) : (crc32Table i).toBitVec = bitSteps poly 8 i.toBitVec :=
  Function.Semiconj.iterate_right (f := UInt32.toBitVec) tableStep_toBitVec 8 i

theorem update_toBitVec (crc : UInt32) (p : UInt8) :
    (update crc p).toBitVec = bitSteps poly 8 (crc.toBitVec ^^^ widen p) := by
  let x := crc.toBitVec ^^^ widen p
  have index : ((crc ^^^ p.toUInt32) &&& 0xFF).toBitVec = x &&& 0xFF#32 := by
    simp [x, widen]
  have mask : ∀ i, (0xFF#32).getLsbD i = decide (i < 8) := by
    intro i
    by_cases bound : i < 32
    · interval_cases i <;> decide
    · rw [BitVec.getLsbD_of_ge _ _ (Nat.le_of_not_lt bound)]
      simp
      omega
  have agree : ∀ i < 8, (x &&& 0xFF#32).getLsbD i = x.getLsbD i := by
    intro i bound
    rw [BitVec.getLsbD_and, mask, decide_eq_true bound, Bool.and_true]
  have high : (x &&& 0xFF#32) >>> 8 = 0#32 := by
    apply BitVec.eq_of_getLsbD_eq
    intro i _
    rw [BitVec.getLsbD_ushiftRight, BitVec.getLsbD_and, mask]
    simp
  have down : x >>> 8 = crc.toBitVec >>> 8 := by
    apply BitVec.eq_of_getLsbD_eq
    intro i _
    rw [BitVec.getLsbD_ushiftRight, BitVec.getLsbD_ushiftRight, BitVec.getLsbD_xor,
      widen_small p (8 + i) (by omega), Bool.xor_false]
  rw [bitSteps_split poly 8 x _ agree high, down, ← index, ← crc32Table_toBitVec, update]
  simp

theorem foldl_update_toBitVec (crc : UInt32) (data : List UInt8) :
    (data.foldl update crc).toBitVec = feed poly crc.toBitVec (data.map widen) := by
  induction data generalizing crc with
  | nil => rfl
  | cons p data ih => rw [List.foldl_cons, ih, update_toBitVec, List.map_cons, feed_cons]

theorem calculate_eq_iff (as bs : List UInt8) :
    calculate as = calculate bs ↔
      feed poly (BitVec.allOnes 32) (as.map widen) = feed poly (BitVec.allOnes 32) (bs.map widen) := by
  have start : (0xFFFFFFFF : UInt32).toBitVec = BitVec.allOnes 32 := by decide
  rw [calculate, calculate, UInt32.xor_left_inj, ← UInt32.toBitVec_inj, foldl_update_toBitVec,
    foldl_update_toBitVec, start]

/-- A head leaves the checksum as zeros in its place would when its difference with them, itself,
leaves the register clear. -/
theorem calculate_eq_zeros_iff (head rest : List UInt8) :
    calculate (head ++ rest) = calculate (List.replicate head.length 0 ++ rest) ↔
      feed poly 0#32 (head.map widen) = 0#32 := by
  let zeros := List.replicate head.length (0#32)
  have blank : (List.replicate head.length (0 : UInt8)).map widen = zeros := by
    rw [List.map_replicate]
    rfl
  have difference : List.zipWith (· ^^^ ·) (head.map widen) zeros = head.map widen := by
    apply List.ext_getElem
    · simp [zeros]
    · intro i _ _
      simp [zeros]
  have split := feed_xor poly 0#32 (BitVec.allOnes 32) (head.map widen) zeros (by simp [zeros])
  rw [difference, BitVec.zero_xor] at split
  rw [calculate_eq_iff, List.map_append, List.map_append, feed_append, feed_append, blank,
    (feed_injective poly_msb (rest.map widen)).eq_iff, split]
  constructor
  · intro equal
    have cancelled := congrArg (· ^^^ feed poly (BitVec.allOnes 32) zeros) equal
    simpa [BitVec.xor_assoc] using cancelled
  · intro clear
    rw [clear, BitVec.zero_xor]

theorem word_le32 (v : UInt32) : word ((le32 v).map widen) = v.toBitVec := by
  apply BitVec.eq_of_getLsbD_eq
  intro i bound
  simp only [le32, List.map_cons, List.map_nil, word, widen]
  interval_cases i <;> simp

end CRC32

/-- The one checksum that survives being written into a header with these fields. -/
def headerCrc (seq : UInt32) (cmd : UInt16) : UInt32 :=
  ByteOrder.ntohl ⟨Crc.undoBits CRC32.poly 32
    (Crc.unfeed CRC32.poly 0#32 ((be32 seq ++ be16 cmd).map CRC32.widen))⟩

theorem calculate_header_eq_iff (crc seq : UInt32) (cmd : UInt16) (payload : List UInt8) :
    CRC32.calculate (be32 crc ++ (be32 seq ++ be16 cmd) ++ payload) =
        CRC32.calculate (List.replicate 10 0 ++ payload) ↔
      crc = headerCrc seq cmd := by
  let fields := (be32 seq ++ be16 cmd).map CRC32.widen
  have shifted : Crc.feed CRC32.poly 0#32 ((be32 crc).map CRC32.widen) =
      Crc.bitSteps CRC32.poly 32 (ByteOrder.htonl crc).toBitVec := by
    rw [Crc.feed_eq_bitSteps CRC32.poly 0#32 _ (CRC32.map_widen_small _) (by simp), byteOrder_htonl,
      ← CRC32.word_le32 (Bytes.htonl crc), le32_htonl, BitVec.zero_xor, List.length_map, be32_length]
  have swap : ∀ v w : UInt32, ByteOrder.htonl v = w ↔ v = ByteOrder.ntohl w := by
    intro v w
    rw [byteOrder_htonl, byteOrder_ntohl]
    constructor
    · rintro rfl
      exact (ntohl_load32_be32 v).symm
    · rintro rfl
      exact ntohl_load32_be32 w
  have ten : (be32 crc ++ (be32 seq ++ be16 cmd)).length = 10 := rfl
  rw [← ten, CRC32.calculate_eq_zeros_iff, List.map_append, Crc.feed_append,
    Crc.feed_eq_iff CRC32.poly_msb, shifted, Crc.bitSteps_eq_iff CRC32.poly_msb, headerCrc, ← swap,
    ← UInt32.toBitVec_inj]

namespace Codec

def zeroHeaderCrc (payload : List UInt8) : UInt32 := CRC32.calculate (List.replicate 10 0 ++ payload)

theorem encode_eq (cmd : UInt16) (payload : List UInt8) (seq : UInt32)
    (fits : headerSize + payload.length ≤ maxPacketSize) :
    encode cmd payload seq =
      be32 (.ofNat (headerSize + payload.length)) ++ ([protocolVersion] ++
        (be32 (zeroHeaderCrc payload) ++ (be32 seq ++ be16 cmd) ++ payload)) := by
  have size : headerSize = 15 := rfl
  have small : headerSize + payload.length < 2 ^ 32 := Nat.lt_of_le_of_lt fits (by decide)
  have length : (UInt32.ofNat (headerSize + payload.length) - 4 - 1).toNat = 10 + payload.length := by
    generalize total : UInt32.ofNat (headerSize + payload.length) = totalLen
    have value : totalLen.toNat = headerSize + payload.length := by
      rw [← total, UInt32.toNat_ofNat_of_lt' small]
    have literals : (4 : UInt32).toNat = 4 ∧ (1 : UInt32).toNat = 1 := by decide
    have four := UInt32.toNat_sub_of_le totalLen 4 (UInt32.le_iff_toNat_le.mpr (by omega))
    have one := UInt32.toNat_sub_of_le (totalLen - 4) 1 (UInt32.le_iff_toNat_le.mpr (by omega))
    omega
  have covered : ((List.replicate headerSize (0 : UInt8) ++ payload).drop (4 + 1)).take
      (10 + payload.length) = List.replicate 10 0 ++ payload := by
    rw [List.drop_append_of_le_length (by simp [size]), List.drop_replicate, size]
    exact List.take_of_length_le (by rw [List.length_append, List.length_replicate])
  have body : (List.replicate headerSize (0 : UInt8) ++ payload).drop headerSize = payload :=
    List.drop_left' (List.length_replicate ..)
  simp only [encode, byteOrder_htonl, byteOrder_htons, le32_htonl, le16_htons]
  rw [length, covered, body, zeroHeaderCrc]
  simp only [List.append_assoc]

theorem encode_length (cmd : UInt16) (payload : List UInt8) (seq : UInt32)
    (fits : headerSize + payload.length ≤ maxPacketSize) :
    (encode cmd payload seq).length = headerSize + payload.length := by
  have size : headerSize = 15 := rfl
  rw [encode_eq cmd payload seq fits]
  simp only [List.length_append, be32_length, be16_length, List.length_singleton]
  omega

theorem encode_fields (cmd : UInt16) (payload : List UInt8) (seq : UInt32)
    (fits : headerSize + payload.length ≤ maxPacketSize) :
    lengthField (encode cmd payload seq) = headerSize + payload.length ∧
    crcField (encode cmd payload seq) = zeroHeaderCrc payload ∧
    packetAt (encode cmd payload seq) (headerSize + payload.length) = ⟨seq, cmd, payload⟩ ∧
    ((encode cmd payload seq).drop 5).take (headerSize + payload.length - 5) =
      be32 (zeroHeaderCrc payload) ++ (be32 seq ++ be16 cmd) ++ payload := by
  have small : headerSize + payload.length < 2 ^ 32 := Nat.lt_of_le_of_lt fits (by decide)
  have length := encode_length cmd payload seq fits
  rw [encode_eq cmd payload seq fits] at length ⊢
  generalize zeroHeaderCrc payload = crc at length ⊢
  have value : (UInt32.ofNat (headerSize + payload.length)).toNat = headerSize + payload.length :=
    UInt32.toNat_ofNat_of_lt' small
  generalize UInt32.ofNat (headerSize + payload.length) = totalLen at value length ⊢
  let frame := be32 totalLen ++ ([protocolVersion] ++ (be32 crc ++ (be32 seq ++ be16 cmd) ++ payload))
  have behind : frame.drop 5 = be32 crc ++ (be32 seq ++ be16 cmd) ++ payload := rfl
  change lengthField frame = _ ∧ crcField frame = _ ∧ packetAt frame _ = _ ∧
    (frame.drop 5).take _ = _
  refine ⟨?_, ?_, ?_, ?_⟩
  · rw [lengthField, show frame.take 4 = be32 totalLen from rfl, ← ntohl_toNat (be32_length _), byteOrder_ntohl,
      ntohl_load32_be32, value]
  · rw [crcField, behind, List.append_assoc, List.take_left' (be32_length _), byteOrder_ntohl,
      ntohl_load32_be32]
  · have nine : (frame.drop 9).take 4 = be32 seq := rfl
    have thirteen : (frame.drop 13).take 2 = be16 cmd := rfl
    have fifteen : frame.drop headerSize = payload := rfl
    rw [packetAt, nine, thirteen, fifteen, byteOrder_ntohl, byteOrder_ntohs, ntohl_load32_be32,
      ntohs_load16_be16, Nat.add_sub_cancel_left, List.take_length]
  · rw [behind]
    exact List.take_of_length_le (by rw [← behind, List.length_drop, length])

theorem examine_encode (cmd : UInt16) (payload : List UInt8) (seq : UInt32)
    (fits : headerSize + payload.length ≤ maxPacketSize) :
    examine (encode cmd payload seq) = .ok
      (if zeroHeaderCrc payload = headerCrc seq cmd
      then .emit ⟨seq, cmd, payload⟩ (headerSize + payload.length) else .skip) := by
  have length := encode_length cmd payload seq fits
  obtain ⟨field, crc, pkt, covered⟩ := encode_fields cmd payload seq fits
  rw [examine_long (by omega), field, crc, pkt, covered, length, if_neg (by omega), if_neg (by omega)]
  have kept := calculate_header_eq_iff (zeroHeaderCrc payload) seq cmd payload
  change _ = zeroHeaderCrc payload ↔ _ at kept
  simp only [ne_eq, kept, ite_not]

theorem tryDecode_encode (cmd : UInt16) (payload : List UInt8) (seq : UInt32)
    (fits : headerSize + payload.length ≤ maxPacketSize)
    (kept : zeroHeaderCrc payload = headerCrc seq cmd) :
    tryDecode (encode cmd payload seq) = .ok (some ⟨seq, cmd, payload⟩, []) := by
  have length := encode_length cmd payload seq fits
  have round := examine_encode cmd payload seq fits
  rw [if_pos kept] at round
  generalize encode cmd payload seq = frame at length round
  cases frame with
  | nil => cases round
  | cons b rest =>
      have all : (b :: rest).drop (headerSize + payload.length) = [] := by
        rw [← length, List.drop_length]
      rw [tryDecode, round]
      simp only [all]

theorem tryDecode_encode_misses (cmd : UInt16) (payload : List UInt8) (seq : UInt32)
    (fits : headerSize + payload.length ≤ maxPacketSize)
    (lost : zeroHeaderCrc payload ≠ headerCrc seq cmd) (buffer : List UInt8) :
    tryDecode (encode cmd payload seq) ≠ .ok (some ⟨seq, cmd, payload⟩, buffer) := by
  have length := encode_length cmd payload seq fits
  have round := examine_encode cmd payload seq fits
  rw [if_neg lost] at round
  generalize encode cmd payload seq = frame at length round
  intro returned
  cases frame with
  | nil => cases round
  | cons b rest =>
      rw [tryDecode, round] at returned
      obtain ⟨result, k, call, -, found⟩ := tryDecode_sound rest
      rw [call, Except.ok.injEq, Prod.mk.injEq] at returned
      obtain ⟨a, len, frame, -⟩ := found _ returned.1
      have data := congrArg List.length frame.data
      have inside := frame.inside
      have header := frame.header
      simp only [slice, List.length_take, List.length_drop] at data
      rw [List.length_cons] at length
      omega

theorem decode_encode_iff (cmd : UInt16) (seq : UInt32) (payload : List UInt8)
    (fits : headerSize + payload.length ≤ maxPacketSize) :
    (decode {} (encode cmd payload seq) = .ok (some ⟨seq, cmd, payload⟩, {}) ∧
      Packet.decode (Packet.encode ⟨seq, cmd, payload⟩) = .ok (some ⟨seq, cmd, payload⟩)) ↔
    CRC32.calculate (List.replicate 10 0 ++ payload) = headerCrc seq cmd := by
  constructor
  · rintro ⟨returned, -⟩
    by_contra lost
    rw [decode, List.nil_append] at returned
    cases call : tryDecode (encode cmd payload seq) with
    | error fault =>
        rw [call] at returned
        cases returned
    | ok outcome =>
        rw [call, ok_bind] at returned
        obtain ⟨result, buffer⟩ := outcome
        simp only [pure, Except.pure, Except.ok.injEq, Prod.mk.injEq] at returned
        exact tryDecode_encode_misses cmd payload seq fits lost buffer (by rw [call, returned.1])
  · intro kept
    have call := tryDecode_encode cmd payload seq fits kept
    constructor
    · rw [decode, List.nil_append, call]
      rfl
    · rw [Packet.decode, decode, List.nil_append, Packet.encode, call]
      rfl

theorem decode_encode_survivor :
    headerSize + [61, 228, 144, 50].length ≤ maxPacketSize ∧
    decode {} (encode 4 [61, 228, 144, 50] 123) = .ok (some ⟨123, 4, [61, 228, 144, 50]⟩, {}) := by
  have fits : headerSize + [61, 228, 144, 50].length ≤ maxPacketSize := by decide
  have kept : CRC32.calculate (List.replicate 10 0 ++ [61, 228, 144, 50]) = headerCrc 123 4 := by
    decide +kernel
  exact ⟨fits, ((decode_encode_iff 4 123 [61, 228, 144, 50] fits).mpr kept).1⟩

-- the characters of "Hello, World!"
def helloWorld : List UInt8 := [72, 101, 108, 108, 111, 44, 32, 87, 111, 114, 108, 100, 33]

theorem decode_loses_helloWorld :
    headerSize + helloWorld.length ≤ maxPacketSize ∧
    decode {} (encode 4 helloWorld 123) = .ok (none, ⟨(encode 4 helloWorld 123).drop 1⟩) ∧
    decode {} (encode 4 helloWorld 123) ≠ .ok (some ⟨123, 4, helloWorld⟩, {}) := by
  decide +kernel

end Codec

end ServerFramework.Network
