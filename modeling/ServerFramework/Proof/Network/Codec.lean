import ServerFramework.Network.Codec
import ServerFramework.Library.Runs
import Mathlib.Data.List.Forall2
import Mathlib.Data.List.ReduceOption
import Mathlib.Tactic.IntervalCases

namespace ServerFramework.Network
open Bytes Library

theorem isLittleEndian_eq : ByteOrder.isLittleEndian = true := by decide

theorem byteOrder_htonl (v : UInt32) : ByteOrder.htonl v = Bytes.htonl v := by
  have image : le32 (ByteOrder.htonl v) = be32 v := by
    simp only [le32, be32, List.reverse_cons, List.reverse_nil, List.nil_append, List.cons_append,
      List.cons.injEq, and_true]
    refine ⟨?_, ?_, ?_, ?_⟩ <;> apply UInt8.toBitVec_inj.mp <;>
      simp [ByteOrder.htonl, isLittleEndian_eq] <;> ext i hi <;> simp <;> interval_cases i <;> simp
  rw [← load32_le32 (ByteOrder.htonl v), image, Bytes.htonl]

theorem byteOrder_htons (v : UInt16) : ByteOrder.htons v = Bytes.htons v := by
  have image : le16 (ByteOrder.htons v) = be16 v := by
    simp only [le16, be16, List.reverse_cons, List.reverse_nil, List.nil_append, List.cons_append,
      List.cons.injEq, and_true]
    refine ⟨?_, ?_⟩ <;> apply UInt8.toBitVec_inj.mp <;> simp [ByteOrder.htons, isLittleEndian_eq]
    ext i hi
    simp
    interval_cases i <;> simp
  rw [← load16_le16 (ByteOrder.htons v), image, Bytes.htons]

theorem byteOrder_ntohl (v : UInt32) : ByteOrder.ntohl v = Bytes.ntohl v := byteOrder_htonl v

theorem byteOrder_ntohs (v : UInt16) : ByteOrder.ntohs v = Bytes.ntohs v := byteOrder_htons v

def bigEndian (bytes : List UInt8) : Nat := bytes.foldl (fun n b => n * 256 + b.toNat) 0

theorem ntohl_toNat {bytes : List UInt8} (four : bytes.length = 4) :
    (ByteOrder.ntohl (load32 bytes)).toNat = bigEndian bytes := by
  match bytes, four with
  | [a, b, c, d], _ =>
      rw [byteOrder_ntohl, ntohl_load32, load32, UInt32.toNat_ofNat']
      have ha := a.toNat_lt
      have hb := b.toNat_lt
      have hc := c.toNat_lt
      have hd := d.toNat_lt
      simp only [bigEndian, List.foldl_cons, List.foldl_nil]
      omega

theorem ntohs_toNat {bytes : List UInt8} (two : bytes.length = 2) :
    (ByteOrder.ntohs (load16 bytes)).toNat = bigEndian bytes := by
  match bytes, two with
  | [a, b], _ =>
      rw [byteOrder_ntohs, ntohs_load16, load16, UInt16.toNat_ofNat']
      have ha := a.toNat_lt
      have hb := b.toNat_lt
      simp only [bigEndian, List.foldl_cons, List.foldl_nil]
      omega

/-! ## One round of the decoding loop -/

namespace Codec

def lengthField (buffer : List UInt8) : Nat := bigEndian (buffer.take 4)

def crcField (buffer : List UInt8) : UInt32 := ByteOrder.ntohl (load32 ((buffer.drop 5).take 4))

def packetAt (buffer : List UInt8) (totalLen : Nat) : Packet where
  seq := ByteOrder.ntohl (load32 ((buffer.drop 9).take 4))
  cmd := ByteOrder.ntohs (load16 ((buffer.drop 13).take 2))
  data := (buffer.drop headerSize).take (totalLen - headerSize)

theorem examine_short {buffer : List UInt8} (short : buffer.length < headerSize) :
    examine buffer = .ok .wait := by
  rw [examine, if_pos short]
  rfl

theorem examine_of_length {buffer : List UInt8} (enough : headerSize ≤ buffer.length) {totalLen : Nat}
    (field : (ByteOrder.ntohl (load32 (buffer.take 4))).toNat = totalLen) :
    examine buffer =
      if totalLen < headerSize ∨ totalLen > maxPacketSize then .ok .clear
      else if buffer.length < totalLen then .ok .wait
      else do
        let hdr := readHeader (← memcpy buffer 0 headerSize)
        let crc := CRC32.calculate (← memcpy buffer (4 + 1) (totalLen - 4 - 1))
        if crc ≠ hdr.crc32 then return .skip
        let body ← assignBody buffer totalLen
        return .emit ⟨hdr.seq, hdr.cmd, body⟩ totalLen := by
  have inside : 0 + 4 ≤ buffer.length := Nat.le_trans (by decide) enough
  rw [examine, if_neg (Nat.not_lt.mpr enough), memcpy_inside inside, ok_bind, List.drop_zero, field]
  rfl

theorem readHeader_take (buffer : List UInt8) :
    (readHeader (buffer.take headerSize)).crc32 = crcField buffer ∧
    (readHeader (buffer.take headerSize)).seq = (packetAt buffer 0).seq ∧
    (readHeader (buffer.take headerSize)).cmd = (packetAt buffer 0).cmd := by
  simp [readHeader, crcField, packetAt, headerSize, List.drop_take, List.take_take]

theorem assignBody_inside {buffer : List UInt8} {totalLen : Nat} (whole : totalLen ≤ buffer.length) :
    assignBody buffer totalLen = .ok ((buffer.drop headerSize).take (totalLen - headerSize)) := by
  unfold assignBody
  split
  · exact memcpy_inside (by omega)
  · rename_i empty
    rw [Nat.sub_eq_zero_of_le (Nat.le_of_not_gt empty), List.take_zero]

theorem examine_long {buffer : List UInt8} (enough : headerSize ≤ buffer.length) :
    examine buffer = .ok
      (if lengthField buffer < headerSize ∨ lengthField buffer > maxPacketSize then .clear
      else if buffer.length < lengthField buffer then .wait
      else if CRC32.calculate ((buffer.drop 5).take (lengthField buffer - 5)) ≠ crcField buffer then .skip
      else .emit (packetAt buffer (lengthField buffer)) (lengthField buffer)) := by
  have four : (buffer.take 4).length = 4 :=
    List.length_take_of_le (Nat.le_trans (by decide) enough)
  have field : (ByteOrder.ntohl (load32 (buffer.take 4))).toNat = lengthField buffer := ntohl_toNat four
  rw [examine_of_length enough field]
  generalize lengthField buffer = totalLen
  by_cases range : totalLen < headerSize ∨ totalLen > maxPacketSize
  · rw [if_pos range, if_pos range]
  rw [if_neg range, if_neg range]
  by_cases missing : buffer.length < totalLen
  · rw [if_pos missing, if_pos missing]
  have large : headerSize ≤ totalLen := Nat.le_of_not_lt fun small => range (Or.inl small)
  have bound : 15 ≤ totalLen := large
  have header : 0 + headerSize ≤ buffer.length := by rwa [Nat.zero_add]
  have body : 4 + 1 + (totalLen - 4 - 1) ≤ buffer.length := by omega
  rw [if_neg missing, if_neg missing, memcpy_inside header, ok_bind, memcpy_inside body, ok_bind,
    assignBody_inside (Nat.le_of_not_lt missing), List.drop_zero]
  obtain ⟨crc, seq, cmd⟩ := readHeader_take buffer
  simp only [crc, seq, cmd, Nat.sub_sub, ok_bind]
  split <;> rfl

/-! ## Frames of a stream -/

def slice (s : List UInt8) (a n : Nat) : List UInt8 := (s.drop a).take n

/-- The segment `[a, a + len)` of the stream is a frame, and `pkt` what it says. -/
structure FrameAt (s : List UInt8) (a len : Nat) (pkt : Packet) : Prop where
  inside : a + len ≤ s.length
  length_field : bigEndian (slice s a 4) = len
  header : headerSize ≤ len
  bounded : len ≤ maxPacketSize
  checksum : bigEndian (slice s (a + 5) 4) = (CRC32.calculate (slice s (a + 5) (len - 5))).toNat
  seq : pkt.seq.toNat = bigEndian (slice s (a + 9) 4)
  cmd : pkt.cmd.toNat = bigEndian (slice s (a + 13) 2)
  data : pkt.data = slice s (a + headerSize) (len - headerSize)

theorem slice_drop (s : List UInt8) (k a n : Nat) : slice (s.drop k) a n = slice s (k + a) n := by
  rw [slice, slice, List.drop_drop]

theorem slice_append {s : List UInt8} (more : List UInt8) {a n : Nat} (inside : a + n ≤ s.length) :
    slice (s ++ more) a n = slice s a n := by
  rw [slice, slice, List.drop_append_of_le_length (by omega),
    List.take_append_of_le_length (by rw [List.length_drop]; omega)]

theorem FrameAt.shift {s : List UInt8} {k a len : Nat} {pkt : Packet}
    (frame : FrameAt (s.drop k) a len pkt) : FrameAt s (k + a) len pkt := by
  obtain ⟨inside, length_field, header, bounded, checksum, seq, cmd, data⟩ := frame
  simp only [slice_drop, ← Nat.add_assoc] at length_field checksum seq cmd data
  refine ⟨?_, length_field, header, bounded, checksum, seq, cmd, data⟩
  have positive : 15 ≤ len := header
  rw [List.length_drop] at inside
  omega

theorem FrameAt.append {s : List UInt8} (more : List UInt8) {a len : Nat} {pkt : Packet}
    (frame : FrameAt s a len pkt) : FrameAt (s ++ more) a len pkt := by
  obtain ⟨inside, length_field, header, bounded, checksum, seq, cmd, data⟩ := frame
  have large : 15 ≤ len := header
  have size : headerSize = 15 := rfl
  refine ⟨?_, ?_, header, bounded, ?_, ?_, ?_, ?_⟩
  · rw [List.length_append]
    omega
  · rwa [slice_append more (by omega)]
  · rwa [slice_append more (by omega), slice_append more (by omega)]
  · rwa [slice_append more (by omega)]
  · rwa [slice_append more (by omega)]
  · rwa [slice_append more (by omega)]

theorem frameAt_of_emit {buffer : List UInt8} {pkt : Packet} {len : Nat}
    (emit : examine buffer = .ok (.emit pkt len)) : FrameAt buffer 0 len pkt := by
  by_cases enough : headerSize ≤ buffer.length
  · rw [examine_long enough] at emit
    have size : 15 ≤ buffer.length := enough
    split_ifs at emit with range missing checksum
    · cases emit
    · cases emit
    · cases emit
    · simp only [Except.ok.injEq, Verdict.emit.injEq] at emit
      obtain ⟨rfl, rfl⟩ := emit
      rw [not_or, Nat.not_lt, Nat.not_lt] at range
      rw [Nat.not_lt] at missing
      rw [not_not] at checksum
      refine ⟨by omega, rfl, range.1, range.2, ?_, ?_, ?_, rfl⟩
      · rw [Nat.zero_add, slice, slice, checksum, crcField,
          ntohl_toNat (by rw [List.length_take, List.length_drop]; omega)]
      · exact ntohl_toNat (by rw [List.length_take, List.length_drop]; omega)
      · exact ntohs_toNat (by rw [List.length_take, List.length_drop]; omega)
  · rw [examine_short (Nat.lt_of_not_le enough)] at emit
    cases emit

theorem examine_total (buffer : List UInt8) : ∃ verdict, examine buffer = .ok verdict := by
  by_cases enough : headerSize ≤ buffer.length
  · exact ⟨_, examine_long enough⟩
  · exact ⟨_, examine_short (Nat.lt_of_not_le enough)⟩

/-! ## Whole calls -/

theorem tryDecode_terminates (buffer : List UInt8) :
    loop tryDecodeBody (buffer.length + 1) buffer = some (tryDecode buffer) := by
  induction buffer with
  | nil => simp [loop, tryDecodeBody, tryDecode, examine_short (show [].length < headerSize by decide)]
  | cons b rest ih =>
      obtain ⟨verdict, round⟩ := examine_total (b :: rest)
      cases verdict with
      | wait => simp [loop, tryDecodeBody, tryDecode, round]
      | clear => simp [loop, tryDecodeBody, tryDecode, round]
      | emit pkt len => simp [loop, tryDecodeBody, tryDecode, round]
      | skip =>
          rw [loop, tryDecodeBody, round, tryDecode, round]
          exact ih

theorem tryDecode_sound (buffer : List UInt8) :
    ∃ result k, tryDecode buffer = .ok (result, buffer.drop k) ∧ k ≤ buffer.length ∧
      ∀ pkt ∈ result, ∃ a len, FrameAt buffer a len pkt ∧ k = a + len := by
  induction buffer with
  | nil => exact ⟨none, 0, rfl, Nat.le_refl 0, by simp⟩
  | cons b rest ih =>
      obtain ⟨verdict, round⟩ := examine_total (b :: rest)
      cases verdict with
      | wait => exact ⟨none, 0, by rw [tryDecode, round]; rfl, Nat.zero_le _, by simp⟩
      | clear =>
          refine ⟨none, (b :: rest).length, ?_, Nat.le_refl _, by simp⟩
          rw [tryDecode, round, List.drop_length]
      | emit pkt len =>
          have frame := frameAt_of_emit round
          refine ⟨some pkt, len, by rw [tryDecode, round], ?_, ?_⟩
          · simpa using frame.inside
          · rintro other ⟨⟩
            exact ⟨0, len, frame, (Nat.zero_add len).symm⟩
      | skip =>
          obtain ⟨result, k, call, bound, found⟩ := ih
          refine ⟨result, k + 1, by rw [tryDecode, round]; exact call, Nat.succ_le_succ bound, ?_⟩
          intro pkt member
          obtain ⟨a, len, frame, rfl⟩ := found pkt member
          exact ⟨1 + a, len, FrameAt.shift (k := 1) frame, by omega⟩

def decodeAll (codec : Codec) : List (List UInt8) → Except Fault (List (Option Packet) × Codec)
  | [] => .ok ([], codec)
  | chunk :: chunks => do
      let (result, next) ← decode codec chunk
      let (results, last) ← decodeAll next chunks
      return (result :: results, last)

structure Segments (s : List UInt8) (pkts : List Packet) (segments : List (Nat × Nat)) : Prop where
  frames : List.Forall₂ (fun pkt segment => FrameAt s segment.1 segment.2 pkt) pkts segments
  ordered : segments.Pairwise fun first second => first.1 + first.2 ≤ second.1

theorem Segments.shift {s : List UInt8} {k : Nat} {pkts : List Packet} {segments : List (Nat × Nat)}
    (found : Segments (s.drop k) pkts segments) :
    Segments s pkts (segments.map fun segment => (k + segment.1, segment.2)) where
  frames := by
    rw [List.forall₂_map_right_iff]
    exact found.frames.imp fun _ _ frame => frame.shift
  ordered := by
    rw [List.pairwise_map]
    exact found.ordered.imp fun before => by omega

theorem decodeAll_sound (codec : Codec) (chunks : List (List UInt8)) :
    ∃ results last segments, decodeAll codec chunks = .ok (results, last) ∧
      last.buffer <:+ codec.buffer ++ chunks.flatten ∧
      Segments (codec.buffer ++ chunks.flatten) results.reduceOption segments := by
  induction chunks generalizing codec with
  | nil => exact ⟨[], codec, [], rfl, by simp, ⟨.nil, .nil⟩⟩
  | cons chunk chunks ih =>
      obtain ⟨result, k, call, bound, found⟩ := tryDecode_sound (codec.buffer ++ chunk)
      let s := codec.buffer ++ (chunk :: chunks).flatten
      have joined : s = codec.buffer ++ chunk ++ chunks.flatten := by
        simp [s, List.append_assoc]
      have behind : (codec.buffer ++ chunk).drop k ++ chunks.flatten = s.drop k := by
        rw [joined, List.drop_append_of_le_length bound]
      obtain ⟨results, last, segments, run, left, rest⟩ := ih ⟨(codec.buffer ++ chunk).drop k⟩
      rw [behind] at left rest
      have whole : decodeAll codec (chunk :: chunks) = .ok (result :: results, last) := by
        rw [decodeAll, decode, call, ok_bind]
        change (decodeAll ⟨(codec.buffer ++ chunk).drop k⟩ chunks >>= _) = _
        rw [run]
        rfl
      have suffix : last.buffer <:+ s := left.trans (List.drop_suffix k s)
      cases result with
      | none => exact ⟨_, last, _, whole, suffix, rest.shift⟩
      | some pkt =>
          obtain ⟨a, len, frame, rfl⟩ := found pkt rfl
          refine ⟨_, last, (a, len) :: segments.map fun segment => (a + len + segment.1, segment.2),
            whole, suffix, ?_, ?_⟩
          · refine .cons ?_ rest.shift.frames
            change FrameAt s a len pkt
            rw [joined]
            exact frame.append _
          · refine .cons ?_ rest.shift.ordered
            intro segment member
            obtain ⟨inner, -, rfl⟩ := List.mem_map.mp member
            exact Nat.le_add_right _ _

theorem decode_sound (chunks : List (List UInt8)) :
    (∀ buffer, ∃ n, loop tryDecodeBody n buffer = some (tryDecode buffer)) ∧
    ∃ results last segments, decodeAll {} chunks = .ok (results, last) ∧
      last.buffer <:+ chunks.flatten ∧ Segments chunks.flatten results.reduceOption segments :=
  ⟨fun buffer => ⟨_, tryDecode_terminates buffer⟩, decodeAll_sound {} chunks⟩

end Codec

end ServerFramework.Network
