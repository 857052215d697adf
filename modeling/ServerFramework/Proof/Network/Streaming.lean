import ServerFramework.Library.Framing
import ServerFramework.Proof.Network.Checksum

namespace ServerFramework.Network
open Bytes Library

namespace Codec

structure ValidFrame (frame : List UInt8) : Prop where
  length_field : bigEndian (frame.take 4) = frame.length
  header : headerSize ≤ frame.length
  bounded : frame.length ≤ maxPacketSize
  checksum : bigEndian (slice frame 5 4) = (CRC32.calculate (frame.drop 5)).toNat

def packetOf (frame : List UInt8) : Packet where
  seq := .ofNat (bigEndian (slice frame 9 4))
  cmd := .ofNat (bigEndian (slice frame 13 2))
  data := frame.drop headerSize

/-! ## Feeding a decoder in chunks -/

def drainBody : Codec × List Packet → (Codec × List Packet) ⊕ Except Fault (List Packet × Codec)
  | (codec, got) => match decode codec [] with
      | .error fault => .inr (.error fault)
      | .ok (none, codec) => .inr (.ok (got, codec))
      | .ok (some pkt, codec) => .inl (codec, got ++ [pkt])

def feed (fuel : Nat) (codec : Codec) (chunk : List UInt8) : Option (Except Fault (List Packet × Codec)) :=
  match decode codec chunk with
  | .error fault => some (.error fault)
  | .ok (result, codec) => loop drainBody fuel (codec, result.toList)

def feedAll (fuel : Nat) (codec : Codec) : List (List UInt8) → Option (Except Fault (List Packet × Codec))
  | [] => some (.ok ([], codec))
  | chunk :: chunks => match feed fuel codec chunk with
      | none => none
      | some (.error fault) => some (.error fault)
      | some (.ok (got, codec)) => (feedAll fuel codec chunks).map fun rest =>
          rest.map fun (more, last) => (got ++ more, last)

/-! ## One call on a cut of a stream of frames -/

theorem packetAt_frame {frame : List UInt8} (valid : ValidFrame frame) (rest : List UInt8) :
    packetAt (frame ++ rest) frame.length = packetOf frame := by
  have header : 15 ≤ frame.length := valid.header
  have four : (slice frame 9 4).length = 4 := by
    rw [slice, List.length_take, List.length_drop]
    omega
  have two : (slice frame 13 2).length = 2 := by
    rw [slice, List.length_take, List.length_drop]
    omega
  have seq : ((frame ++ rest).drop 9).take 4 = slice frame 9 4 := slice_append rest (by omega)
  have cmd : ((frame ++ rest).drop 13).take 2 = slice frame 13 2 := slice_append rest (by omega)
  have body : ((frame ++ rest).drop headerSize).take (frame.length - headerSize) = frame.drop headerSize := by
    rw [List.drop_append_of_le_length valid.header, List.take_left' (List.length_drop ..)]
  rw [packetAt, packetOf, seq, cmd, body, ← ntohl_toNat four, ← ntohs_toNat two, UInt32.ofNat_toNat,
    UInt16.ofNat_toNat]

theorem examine_frame {frame : List UInt8} (valid : ValidFrame frame) (rest : List UInt8) :
    examine (frame ++ rest) = .ok (.emit (packetOf frame) frame.length) := by
  have header : 15 ≤ frame.length := valid.header
  have size : headerSize = 15 := rfl
  have field : lengthField (frame ++ rest) = frame.length := by
    rw [lengthField, List.take_append_of_le_length (by omega), valid.length_field]
  have crc : (crcField (frame ++ rest)).toNat = (CRC32.calculate (frame.drop 5)).toNat := by
    have part : ((frame ++ rest).drop 5).take 4 = slice frame 5 4 := slice_append rest (by omega)
    rw [crcField, part, ntohl_toNat, valid.checksum]
    rw [slice, List.length_take, List.length_drop]
    omega
  have covered : ((frame ++ rest).drop 5).take (frame.length - 5) = frame.drop 5 := by
    rw [List.drop_append_of_le_length (by omega), List.take_left' (List.length_drop ..)]
  rw [examine_long (by rw [List.length_append]; omega), field, covered, packetAt_frame valid,
    UInt32.toNat_inj.mp crc]
  have inside : ¬ (frame.length < headerSize ∨ frame.length > maxPacketSize) := by
    have bounded := valid.bounded
    omega
  simp [inside]

theorem examine_cut {cut missing : List UInt8} (valid : ValidFrame (cut ++ missing)) (proper : missing ≠ []) :
    examine cut = .ok .wait := by
  by_cases enough : headerSize ≤ cut.length
  · have header : 15 ≤ cut.length := enough
    have field : lengthField cut = (cut ++ missing).length := by
      rw [← valid.length_field, lengthField, List.take_append_of_le_length (by omega)]
    have longer : cut.length < (cut ++ missing).length := by
      rw [List.length_append]
      exact Nat.lt_add_of_pos_right (List.length_pos_of_ne_nil proper)
    have inside : ¬ ((cut ++ missing).length < headerSize ∨ (cut ++ missing).length > maxPacketSize) := by
      have large := valid.header
      have bounded := valid.bounded
      omega
    rw [examine_long enough, field, if_neg inside, if_pos longer]
  · exact examine_short (Nat.lt_of_not_le enough)

theorem tryDecode_emit {buffer : List UInt8} {pkt : Packet} {totalLen : Nat}
    (round : examine buffer = .ok (.emit pkt totalLen)) :
    tryDecode buffer = .ok (some pkt, buffer.drop totalLen) := by
  cases buffer with
  | nil => cases round
  | cons b rest => rw [tryDecode, round]

theorem tryDecode_wait {buffer : List UInt8} (round : examine buffer = .ok .wait) :
    tryDecode buffer = .ok (none, buffer) := by
  cases buffer with
  | nil => rfl
  | cons b rest => rw [tryDecode, round]

/-- What one call takes off the buffer; losing bytes without a packet is the failure here. -/
def takePacket (buffer : List UInt8) : Except Unit (Option (Packet × List UInt8)) :=
  match tryDecode buffer with
  | .error _ => .error ()
  | .ok (none, kept) => if kept = buffer then .ok none else .error ()
  | .ok (some pkt, rest) => .ok (some (pkt, rest))

theorem decode_of_none {codec : Codec} {chunk : List UInt8}
    (waits : takePacket (codec.buffer ++ chunk) = .ok none) :
    decode codec chunk = .ok (none, ⟨codec.buffer ++ chunk⟩) := by
  rw [takePacket] at waits
  split at waits
  · cases waits
  · rename_i kept call
    split at waits
    · rename_i same
      rw [decode, call, same]
      rfl
    · cases waits
  · cases waits

theorem decode_of_some {codec : Codec} {chunk rest : List UInt8} {pkt : Packet}
    (found : takePacket (codec.buffer ++ chunk) = .ok (some (pkt, rest))) :
    decode codec chunk = .ok (some pkt, ⟨rest⟩) := by
  rw [takePacket] at found
  split at found
  · cases found
  · split at found <;> cases found
  · rename_i call
    cases found
    rw [decode, call]
    rfl

def framing : Framing Unit (List UInt8) UInt8 Packet where
  Valid := ValidFrame
  encode := id
  view := packetOf
  parse := takePacket
  parse_nil := rfl
  parse_encode frame rest valid := by
    have call := tryDecode_emit (examine_frame valid rest)
    rw [List.drop_left' rfl] at call
    rw [takePacket, id_eq, call]
  parse_partial frame cut missing valid split proper := by
    rw [id_eq] at split
    rw [takePacket, tryDecode_wait (examine_cut (split ▸ valid) proper)]
    exact if_pos rfl

theorem encodeAll_frames (frames : List (List UInt8)) : framing.encodeAll frames = frames.flatten :=
  List.flatMap_id ..

/-! ## Whole streams -/

/-- `buffer` is what is left of `frames`, once `done` of them have been returned, and the decoder waits. -/
structure Drained (frames done : List (List UInt8)) (buffer tail : List UInt8) : Prop where
  stream : ∃ left, frames = done ++ left ∧ buffer ++ tail = left.flatten
  waits : takePacket buffer = .ok none

theorem Drained.cons {frame : List UInt8} {frames done : List (List UInt8)} {buffer tail : List UInt8}
    (drained : Drained frames done buffer tail) : Drained (frame :: frames) (frame :: done) buffer tail where
  stream := by
    obtain ⟨left, rfl, behind⟩ := drained.stream
    exact ⟨left, rfl, behind⟩
  waits := drained.waits

theorem drain_stream {buffer tail : List UInt8} {frames : List (List UInt8)}
    (valid : ∀ frame ∈ frames, ValidFrame frame) (stream : buffer ++ tail = frames.flatten) (got : List Packet)
    {fuel : Nat} (enough : frames.length < fuel) :
    ∃ done rest, Drained frames done rest tail ∧
      loop drainBody fuel (⟨buffer⟩, got) = some (.ok (got ++ done.map packetOf, ⟨rest⟩)) := by
  induction fuel generalizing buffer frames got with
  | zero => cases enough
  | succ fuel ih =>
      rcases framing.parse_stream valid (stream.trans (encodeAll_frames frames).symm) with
        ⟨waits, -⟩ | ⟨frame, rest, frames, rfl, found, behind⟩
      · have call : decode ⟨buffer⟩ [] = .ok (none, ⟨buffer ++ []⟩) :=
          decode_of_none (by rw [List.append_nil]; exact waits)
        refine ⟨[], buffer, ⟨⟨frames, rfl, stream⟩, waits⟩, ?_⟩
        rw [loop, drainBody, call]
        simp
      · have call : decode ⟨buffer⟩ [] = .ok (some (packetOf frame), ⟨rest⟩) :=
          decode_of_some (by rw [List.append_nil]; exact found)
        rw [encodeAll_frames] at behind
        obtain ⟨done, kept, drained, ended⟩ := ih (fun other member => valid other (by simp [member])) behind
          (got ++ [packetOf frame]) (Nat.lt_of_succ_lt_succ enough)
        refine ⟨frame :: done, kept, drained.cons, ?_⟩
        rw [loop, drainBody, call]
        simpa using ended

theorem feed_stream {buffer chunk tail : List UInt8} {frames : List (List UInt8)}
    (valid : ∀ frame ∈ frames, ValidFrame frame) (stream : buffer ++ chunk ++ tail = frames.flatten)
    {fuel : Nat} (enough : frames.length < fuel) :
    ∃ done rest, Drained frames done rest tail ∧
      feed fuel ⟨buffer⟩ chunk = some (.ok (done.map packetOf, ⟨rest⟩)) := by
  rcases framing.parse_stream valid (stream.trans (encodeAll_frames frames).symm) with
    ⟨waits, -⟩ | ⟨frame, rest, frames, rfl, found, behind⟩
  · obtain ⟨done, rest, drained, ended⟩ := drain_stream valid stream [] enough
    refine ⟨done, rest, drained, ?_⟩
    rw [feed, decode_of_none waits]
    simpa using ended
  · have call : decode ⟨buffer⟩ chunk = .ok (some (packetOf frame), ⟨rest⟩) := decode_of_some found
    rw [encodeAll_frames] at behind
    obtain ⟨done, kept, drained, ended⟩ := drain_stream (fun other member => valid other (by simp [member])) behind
      [packetOf frame] (Nat.lt_of_succ_lt enough)
    refine ⟨frame :: done, kept, drained.cons, ?_⟩
    rw [feed, call]
    simpa using ended

theorem feedAll_drained {codec : Codec} {chunks : List (List UInt8)} {missing : List UInt8}
    {frames : List (List UInt8)} (valid : ∀ frame ∈ frames, ValidFrame frame)
    (stream : codec.buffer ++ chunks.flatten ++ missing = frames.flatten)
    (waits : takePacket codec.buffer = .ok none) {fuel : Nat} (enough : frames.length < fuel) :
    ∃ done rest, Drained frames done rest missing ∧
      feedAll fuel codec chunks = some (.ok (done.map packetOf, ⟨rest⟩)) := by
  induction chunks generalizing codec frames with
  | nil =>
      rw [List.flatten_nil, List.append_nil] at stream
      exact ⟨[], codec.buffer, ⟨⟨frames, rfl, stream⟩, waits⟩, rfl⟩
  | cons chunk chunks ih =>
      have first : codec.buffer ++ chunk ++ (chunks.flatten ++ missing) = frames.flatten := by
        simpa using stream
      obtain ⟨done, rest, drained, fed⟩ := feed_stream valid first enough
      obtain ⟨left, rfl, behind⟩ := drained.stream
      have fewer : left.length < fuel := by
        rw [List.length_append] at enough
        omega
      have later : (⟨rest⟩ : Codec).buffer ++ chunks.flatten ++ missing = left.flatten := by
        simpa using behind
      obtain ⟨more, last, drained', ended⟩ := ih (fun frame member => valid frame (by simp [member])) later
        drained.waits fewer
      obtain ⟨left', rfl, behind'⟩ := drained'.stream
      refine ⟨done ++ more, last, ⟨⟨left', by simp, behind'⟩, drained'.waits⟩, ?_⟩
      rw [feedAll, fed]
      simp only [ended]
      simp [Except.map]

theorem drained_last {frames done : List (List UInt8)} {cut missing buffer : List UInt8}
    (valid : ∀ frame ∈ frames, ValidFrame frame) (proper : missing ≠ [])
    (drained : Drained (frames ++ [cut ++ missing]) done buffer missing) : done = frames ∧ buffer = cut := by
  obtain ⟨left, split, behind⟩ := drained.stream
  rcases List.append_eq_append_iff.mp split with ⟨between, rfl, last⟩ | ⟨between, rfl, rfl⟩
  · cases between with
    | nil =>
        rw [List.nil_append] at last
        subst last
        exact ⟨List.append_nil _, by simpa using behind⟩
    | cons frame between =>
        have empty : left = [] := (List.append_eq_nil_iff.mp (List.cons.inj last).2.symm).2
        rw [empty, List.flatten_nil] at behind
        exact absurd (List.append_eq_nil_iff.mp behind).2 proper
  · cases between with
    | nil => exact ⟨(List.append_nil _).symm, by simpa using behind⟩
    | cons frame between =>
        have stream : buffer ++ missing = frame ++ (between.flatten ++ cut) ++ missing := by
          simpa using behind
        have whole := List.append_cancel_right stream
        have found := framing.parse_encode frame (between.flatten ++ cut) (valid frame (by simp))
        have waits := drained.waits
        rw [whole] at waits
        exact absurd (found.symm.trans waits) (by simp)

theorem feedAll_frames {frames : List (List UInt8)} (valid : ∀ frame ∈ frames, ValidFrame frame)
    {cut missing : List UInt8} (proper : missing ≠ []) (unfinished : ValidFrame (cut ++ missing))
    {chunks : List (List UInt8)} (stream : chunks.flatten = frames.flatten ++ cut) :
    ∃ n, ∀ fuel ≥ n, feedAll fuel {} chunks = some (.ok (frames.map packetOf, ⟨cut⟩)) := by
  refine ⟨frames.length + 2, fun fuel enough => ?_⟩
  have all : ∀ frame ∈ frames ++ [cut ++ missing], ValidFrame frame := by
    intro frame member
    rcases List.mem_append.mp member with earlier | last
    · exact valid frame earlier
    · rw [List.mem_singleton.mp last]
      exact unfinished
  have whole : ({} : Codec).buffer ++ chunks.flatten ++ missing = (frames ++ [cut ++ missing]).flatten := by
    simp [stream]
  have rounds : (frames ++ [cut ++ missing]).length < fuel := by
    rw [List.length_append]
    exact enough
  obtain ⟨done, rest, drained, ended⟩ := feedAll_drained all whole rfl rounds
  obtain ⟨rfl, rfl⟩ := drained_last valid proper drained
  exact ended

def survivor : List UInt8 := encode 4 [61, 228, 144, 50] 123

theorem survivor_valid : ValidFrame survivor :=
  ⟨by decide +kernel, by decide +kernel, by decide +kernel, by decide +kernel⟩

-- cut inside the length field, and again inside the checksum of a second frame that never ends
theorem feedAll_survivor :
    ∃ n, ∀ fuel ≥ n, feedAll fuel {} [survivor.take 3, survivor.drop 3 ++ survivor.take 2, [], (survivor.drop 2).take 5] =
      some (.ok ([⟨123, 4, [61, 228, 144, 50]⟩], ⟨survivor.take 7⟩)) := by
  have packet : [survivor].map packetOf = [⟨123, 4, [61, 228, 144, 50]⟩] := by decide +kernel
  have unfinished : ValidFrame (survivor.take 7 ++ survivor.drop 7) := by
    rw [List.take_append_drop]
    exact survivor_valid
  rw [← packet]
  exact feedAll_frames (by simpa using survivor_valid) (by decide +kernel) unfinished (by decide +kernel)

end Codec

end ServerFramework.Network
