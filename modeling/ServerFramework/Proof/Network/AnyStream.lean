import ServerFramework.Library.Scanning
import ServerFramework.Proof.Network.Recovery

namespace ServerFramework.Network
open Bytes Library

namespace Codec

/-! ## The decoder as a scanner -/

def finding (buffer : List UInt8) : Finding Packet :=
  match examine buffer with
  | .ok .wait => .wait
  | .ok .skip => .take 1 none
  | .ok (.emit pkt totalLen) => .take totalLen (some pkt)
  | .ok .clear | .error _ => .stop

theorem examine_append {buffer : List UInt8} (decided : examine buffer ≠ .ok .wait) (more : List UInt8) :
    examine (buffer ++ more) = examine buffer := by
  have size : headerSize = 15 := rfl
  have enough : headerSize ≤ buffer.length := by
    rw [← Nat.not_lt]
    exact fun short => decided (examine_short short)
  have field : lengthField (buffer ++ more) = lengthField buffer := by
    rw [lengthField, lengthField, List.take_append_of_le_length (by omega)]
  have crc : crcField (buffer ++ more) = crcField buffer := by
    have same : ((buffer ++ more).drop 5).take 4 = (buffer.drop 5).take 4 := slice_append more (by omega)
    rw [crcField, crcField, same]
  rw [examine_long enough] at decided ⊢
  rw [examine_long (by rw [List.length_append]; omega), field, crc]
  by_cases range : lengthField buffer < headerSize ∨ lengthField buffer > maxPacketSize
  · rw [if_pos range, if_pos range]
  · rw [if_neg range] at decided ⊢
    rw [if_neg range]
    have whole : lengthField buffer ≤ buffer.length := by
      by_contra missing
      exact decided (by rw [if_pos (Nat.lt_of_not_le missing)])
    have covered : ((buffer ++ more).drop 5).take (lengthField buffer - 5) = (buffer.drop 5).take (lengthField buffer - 5) :=
      slice_append more (by omega)
    have packet : packetAt (buffer ++ more) (lengthField buffer) = packetAt buffer (lengthField buffer) := by
      have seq : ((buffer ++ more).drop 9).take 4 = (buffer.drop 9).take 4 := slice_append more (by omega)
      have cmd : ((buffer ++ more).drop 13).take 2 = (buffer.drop 13).take 2 := slice_append more (by omega)
      have data : ((buffer ++ more).drop headerSize).take (lengthField buffer - headerSize) =
          (buffer.drop headerSize).take (lengthField buffer - headerSize) := slice_append more (by omega)
      rw [packetAt, packetAt, seq, cmd, data]
    rw [if_neg (Nat.not_lt.mpr whole), if_neg (by rw [List.length_append]; omega), covered, packet]

theorem finding_wait_iff {buffer : List UInt8} : finding buffer = .wait ↔ examine buffer = .ok .wait := by
  obtain ⟨verdict, round⟩ := examine_total buffer
  rw [finding, round]
  cases verdict <;> simp

def scanner : Scanner UInt8 Packet where
  find := finding
  stable buffer more decided := by
    rw [ne_eq, finding_wait_iff] at decided
    rw [finding, finding, examine_append decided]
  inside buffer count token found := by
    obtain ⟨verdict, round⟩ := examine_total buffer
    rw [finding, round] at found
    cases verdict with
    | wait | clear => cases found
    | skip =>
        cases found
        obtain ⟨large, -, inside⟩ := skip_length round
        have size : headerSize = 15 := rfl
        omega
    | emit pkt totalLen =>
        cases found
        have frame := frameAt_of_emit round
        have inside := frame.inside
        have large : 15 ≤ count := frame.header
        omega

/-- The packets of a byte stream up to the first frame position whose length is out of range, and what the decoder
waits with, when there is no such position. -/
abbrev Scan : List UInt8 → List Packet → Option (List UInt8) → Prop := scanner.Scan

/-! ## Draining -/

theorem decode_nil (buffer : List UInt8) : decode ⟨buffer⟩ [] = (tryDecode buffer).map fun (pkt, rest) => (pkt, ⟨rest⟩) := by
  rw [decode, List.append_nil]
  cases tryDecode buffer <;> rfl

theorem drainBody_kept {buffer rest : List UInt8} (call : tryDecode buffer = .ok (none, rest)) (got : List Packet) :
    drainBody (⟨buffer⟩, got) = .inr (.ok (got, ⟨rest⟩)) := by
  rw [drainBody, decode_nil, call]
  rfl

theorem drainBody_emit {buffer rest : List UInt8} {pkt : Packet} (call : tryDecode buffer = .ok (some pkt, rest))
    (got : List Packet) : drainBody (⟨buffer⟩, got) = .inl (⟨rest⟩, got ++ [pkt]) := by
  rw [drainBody, decode_nil, call]
  rfl

theorem drainBody_congr {buffer other : List UInt8} (same : tryDecode buffer = tryDecode other) (got : List Packet) :
    drainBody (⟨buffer⟩, got) = drainBody (⟨other⟩, got) := by
  rw [drainBody, drainBody, decode_nil, decode_nil, same]

theorem loop_scan {buffer : List UInt8} {pkts : List Packet} {kept : Option (List UInt8)} (scan : Scan buffer pkts kept) :
    ∃ n, ∀ fuel ≥ n, ∀ got, loop drainBody fuel (⟨buffer⟩, got) = some (.ok (got ++ pkts, ⟨kept.getD []⟩)) := by
  induction scan with
  | @wait buffer found =>
      refine ⟨1, fun fuel enough got => ?_⟩
      obtain ⟨fuel, rfl⟩ : ∃ m, fuel = m + 1 := ⟨fuel - 1, by omega⟩
      rw [loop, drainBody_kept (tryDecode_wait (finding_wait_iff.mp found))]
      simp
  | @stop buffer found =>
      refine ⟨1, fun fuel enough got => ?_⟩
      obtain ⟨fuel, rfl⟩ : ∃ m, fuel = m + 1 := ⟨fuel - 1, by omega⟩
      obtain ⟨verdict, round⟩ := examine_total buffer
      rw [show scanner.find buffer = finding buffer from rfl, finding, round] at found
      cases verdict with
      | clear =>
          rw [loop, drainBody_kept (tryDecode_clear round)]
          simp
      | wait | skip | emit => cases found
  | @take buffer count token pkts kept found _ ih =>
      obtain ⟨n, drains⟩ := ih
      refine ⟨n + 1, fun fuel enough got => ?_⟩
      obtain ⟨fuel, rfl⟩ : ∃ m, fuel = m + 1 := ⟨fuel - 1, by omega⟩
      obtain ⟨verdict, round⟩ := examine_total buffer
      rw [show scanner.find buffer = finding buffer from rfl, finding, round] at found
      cases verdict with
      | wait | clear => cases found
      | skip =>
          cases found
          have same := drains (fuel + 1) (by omega) got
          rw [loop, ← drainBody_congr (tryDecode_skip round)] at same
          rw [loop]
          exact same
      | emit pkt totalLen =>
          cases found
          have rest := drains fuel (by omega) (got ++ [pkt])
          rw [loop, drainBody_emit (tryDecode_emit round)]
          simpa using rest

theorem feed_loop (buffer chunk : List UInt8) {fuel : Nat} (positive : 0 < fuel) :
    feed fuel ⟨buffer⟩ chunk = loop drainBody (fuel + 1) (⟨buffer ++ chunk⟩, []) := by
  rw [feed, decode, loop, drainBody, decode_nil]
  rcases call : tryDecode (buffer ++ chunk) with fault | ⟨found, rest⟩
  · rfl
  · cases found with
    | some pkt => rfl
    | none =>
        obtain ⟨fuel, rfl⟩ : ∃ m, fuel = m + 1 := ⟨fuel - 1, by omega⟩
        have again : loop drainBody (fuel + 1) (⟨rest⟩, []) = some (.ok ([], ⟨rest⟩)) := by
          rw [loop, drainBody_kept (tryDecode_kept call)]
        exact again

theorem feed_scan {buffer chunk : List UInt8} {pkts : List Packet} {kept : Option (List UInt8)}
    (scan : Scan (buffer ++ chunk) pkts kept) :
    ∃ n, ∀ fuel ≥ n, feed fuel ⟨buffer⟩ chunk = some (.ok (pkts, ⟨kept.getD []⟩)) := by
  obtain ⟨n, drains⟩ := loop_scan scan
  refine ⟨n + 1, fun fuel enough => ?_⟩
  rw [feed_loop buffer chunk (by omega), drains (fuel + 1) (by omega), List.nil_append]

/-! ## A stream in chunks -/

theorem wait_short {buffer : List UInt8} (found : finding buffer = .wait) : buffer.length < maxPacketSize := by
  have large : headerSize < maxPacketSize := by decide
  by_cases enough : headerSize ≤ buffer.length
  · rw [finding_wait_iff, examine_long enough] at found
    split_ifs at found with range missing checksum
    · cases found
    · omega
    · cases found
    · cases found
  · omega

theorem finding_nil : finding [] = .wait := rfl

theorem kept_waits {buffer : List UInt8} {pkts : List Packet} {kept : Option (List UInt8)} (scan : Scan buffer pkts kept) :
    finding (kept.getD []) = .wait := by
  cases kept with
  | none => rfl
  | some rest => exact scan.waits rfl

theorem feedAll_scan {buffer : List UInt8} (waits : finding buffer = .wait) (chunks : List (List UInt8))
    {pkts : List Packet} {kept : Option (List UInt8)} (scan : Scan (buffer ++ chunks.flatten) pkts kept) :
    ∃ n got last, (∀ fuel ≥ n, feedAll fuel ⟨buffer⟩ chunks = some (.ok (got, last))) ∧ pkts <+: got ∧
      last.buffer.length < maxPacketSize ∧ ∀ rest, kept = some rest → got = pkts ∧ last.buffer = rest := by
  induction chunks generalizing buffer pkts kept with
  | nil =>
      rw [List.flatten_nil, List.append_nil] at scan
      obtain ⟨rfl, rfl⟩ := scan.of_wait waits
      refine ⟨0, [], ⟨buffer⟩, fun _ _ => rfl, List.prefix_rfl, wait_short waits, ?_⟩
      rintro rest ⟨⟩
      exact ⟨rfl, rfl⟩
  | cons chunk chunks ih =>
      obtain ⟨first, between, front⟩ := scanner.exists_scan (buffer ++ chunk)
      obtain ⟨n, fed⟩ := feed_scan front
      obtain ⟨later, kept', back⟩ := scanner.exists_scan (between.getD [] ++ chunks.flatten)
      obtain ⟨m, got, last, ended, grows, short, whole⟩ := ih (kept_waits front) back
      rw [List.flatten_cons, ← List.append_assoc] at scan
      refine ⟨max n m, first ++ got, last, fun fuel enough => ?_, ?_, short, ?_⟩
      · rw [feedAll, fed fuel (Nat.le_trans (Nat.le_max_left n m) enough)]
        simp only [ended fuel (Nat.le_trans (Nat.le_max_right n m) enough)]
        rfl
      · cases between with
        | none =>
            obtain ⟨rfl, -⟩ := scan.unique ((front.append chunks.flatten).1 rfl)
            exact List.prefix_append _ _
        | some rest =>
            obtain ⟨rfl, -⟩ := scan.unique ((front.append chunks.flatten).2 rest rfl later kept' back)
            exact (List.prefix_append_right_inj first).mpr grows
      · rintro rest rfl
        cases between with
        | none =>
            obtain ⟨-, same⟩ := scan.unique ((front.append chunks.flatten).1 rfl)
            cases same
        | some middle =>
            obtain ⟨rfl, same⟩ := scan.unique ((front.append chunks.flatten).2 middle rfl later kept' back)
            obtain ⟨rfl, left⟩ := whole rest same.symm
            exact ⟨rfl, left⟩

/-- Whatever bytes arrive, all chunkings give the same packets up to the first frame position with a length out of
range, and where there is none the same packets and the same rest; the decoder never holds as much as the largest
packet. -/
theorem decoder_on_any_stream (stream : List UInt8) :
    ∃ pkts kept, Scan stream pkts kept ∧ ∀ chunks : List (List UInt8), chunks.flatten = stream →
      ∃ n got last, (∀ fuel ≥ n, feedAll fuel {} chunks = some (.ok (got, last))) ∧ pkts <+: got ∧
        last.buffer.length < maxPacketSize ∧ ∀ rest, kept = some rest → got = pkts ∧ last.buffer = rest := by
  obtain ⟨pkts, kept, scan⟩ := scanner.exists_scan stream
  refine ⟨pkts, kept, scan, fun chunks same => ?_⟩
  exact feedAll_scan finding_nil chunks (by rwa [List.nil_append, same])

end Codec

end ServerFramework.Network
