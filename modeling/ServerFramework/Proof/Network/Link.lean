import ServerFramework.Library.Runs
import ServerFramework.Proof.Network.Loops

namespace ServerFramework.Tcp
open Protocol Library

section
variable {μ : Type} {F : Framing Fault Packet UInt8 μ}
  {writeLoop : WriteSide → WriteAction → Option (WriteSide × List UInt8)}
  {readLoop : ReadSide μ → List UInt8 → ReadAction → Option (ReadSide μ × List UInt8)}

/-- The packets split into those delivered and those whose frames are still on the way: in
`read_buf_`, on the channel, or `lost`, which is exactly what the sender holds while no send failed. -/
def Link.Conserved (F : Framing Fault Packet UInt8 μ) (s : Link μ) : Prop :=
  ∃ done todo lost, s.enqueued = done ++ todo ∧ s.reader.delivered = done.map F.view ∧
    s.reader.readBuf ++ (s.channel ++ lost) = F.encodeAll todo ∧
    (s.writer.sendFailed = false → lost = s.writer.unsent)

structure Link.Invariant (F : Framing Fault Packet UInt8 μ) (s : Link μ) : Prop where
  valid : ∀ pkt ∈ s.enqueued, F.Valid pkt
  halted : s.writer.Halted
  running : s.reader.phase ≠ .crashed
  settled : s.reader.phase ≠ .parsing → F.parse s.reader.readBuf = .ok none
  conserved : s.Conserved F

theorem initial_invariant : Link.Invariant F ({} : Link μ) where
  valid := by simp
  halted := by simp [WriteSide.Halted]
  running := by simp
  settled _ := F.parse_nil
  conserved := ⟨[], [], [], rfl, rfl, rfl, fun _ => rfl⟩

theorem enqueue_invariant {s : Link μ} {pkt : Packet} (encodes : F.encode = encode)
    (valid : F.Valid pkt) (inv : s.Invariant F) :
    Link.Invariant F { s with enqueued := s.enqueued ++ [pkt], writer := s.writer.push pkt } where
  valid := by
    intro other member
    rcases List.mem_append.mp member with old | new
    · exact inv.valid other old
    · rw [List.mem_singleton.mp new]
      exact valid
  halted := inv.halted
  running := inv.running
  settled := inv.settled
  conserved := by
    obtain ⟨done, todo, lost, split, delivered, stream, unsent⟩ := inv.conserved
    refine ⟨done, todo ++ [pkt], lost ++ encode pkt, by simp [split], delivered, ?_, fun clean => ?_⟩
    · rw [F.encodeAll_append, ← stream]
      simp [encodes, List.append_assoc]
    · rw [unsent clean]
      simp [WriteSide.push, WriteSide.unsent, WriteSide.current, List.append_assoc]

theorem closeWriter_invariant {s : Link μ} (inv : s.Invariant F) :
    Link.Invariant F { s with writer := { s.writer with alive := false } } :=
  { inv with
    halted := fun failed => (inv.halted failed).imp id fun h => ⟨h.1, rfl⟩ }

theorem write_invariant {s : Link μ} {w : WriteSide} {out : List UInt8}
    (moves : Moves s.writer out w) (inv : s.Invariant F) :
    Link.Invariant F { s with writer := w, channel := s.channel ++ out } where
  valid := inv.valid
  halted := moves.halted
  running := inv.running
  settled := inv.settled
  conserved := by
    obtain ⟨done, todo, lost, split, delivered, stream, unsent⟩ := inv.conserved
    cases failed : w.sendFailed with
    | false =>
        refine ⟨done, todo, w.unsent, split, delivered, ?_, fun _ => rfl⟩
        rw [← stream, unsent (moves.clean failed), moves.conserved failed]
        simp [List.append_assoc]
    | true =>
        refine ⟨done, todo, lost, split, delivered, ?_, fun clean => ?_⟩
        · simpa [moves.silent failed] using stream
        · rw [failed] at clean
          cases clean

theorem parse_invariant {s : Link μ} (inv : s.Invariant F) :
    Link.Invariant F { s with reader := s.reader.parsed (F.parse s.reader.readBuf) } := by
  obtain ⟨done, todo, lost, split, delivered, stream, unsent⟩ := inv.conserved
  have valid : ∀ pkt ∈ todo, F.Valid pkt := fun pkt member => inv.valid pkt (by simp [split, member])
  rcases F.parse_stream valid stream with ⟨waits, -⟩ | ⟨pkt, rest, todo', rfl, takes, stream'⟩
  · rw [waits]
    exact { inv with
      running := by simp [ReadSide.parsed]
      settled := fun _ => waits
      conserved := ⟨done, todo, lost, split, delivered, stream, unsent⟩ }
  · rw [takes]
    exact { inv with
      settled := fun phase => by
        have none := inv.settled phase
        rw [takes] at none
        cases none
      conserved := by
        refine ⟨done ++ [pkt], todo', lost, by simp [split], ?_, stream', unsent⟩
        simp [ReadSide.parsed, delivered] }

theorem read_invariant (law : ReadLaw F readLoop) {s : Link μ} {action : ReadAction}
    {r : ReadSide μ} {channel : List UInt8}
    (step : readLoop s.reader s.channel action = some (r, channel)) (inv : s.Invariant F) :
    Link.Invariant F { s with reader := r, channel := channel } := by
  rcases law.cases _ _ _ _ _ step with ⟨-, rfl, rfl⟩ | ⟨parsing, same, moved⟩ |
    ⟨phase, phase', alive, buffer, same, rfl⟩
  · exact parse_invariant inv
  · obtain ⟨done, todo, lost, split, delivered, stream, unsent⟩ := inv.conserved
    refine { inv with running := by simp [parsing], settled := fun h => absurd parsing h, conserved := ?_ }
    refine ⟨done, todo, lost, split, by rw [same, delivered], ?_, unsent⟩
    rw [← List.append_assoc, moved, List.append_assoc]
    exact stream
  · obtain ⟨done, todo, lost, split, delivered, stream, unsent⟩ := inv.conserved
    refine { inv with running := alive, settled := fun _ => ?_, conserved := ?_ }
    · rw [buffer]
      exact inv.settled phase
    · exact ⟨done, todo, lost, split, by rw [same, delivered], by rw [buffer]; exact stream, unsent⟩

def Encodable (F : Framing Fault Packet UInt8 μ) (action : LinkAction) : Prop :=
  ∀ pkt, action = .enqueue pkt → F.Valid pkt

theorem step_invariant (encodes : F.encode = encode) (write : WriteLaw writeLoop)
    (read : ReadLaw F readLoop) (s : Link μ) (action : LinkAction) (t : Link μ)
    (step : Link.step writeLoop readLoop s action = some t) (allowed : Encodable F action)
    (inv : s.Invariant F) : t.Invariant F := by
  cases action with
  | enqueue pkt =>
      obtain rfl := by simpa [Link.step] using step
      exact enqueue_invariant encodes (allowed pkt rfl) inv
  | closeWriter =>
      obtain rfl := by simpa [Link.step] using step
      exact closeWriter_invariant inv
  | closeReader =>
      obtain rfl := by simpa [Link.step] using step
      exact { inv with conserved := inv.conserved }
  | write action =>
      obtain ⟨⟨w, out⟩, moved, rfl⟩ := Option.map_eq_some_iff.mp step
      exact write_invariant (write _ _ _ _ moved inv.halted) inv
  | read action =>
      obtain ⟨⟨r, channel⟩, moved, rfl⟩ := Option.map_eq_some_iff.mp step
      exact read_invariant read moved inv

/-! ## Delivery -/

def Link.Drained (s : Link μ) : Prop :=
  s.writer.sendFailed = false ∧ s.writer.writeQueue = [] ∧ s.writer.current = [] ∧ s.channel = []

/-- The messages handed over are a prefix of the packets enqueued. Once everything has left the
sender and the channel without a send error they are all of them and `read_buf_` is empty, as soon as
the read loop has left its parsing loop, which it does by itself. -/
structure Link.Faithful (step : Link μ → LinkAction → Option (Link μ)) (view : Packet → μ)
    (s : Link μ) : Prop where
  defined : s.reader.phase ≠ .crashed
  delivered_prefix : s.reader.delivered <+: s.enqueued.map view
  complete : s.Drained → s.reader.phase ≠ .parsing →
    s.reader.delivered = s.enqueued.map view ∧ s.reader.readBuf = []
  completes : s.Drained → ∃ n t, exec step s (List.replicate n (.read .run)) = some t ∧
    t.reader.phase ≠ .parsing ∧ t.enqueued = s.enqueued ∧
    t.reader.delivered = s.enqueued.map view ∧ t.reader.readBuf = []

theorem complete_of_settled {s : Link μ} (inv : s.Invariant F) (drained : s.Drained)
    (settled : F.parse s.reader.readBuf = .ok none) :
    s.reader.delivered = s.enqueued.map F.view ∧ s.reader.readBuf = [] := by
  obtain ⟨clean, queue, current, channel⟩ := drained
  obtain ⟨done, todo, lost, split, delivered, stream, unsent⟩ := inv.conserved
  have nothing : lost = [] := by simp [unsent clean, WriteSide.unsent, queue, current]
  have valid : ∀ pkt ∈ todo, F.Valid pkt := fun pkt member => inv.valid pkt (by simp [split, member])
  rcases F.parse_stream valid stream with ⟨-, finished⟩ | ⟨pkt, rest, todo', -, takes, -⟩
  · obtain ⟨rfl, empty⟩ := finished (by simp [channel, nothing])
    exact ⟨by simp [delivered, split], empty⟩
  · rw [settled] at takes
    cases takes

theorem drains (read : ReadLaw F readLoop) {s : Link μ} (inv : s.Invariant F) (drained : s.Drained)
    (parsing : s.reader.phase = .parsing) :
    ∃ n t, exec (Link.step writeLoop readLoop) s (List.replicate n (.read .run)) = some t ∧
      t.reader.phase ≠ .parsing ∧ t.enqueued = s.enqueued ∧
      t.reader.delivered = s.enqueued.map F.view ∧ t.reader.readBuf = [] := by
  generalize size : s.enqueued.length - s.reader.delivered.length = remaining
  induction remaining using Nat.strongRecOn generalizing s with
  | ind remaining ih =>
      have first : Link.step writeLoop readLoop s (.read .run) =
          some { s with reader := s.reader.parsed (F.parse s.reader.readBuf) } := by
        simp only [Link.step, read.parse _ _ parsing, Option.map_some]
      have next := parse_invariant inv
      obtain ⟨done, todo, lost, split, delivered, stream, unsent⟩ := inv.conserved
      have valid : ∀ pkt ∈ todo, F.Valid pkt :=
        fun pkt member => inv.valid pkt (by simp [split, member])
      rcases F.parse_stream valid stream with ⟨waits, -⟩ | ⟨pkt, rest, todo', rfl, takes, -⟩
      · rw [waits] at first next
        exact ⟨1, _, exec_cons.mpr ⟨_, first, rfl⟩, by simp [ReadSide.parsed], rfl,
          complete_of_settled next drained waits⟩
      · rw [takes] at first next
        have fewer : s.enqueued.length - (s.reader.delivered ++ [F.view pkt]).length < remaining := by
          rw [← size, delivered, split]
          simp
          omega
        obtain ⟨n, t, run, facts⟩ := ih _ fewer next drained parsing rfl
        exact ⟨n + 1, t, exec_cons.mpr ⟨_, first, run⟩, facts⟩

theorem faithful_of_run (encodes : F.encode = encode) (write : WriteLaw writeLoop)
    (read : ReadLaw F readLoop) {actions : List LinkAction} {s : Link μ}
    (run : exec (Link.step writeLoop readLoop) {} actions = some s)
    (allowed : ∀ action ∈ actions, Encodable F action) :
    s.Faithful (Link.step writeLoop readLoop) F.view := by
  have inv : s.Invariant F := exec_invariant_of_respects
    (step_invariant encodes write read) run (respects_of_forall allowed _) initial_invariant
  refine ⟨inv.running, ?_, fun drained settled => ?_, fun drained => ?_⟩
  · obtain ⟨done, todo, lost, split, delivered, -, -⟩ := inv.conserved
    rw [delivered, split, List.map_append]
    exact List.prefix_append _ _
  · exact complete_of_settled inv drained (inv.settled settled)
  · by_cases parsing : s.reader.phase = .parsing
    · exact drains read inv drained parsing
    · exact ⟨0, s, rfl, parsing, rfl, complete_of_settled inv drained (inv.settled parsing)⟩

end

theorem framing_end_to_end (actions : List LinkAction)
    (small : ∀ pkt, .enqueue pkt ∈ actions → (encode pkt).length < 2 ^ 31) :
    (∀ s, exec serverToClient {} actions = some s → s.Faithful serverToClient Packet.data) ∧
    (∀ s, exec clientToServer {} actions = some s → s.Faithful clientToServer id) := by
  constructor
  · intro s run
    refine faithful_of_run (F := messageFraming) rfl connection_writeLaw client_readLaw run ?_
    rintro action member pkt rfl
    exact small pkt member
  · intro s run
    refine faithful_of_run (F := packetFraming) rfl client_writeLaw connection_readLaw run ?_
    rintro action member pkt rfl
    exact small pkt member

-- The second packet is enqueued behind the first one's pop. Its first two bytes arrive in a chunk with the last six of
-- the first frame, and the rest behind the first delivery.
def splitDelivery : List LinkAction :=
  [.enqueue ⟨4, [104, 105]⟩, .write .run, .write .run, .enqueue ⟨5, [7]⟩, .write .run, .write (.send (.sent 3)),
    .read .run, .read (.recv (.chunk 2)), .read .run, .write (.send (.sent 5)), .write .run, .write .run, .write .run,
    .write (.send (.sent 4)), .read .run, .read (.recv (.chunk 8)), .read .run, .read .run, .write (.send (.sent 3)),
    .read .run, .read (.recv (.chunk 5)), .read .run, .read .run]

theorem splitDelivery_delivers :
    (∃ s, exec serverToClient {} splitDelivery = some s ∧ s.Faithful serverToClient Packet.data ∧
      s.reader.delivered = [[104, 105], [7]] ∧ s.reader.readBuf = []) ∧
    ∃ s, exec clientToServer {} splitDelivery = some s ∧ s.Faithful clientToServer id ∧
      s.reader.delivered = [⟨4, [104, 105]⟩, ⟨5, [7]⟩] ∧ s.reader.readBuf = [] := by
  have small : ∀ pkt, .enqueue pkt ∈ splitDelivery → (encode pkt).length < 2 ^ 31 := by
    intro pkt member
    have either : pkt = ⟨4, [104, 105]⟩ ∨ pkt = ⟨5, [7]⟩ := by simpa [splitDelivery] using member
    rcases either with rfl | rfl
    · rw [encode_length]
      decide
    · rw [encode_length]
      decide
  obtain ⟨client, server⟩ := framing_end_to_end splitDelivery small
  exact ⟨⟨_, rfl, client _ rfl, rfl, rfl⟩, _, rfl, server _ rfl, rfl, rfl⟩

end ServerFramework.Tcp
