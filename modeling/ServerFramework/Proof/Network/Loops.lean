import ServerFramework.Network.Link
import ServerFramework.Proof.Network.Parsers

namespace ServerFramework.Tcp
open Protocol Library

def WriteSide.unsent (w : WriteSide) : List UInt8 := w.current ++ w.writeQueue.flatten

def WriteSide.Halted (w : WriteSide) : Prop :=
  w.sendFailed = true → w.phase = .finished ∨ (w.phase = .top ∧ w.alive = false)

/-- From `w` to `w'` with `out` put on the channel: no byte is lost before a send fails, and none is
sent from then on. -/
structure Moves (w : WriteSide) (out : List UInt8) (w' : WriteSide) : Prop where
  halted : w'.Halted
  clean : w'.sendFailed = false → w.sendFailed = false
  conserved : w'.sendFailed = false → w.unsent = out ++ w'.unsent
  silent : w'.sendFailed = true → out = []

def WriteLaw (writeLoop : WriteSide → WriteAction → Option (WriteSide × List UInt8)) : Prop :=
  ∀ w action w' out, writeLoop w action = some (w', out) → w.Halted → Moves w out w'

theorem WriteSide.Halted.running {w : WriteSide} (halted : w.Halted) (top : w.phase ≠ .top)
    (finished : w.phase ≠ .finished) : w.sendFailed = false := by
  cases failed : w.sendFailed with
  | false => rfl
  | true =>
      rcases halted failed with done | ⟨start, -⟩
      · exact absurd done finished
      · exact absurd start top

theorem check_moves {w : WriteSide} (halted : w.Halted) (top : w.phase = .top) :
    Moves w [] w.check := by
  have same : w.check.unsent = w.unsent := by
    cases live : w.alive <;> simp [WriteSide.check, WriteSide.unsent, WriteSide.current, top, live]
  refine ⟨fun failed => ?_, id, fun _ => same.symm, fun _ => rfl⟩
  rcases halted failed with done | ⟨-, dead⟩
  · rw [top] at done
    cases done
  · exact Or.inl (by simp [WriteSide.check, dead])

theorem quiet_moves {w w' : WriteSide} (clean : w.sendFailed = false) (still : w'.sendFailed = false)
    (same : w.unsent = w'.unsent) : Moves w [] w' where
  halted failed := absurd (still.symm.trans failed) Bool.false_ne_true
  clean _ := clean
  conserved _ := same
  silent _ := rfl

theorem take_moves {w : WriteSide} (halted : w.Halted) (waiting : w.phase = .waiting) :
    Moves w [] w.take := by
  have clean := halted.running (by simp [waiting]) (by simp [waiting])
  cases queue : w.writeQueue with
  | nil =>
      apply quiet_moves clean
      · simp [WriteSide.take, queue, clean]
      · cases live : w.alive <;>
          simp [WriteSide.take, WriteSide.unsent, WriteSide.current, queue, waiting, live]
  | cons msg rest =>
      apply quiet_moves clean
      · simp [WriteSide.take, queue, clean]
      · simp [WriteSide.take, WriteSide.unsent, WriteSide.current, queue, waiting]

theorem skip_moves {w : WriteSide} (halted : w.Halted) (holding : w.phase = .holding []) :
    Moves w [] { w with phase := .top } := by
  have clean := halted.running (by simp [holding]) (by simp [holding])
  apply quiet_moves clean
  · exact clean
  · simp [WriteSide.unsent, WriteSide.current, holding]

theorem begin_moves {w : WriteSide} {msg : List UInt8} (halted : w.Halted)
    (holding : w.phase = .holding msg) : Moves w [] { w with phase := .sending msg 0 } := by
  have clean := halted.running (by simp [holding]) (by simp [holding])
  apply quiet_moves clean
  · exact clean
  · simp [WriteSide.unsent, WriteSide.current, holding]

theorem advance_moves {w : WriteSide} {msg : List UInt8} {sent : Nat} (halted : w.Halted)
    (sending : w.phase = .sending msg sent) (n : Nat) :
    Moves w ((msg.drop sent).take n) (w.advance msg (sent + n)) := by
  have clean := halted.running (by simp [sending]) (by simp [sending])
  have rest : msg.drop sent = (msg.drop sent).take n ++ msg.drop (sent + n) := by
    rw [← List.drop_drop, List.take_append_drop]
  have current : (w.advance msg (sent + n)).current = msg.drop (sent + n) := by
    unfold WriteSide.advance WriteSide.current
    by_cases more : sent + n < msg.length
    · simp [more]
    · simp [more, List.drop_eq_nil_of_le (Nat.le_of_not_lt more)]
  refine ⟨?_, fun _ => clean, fun _ => ?_, fun failed => ?_⟩
  · simp [WriteSide.Halted, WriteSide.advance, clean]
  · rw [WriteSide.unsent, WriteSide.unsent, current, ← List.append_assoc, ← rest]
    simp [WriteSide.current, sending, WriteSide.advance]
  · simp [WriteSide.advance, clean] at failed

theorem fail_moves {w w' : WriteSide} (failed : w'.sendFailed = true) (halted : w'.Halted) :
    Moves w [] w' where
  halted := halted
  clean := by simp [failed]
  conserved := by simp [failed]
  silent _ := rfl

theorem connection_writeLaw : WriteLaw TcpConnection.writeLoop := by
  intro w action w' out step halted
  cases action with
  | run =>
      cases phase : w.phase with
      | top =>
          obtain ⟨rfl, rfl⟩ := by simpa [TcpConnection.writeLoop, phase] using step
          exact check_moves halted phase
      | waiting =>
          obtain ⟨rfl, rfl⟩ := by simpa [TcpConnection.writeLoop, phase] using step
          exact take_moves halted phase
      | holding msg =>
          simp only [TcpConnection.writeLoop, phase] at step
          split_ifs at step with empty live
          · obtain ⟨rfl, rfl⟩ := by simpa using step
            rw [List.isEmpty_iff.mp empty] at phase
            exact skip_moves halted phase
          · obtain ⟨rfl, rfl⟩ := by simpa using step
            exact begin_moves halted phase
          · obtain ⟨rfl, rfl⟩ := by simpa using step
            exact fail_moves rfl fun _ => Or.inl rfl
      | sending msg sent => simp [TcpConnection.writeLoop, phase] at step
      | finished => simp [TcpConnection.writeLoop, phase] at step
  | send result =>
      cases phase : w.phase with
      | sending msg sent =>
          cases result with
          | sent n =>
              simp only [TcpConnection.writeLoop, phase] at step
              split_ifs at step
              obtain ⟨rfl, rfl⟩ := by simpa using step
              exact advance_moves halted phase n
          | error e =>
              cases e with
              | eintr =>
                  obtain ⟨rfl, rfl⟩ := by simpa [TcpConnection.writeLoop, phase] using step
                  exact ⟨halted, id, fun _ => rfl, fun _ => rfl⟩
              | zero | eagain | other =>
                  obtain ⟨rfl, rfl⟩ := by simpa [TcpConnection.writeLoop, phase] using step
                  exact fail_moves rfl fun _ => Or.inl rfl
      | top | waiting | holding msg | finished => simp [TcpConnection.writeLoop, phase] at step

theorem client_writeLaw : WriteLaw TcpClient.writeLoop := by
  intro w action w' out step halted
  cases action with
  | run =>
      cases phase : w.phase with
      | top =>
          obtain ⟨rfl, rfl⟩ := by simpa [TcpClient.writeLoop, phase] using step
          exact check_moves halted phase
      | waiting =>
          obtain ⟨rfl, rfl⟩ := by simpa [TcpClient.writeLoop, phase] using step
          exact take_moves halted phase
      | holding msg =>
          simp only [TcpClient.writeLoop, phase] at step
          split_ifs at step with empty
          · obtain ⟨rfl, rfl⟩ := by simpa using step
            rw [List.isEmpty_iff.mp empty] at phase
            exact skip_moves halted phase
          · obtain ⟨rfl, rfl⟩ := by simpa using step
            exact begin_moves halted phase
      | sending msg sent => simp [TcpClient.writeLoop, phase] at step
      | finished => simp [TcpClient.writeLoop, phase] at step
  | send result =>
      cases phase : w.phase with
      | sending msg sent =>
          cases result with
          | sent n =>
              cases n with
              | zero =>
                  obtain ⟨rfl, rfl⟩ := by simpa [TcpClient.writeLoop, phase] using step
                  exact fail_moves rfl fun _ => Or.inr ⟨rfl, rfl⟩
              | succ n =>
                  simp only [TcpClient.writeLoop, phase] at step
                  split_ifs at step
                  obtain ⟨rfl, rfl⟩ := by simpa using step
                  exact advance_moves halted phase (n + 1)
          | error e =>
              obtain ⟨rfl, rfl⟩ := by simpa [TcpClient.writeLoop, phase] using step
              exact fail_moves rfl fun _ => Or.inr ⟨rfl, rfl⟩
      | top | waiting | holding msg | finished => simp [TcpClient.writeLoop, phase] at step

/-! ## Read loops -/

structure ReadLaw {μ : Type} (F : Framing Fault Packet UInt8 μ)
    (readLoop : ReadSide μ → List UInt8 → ReadAction → Option (ReadSide μ × List UInt8)) : Prop where
  parse : ∀ r channel, r.phase = .parsing →
    readLoop r channel .run = some (r.parsed (F.parse r.readBuf), channel)
  cases : ∀ r channel action r' channel', readLoop r channel action = some (r', channel') →
    (r.phase = .parsing ∧ r' = r.parsed (F.parse r.readBuf) ∧ channel' = channel) ∨
    (r'.phase = .parsing ∧ r'.delivered = r.delivered ∧
      r'.readBuf ++ channel' = r.readBuf ++ channel) ∨
    (r.phase ≠ .parsing ∧ r'.phase ≠ .parsing ∧ r'.phase ≠ .crashed ∧ r'.readBuf = r.readBuf ∧
      r'.delivered = r.delivered ∧ channel' = channel)

theorem receive_eq {μ : Type} {r r' : ReadSide μ} {channel channel' : List UInt8} {n : Nat}
    (step : r.receive channel n = some (r', channel')) :
    r'.phase = .parsing ∧ r'.delivered = r.delivered ∧ r'.readBuf ++ channel' = r.readBuf ++ channel := by
  unfold ReadSide.receive at step
  split_ifs at step
  obtain ⟨rfl, rfl⟩ := by simpa using step
  simp

theorem connection_readLaw : ReadLaw packetFraming TcpConnection.readLoop where
  parse := by
    intro r channel parsing
    simp only [TcpConnection.readLoop, parsing]
    rfl
  cases := by
    intro r channel action r' channel' step
    cases action with
    | run =>
        cases phase : r.phase with
        | top =>
            obtain ⟨rfl, rfl⟩ := by simpa [TcpConnection.readLoop, phase] using step
            cases live : r.alive <;> simp [TcpConnection.finishRead]
        | parsing =>
            obtain ⟨rfl, rfl⟩ := by simpa [TcpConnection.readLoop, phase] using step
            exact Or.inl ⟨rfl, rfl, rfl⟩
        | receiving | finished | crashed => simp [TcpConnection.readLoop, phase] at step
    | recv result =>
        cases phase : r.phase with
        | receiving =>
            cases result with
            | chunk n =>
                simp only [TcpConnection.readLoop, phase] at step
                exact Or.inr (Or.inl (receive_eq step))
            | eof =>
                obtain ⟨rfl, rfl⟩ := by simpa [TcpConnection.readLoop, phase] using step
                unfold TcpConnection.recvFailed TcpConnection.finishRead
                split_ifs <;> simp
            | error e =>
                obtain ⟨rfl, rfl⟩ := by simpa [TcpConnection.readLoop, phase] using step
                unfold TcpConnection.recvFailed TcpConnection.finishRead
                split_ifs <;> simp
        | top | parsing | finished | crashed => simp [TcpConnection.readLoop, phase] at step

theorem client_readLaw : ReadLaw messageFraming TcpClient.readLoop where
  parse := by
    intro r channel parsing
    simp only [TcpClient.readLoop, parsing]
    rfl
  cases := by
    intro r channel action r' channel' step
    cases action with
    | run =>
        cases phase : r.phase with
        | top =>
            obtain ⟨rfl, rfl⟩ := by simpa [TcpClient.readLoop, phase] using step
            cases live : r.alive <;> simp [TcpClient.finishRead]
        | parsing =>
            obtain ⟨rfl, rfl⟩ := by simpa [TcpClient.readLoop, phase] using step
            exact Or.inl ⟨rfl, rfl, rfl⟩
        | receiving | finished | crashed => simp [TcpClient.readLoop, phase] at step
    | recv result =>
        cases phase : r.phase with
        | receiving =>
            cases result with
            | chunk n =>
                simp only [TcpClient.readLoop, phase] at step
                exact Or.inr (Or.inl (receive_eq step))
            | eof | error e =>
                obtain ⟨rfl, rfl⟩ := by simpa [TcpClient.readLoop, phase] using step
                simp [TcpClient.finishRead]
        | top | parsing | finished | crashed => simp [TcpClient.readLoop, phase] at step

end ServerFramework.Tcp
