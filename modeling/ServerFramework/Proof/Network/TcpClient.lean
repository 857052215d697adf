import ServerFramework.Network.TcpClient
import ServerFramework.Proof.Network.Parsers

namespace ServerFramework.Tcp.TcpClient
open Protocol

theorem parseMessage_rest {buf msg rest : List UInt8} (parsed : parseMessage buf = .ok (some (msg, rest))) :
    rest.length ≤ buf.length := by
  by_cases enough : 4 ≤ buf.length
  · rw [parseMessage_long enough] at parsed
    split at parsed
    · cases parsed
    · cases copied : Bytes.memcpy buf 6 (lengthField buf - 6).toNat with
      | error fault =>
          rw [copied] at parsed
          cases parsed
      | ok data =>
          rw [copied] at parsed
          cases parsed
          rw [List.length_drop]
          exact Nat.sub_le _ _
  · rw [parseMessage_short (Nat.lt_of_not_le enough)] at parsed
    cases parsed

inductive Reads (r : ReadSide (List UInt8)) : ReadAction → ReadSide (List UInt8) → Prop
  | leaves (action : ReadAction) (errno : Errno) : Reads r action (finishRead { r with errno := errno })
  | enters (top : r.phase = .top) (alive : r.alive = true) : Reads r .run { r with phase := .receiving }
  | receives (receiving : r.phase = .receiving) (n : Nat) (bytes : List UInt8) :
      Reads r (.recv (.chunk n)) { r with readBuf := r.readBuf ++ bytes, phase := .parsing }
  | parses (parsing : r.phase = .parsing) (msg rest : List UInt8) (shorter : rest.length ≤ r.readBuf.length) :
      Reads r .run { r with readBuf := rest, delivered := r.delivered ++ [msg] }
  | waits (parsing : r.phase = .parsing) : Reads r .run { r with phase := .top }
  | crashes (parsing : r.phase = .parsing) (fault : Fault) (outside : parseMessage r.readBuf = .error fault) :
      Reads r .run { r with phase := .crashed }

theorem readLoop_reads {r r' : ReadSide (List UInt8)} {channel rest : List UInt8} {action : ReadAction}
    (stepped : readLoop r channel action = some (r', rest)) : Reads r action r' := by
  cases action with
  | run =>
      cases phase : r.phase with
      | top =>
          obtain ⟨rfl, -⟩ : (if r.alive then { r with phase := .receiving } else finishRead r) = r' ∧ _ := by
            simpa [readLoop, phase] using stepped
          by_cases alive : r.alive = true
          · rw [if_pos alive]
            exact .enters phase alive
          · rw [if_neg alive]
            exact .leaves .run r.errno
      | parsing =>
          obtain ⟨rfl, -⟩ : r.parsed (parseMessage r.readBuf) = r' ∧ _ := by
            simpa [readLoop, phase] using stepped
          cases parsed : parseMessage r.readBuf with
          | error fault => exact .crashes phase fault parsed
          | ok round =>
              cases round with
              | none => exact .waits phase
              | some message => exact .parses phase message.1 message.2 (parseMessage_rest parsed)
      | receiving | finished | crashed => simp [readLoop, phase] at stepped
  | recv result =>
      cases phase : r.phase with
      | receiving =>
          cases result with
          | chunk n =>
              simp only [readLoop, phase] at stepped
              unfold ReadSide.receive at stepped
              split at stepped
              · cases stepped
                exact .receives phase n _
              · cases stepped
          | eof =>
              obtain ⟨rfl, -⟩ : finishRead r = r' ∧ _ := by simpa [readLoop, phase] using stepped
              exact .leaves _ r.errno
          | error e =>
              obtain ⟨rfl, -⟩ : finishRead { r with errno := e } = r' ∧ _ := by
                simpa [readLoop, phase] using stepped
              exact .leaves _ e
      | top | parsing | finished | crashed => simp [readLoop, phase] at stepped

theorem Reads.alive {r r' : ReadSide (List UInt8)} {action : ReadAction} (reads : Reads r action r')
    (alive : r'.alive = true) : r.alive = true ∧ r'.phase ≠ .finished := by
  cases reads with
  | leaves => cases alive
  | enters | receives | waits | crashes => exact ⟨alive, nofun⟩
  | parses parsing => exact ⟨alive, by rw [parsing]; exact nofun⟩

theorem writeLoop_alive {w w' : WriteSide} {action : WriteAction} {bytes : List UInt8}
    (stepped : writeLoop w action = some (w', bytes)) (alive : w'.alive = true) :
    w.alive = true ∧ w'.phase ≠ .finished := by
  unfold writeLoop at stepped
  split at stepped
  · split at stepped
    · cases stepped
      refine ⟨alive, ?_⟩
      simp only [WriteSide.check, show w.alive = true from alive]
      exact nofun
    · cases stepped
      unfold WriteSide.take at alive ⊢
      split at alive
      · refine ⟨alive, ?_⟩
        simp only [show w.alive = true from alive]
        exact nofun
      · exact ⟨alive, nofun⟩
    · split at stepped <;> cases stepped <;> exact ⟨alive, nofun⟩
    · cases stepped
  · split at stepped
    · split at stepped
      · cases stepped
        cases alive
      · split at stepped
        · cases stepped
          refine ⟨alive, ?_⟩
          unfold WriteSide.advance
          dsimp only
          split <;> exact nofun
        · cases stepped
      · cases stepped
        cases alive
    · cases stepped

theorem step_act {c t : TcpClient} {action : Action} (stepped : c.step action = some t) :
    c.terminated = false ∧ c.act action = some t := by
  unfold step at stepped
  cases terminated : c.terminated with
  | false =>
      rw [terminated] at stepped
      exact ⟨rfl, stepped⟩
  | true =>
      rw [terminated] at stepped
      cases stepped

theorem tryConnect_cases (c : TcpClient) (ok : Bool) (dial : Dial) :
    (dial = .connecting ∧ ok = true ∧ c.tryConnect ok dial = ({ c with connected := true }, .inr true)) ∨
    ∃ sock sockets out, c.tryConnect ok dial = ({ c with sock := sock, sockets := sockets }, out) ∧
      (out = .inr false ∨ sock ≠ none ∧ (out = .inl .dialing ∨ out = .inl .connecting)) := by
  cases dial with
  | opening =>
      cases ok with
      | true => exact .inr ⟨_, _, _, rfl, .inr ⟨nofun, .inl rfl⟩⟩
      | false => exact .inr ⟨none, c.sockets, _, rfl, .inl rfl⟩
  | dialing =>
      by_cases made : c.sock.isSome = true
      · have some := Option.isSome_iff_ne_none.mp made
        exact .inr ⟨c.sock, c.sockets, .inl .connecting, if_pos made, .inr ⟨some, .inr rfl⟩⟩
      · exact .inr ⟨c.sock, c.sockets, .inr false, if_neg made, .inl rfl⟩
  | connecting =>
      cases ok with
      | true => exact .inl ⟨rfl, rfl, rfl⟩
      | false => exact .inr ⟨none, c.sockets, _, rfl, .inl rfl⟩

theorem launch_joinable {c : TcpClient} (joinable : c.reconnectHandle = true) :
    c.launch = { c with running := true, terminated := true } := if_pos joinable

theorem startReader_joinable {c : TcpClient} (joinable : c.readHandle = true) :
    c.startReader = { c with terminated := true } := if_pos joinable

theorem startWriter_joinable {c : TcpClient} (joinable : c.writeHandle = true) :
    c.startWriter = { c with terminated := true } := if_pos joinable

theorem launch_free {c : TcpClient} (free : c.reconnectHandle = false) :
    c.launch = { c with running := true, reconnectHandle := true, reconnect := .top } := by
  rw [launch, free]
  rfl

theorem startReader_free {c : TcpClient} (free : c.readHandle = false) :
    c.startReader = { c with
      readHandle := true
      readStage := .running
      reader := { c.reader with phase := .top }
      recvOn := none } := by
  rw [startReader, free]
  rfl

theorem startWriter_free {c : TcpClient} (free : c.writeHandle = false) :
    c.startWriter = { c with
      writeHandle := true
      writer := { c.writer with phase := .top }
      sendOn := none } := by
  rw [startWriter, free]
  rfl

theorem stepCall_cases {c t : TcpClient} {i : Nat} {ok : Bool} (stepped : c.stepCall i ok = some t) :
    ∃ call c' next, c.calls[i]? = some call ∧ c.advance ok call = some (c', next) ∧
      t = c'.withCalls (putCall c.calls i next) := by
  obtain ⟨call, found, advanced⟩ := Option.bind_eq_some_iff.mp stepped
  obtain ⟨⟨c', next⟩, moved, rfl⟩ := Option.map_eq_some_iff.mp advanced
  exact ⟨call, c', next, found, moved, rfl⟩

theorem read_cases {c t : TcpClient} {input : List UInt8} {action : ReadAction}
    (stepped : c.read input action = some t) :
    c.readStage = .running ∧ c.recvReturns action = true ∧
      ∃ reader, Reads { c.reader with alive := c.connected } action reader ∧ t = c.afterRead reader := by
  unfold read at stepped
  split at stepped
  case isTrue enabled =>
    obtain ⟨⟨reader, rest⟩, moved, rfl⟩ := Option.map_eq_some_iff.mp stepped
    exact ⟨enabled.1, enabled.2, reader, readLoop_reads moved, rfl⟩
  case isFalse => cases stepped

theorem write_cases {c t : TcpClient} {action : WriteAction} (stepped : c.write action = some t) :
    ∃ writer bytes, writeLoop { c.writer with alive := c.connected } action = some (writer, bytes) ∧
      t = { c with connected := writer.alive, writer := writer, sendOn := none } := by
  unfold write at stepped
  split at stepped
  · obtain ⟨⟨writer, bytes⟩, moved, rfl⟩ := Option.map_eq_some_iff.mp stepped
    exact ⟨writer, bytes, moved, rfl⟩
  · cases stepped

theorem enterRecv_cases {c t : TcpClient} (stepped : c.enterRecv = some t) :
    c.readStage = .running ∧ c.reader.phase = .receiving ∧ c.recvOn = none ∧
      t = { c with recvOn := some c.sock } := by
  unfold enterRecv at stepped
  split at stepped
  case isTrue enabled =>
    cases stepped
    exact ⟨enabled.1, enabled.2.1, enabled.2.2, rfl⟩
  case isFalse => cases stepped

theorem enterSend_cases {c t : TcpClient} (stepped : c.enterSend = some t) :
    t = { c with sendOn := some c.sock } := by
  unfold enterSend at stepped
  split at stepped
  · cases stepped
    rfl
  · cases stepped

theorem settle_cases {c t : TcpClient} (stepped : c.settle = some t) :
    c.readStage = .left ∧ t = { c with connected := false, readStage := .settled } := by
  unfold settle at stepped
  split at stepped
  case isTrue left =>
    cases stepped
    exact ⟨left, rfl⟩
  case isFalse => cases stepped

theorem notify_cases {c t : TcpClient} (stepped : c.notify = some t) :
    c.readStage = .settled ∧ t = { c with log := c.log ++ [.closed], readStage := .returned } := by
  unfold notify at stepped
  split at stepped
  case isTrue settled =>
    cases stepped
    exact ⟨settled, rfl⟩
  case isFalse => cases stepped

theorem send_frame (c : TcpClient) (buf : List UInt8) :
    ∃ queue, (c.send buf).2 = { c with writer := { c.writer with writeQueue := queue } } := by
  unfold send
  split
  · exact ⟨_, rfl⟩
  · exact ⟨c.writer.writeQueue, rfl⟩

/-! Pieces of runs in which every system call of a `connect` or `disconnect` succeeds. -/

def connects : List Action := .connect :: List.replicate 8 (.call 0 true)

def peerCloses : List Action := [.read [] .run, .enterRecv, .read [] (.recv .eof), .settle, .notify]

def disconnects : List Action :=
  .disconnect :: List.replicate 4 (.call 0 true) ++ [.write .run, .reconnect true] ++ List.replicate 4 (.call 0 true)

end ServerFramework.Tcp.TcpClient
