import ServerFramework.Library.Runs
import ServerFramework.Proof.Network.TcpClient

namespace ServerFramework.Tcp.TcpClient
open Library

structure ReaderUp (c : TcpClient) : Prop where
  handle : c.readHandle = true
  stage : c.readStage = .running
  phase : c.reader.phase ≠ .finished ∧ c.reader.phase ≠ .crashed
  socket : ∀ handle, c.recvOn = some handle → handle = c.sock

structure WriterUp (c : TcpClient) : Prop where
  handle : c.writeHandle = true
  phase : c.writer.phase ≠ .finished
  socket : ∀ handle, c.sendOn = some handle → handle = c.sock

structure Up (c : TcpClient) : Prop where
  sock : c.sock ≠ none
  reader : c.ReaderUp
  writer : c.WriterUp

def Call.dialing : Call → Bool
  | .checking | .launching | .trying _ | .startReader => true
  | _ => false

def Call.connecting (call : Call) : Bool := call.dialing || call = .startWriter || call = .announcing

def Reconnect.attempting : Reconnect → Bool
  | .trying _ => true
  | _ => false

def Quiet (c : TcpClient) : Prop :=
  (∀ call ∈ c.calls, call.connecting = false) ∧ c.reconnect.attempting = false ∧ c.reconnect ≠ .announcing

/-- No joinable handle was overwritten, a connected client has its threads, and `read_buf_` is only ever parsed with
bytes of one connection in it. -/
structure Consistent (c : TcpClient) : Prop where
  handles : c.terminated = false
  threads : c.connected = true → c.Quiet → c.Up
  bytes : c.reader.phase = .parsing → ∀ first ∈ c.origins, ∀ second ∈ c.origins, first = second

structure Fresh (c : TcpClient) : Prop where
  reader : c.readHandle = false
  writer : c.writeHandle = false
  readBuf : c.reader.readBuf = []

def WillRecv (c : TcpClient) : Prop :=
  c.readStage = .running ∧
    (c.reader.phase = .receiving ∧ c.recvOn = none ∨ c.reader.phase ≠ .receiving ∧ c.connected = true)

def Orderly (c : TcpClient) : Action → Prop
  | .connect => c.calls = [] ∧ c.Fresh ∧ c.reconnect.attempting = false
  | .disconnect => c.calls = []
  | .reconnect ok =>
      (c.reconnect = .sleeping → c.connected = false → c.running = true →
        (∀ call ∈ c.calls, call.dialing = false) ∧ (c.WillRecv → c.reader.readBuf = [])) ∧
      (c.reconnect = .trying .connecting → ok = true → c.calls = [] ∧ c.Up ∧ c.reader.readBuf = [])
  | .read _ .run => c.reader.phase = .parsing → ∃ round, parseMessage c.reader.readBuf = .ok round
  | _ => True

def Fits (c : TcpClient) : Option Call → Prop
  | none | some .announcing | some .leaving | some .stopping | some .clearing => c.connected = true → c.Up
  | some .checking | some .launching | some (.trying .opening) =>
      c.Fresh ∧ c.connected = false ∧ c.reconnect.attempting = false
  | some (.trying _) => c.Fresh ∧ c.connected = false ∧ c.reconnect.attempting = false ∧ c.sock ≠ none
  | some .startReader => c.Fresh ∧ c.connected = true ∧ c.reconnect.attempting = false ∧ c.sock ≠ none
  | some .startWriter => c.writeHandle = false ∧ (c.connected = true → c.sock ≠ none ∧ c.ReaderUp)
  | some .closingSocket | some .joinWriter | some .joinReader | some .joinReconnect | some .closing =>
      c.connected = false

def Joined (c : TcpClient) : Option Call → Prop
  | some .launching | some .closing => c.reconnectHandle = false
  | some .clearing | some .closingSocket | some .joinWriter | some .joinReader | some .joinReconnect => True
  | _ => c.running = false → c.reconnectHandle = false

structure Bytes (c : TcpClient) : Prop where
  lengths : c.origins.length = c.reader.readBuf.length
  inRecv : ∀ socket, c.recvOn = some (some socket) → ∀ origin ∈ c.origins, origin = socket
  beforeRecv : c.WillRecv → ∀ socket, c.sock = some socket → ∀ origin ∈ c.origins, origin = socket
  uniform : ∀ first ∈ c.origins, ∀ second ∈ c.origins, first = second

structure Sound (c : TcpClient) (call : Option Call) : Prop where
  alive : c.terminated = false
  fits : c.Fits call
  joined : c.Joined call
  attempt : c.reconnect.attempting = true → c.connected = false ∧ (c.WillRecv → c.origins = [])
  readHandle : c.readStage ≠ .returned → c.readHandle = true
  writeHandle : c.writer.phase ≠ .finished → c.writeHandle = true
  bytes : c.Bytes

theorem Up.same {c t : TcpClient} (up : c.Up) (sock : t.sock = c.sock)
    (reader : t.readHandle = c.readHandle ∧ t.readStage = c.readStage ∧ t.reader = c.reader ∧ t.recvOn = c.recvOn)
    (writer : t.writeHandle = c.writeHandle ∧ t.writer = c.writer ∧ t.sendOn = c.sendOn) : t.Up := by
  obtain ⟨readHandle, readStage, phase, recvOn⟩ := reader
  obtain ⟨writeHandle, writerPhase, sendOn⟩ := writer
  refine ⟨by rw [sock]; exact up.sock, ⟨readHandle.trans up.reader.handle, readStage.trans up.reader.stage, ?_, ?_⟩,
    ⟨writeHandle.trans up.writer.handle, ?_, ?_⟩⟩
  · rw [phase]
    exact up.reader.phase
  · rw [recvOn, sock]
    exact up.reader.socket
  · rw [writerPhase]
    exact up.writer.phase
  · rw [sendOn, sock]
    exact up.writer.socket

theorem Sound.consistent {c : TcpClient} {call : Option Call} (sound : Sound c call)
    (standing : c.calls = call.toList) : Consistent c := by
  refine ⟨sound.alive, fun connected quiet => ?_, fun _ => sound.bytes.uniform⟩
  have fits := sound.fits
  obtain ⟨calls, -⟩ := quiet
  rw [standing] at calls
  cases call with
  | none => exact fits connected
  | some call =>
      have outside := calls call (List.mem_singleton.mpr rfl)
      cases call with
      | leaving | stopping | clearing => exact fits connected
      | closingSocket | joinWriter | joinReader | joinReconnect | closing =>
          rw [show c.connected = false from fits] at connected
          cases connected
      | _ => cases outside

theorem Sound.readerUp {c : TcpClient} {call : Option Call} (sound : Sound c call) (connected : c.connected = true)
    (running : c.readStage = .running) : c.sock ≠ none ∧ c.ReaderUp := by
  have fits := sound.fits
  have handle : c.readHandle = true := sound.readHandle (by rw [running]; exact nofun)
  have notFresh : ¬ c.Fresh := fun fresh => by
    rw [fresh.reader] at handle
    cases handle
  have notClosed : ¬ c.connected = false := fun closed => by
    rw [closed] at connected
    cases connected
  cases call with
  | none => exact ⟨(fits connected).sock, (fits connected).reader⟩
  | some call =>
      cases call with
      | announcing | leaving | stopping | clearing => exact ⟨(fits connected).sock, (fits connected).reader⟩
      | checking | launching | startReader => exact absurd fits.1 notFresh
      | trying dial => cases dial <;> exact absurd fits.1 notFresh
      | startWriter => exact fits.2 connected
      | closingSocket | joinWriter | joinReader | joinReconnect | closing => exact absurd fits notClosed

/-! ## Steps of the three threads, other than a `::connect` of `reconnect_loop` that succeeds -/

structure Background (c t : TcpClient) : Prop where
  terminated : t.terminated = c.terminated
  running : t.running = c.running
  handles : t.readHandle = c.readHandle ∧ t.writeHandle = c.writeHandle ∧ t.reconnectHandle = c.reconnectHandle
  connected : t.connected = true → c.connected = true
  sock : c.reconnect.attempting = false → t.sock = c.sock
  unread : c.readStage = .returned → c.writer.phase = .finished → t.connected = c.connected
  readBuf : c.readStage = .returned → t.reader.readBuf = c.reader.readBuf
  reader : t.connected = true → t.sock = c.sock → c.ReaderUp → t.ReaderUp
  writer : t.connected = true → t.sock = c.sock → c.WriterUp → t.WriterUp

theorem Fresh.readStage {c : TcpClient} {call : Option Call} (fresh : c.Fresh) (sound : Sound c call) :
    c.readStage = .returned := by
  by_contra running
  have handle := sound.readHandle running
  rw [fresh.reader] at handle
  cases handle

theorem Fresh.writerPhase {c : TcpClient} {call : Option Call} (fresh : c.Fresh) (sound : Sound c call) :
    c.writer.phase = .finished := by
  by_contra running
  have handle := sound.writeHandle running
  rw [fresh.writer] at handle
  cases handle

theorem Background.stillClosed {c t : TcpClient} (background : Background c t) (closed : c.connected = false) : t.connected = false := by
  cases connected : t.connected with
  | false => rfl
  | true =>
      rw [background.connected connected] at closed
      cases closed

section
variable {c t : TcpClient} {call : Option Call} (background : Background c t) (sound : Sound c call)
include background sound

theorem Background.sameSock (connected : t.connected = true) : t.sock = c.sock := by
  apply background.sock
  cases attempting : c.reconnect.attempting with
  | false => rfl
  | true =>
      have closed := (sound.attempt attempting).1
      rw [background.connected connected] at closed
      cases closed

theorem Background.up (connected : t.connected = true) (up : c.Up) : t.Up := by
  have same := background.sameSock sound connected
  exact ⟨by rw [same]; exact up.sock, background.reader connected same up.reader,
    background.writer connected same up.writer⟩

theorem Background.fresh (fresh : c.Fresh) : t.Fresh := by
  obtain ⟨reader, writer, -⟩ := background.handles
  exact ⟨reader.trans fresh.reader, writer.trans fresh.writer,
    (background.readBuf (fresh.readStage sound)).trans fresh.readBuf⟩

theorem Background.fits
    (resting : (∃ inside, call = some inside ∧ inside.dialing = true) → t.reconnect.attempting = false) :
    t.Fits call := by
  have fits := sound.fits
  have up := background.up sound
  have fresh := background.fresh sound
  have closed := background.stillClosed
  cases call with
  | none => exact fun connected => up connected (fits (background.connected connected))
  | some call =>
      cases call with
      | announcing | leaving | stopping | clearing =>
          exact fun connected => up connected (fits (background.connected connected))
      | checking | launching => exact ⟨fresh fits.1, closed fits.2.1, resting ⟨_, rfl, rfl⟩⟩
      | trying dial =>
          cases dial with
          | opening => exact ⟨fresh fits.1, closed fits.2.1, resting ⟨_, rfl, rfl⟩⟩
          | dialing | connecting =>
              obtain ⟨free, down, rests, some⟩ := fits
              exact ⟨fresh free, closed down, resting ⟨_, rfl, rfl⟩, by rw [background.sock rests]; exact some⟩
      | startReader =>
          obtain ⟨free, connected, rests, some⟩ := fits
          have same := background.unread (free.readStage sound) (free.writerPhase sound)
          exact ⟨fresh free, same.trans connected, resting ⟨_, rfl, rfl⟩, by rw [background.sock rests]; exact some⟩
      | startWriter =>
          obtain ⟨free, reader⟩ := fits
          refine ⟨background.handles.2.1.trans free, fun connected => ?_⟩
          have same := background.sameSock sound connected
          obtain ⟨some, up⟩ := reader (background.connected connected)
          exact ⟨by rw [same]; exact some, background.reader connected same up⟩
      | closingSocket | joinWriter | joinReader | joinReconnect | closing => exact closed fits

theorem Background.joined : t.Joined call := by
  have joined := sound.joined
  have handle := background.handles.2.2
  have free : (c.running = false → c.reconnectHandle = false) → t.running = false → t.reconnectHandle = false := by
    rw [background.running, handle]
    exact id
  cases call with
  | none => exact free joined
  | some call =>
      cases call with
      | launching | closing => exact handle.trans joined
      | clearing | closingSocket | joinWriter | joinReader | joinReconnect => trivial
      | _ => exact free joined

theorem Background.keeps
    (attempt : t.reconnect.attempting = true → c.connected = false ∧ (t.WillRecv → t.origins = []))
    (resting : (∃ inside, call = some inside ∧ inside.dialing = true) → t.reconnect.attempting = false)
    (readHandle : t.readStage ≠ .returned → c.readStage ≠ .returned)
    (writeHandle : t.writer.phase ≠ .finished → c.writer.phase ≠ .finished) (bytes : t.Bytes) : Sound t call where
  alive := background.terminated.trans sound.alive
  fits := background.fits sound resting
  joined := background.joined sound
  attempt attempting := ⟨background.stillClosed (attempt attempting).1, (attempt attempting).2⟩
  readHandle running := background.handles.1.trans (sound.readHandle (readHandle running))
  writeHandle running := background.handles.2.1.trans (sound.writeHandle (writeHandle running))
  bytes := bytes

end

theorem Sound.resting {c : TcpClient} {call : Option Call} (sound : Sound c call) :
    (∃ inside, call = some inside ∧ inside.dialing = true) → c.reconnect.attempting = false := by
  rintro ⟨inside, rfl, dialing⟩
  have fits := sound.fits
  cases inside with
  | checking | launching => exact fits.2.2
  | trying dial =>
      cases dial with
      | opening => exact fits.2.2
      | dialing | connecting => exact fits.2.2.1
  | startReader => exact fits.2.2.1
  | _ => cases dialing

theorem Bytes.frame {c t : TcpClient} (bytes : c.Bytes) (origins : t.origins = c.origins)
    (readBuf : t.reader.readBuf = c.reader.readBuf) (recvOn : t.recvOn = none ∨ t.recvOn = c.recvOn)
    (will : t.WillRecv → t.sock ≠ none → c.WillRecv ∧ t.sock = c.sock ∨ c.origins = []) : t.Bytes := by
  refine ⟨?_, ?_, ?_, ?_⟩
  · rw [origins, readBuf]
    exact bytes.lengths
  · rw [origins]
    rcases recvOn with outside | same
    · rw [outside]
      exact nofun
    · rw [same]
      exact bytes.inRecv
  · rw [origins]
    intro waits socket found
    rcases will waits (by rw [found]; exact nofun) with ⟨before, same⟩ | empty
    · rw [same] at found
      exact bytes.beforeRecv before socket found
    · rw [empty]
      exact nofun
  · rw [origins]
    exact bytes.uniform

theorem Background.unmoved {c t : TcpClient} {call : Option Call} (background : Background c t) (sound : Sound c call)
    (reconnect : t.reconnect = c.reconnect) (readStage : t.readStage = c.readStage)
    (phase : t.writer.phase = c.writer.phase) (sock : t.sock = c.sock)
    (readBuf : t.reader.readBuf = c.reader.readBuf) (origins : t.origins = c.origins) (recvOn : t.recvOn = c.recvOn)
    (will : t.WillRecv → c.WillRecv) : Sound t call := by
  apply background.keeps sound
  · rw [reconnect, origins]
    exact fun attempting =>
      ⟨(sound.attempt attempting).1, fun waits => (sound.attempt attempting).2 (will waits)⟩
  · rw [reconnect]
    exact sound.resting
  · rw [readStage]
    exact id
  · rw [phase]
    exact id
  · exact sound.bytes.frame origins readBuf (.inr recvOn) fun waits _ => .inl ⟨will waits, sock⟩

theorem enterRecv_sound {c t : TcpClient} {call : Option Call} (sound : Sound c call)
    (stepped : c.enterRecv = some t) : Sound t call := by
  obtain ⟨running, receiving, outside, rfl⟩ := enterRecv_cases stepped
  have waiting : c.WillRecv := ⟨running, .inl ⟨receiving, outside⟩⟩
  have entered : ¬ { c with recvOn := some c.sock }.WillRecv := by
    rintro ⟨-, ⟨-, impossible⟩ | ⟨elsewhere, -⟩⟩
    · cases impossible
    · exact elsewhere receiving
  have background : Background c { c with recvOn := some c.sock } :=
    ⟨rfl, rfl, ⟨rfl, rfl, rfl⟩, id, fun _ => rfl, fun _ _ => rfl, fun _ => rfl,
      fun _ _ up => ⟨up.handle, up.stage, up.phase, fun _ same => (Option.some.inj same).symm⟩,
      fun _ _ up => ⟨up.handle, up.phase, up.socket⟩⟩
  apply background.keeps sound
  · exact fun attempting => ⟨(sound.attempt attempting).1, fun waits => absurd waits entered⟩
  · exact sound.resting
  · exact id
  · exact id
  · exact ⟨sound.bytes.lengths,
      fun socket same => sound.bytes.beforeRecv waiting socket (Option.some.inj same),
      fun waits => absurd waits entered, sound.bytes.uniform⟩

theorem settle_sound {c t : TcpClient} {call : Option Call} (sound : Sound c call)
    (stepped : c.settle = some t) : Sound t call := by
  obtain ⟨left, rfl⟩ := settle_cases stepped
  have background : Background c { c with connected := false, readStage := .settled } :=
    ⟨rfl, rfl, ⟨rfl, rfl, rfl⟩, nofun, fun _ => rfl,
      fun returned => absurd (returned.symm.trans left) nofun, fun _ => rfl, nofun, nofun⟩
  apply background.keeps sound
  · exact fun attempting => ⟨(sound.attempt attempting).1, fun waits => by cases waits.1⟩
  · exact sound.resting
  · exact fun _ => by rw [left]; exact nofun
  · exact id
  · exact sound.bytes.frame rfl rfl (.inr rfl) fun waits => by cases waits.1

theorem notify_sound {c t : TcpClient} {call : Option Call} (sound : Sound c call)
    (stepped : c.notify = some t) : Sound t call := by
  obtain ⟨settled, rfl⟩ := notify_cases stepped
  have background : Background c { c with log := c.log ++ [.closed], readStage := .returned } :=
    ⟨rfl, rfl, ⟨rfl, rfl, rfl⟩, id, fun _ => rfl, fun _ _ => rfl, fun _ => rfl,
      fun _ _ up => absurd (up.stage.symm.trans settled) nofun,
      fun _ _ up => ⟨up.handle, up.phase, up.socket⟩⟩
  apply background.keeps sound
  · exact fun attempting => ⟨(sound.attempt attempting).1, fun waits => by cases waits.1⟩
  · exact sound.resting
  · exact fun running => absurd rfl running
  · exact id
  · exact sound.bytes.frame rfl rfl (.inr rfl) fun waits => by cases waits.1

theorem enterSend_sound {c t : TcpClient} {call : Option Call} (sound : Sound c call)
    (stepped : c.enterSend = some t) : Sound t call := by
  obtain rfl := enterSend_cases stepped
  have background : Background c { c with sendOn := some c.sock } :=
    ⟨rfl, rfl, ⟨rfl, rfl, rfl⟩, id, fun _ => rfl, fun _ _ => rfl, fun _ => rfl,
      fun _ _ up => ⟨up.handle, up.stage, up.phase, up.socket⟩,
      fun _ _ up => ⟨up.handle, up.phase, fun _ same => (Option.some.inj same).symm⟩⟩
  exact background.unmoved sound rfl rfl rfl rfl rfl rfl rfl id

theorem write_sound {c t : TcpClient} {call : Option Call} {action : WriteAction} (sound : Sound c call)
    (stepped : c.write action = some t) : Sound t call := by
  obtain ⟨writer, bytes, moved, rfl⟩ := write_cases stepped
  have up := writeLoop_alive moved
  have running : c.writer.phase ≠ .finished := by
    intro finished
    cases action <;> simp [writeLoop, finished] at moved
  have background : Background c { c with connected := writer.alive, writer := writer, sendOn := none } :=
    ⟨rfl, rfl, ⟨rfl, rfl, rfl⟩, fun alive => (up alive).1, fun _ => rfl,
      fun _ finished => absurd finished running, fun _ => rfl,
      fun _ _ up => ⟨up.handle, up.stage, up.phase, up.socket⟩,
      fun alive _ before => ⟨before.handle, (up alive).2, nofun⟩⟩
  have will : { c with connected := writer.alive, writer := writer, sendOn := none }.WillRecv → c.WillRecv := by
    rintro ⟨stage, receiving | ⟨elsewhere, alive⟩⟩
    · exact ⟨stage, .inl receiving⟩
    · exact ⟨stage, .inr ⟨elsewhere, (up alive).1⟩⟩
  apply background.keeps sound
  · exact fun attempting => ⟨(sound.attempt attempting).1, fun waits => (sound.attempt attempting).2 (will waits)⟩
  · exact sound.resting
  · exact id
  · exact fun _ => running
  · exact sound.bytes.frame rfl rfl (.inr rfl) fun waits _ => .inl ⟨will waits, rfl⟩

theorem send_sound {c : TcpClient} {call : Option Call} (sound : Sound c call) (buf : List UInt8) :
    Sound (c.send buf).2 call := by
  obtain ⟨queue, frame⟩ := send_frame c buf
  rw [frame]
  have background : Background c { c with writer := { c.writer with writeQueue := queue } } :=
    ⟨rfl, rfl, ⟨rfl, rfl, rfl⟩, id, fun _ => rfl, fun _ _ => rfl, fun _ => rfl,
      fun _ _ up => ⟨up.handle, up.stage, up.phase, up.socket⟩,
      fun _ _ up => ⟨up.handle, up.phase, up.socket⟩⟩
  exact background.unmoved sound rfl rfl rfl rfl rfl rfl rfl id

theorem originsOf_shorter {c : TcpClient} {readBuf : List UInt8} (shorter : readBuf.length ≤ c.reader.readBuf.length) :
    c.originsOf readBuf = c.origins.drop (c.reader.readBuf.length - readBuf.length) := by
  unfold originsOf
  rw [Nat.sub_eq_zero_of_le shorter]
  split <;> simp

theorem originsOf_longer {c : TcpClient} {socket : Nat} (inside : c.recvOn = some (some socket)) (bytes : List UInt8) :
    c.originsOf (c.reader.readBuf ++ bytes) = c.origins ++ List.replicate bytes.length socket := by
  simp [originsOf, inside]

theorem Bytes.drop {c : TcpClient} (bytes : c.Bytes) {readBuf : List UInt8}
    (shorter : readBuf.length ≤ c.reader.readBuf.length) :
    (c.originsOf readBuf).length = readBuf.length ∧ ∀ origin ∈ c.originsOf readBuf, origin ∈ c.origins := by
  rw [originsOf_shorter shorter]
  refine ⟨?_, fun origin => List.mem_of_mem_drop⟩
  rw [List.length_drop, bytes.lengths]
  omega

theorem Bytes.shrinks {c : TcpClient} {reader : ReadSide (List UInt8)} (bytes : c.Bytes)
    (shorter : reader.readBuf.length ≤ c.reader.readBuf.length)
    (will : (c.afterRead reader).WillRecv → c.WillRecv) : (c.afterRead reader).Bytes := by
  obtain ⟨lengths, kept⟩ := bytes.drop shorter
  refine ⟨lengths, nofun, ?_, ?_⟩
  · exact fun waits socket found origin member => bytes.beforeRecv (will waits) socket found origin (kept origin member)
  · exact fun first member second other => bytes.uniform first (kept first member) second (kept second other)

theorem recvReturns_chunk {c : TcpClient} {n : Nat} (enabled : c.recvReturns (.recv (.chunk n)) = true) :
    ∃ socket, c.recvOn = some (some socket) := by
  unfold recvReturns at enabled
  cases inside : c.recvOn with
  | none => simp [inside] at enabled
  | some handle =>
      cases handle with
      | none => simp [inside] at enabled
      | some socket => exact ⟨socket, rfl⟩

theorem read_bytes {c : TcpClient} {call : Option Call} {input : List UInt8} {action : ReadAction}
    {reader : ReadSide (List UInt8)} (sound : Sound c call) (orderly : c.Orderly (.read input action))
    (running : c.readStage = .running) (enabled : c.recvReturns action = true)
    (reads : Reads { c.reader with alive := c.connected } action reader) : (c.afterRead reader).Bytes := by
  cases reads with
  | leaves errno =>
      apply sound.bytes.shrinks
      · exact Nat.le_refl _
      · exact fun waits => by cases waits.1
  | enters top alive =>
      apply sound.bytes.shrinks
      · exact Nat.le_refl _
      · exact fun _ => ⟨running, .inr ⟨fun receiving => absurd (receiving.symm.trans top) nofun, alive⟩⟩
  | waits parsing =>
      have elsewhere : c.reader.phase ≠ .receiving := fun receiving => absurd (receiving.symm.trans parsing) nofun
      apply sound.bytes.shrinks
      · exact Nat.le_refl _
      · rintro ⟨-, ⟨impossible, -⟩ | ⟨-, connected⟩⟩
        · cases impossible
        · exact ⟨running, .inr ⟨elsewhere, connected⟩⟩
  | parses parsing msg rest shorter =>
      have elsewhere : c.reader.phase ≠ .receiving := fun receiving => absurd (receiving.symm.trans parsing) nofun
      apply sound.bytes.shrinks shorter
      rintro ⟨-, ⟨receiving, -⟩ | ⟨-, connected⟩⟩
      · exact absurd receiving elsewhere
      · exact ⟨running, .inr ⟨elsewhere, connected⟩⟩
  | crashes parsing fault outside =>
      obtain ⟨round, inside⟩ := orderly parsing
      cases inside.symm.trans outside
  | receives receiving n bytes =>
      obtain ⟨socket, inside⟩ := recvReturns_chunk enabled
      have whole := originsOf_longer inside bytes
      have origins : ∀ origin ∈ c.originsOf (c.reader.readBuf ++ bytes), origin = socket := by
        intro origin member
        rw [whole] at member
        rcases List.mem_append.mp member with old | new
        · exact sound.bytes.inRecv socket inside origin old
        · exact List.eq_of_mem_replicate new
      have lengths : (c.originsOf (c.reader.readBuf ++ bytes)).length = (c.reader.readBuf ++ bytes).length := by
        rw [whole, List.length_append, List.length_append, List.length_replicate, sound.bytes.lengths]
      refine ⟨lengths, nofun, ?_, ?_⟩
      · rintro ⟨-, ⟨impossible, -⟩ | ⟨-, connected⟩⟩ current found origin member
        · cases impossible
        · obtain ⟨-, up⟩ := sound.readerUp connected running
          have same := (up.socket (some socket) inside).trans found
          rw [origins origin member]
          exact Option.some.inj same
      · intro first member second other
        rw [origins first member, origins second other]

theorem Reads.not_willRecv {c : TcpClient} {action : ReadAction} {reader : ReadSide (List UInt8)}
    (reads : Reads { c.reader with alive := c.connected } action reader) (closed : c.connected = false) :
    ¬ (c.afterRead reader).WillRecv := by
  have down : reader.alive ≠ true := fun alive => absurd ((reads.alive alive).1.symm.trans closed) nofun
  rintro ⟨stage, ⟨receiving, -⟩ | ⟨-, alive⟩⟩
  · cases reads with
    | leaves => cases stage
    | enters _ alive => exact down alive
    | receives | waits | crashes => cases receiving
    | parses parsing => cases receiving.symm.trans parsing
  · exact down alive

theorem read_sound {c t : TcpClient} {call : Option Call} {input : List UInt8} {action : ReadAction}
    (sound : Sound c call) (orderly : c.Orderly (.read input action)) (stepped : c.read input action = some t) :
    Sound t call := by
  obtain ⟨running, enabled, reader, reads, rfl⟩ := read_cases stepped
  have here : c.readStage ≠ .returned := fun returned => absurd (returned.symm.trans running) nofun
  have background : Background c (c.afterRead reader) := by
    refine ⟨rfl, rfl, ⟨rfl, rfl, rfl⟩, fun alive => (reads.alive alive).1, fun _ => rfl,
      fun returned => absurd returned here, fun returned => absurd returned here, ?_,
      fun _ _ up => ⟨up.handle, up.phase, up.socket⟩⟩
    intro alive _ up
    have going := (reads.alive alive).2
    refine ⟨up.handle, if_neg going, ⟨going, ?_⟩, nofun⟩
    cases reads with
    | leaves => cases alive
    | enters | receives | waits => exact nofun
    | parses => exact up.phase.2
    | crashes parsing fault outside =>
        obtain ⟨round, inside⟩ := orderly parsing
        cases inside.symm.trans outside
  apply background.keeps sound
  · intro attempting
    have closed := (sound.attempt attempting).1
    exact ⟨closed, fun waits => absurd waits (reads.not_willRecv closed)⟩
  · exact sound.resting
  · exact fun _ => here
  · exact id
  · exact read_bytes sound orderly running enabled reads

theorem Bytes.of_empty {c : TcpClient} (origins : c.origins = []) (readBuf : c.reader.readBuf = []) : c.Bytes := by
  refine ⟨by rw [origins, readBuf]; rfl, ?_, ?_, ?_⟩ <;> rw [origins]
  · exact nofun
  · exact nofun
  · exact nofun

theorem Bytes.origins_nil {c : TcpClient} (bytes : c.Bytes) (readBuf : c.reader.readBuf = []) : c.origins = [] := by
  have lengths := bytes.lengths
  rw [readBuf] at lengths
  exact List.length_eq_zero_iff.mp lengths

/-! ## `reconnect_loop` -/

theorem rest_sound {c : TcpClient} {call : Option Call} (sound : Sound c call) {stage : Reconnect}
    (resting : stage.attempting = false) (log : List Notice) (byReconnect : Bool) :
    Sound { c with log := log, byReconnect := byReconnect, reconnect := stage } call := by
  have background : Background c { c with log := log, byReconnect := byReconnect, reconnect := stage } :=
    ⟨rfl, rfl, ⟨rfl, rfl, rfl⟩, id, fun _ => rfl, fun _ _ => rfl, fun _ => rfl,
      fun _ _ up => ⟨up.handle, up.stage, up.phase, up.socket⟩,
      fun _ _ up => ⟨up.handle, up.phase, up.socket⟩⟩
  apply background.keeps sound
  · exact fun attempting => absurd (attempting.symm.trans resting) nofun
  · exact fun _ => resting
  · exact id
  · exact id
  · exact sound.bytes.frame rfl rfl (.inr rfl) fun waits _ => .inl ⟨waits, rfl⟩

theorem wake_sound {c : TcpClient} {call : Option Call} (sound : Sound c call) (closed : c.connected = false)
    (outside : ∀ inside, call = some inside → inside.dialing = false)
    (unread : c.WillRecv → c.reader.readBuf = []) :
    Sound { c with reconnect := .trying .opening } call := by
  have background : Background c { c with reconnect := .trying .opening } :=
    ⟨rfl, rfl, ⟨rfl, rfl, rfl⟩, id, fun _ => rfl, fun _ _ => rfl, fun _ => rfl,
      fun _ _ up => ⟨up.handle, up.stage, up.phase, up.socket⟩,
      fun _ _ up => ⟨up.handle, up.phase, up.socket⟩⟩
  apply background.keeps sound
  · exact fun _ => ⟨closed, fun waits => sound.bytes.origins_nil (unread waits)⟩
  · rintro ⟨inside, same, dialing⟩
    cases (outside inside same).symm.trans dialing
  · exact id
  · exact id
  · exact sound.bytes.frame rfl rfl (.inr rfl) fun waits _ => .inl ⟨waits, rfl⟩

theorem attempt_sound {c : TcpClient} {call : Option Call} (sound : Sound c call)
    (attempting : c.reconnect.attempting = true) (sock : Option Nat) (sockets : Nat) (stage : Reconnect) :
    Sound { c with sock := sock, sockets := sockets, reconnect := stage } call := by
  obtain ⟨closed, empty⟩ := sound.attempt attempting
  have background : Background c { c with sock := sock, sockets := sockets, reconnect := stage } :=
    ⟨rfl, rfl, ⟨rfl, rfl, rfl⟩, id, fun resting => absurd (attempting.symm.trans resting) nofun,
      fun _ _ => rfl, fun _ => rfl,
      fun _ same up => ⟨up.handle, up.stage, up.phase, fun handle inside => (up.socket handle inside).trans same.symm⟩,
      fun _ same up => ⟨up.handle, up.phase, fun handle inside => (up.socket handle inside).trans same.symm⟩⟩
  apply background.keeps sound
  · exact fun _ => ⟨closed, empty⟩
  · exact fun dialing => absurd (attempting.symm.trans (sound.resting dialing)) nofun
  · exact id
  · exact id
  · exact sound.bytes.frame rfl rfl (.inr rfl) fun waits _ => .inr (empty waits)

theorem reconnected_sound {c : TcpClient} (sound : Sound c none) (up : c.Up) (readBuf : c.reader.readBuf = []) :
    Sound { c with connected := true, reconnect := .announcing } none where
  alive := sound.alive
  fits _ := up.same rfl ⟨rfl, rfl, rfl, rfl⟩ ⟨rfl, rfl, rfl⟩
  joined := sound.joined
  attempt := nofun
  readHandle := sound.readHandle
  writeHandle := sound.writeHandle
  bytes := .of_empty (sound.bytes.origins_nil readBuf) readBuf

theorem reconnectLoop_sound {c t : TcpClient} {call : Option Call} {ok : Bool} (sound : Sound c call)
    (standing : c.calls = call.toList) (orderly : c.Orderly (.reconnect ok)) (stepped : c.reconnectLoop ok = some t) :
    t.calls = c.calls ∧ Sound t call := by
  obtain ⟨wakes, succeeds⟩ := orderly
  unfold reconnectLoop at stepped
  cases stage : c.reconnect with
  | top =>
      rw [stage] at stepped
      cases stepped
      refine ⟨rfl, rest_sound sound ?_ c.log c.byReconnect⟩
      split <;> rfl
  | sleeping =>
      rw [stage] at stepped
      cases stepped
      refine ⟨rfl, ?_⟩
      split
      case isTrue due =>
        obtain ⟨closed, running⟩ : c.connected = false ∧ c.running = true := by simpa using due
        obtain ⟨outside, unread⟩ := wakes stage closed running
        refine wake_sound sound closed (fun inside same => outside inside ?_) unread
        rw [standing, same]
        exact List.mem_singleton.mpr rfl
      case isFalse => exact rest_sound sound rfl c.log c.byReconnect
  | trying dial =>
      have attempting : c.reconnect.attempting = true := by
        rw [stage]
        rfl
      rw [stage] at stepped
      cases stepped
      rcases tryConnect_cases c ok dial with ⟨rfl, rfl, same⟩ | ⟨sock, sockets, out, same, -⟩
      · obtain ⟨idle, up, readBuf⟩ := succeeds stage rfl
        rw [idle] at standing
        cases call with
        | none =>
            have made := reconnected_sound sound up readBuf
            rw [same]
            exact ⟨rfl, made⟩
        | some call => cases standing
      · rw [same]
        exact ⟨rfl, attempt_sound sound attempting sock sockets _⟩
  | announcing =>
      rw [stage] at stepped
      cases stepped
      exact ⟨rfl, rest_sound sound rfl _ true⟩
  | exited =>
      rw [stage] at stepped
      cases stepped

/-! ## `connect` and `disconnect` -/

theorem Sound.restage {c : TcpClient} {call next : Option Call} (sound : Sound c call) (fits : c.Fits next)
    (joined : c.Joined next) : Sound c next :=
  { sound with fits := fits, joined := joined }

theorem withCalls_sound {c : TcpClient} {call : Option Call} (sound : Sound c call) (calls : List Call) :
    Sound (c.withCalls calls) call := by
  have background : Background c (c.withCalls calls) :=
    ⟨rfl, rfl, ⟨rfl, rfl, rfl⟩, id, fun _ => rfl, fun _ _ => rfl, fun _ => rfl,
      fun _ _ up => ⟨up.handle, up.stage, up.phase, up.socket⟩,
      fun _ _ up => ⟨up.handle, up.phase, up.socket⟩⟩
  exact background.unmoved sound rfl rfl rfl rfl rfl rfl rfl id

theorem launch_sound {c : TcpClient} (sound : Sound c (some .launching)) :
    Sound c.launch (some (.trying .opening)) := by
  obtain ⟨fresh, closed, -⟩ := sound.fits
  rw [launch_free sound.joined]
  exact
    { alive := sound.alive
      fits := ⟨⟨fresh.reader, fresh.writer, fresh.readBuf⟩, closed, rfl⟩
      joined := nofun
      attempt := nofun
      readHandle := sound.readHandle
      writeHandle := sound.writeHandle
      bytes := .of_empty (sound.bytes.origins_nil fresh.readBuf) fresh.readBuf }

theorem trying_fits {c : TcpClient} {dial : Dial} (fits : c.Fits (some (.trying dial))) :
    c.Fresh ∧ c.connected = false ∧ c.reconnect.attempting = false := by
  cases dial with
  | opening => exact fits
  | dialing | connecting => exact ⟨fits.1, fits.2.1, fits.2.2.1⟩

theorem dialed_sound {c : TcpClient} {dial : Dial} (sound : Sound c (some (.trying dial))) {sock : Option Nat}
    {out : Dial ⊕ Bool} (sockets : Nat)
    (outcome : out = .inr false ∨ sock ≠ none ∧ (out = .inl .dialing ∨ out = .inl .connecting)) :
    Sound { c with sock := sock, sockets := sockets } (connectNext out) := by
  obtain ⟨fresh, closed, resting⟩ := trying_fits sound.fits
  have still : Fresh { c with sock := sock, sockets := sockets } := ⟨fresh.reader, fresh.writer, fresh.readBuf⟩
  refine ⟨sound.alive, ?_, ?_, ?_, sound.readHandle, sound.writeHandle, ?_⟩
  · rcases outcome with rfl | ⟨some, rfl | rfl⟩
    · exact fun connected => absurd (connected.symm.trans closed) nofun
    · exact ⟨still, closed, resting, some⟩
    · exact ⟨still, closed, resting, some⟩
  · rcases outcome with rfl | ⟨-, rfl | rfl⟩ <;> exact sound.joined
  · exact fun attempting => absurd (attempting.symm.trans resting) nofun
  · exact .of_empty (sound.bytes.origins_nil fresh.readBuf) fresh.readBuf

theorem connected_sound {c : TcpClient} (sound : Sound c (some (.trying .connecting))) :
    Sound { c with connected := true } (some .startReader) := by
  obtain ⟨fresh, -, resting, some⟩ := sound.fits
  exact
    { alive := sound.alive
      fits := ⟨⟨fresh.reader, fresh.writer, fresh.readBuf⟩, rfl, resting, some⟩
      joined := sound.joined
      attempt := fun attempting => absurd (attempting.symm.trans resting) nofun
      readHandle := sound.readHandle
      writeHandle := sound.writeHandle
      bytes := .of_empty (sound.bytes.origins_nil fresh.readBuf) fresh.readBuf }

theorem startReader_sound {c : TcpClient} (sound : Sound c (some .startReader)) :
    Sound c.startReader (some .startWriter) := by
  obtain ⟨fresh, -, resting, some⟩ := sound.fits
  rw [startReader_free fresh.reader]
  exact
    { alive := sound.alive
      fits := ⟨fresh.writer, fun _ => ⟨some, rfl, rfl, ⟨nofun, nofun⟩, nofun⟩⟩
      joined := sound.joined
      attempt := fun attempting => absurd (attempting.symm.trans resting) nofun
      readHandle := fun _ => rfl
      writeHandle := sound.writeHandle
      bytes := .of_empty (sound.bytes.origins_nil fresh.readBuf) fresh.readBuf }

theorem startWriter_sound {c : TcpClient} (sound : Sound c (some .startWriter)) :
    Sound c.startWriter (some .announcing) := by
  obtain ⟨free, reader⟩ := sound.fits
  rw [startWriter_free free]
  refine ⟨sound.alive, fun connected => ?_, sound.joined, sound.attempt, sound.readHandle, fun _ => rfl, ?_⟩
  · obtain ⟨some, up⟩ := reader connected
    exact ⟨some, ⟨up.handle, up.stage, up.phase, up.socket⟩, ⟨rfl, nofun, nofun⟩⟩
  · exact sound.bytes.frame rfl rfl (.inr rfl) fun waits _ => .inl ⟨waits, rfl⟩

/-- A step of a call that does nothing to the threads but to clear `connected_` and `sock_`, or to join one. -/
structure Winding (c t : TcpClient) : Prop where
  terminated : t.terminated = c.terminated
  reader : t.reader = c.reader ∧ t.recvOn = c.recvOn ∧ t.origins = c.origins
  stages : t.readStage = c.readStage ∧ t.writer = c.writer ∧ t.reconnect = c.reconnect
  connected : t.connected = true → c.connected = true
  sock : t.sock = none ∨ t.sock = c.sock
  readHandle : c.readStage ≠ .returned → c.readHandle = true → t.readHandle = true
  writeHandle : c.writer.phase ≠ .finished → c.writeHandle = true → t.writeHandle = true

theorem Winding.sound {c t : TcpClient} {call next : Option Call} (winding : Winding c t) (before : Sound c call)
    (fits : t.Fits next) (joined : t.Joined next) : Sound t next := by
  obtain ⟨reader, recvOn, origins⟩ := winding.reader
  obtain ⟨readStage, writer, reconnect⟩ := winding.stages
  have will : t.WillRecv → c.WillRecv := by
    rw [WillRecv, readStage, reader, recvOn]
    rintro ⟨running, receiving | ⟨elsewhere, alive⟩⟩
    · exact ⟨running, .inl receiving⟩
    · exact ⟨running, .inr ⟨elsewhere, winding.connected alive⟩⟩
  refine ⟨winding.terminated.trans before.alive, fits, joined, ?_, ?_, ?_, ?_⟩
  · rw [reconnect, origins]
    intro attempting
    obtain ⟨closed, empty⟩ := before.attempt attempting
    refine ⟨?_, fun waits => empty (will waits)⟩
    cases alive : t.connected with
    | false => rfl
    | true => exact absurd ((winding.connected alive).symm.trans closed) nofun
  · rw [readStage]
    exact fun running => winding.readHandle running (before.readHandle running)
  · rw [writer]
    exact fun running => winding.writeHandle running (before.writeHandle running)
  · apply before.bytes.frame origins (by rw [reader]) (.inr recvOn)
    intro waits some
    rcases winding.sock with gone | same
    · exact absurd gone some
    · exact .inl ⟨will waits, same⟩

theorem advance_sound {c c' : TcpClient} {ok : Bool} {call : Call} {next : Option Call}
    (sound : Sound c (some call)) (advanced : c.advance ok call = some (c', next)) : Sound c' next := by
  have fits := sound.fits
  have joined := sound.joined
  cases call with
  | checking =>
      cases advanced
      cases running : c.running with
      | true => exact sound.restage fits joined
      | false => exact sound.restage fits (joined running)
  | launching =>
      cases advanced
      exact launch_sound sound
  | trying dial =>
      cases advanced
      rcases tryConnect_cases c ok dial with ⟨rfl, -, same⟩ | ⟨sock, sockets, out, same, outcome⟩
      · rw [same]
        exact connected_sound sound
      · rw [same]
        exact dialed_sound sound sockets outcome
  | startReader =>
      cases advanced
      exact startReader_sound sound
  | startWriter =>
      cases advanced
      exact startWriter_sound sound
  | announcing =>
      cases advanced
      have winding : Winding c { c with log := c.log ++ [.connected] } :=
        ⟨rfl, ⟨rfl, rfl, rfl⟩, ⟨rfl, rfl, rfl⟩, id, .inr rfl, fun _ => id, fun _ => id⟩
      exact winding.sound sound (fun connected => (fits connected).same rfl ⟨rfl, rfl, rfl, rfl⟩ ⟨rfl, rfl, rfl⟩) joined
  | leaving =>
      cases advanced
      cases running : c.running with
      | true => exact sound.restage fits joined
      | false => exact sound.restage fits joined
  | stopping =>
      cases advanced
      have winding : Winding c { c with running := false } :=
        ⟨rfl, ⟨rfl, rfl, rfl⟩, ⟨rfl, rfl, rfl⟩, id, .inr rfl, fun _ => id, fun _ => id⟩
      exact winding.sound sound (fun connected => (fits connected).same rfl ⟨rfl, rfl, rfl, rfl⟩ ⟨rfl, rfl, rfl⟩) trivial
  | clearing =>
      cases advanced
      have winding : Winding c { c with connected := false } :=
        ⟨rfl, ⟨rfl, rfl, rfl⟩, ⟨rfl, rfl, rfl⟩, nofun, .inr rfl, fun _ => id, fun _ => id⟩
      exact winding.sound sound rfl trivial
  | closingSocket =>
      cases advanced
      have winding : Winding c { c with sock := none } :=
        ⟨rfl, ⟨rfl, rfl, rfl⟩, ⟨rfl, rfl, rfl⟩, id, .inl rfl, fun _ => id, fun _ => id⟩
      exact winding.sound sound fits trivial
  | joinWriter =>
      simp only [advance] at advanced
      split at advanced
      case isTrue finished =>
        cases advanced
        have winding : Winding c { c with writeHandle := false } :=
          ⟨rfl, ⟨rfl, rfl, rfl⟩, ⟨rfl, rfl, rfl⟩, id, .inr rfl, fun _ => id,
            fun running handle => absurd (finished handle) running⟩
        exact winding.sound sound fits trivial
      case isFalse => cases advanced
  | joinReader =>
      simp only [advance] at advanced
      split at advanced
      case isTrue finished =>
        cases advanced
        have winding : Winding c { c with readHandle := false } :=
          ⟨rfl, ⟨rfl, rfl, rfl⟩, ⟨rfl, rfl, rfl⟩, id, .inr rfl,
            fun running handle => absurd (finished handle) running, fun _ => id⟩
        exact winding.sound sound fits trivial
      case isFalse => cases advanced
  | joinReconnect =>
      simp only [advance] at advanced
      split at advanced
      · cases advanced
        have winding : Winding c { c with reconnectHandle := false } :=
          ⟨rfl, ⟨rfl, rfl, rfl⟩, ⟨rfl, rfl, rfl⟩, id, .inr rfl, fun _ => id, fun _ => id⟩
        exact winding.sound sound fits rfl
      · cases advanced
  | closing =>
      cases advanced
      have winding : Winding c { c with log := c.log ++ [.closed], byReconnect := false } :=
        ⟨rfl, ⟨rfl, rfl, rfl⟩, ⟨rfl, rfl, rfl⟩, id, .inr rfl, fun _ => id, fun _ => id⟩
      exact winding.sound sound (fun connected => absurd (connected.symm.trans fits) nofun) fun _ => joined

def Ordered (c : TcpClient) : Prop := ∃ call, c.calls = call.toList ∧ Sound c call

theorem stepCall_ordered {c t : TcpClient} {i : Nat} {ok : Bool} (ordered : Ordered c)
    (stepped : c.stepCall i ok = some t) : Ordered t := by
  obtain ⟨only, standing, sound⟩ := ordered
  obtain ⟨call, c', next, found, advanced, rfl⟩ := stepCall_cases stepped
  rw [standing] at found ⊢
  cases only with
  | none => cases found
  | some only =>
      cases i with
      | succ i => cases found
      | zero =>
          cases found
          refine ⟨next, ?_, withCalls_sound (advance_sound sound advanced) _⟩
          cases next <;> rfl

theorem connect_ordered {c : TcpClient} (ordered : Ordered c) (orderly : c.Orderly .connect) :
    Ordered (c.withCalls (c.calls ++ [.checking])) := by
  obtain ⟨call, standing, sound⟩ := ordered
  obtain ⟨idle, fresh, resting⟩ := orderly
  rw [idle] at standing
  cases call with
  | some call => cases standing
  | none =>
      have closed : c.connected = false := by
        cases connected : c.connected with
        | false => rfl
        | true => cases (sound.fits connected).reader.handle.symm.trans fresh.reader
      refine ⟨some .checking, by rw [idle]; rfl, withCalls_sound ?_ _⟩
      exact sound.restage ⟨fresh, closed, resting⟩ sound.joined

theorem disconnect_ordered {c : TcpClient} (ordered : Ordered c) (idle : c.calls = []) :
    Ordered (c.withCalls (c.calls ++ [.leaving])) := by
  obtain ⟨call, standing, sound⟩ := ordered
  rw [idle] at standing
  cases call with
  | some call => cases standing
  | none =>
      refine ⟨some .leaving, by rw [idle]; rfl, withCalls_sound ?_ _⟩
      exact sound.restage sound.fits sound.joined

theorem step_ordered (c : TcpClient) (action : Action) (t : TcpClient) (stepped : c.step action = some t)
    (orderly : c.Orderly action) (ordered : Ordered c) : Ordered t := by
  obtain ⟨-, acted⟩ := step_act stepped
  have whole := ordered
  obtain ⟨call, standing, sound⟩ := ordered
  cases action with
  | connect =>
      obtain rfl := Option.some.inj acted
      exact connect_ordered whole orderly
  | disconnect =>
      obtain rfl := Option.some.inj acted
      exact disconnect_ordered whole orderly
  | call i ok => exact stepCall_ordered whole acted
  | reconnect ok =>
      obtain ⟨same, after⟩ := reconnectLoop_sound sound standing orderly acted
      exact ⟨call, same.trans standing, after⟩
  | enterRecv =>
      have after := enterRecv_sound sound acted
      obtain ⟨-, -, -, rfl⟩ := enterRecv_cases acted
      exact ⟨call, standing, after⟩
  | read input action =>
      have after := read_sound sound orderly acted
      obtain ⟨-, -, reader, -, rfl⟩ := read_cases acted
      exact ⟨call, standing, after⟩
  | settle =>
      have after := settle_sound sound acted
      obtain ⟨-, rfl⟩ := settle_cases acted
      exact ⟨call, standing, after⟩
  | notify =>
      have after := notify_sound sound acted
      obtain ⟨-, rfl⟩ := notify_cases acted
      exact ⟨call, standing, after⟩
  | enterSend =>
      have after := enterSend_sound sound acted
      obtain rfl := enterSend_cases acted
      exact ⟨call, standing, after⟩
  | write action =>
      have after := write_sound sound acted
      obtain ⟨writer, bytes, -, rfl⟩ := write_cases acted
      exact ⟨call, standing, after⟩
  | send pkt =>
      obtain rfl := Option.some.inj acted
      obtain ⟨queue, frame⟩ := send_frame c (Protocol.encode pkt)
      exact ⟨call, by rw [frame]; exact standing, send_sound sound _⟩
  | sendRaw data =>
      obtain rfl := Option.some.inj acted
      obtain ⟨queue, frame⟩ := send_frame c data
      exact ⟨call, by rw [frame]; exact standing, send_sound sound _⟩

theorem client_consistent {actions : List Action} {c : TcpClient} (run : exec step {} actions = some c)
    (orderly : Respects Orderly step {} actions) : Consistent c := by
  have initial : Ordered {} := by
    refine ⟨none, rfl, rfl, nofun, fun _ => rfl, nofun, fun running => absurd rfl running,
      fun running => absurd rfl running, .of_empty rfl rfl⟩
  obtain ⟨call, standing, sound⟩ := exec_invariant_of_respects step_ordered run orderly initial
  exact sound.consistent standing

instance (c : TcpClient) : Decidable c.ReaderUp :=
  decidable_of_iff (c.readHandle = true ∧ c.readStage = .running ∧
      (c.reader.phase ≠ .finished ∧ c.reader.phase ≠ .crashed) ∧ ∀ handle ∈ c.recvOn, handle = c.sock)
    ⟨fun ⟨handle, stage, phase, socket⟩ => ⟨handle, stage, phase, socket⟩,
      fun ⟨handle, stage, phase, socket⟩ => ⟨handle, stage, phase, socket⟩⟩

instance (c : TcpClient) : Decidable c.WriterUp :=
  decidable_of_iff (c.writeHandle = true ∧ c.writer.phase ≠ .finished ∧ ∀ handle ∈ c.sendOn, handle = c.sock)
    ⟨fun ⟨handle, phase, socket⟩ => ⟨handle, phase, socket⟩, fun ⟨handle, phase, socket⟩ => ⟨handle, phase, socket⟩⟩

instance (c : TcpClient) : Decidable c.Up :=
  decidable_of_iff (c.sock ≠ none ∧ c.ReaderUp ∧ c.WriterUp)
    ⟨fun ⟨sock, reader, writer⟩ => ⟨sock, reader, writer⟩, fun ⟨sock, reader, writer⟩ => ⟨sock, reader, writer⟩⟩

instance (c : TcpClient) : Decidable c.Fresh :=
  decidable_of_iff (c.readHandle = false ∧ c.writeHandle = false ∧ c.reader.readBuf = [])
    ⟨fun ⟨reader, writer, readBuf⟩ => ⟨reader, writer, readBuf⟩,
      fun ⟨reader, writer, readBuf⟩ => ⟨reader, writer, readBuf⟩⟩

instance (c : TcpClient) : Decidable c.WillRecv := inferInstanceAs (Decidable (_ ∧ (_ ∧ _ ∨ _ ∧ _)))

instance (c : TcpClient) : Decidable (∃ round, parseMessage c.reader.readBuf = .ok round) :=
  match parseMessage c.reader.readBuf with
  | .ok round => isTrue ⟨round, rfl⟩
  | .error _ => isFalse nofun

instance : ∀ (c : TcpClient) (action : Action), Decidable (c.Orderly action)
  | _, .connect => inferInstanceAs (Decidable (_ ∧ _ ∧ _ = false))
  | c, .disconnect => inferInstanceAs (Decidable (c.calls = []))
  | c, .reconnect ok => inferInstanceAs (Decidable
      ((c.reconnect = .sleeping → c.connected = false → c.running = true →
        (∀ call ∈ c.calls, call.dialing = false) ∧ (c.WillRecv → c.reader.readBuf = [])) ∧
      (c.reconnect = .trying .connecting → ok = true → c.calls = [] ∧ c.Up ∧ c.reader.readBuf = [])))
  | c, .read _ .run => inferInstanceAs (Decidable
      (c.reader.phase = .parsing → ∃ round, parseMessage c.reader.readBuf = .ok round))
  | _, .read _ (.recv _) | _, .call _ _ | _, .enterRecv | _, .settle | _, .notify | _, .enterSend | _, .write _
  | _, .send _ | _, .sendRaw _ => isTrue trivial

/-- `write_loop` finds the connection lost while `read_loop` is in `on_message_`, and both go on with the next one. -/
def takeover : List Action :=
  connects ++ [.read [] .run, .enterRecv, .read [0, 0, 0, 7, 0, 1, 9] (.recv (.chunk 7)), .read [] .run,
    .send ⟨7, []⟩, .write .run, .write .run, .write .run, .enterSend, .write (.send (.error .other))] ++
    List.replicate 6 (.reconnect true)

theorem takeover_consistent :
    ∃ c, exec step {} takeover = some c ∧ c.connected = true ∧ c.sock = some 1 ∧ Consistent c := by
  have orderly : Respects Orderly step {} takeover := by decide
  have completes : (exec step {} takeover).map (fun c => (c.connected, c.sock)) = some (true, some 1) := by decide
  obtain ⟨c, run, same⟩ := Option.map_eq_some_iff.mp completes
  obtain ⟨connected, sock⟩ := Prod.mk.inj same
  exact ⟨c, run, connected, sock, client_consistent run orderly⟩

def connectsTwice : List Action := connects ++ peerCloses ++ .connect :: List.replicate 5 (.call 0 true)

def reconnects : List Action := connects ++ peerCloses ++ List.replicate 6 (.reconnect true)

def halfMessage : List Action :=
  connects ++ [.read [] .run, .enterRecv, .read [0, 0, 0] (.recv (.chunk 3)), .read [] .run] ++ peerCloses ++
    disconnects ++ connects ++ [.read [] .run, .enterRecv, .read [7] (.recv (.chunk 1))]

/-- A second `connect` overwrites the threads of the first; `reconnect_loop` starts none; and the bytes of half a
message wait for the next connection. -/
theorem client_inconsistent :
    (∃ c, exec step {} connectsTwice = some c ∧ c.terminated = true ∧ ¬ Consistent c) ∧
    (∃ c, exec step {} reconnects = some c ∧ c.connected = true ∧ c.readStage = .returned ∧ ¬ Consistent c) ∧
    ∃ c, exec step {} halfMessage = some c ∧ c.reader.phase = .parsing ∧ c.origins = [0, 0, 0, 1] ∧
      ¬ Consistent c := by
  refine ⟨?_, ?_, ?_⟩
  · have ends : (exec step {} connectsTwice).map terminated = some true := by decide
    obtain ⟨c, run, terminated⟩ := Option.map_eq_some_iff.mp ends
    refine ⟨c, run, terminated, fun consistent => ?_⟩
    cases consistent.handles.symm.trans terminated
  · have ends : (exec step {} reconnects).map (fun c => (c.connected, c.readStage, c.calls, c.reconnect)) =
        some (true, .returned, [], .top) := by decide
    obtain ⟨c, run, same⟩ := Option.map_eq_some_iff.mp ends
    obtain ⟨connected, returned, calls, resting⟩ := by simpa only [Prod.mk.injEq] using same
    refine ⟨c, run, connected, returned, fun consistent => ?_⟩
    have quiet : c.Quiet := by
      rw [Quiet, calls, resting]
      exact ⟨nofun, rfl, nofun⟩
    cases (consistent.threads connected quiet).reader.stage.symm.trans returned
  · have ends : (exec step {} halfMessage).map (fun c => (c.reader.phase, c.origins)) =
        some (.parsing, [0, 0, 0, 1]) := by decide
    obtain ⟨c, run, same⟩ := Option.map_eq_some_iff.mp ends
    obtain ⟨parsing, origins⟩ := Prod.mk.inj same
    refine ⟨c, run, parsing, origins, fun consistent => ?_⟩
    have uniform := consistent.bytes parsing
    rw [origins] at uniform
    cases uniform 0 (by simp) 1 (by simp)

end ServerFramework.Tcp.TcpClient
