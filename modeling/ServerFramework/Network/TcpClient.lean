import ServerFramework.Network.Socket

namespace ServerFramework.Tcp
open Protocol Bytes

namespace TcpClient

/-- One round of the parsing loop of `read_loop`: the payload handed to `on_message_` and the rest of
`read_buf_`, or `none` when the loop is left. -/
def parseMessage (readBuf : List UInt8) : Except Fault (Option (List UInt8 × List UInt8)) := do
  if readBuf.length < 4 then return none
  let totalLenBe ← memcpy readBuf 0 4
  let totalLen := ntohl (load32 totalLenBe)
  if readBuf.length < totalLen.toNat then return none
  let msg ← memcpy readBuf 6 (totalLen - 6).toNat
  return some (msg, readBuf.drop totalLen.toNat)

/-- `n <= 0` from `::send`: `connected_` is cleared and the inner loop left. -/
def sendFailed (w : WriteSide) : WriteSide :=
  { w with alive := false, phase := .top, sendFailed := true }

def writeLoop (w : WriteSide) : WriteAction → Option (WriteSide × List UInt8)
  | .run => match w.phase with
      | .top => some (w.check, [])
      | .waiting => some (w.take, [])
      | .holding msg =>
          if msg.isEmpty then some ({ w with phase := .top }, [])
          else some ({ w with phase := .sending msg 0 }, [])
      | _ => none
  | .send result => match w.phase with
      | .sending msg sent => match result with
          | .sent 0 => some (sendFailed w, [])
          | .sent n =>
              if n ≤ msg.length - sent then some (w.advance msg (sent + n), (msg.drop sent).take n)
              else none
          | .error _ => some (sendFailed w, [])
      | _ => none

def finishRead (r : ReadSide (List UInt8)) : ReadSide (List UInt8) :=
  { r with phase := .finished, alive := false }

def readLoop (r : ReadSide (List UInt8)) (channel : List UInt8) :
    ReadAction → Option (ReadSide (List UInt8) × List UInt8)
  | .run => match r.phase with
      | .top => some (if r.alive then { r with phase := .receiving } else finishRead r, channel)
      | .parsing => some (r.parsed (parseMessage r.readBuf), channel)
      | _ => none
  | .recv result => match r.phase with
      | .receiving => match result with
          | .chunk n => r.receive channel n
          | .eof => some (finishRead r, channel)
          | .error e => some (finishRead { r with errno := e }, channel)
      | _ => none

/-! ## `connect`, `disconnect` and the three threads together -/

/-- Inside `try_connect`: before `::socket`, before `::connect`, in `::connect`. -/
inductive Dial
  | opening | dialing | connecting
  deriving DecidableEq, Repr

/-- A call of `connect`, or of `disconnect` on the second line, named by what it does next. -/
inductive Call
  | checking | launching | trying (dial : Dial) | startReader | startWriter | announcing
  | leaving | stopping | clearing | closingSocket | joinWriter | joinReader | joinReconnect | closing
  deriving DecidableEq, Repr

inductive Reconnect
  | top | sleeping | trying (dial : Dial) | announcing | exited
  deriving DecidableEq, Repr

/-- The read thread is in its loop, past it, past the second store to `connected_`, past its `on_close_` call. -/
inductive ReadStage
  | running | left | settled | returned
  deriving DecidableEq, Repr

inductive Notice
  | connected | closed
  deriving DecidableEq, Repr

end TcpClient

-- `sock` numbers the sockets in the order of their making, `none` being INVALID_SOCKET. `recvOn` and `sendOn` have
-- the handle given to the system call that the thread is in, `origins` the socket that each byte of `read_buf_` came
-- from. `reader.alive` and `writer.alive` stand for `connected_` during a step only. `log` has the calls of
-- `on_connected_` and `on_close_`, both set; `byReconnect` is set from an `on_connected_` of `reconnect_loop` to the
-- next `on_close_` of `disconnect`.
structure TcpClient where
  running : Bool := false
  connected : Bool := false
  sock : Option Nat := none
  sockets : Nat := 0
  readHandle : Bool := false
  writeHandle : Bool := false
  reconnectHandle : Bool := false
  readStage : TcpClient.ReadStage := .returned
  reader : ReadSide (List UInt8) := {}
  recvOn : Option (Option Nat) := none
  origins : List Nat := []
  writer : WriteSide := { phase := .finished }
  sendOn : Option (Option Nat) := none
  reconnect : TcpClient.Reconnect := .exited
  calls : List TcpClient.Call := []
  log : List TcpClient.Notice := []
  byReconnect : Bool := false
  terminated : Bool := false
  deriving DecidableEq, Repr

namespace TcpClient

inductive Action
  | connect
  | disconnect
  | call (i : Nat) (ok : Bool)
  | reconnect (ok : Bool)
  | enterRecv
  | read (input : List UInt8) (action : ReadAction)
  | settle
  | notify
  | enterSend
  | write (action : WriteAction)
  | send (pkt : Packet)
  | sendRaw (data : List UInt8)
  deriving DecidableEq, Repr

/-- A step of `try_connect`, where `ok` is whether the system call succeeds, and what `try_connect` returns. -/
def tryConnect (c : TcpClient) (ok : Bool) : Dial → TcpClient × (Dial ⊕ Bool)
  | .opening =>
      if ok then ({ c with sock := some c.sockets, sockets := c.sockets + 1 }, .inl .dialing)
      else ({ c with sock := none }, .inr false)
  | .dialing =>
      if c.sock.isSome then (c, .inl .connecting)
      else (c, .inr false)
  | .connecting =>
      if ok then ({ c with connected := true }, .inr true)
      else ({ c with sock := none }, .inr false)

-- Assigning to a `std::thread` that is still joinable calls `std::terminate`.

def launch (c : TcpClient) : TcpClient :=
  if c.reconnectHandle then { c with running := true, terminated := true }
  else { c with running := true, reconnectHandle := true, reconnect := .top }

def startReader (c : TcpClient) : TcpClient :=
  if c.readHandle then { c with terminated := true }
  else { c with
    readHandle := true
    readStage := .running
    reader := { c.reader with phase := .top }
    recvOn := none }

def startWriter (c : TcpClient) : TcpClient :=
  if c.writeHandle then { c with terminated := true }
  else { c with
    writeHandle := true
    writer := { c.writer with phase := .top }
    sendOn := none }

def connectNext : Dial ⊕ Bool → Option Call
  | .inl dial => some (.trying dial)
  | .inr ok => if ok then some .startReader else none

/-- A step of a call, and where the call stands then; `none` when it has returned. -/
def advance (c : TcpClient) (ok : Bool) : Call → Option (TcpClient × Option Call)
  | .checking => some (c, some (if c.running then .trying .opening else .launching))
  | .launching => some (c.launch, some (.trying .opening))
  | .trying dial => some ((c.tryConnect ok dial).1, connectNext (c.tryConnect ok dial).2)
  | .startReader => some (c.startReader, some .startWriter)
  | .startWriter => some (c.startWriter, some .announcing)
  | .announcing => some ({ c with log := c.log ++ [.connected] }, none)
  | .leaving => some (c, if c.running then some .stopping else none)
  | .stopping => some ({ c with running := false }, some .clearing)
  | .clearing => some ({ c with connected := false }, some .closingSocket)
  | .closingSocket => some ({ c with sock := none }, some .joinWriter)
  | .joinWriter =>
      if c.writeHandle → c.writer.phase = .finished then some ({ c with writeHandle := false }, some .joinReader)
      else none
  | .joinReader =>
      if c.readHandle → c.readStage = .returned then some ({ c with readHandle := false }, some .joinReconnect)
      else none
  | .joinReconnect =>
      if c.reconnectHandle → c.reconnect = .exited then some ({ c with reconnectHandle := false }, some .closing)
      else none
  | .closing => some ({ c with log := c.log ++ [.closed], byReconnect := false }, none)

def putCall (calls : List Call) (i : Nat) : Option Call → List Call
  | some call => calls.set i call
  | none => calls.eraseIdx i

def withCalls (c : TcpClient) (calls : List Call) : TcpClient := { c with calls := calls }

def stepCall (c : TcpClient) (i : Nat) (ok : Bool) : Option TcpClient :=
  c.calls[i]?.bind fun call => (c.advance ok call).map fun (c', next) => c'.withCalls (putCall c.calls i next)

def reconnectNext : Dial ⊕ Bool → Reconnect
  | .inl dial => .trying dial
  | .inr ok => if ok then .announcing else .top

def reconnectLoop (c : TcpClient) (ok : Bool) : Option TcpClient :=
  match c.reconnect with
  | .top => some { c with reconnect := if c.running then .sleeping else .exited }
  | .sleeping => some { c with reconnect := if !c.connected && c.running then .trying .opening else .top }
  | .trying dial => some { (c.tryConnect ok dial).1 with reconnect := reconnectNext (c.tryConnect ok dial).2 }
  | .announcing => some { c with log := c.log ++ [.connected], byReconnect := true, reconnect := .top }
  | .exited => none

-- `recv` is over only after `enterRecv`, and nothing comes from INVALID_SOCKET; likewise for `send`.

def recvReturns (c : TcpClient) : ReadAction → Bool
  | .run => true
  | .recv (.chunk _) => (c.recvOn.bind id).isSome
  | .recv _ => c.recvOn.isSome

def sendReturns (c : TcpClient) : WriteAction → Bool
  | .run => true
  | .send (.sent (_ + 1)) => (c.sendOn.bind id).isSome
  | .send _ => c.sendOn.isSome

/-- The origins of the bytes in `read_buf_` once it has become `readBuf`: bytes leave at the front and come in at the
back, from the socket that `recv` was called on. -/
def originsOf (c : TcpClient) (readBuf : List UInt8) : List Nat :=
  c.origins.drop (c.reader.readBuf.length - readBuf.length) ++
    match c.recvOn.bind id with
    | some socket => List.replicate (readBuf.length - c.reader.readBuf.length) socket
    | none => []

def afterRead (c : TcpClient) (reader : ReadSide (List UInt8)) : TcpClient :=
  { c with
    connected := reader.alive
    reader := reader
    recvOn := none
    origins := c.originsOf reader.readBuf
    readStage := if reader.phase = .finished then .left else .running }

def read (c : TcpClient) (input : List UInt8) (action : ReadAction) : Option TcpClient :=
  if c.readStage = .running ∧ c.recvReturns action then
    (readLoop { c.reader with alive := c.connected } input action).map fun (reader, _) => c.afterRead reader
  else none

def write (c : TcpClient) (action : WriteAction) : Option TcpClient :=
  if c.sendReturns action then
    (writeLoop { c.writer with alive := c.connected } action).map fun (writer, _) =>
      { c with connected := writer.alive, writer := writer, sendOn := none }
  else none

def enterRecv (c : TcpClient) : Option TcpClient :=
  if c.readStage = .running ∧ c.reader.phase = .receiving ∧ c.recvOn = none then
    some { c with recvOn := some c.sock }
  else none

def enterSend (c : TcpClient) : Option TcpClient :=
  match c.writer.phase, c.sendOn with
  | .sending _ _, none => some { c with sendOn := some c.sock }
  | _, _ => none

def send (c : TcpClient) (buf : List UInt8) : Bool × TcpClient :=
  if c.connected then (true, { c with writer := { c.writer with writeQueue := c.writer.writeQueue ++ [buf] } })
  else (false, c)

def settle (c : TcpClient) : Option TcpClient :=
  if c.readStage = .left then some { c with connected := false, readStage := .settled } else none

def notify (c : TcpClient) : Option TcpClient :=
  if c.readStage = .settled then some { c with log := c.log ++ [.closed], readStage := .returned } else none

def act (c : TcpClient) : Action → Option TcpClient
  | .connect => some (c.withCalls (c.calls ++ [.checking]))
  | .disconnect => some (c.withCalls (c.calls ++ [.leaving]))
  | .call i ok => c.stepCall i ok
  | .reconnect ok => c.reconnectLoop ok
  | .enterRecv => c.enterRecv
  | .read input action => c.read input action
  | .settle => c.settle
  | .notify => c.notify
  | .enterSend => c.enterSend
  | .write action => c.write action
  | .send pkt => some (c.send (encode pkt)).2
  | .sendRaw data => some (c.send data).2

def step (c : TcpClient) (action : Action) : Option TcpClient :=
  if c.terminated then none else c.act action

end TcpClient

end ServerFramework.Tcp
