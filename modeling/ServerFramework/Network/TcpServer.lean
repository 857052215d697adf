import ServerFramework.Network.TcpConnection

namespace ServerFramework.Tcp
open Protocol

inductive Callback
  | connected
  | message (pkt : Packet)
  | closed
  deriving DecidableEq, Repr

-- Which of the user's handlers were set before `start`.
structure Handlers where
  connected : Bool
  message : Bool
  close : Bool
  deriving DecidableEq, Repr

/-- A connection is made and registered, has its threads, has left `read_loop` and closed, is erased by the
wrapper around the close handler, is past the call of that handler. -/
inductive Life
  | made | started | left | erased | notified
  deriving DecidableEq, Repr

structure Connection where
  sessionId : Int
  onConnected : Bool := false
  onMessage : Bool := false
  life : Life := .made
  reader : ReadSide Packet := {}
  writer : WriteSide := {}
  deriving DecidableEq, Repr

namespace Connection

def close (c : Connection) : Connection :=
  { c with reader := { c.reader with alive := false }, writer := { c.writer with alive := false } }

def sendPacket (c : Connection) (pkt : Packet) : Bool × Connection :=
  let (queued, writer) := TcpConnection.sendPacket c.writer pkt
  (queued, { c with writer := writer })

def afterRead (c : Connection) (reader : ReadSide Packet) : Connection :=
  { c with
    reader := reader
    writer := { c.writer with alive := reader.alive }
    life := if reader.phase = .finished then .left else c.life }

end Connection

-- A pointer to a connection is its index in `made`, the connections in the order of their making; `log` has the
-- calls of the user's handlers.
structure TcpServer where
  handlers : Handlers
  running : Bool := false
  launched : Bool := false
  nextSessionId : Int := 1
  made : List Connection := []
  connections : List (Int × Nat) := []
  log : List (Int × Callback) := []
  deriving DecidableEq, Repr

namespace TcpServer

inductive Action
  | start
  | accept
  | begin (p : Nat)
  | read (p : Nat) (input : List UInt8) (action : ReadAction)
  | write (p : Nat) (action : WriteAction)
  | erase (p : Nat)
  | notify (p : Nat)
  | heartbeat (idle : List Int)
  | closeSession (sessionId : Int)
  | stop
  | sendTo (sessionId : Int) (pkt : Packet)
  | broadcast (pkt : Packet)
  deriving DecidableEq, Repr

def erase (sessionId : Int) (connections : List (Int × Nat)) : List (Int × Nat) :=
  connections.filter fun entry => entry.1 ≠ sessionId

def update (s : TcpServer) (p : Nat) (c : Connection) : TcpServer := { s with made := s.made.set p c }

def call (s : TcpServer) (sessionId : Int) (callbacks : List Callback) : TcpServer :=
  { s with log := s.log ++ callbacks.map fun callback => (sessionId, callback) }

/-- `for (auto& kv : connections_)`, for the entries that are chosen. -/
def forEach (s : TcpServer) (chosen : Int → Bool) (f : Connection → Connection) : TcpServer :=
  let entries := s.connections.filter fun entry => chosen entry.1
  { s with made := entries.foldl (fun made entry => made.modify entry.2 f) s.made }

/-- The locked section of `accept_loop`. Nothing passes `on_connected_` on to the connection. -/
def accept (s : TcpServer) : Option TcpServer :=
  -- `next_session_id_++` overflows otherwise
  if s.launched ∧ s.nextSessionId + 1 < 2 ^ 63 then
    some { s with
      nextSessionId := s.nextSessionId + 1
      made := s.made ++ [{ sessionId := s.nextSessionId, onMessage := s.handlers.message }]
      connections := erase s.nextSessionId s.connections ++ [(s.nextSessionId, s.made.length)] }
  else none

def begin (s : TcpServer) (p : Nat) (c : Connection) : TcpServer :=
  (s.update p { c with life := .started }).call c.sessionId (if c.onConnected then [.connected] else [])

def read (s : TcpServer) (p : Nat) (c : Connection) (reader : ReadSide Packet) : TcpServer :=
  let messages := reader.delivered.drop c.reader.delivered.length
  (s.update p (c.afterRead reader)).call c.sessionId (if c.onMessage then messages.map .message else [])

/-- The two halves of the wrapper that `accept_loop` passes to `set_on_close`. -/
def eraseSession (s : TcpServer) (p : Nat) (c : Connection) : TcpServer :=
  { s.update p { c with life := .erased } with connections := erase c.sessionId s.connections }

def notify (s : TcpServer) (p : Nat) (c : Connection) : TcpServer :=
  (s.update p { c with life := .notified }).call c.sessionId (if s.handlers.close then [.closed] else [])

def heartbeat (s : TcpServer) (idle : List Int) : TcpServer :=
  s.forEach (fun sessionId => sessionId ∈ idle) Connection.close

def closeSession (s : TcpServer) (sessionId : Int) : TcpServer :=
  { s.forEach (fun other => other = sessionId) Connection.close with
    connections := erase sessionId s.connections }

def stop (s : TcpServer) : TcpServer :=
  if s.running then
    { s.forEach (fun _ => true) Connection.close with running := false, connections := [] }
  else s

def sendTo (s : TcpServer) (sessionId : Int) (pkt : Packet) : Bool × TcpServer :=
  match s.connections.lookup sessionId with
  | none => (false, s)
  | some p => match s.made[p]? with
      | none => (false, s)
      | some c => ((c.sendPacket pkt).1, s.update p (c.sendPacket pkt).2)

def broadcast (s : TcpServer) (pkt : Packet) : TcpServer :=
  s.forEach (fun _ => true) fun c => (c.sendPacket pkt).2

def withConnection (s : TcpServer) (p : Nat) (stage : Life → Bool) (f : Connection → Option TcpServer) :
    Option TcpServer :=
  s.made[p]?.bind fun c => if stage c.life then f c else none

def step (s : TcpServer) : Action → Option TcpServer
  | .start => some { s with running := true, launched := true }
  | .accept => s.accept
  | .begin p => s.withConnection p (· = .made) fun c => some (s.begin p c)
  | .read p input action => s.withConnection p (· = .started) fun c =>
      (TcpConnection.readLoop c.reader input action).map fun (reader, _) => s.read p c reader
  | .write p action => s.withConnection p (· ≠ .made) fun c =>
      (TcpConnection.writeLoop c.writer action).map fun (writer, _) => s.update p { c with writer := writer }
  | .erase p => s.withConnection p (· = .left) fun c => some (s.eraseSession p c)
  | .notify p => s.withConnection p (· = .erased) fun c => some (s.notify p c)
  | .heartbeat idle => some (s.heartbeat idle)
  | .closeSession sessionId => some (s.closeSession sessionId)
  | .stop => some s.stop
  | .sendTo sessionId pkt => some (s.sendTo sessionId pkt).2
  | .broadcast pkt => some (s.broadcast pkt)

end TcpServer

end ServerFramework.Tcp
