import ServerFramework.Library.Runs
import ServerFramework.Network.TcpServer

namespace ServerFramework.Tcp
open Protocol

-- A server beside what passes through it. `calls` has the calls of `send_to` and `broadcast` in the order of
-- `conn_mutex_`, a broadcast without a session; `joined` the number of calls before each connection was registered;
-- `frames` what was pushed on each `write_queue_`; `out` the bytes that `::send` has taken from each connection's
-- `write_loop`, whatever its descriptor stands for by then.
structure Traffic where
  server : TcpServer
  calls : List (Option Int × Packet) := []
  joined : List Nat := []
  frames : Nat → List (List UInt8) := fun _ => []
  out : Nat → List UInt8 := fun _ => []

namespace TcpServer

def writeQueue (s : TcpServer) (p : Nat) : List (List UInt8) :=
  match s.made[p]? with
  | none => []
  | some c => c.writer.writeQueue

/-- The bytes that `::send` takes from a `write_loop` in a step. -/
def written (s : TcpServer) (p : Nat) : Action → List UInt8
  | .write q action => if q = p then
      match s.made[p]?.bind fun c => TcpConnection.writeLoop c.writer action with
      | none => []
      | some (_, bytes) => bytes
    else []
  | _ => []

def Action.sends : Action → List (Option Int × Packet)
  | .sendTo sessionId pkt => [(some sessionId, pkt)]
  | .broadcast pkt => [(none, pkt)]
  | _ => []

end TcpServer

def addressed (sessionId : Int) (call : Option Int × Packet) : Option (List UInt8) :=
  if call.1 = none ∨ call.1 = some sessionId then some (encode call.2) else none

namespace Traffic

def step (s : Traffic) (action : TcpServer.Action) : Option Traffic :=
  (s.server.step action).map fun server =>
    { server
      calls := s.calls ++ action.sends
      joined := if action = .accept then s.joined ++ [s.calls.length] else s.joined
      frames := fun p => s.frames p ++ (server.writeQueue p).drop (s.server.writeQueue p).length
      out := fun p => s.out p ++ s.server.written p action }

end Traffic

end ServerFramework.Tcp
