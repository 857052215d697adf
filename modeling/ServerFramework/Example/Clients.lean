import ServerFramework.Example.Gateway
import ServerFramework.Network.Link

namespace ServerFramework.Example
open Protocol Tcp

-- The client at the other end of a connection: the packets that its `send` has queued, its write side, the bytes on
-- their way to the server, those on their way back, its read side.
structure Client where
  asked : List Packet := []
  writer : WriteSide := {}
  up : List UInt8 := []
  down : List UInt8 := []
  reader : ReadSide (List UInt8) := {}
  deriving DecidableEq, Repr

def Client.step (c : Client) : LinkAction → Option Client
  | .enqueue pkt => some { c with asked := c.asked ++ [pkt], writer := c.writer.push pkt }
  | .closeWriter => some { c with writer := { c.writer with alive := false } }
  | .closeReader => some { c with reader := { c.reader with alive := false } }
  | .write action => (TcpClient.writeLoop c.writer action).map fun (writer, bytes) =>
      { c with writer, up := c.up ++ bytes }
  | .read action => (TcpClient.readLoop c.reader c.down action).map fun (reader, down) => { c with reader, down }

/-- A gateway and its clients; connection `p` is that of client `p`, which never reconnects, and its descriptor is not
given out again while a thread of the connection may still use it. -/
structure Clients (n : Nat) where
  gateway : Gateway n := {}
  client : Nat → Client := fun _ => {}

namespace Clients

variable {n : Nat}

inductive Action (n : Nat)
  | gateway (action : Gateway.Action n)
  | client (p : Nat) (action : LinkAction)

/-- A reader gets what its client has written. -/
def supplied (s : Clients n) : Gateway.Action n → Bool
  | .net (.read p input _) _ => input = (s.client p).up
  | _ => true

def received (p : Nat) : Gateway.Action n → Nat
  | .net (.read q _ (.recv (.chunk count))) _ => if q = p then count else 0
  | _ => 0

def step (s : Clients n) : Action n → Option (Clients n)
  | .gateway action =>
      if s.supplied action then (s.gateway.step action).map fun gateway =>
        { gateway
          client := fun p =>
            { s.client p with
              up := (s.client p).up.drop (received p action)
              down := (s.client p).down ++ (gateway.net.out p).drop (s.gateway.net.out p).length } }
      else none
  | .client p action => ((s.client p).step action).map fun client =>
      { s with client := Function.update s.client p client }

end Clients

end ServerFramework.Example
