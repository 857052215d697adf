import ServerFramework.Network.TcpConnection
import ServerFramework.Network.TcpClient

namespace ServerFramework.Tcp
open Protocol

-- One direction of a connection: the sender's write side, the bytes in flight, the receiver's read
-- side. `enqueued` lists the packets in the order in which they entered the write queue.
structure Link (μ : Type) where
  enqueued : List Packet := []
  writer : WriteSide := {}
  channel : List UInt8 := []
  reader : ReadSide μ := {}
  deriving DecidableEq, Repr

/-- `enqueue` is the locked push of any thread; the closes are those of any thread on either end. -/
inductive LinkAction
  | enqueue (pkt : Packet)
  | closeWriter
  | closeReader
  | write (action : WriteAction)
  | read (action : ReadAction)
  deriving DecidableEq, Repr

section
variable {μ : Type} (writeLoop : WriteSide → WriteAction → Option (WriteSide × List UInt8))
  (readLoop : ReadSide μ → List UInt8 → ReadAction → Option (ReadSide μ × List UInt8))

def Link.step (s : Link μ) : LinkAction → Option (Link μ)
  | .enqueue pkt => some { s with enqueued := s.enqueued ++ [pkt], writer := s.writer.push pkt }
  | .closeWriter => some { s with writer := { s.writer with alive := false } }
  | .closeReader => some { s with reader := { s.reader with alive := false } }
  | .write action => (writeLoop s.writer action).map fun (w, out) =>
      { s with writer := w, channel := s.channel ++ out }
  | .read action => (readLoop s.reader s.channel action).map fun (r, channel) =>
      { s with reader := r, channel := channel }

end

def serverToClient : Link (List UInt8) → LinkAction → Option (Link (List UInt8)) :=
  Link.step TcpConnection.writeLoop TcpClient.readLoop

def clientToServer : Link Packet → LinkAction → Option (Link Packet) :=
  Link.step TcpClient.writeLoop TcpConnection.readLoop

end ServerFramework.Tcp
