import ServerFramework.Network.Socket

namespace ServerFramework.Tcp.TcpConnection
open Protocol

def processRead (readBuf : List UInt8) : Except Fault (Option (Packet × List UInt8)) := do
  match ← decodeFrom readBuf with
  | none => return none
  | some (pkt, consumed) => return some (pkt, readBuf.drop consumed)

def sendPacket (w : WriteSide) (pkt : Packet) : Bool × WriteSide := (true, w.push pkt)

def writeLoop (w : WriteSide) : WriteAction → Option (WriteSide × List UInt8)
  | .run => match w.phase with
      | .top => some (w.check, [])
      | .waiting => some (w.take, [])
      | .holding msg =>
          if msg.isEmpty then some ({ w with phase := .top }, [])
          -- `send_raw` refuses on a closed connection; `status_` only ever follows `closed_`
          else if w.alive then some ({ w with phase := .sending msg 0 }, [])
          else some ({ w with phase := .finished, sendFailed := true }, [])
      | _ => none
  | .send result => match w.phase with
      | .sending msg sent => match result with
          | .sent n =>
              if n ≤ msg.length - sent then some (w.advance msg (sent + n), (msg.drop sent).take n)
              else none
          | .error .eintr => some (w, [])
          | .error _ => some ({ w with phase := .finished, sendFailed := true }, [])
      | _ => none

def finishRead (r : ReadSide Packet) : ReadSide Packet := { r with phase := .finished, alive := false }

-- `n <= 0`: the test reads `errno` also after an end of file, when `recv` has not set it
def recvFailed (r : ReadSide Packet) : ReadSide Packet :=
  if r.errno = .eintr then { r with phase := .top } else finishRead r

def readLoop (r : ReadSide Packet) (channel : List UInt8) :
    ReadAction → Option (ReadSide Packet × List UInt8)
  | .run => match r.phase with
      | .top => some (if r.alive then { r with phase := .receiving } else finishRead r, channel)
      | .parsing => some (r.parsed (processRead r.readBuf), channel)
      | _ => none
  | .recv result => match r.phase with
      | .receiving => match result with
          | .chunk n => r.receive channel n
          | .eof => some (recvFailed r, channel)
          | .error e => some (recvFailed { r with errno := e }, channel)
      | _ => none

/-! ## `read_loop` against a given sequence of `recv` results -/

inductive Recv
  | data (bytes : List UInt8) (size : 1 ≤ bytes.length ∧ bytes.length ≤ 8192)
  | interrupted
  | wouldBlock
  | eof
  | broken
  deriving DecidableEq, Repr

def Recv.bytes : Recv → List UInt8
  | data bytes _ => bytes
  | _ => []

def Recv.result : Recv → RecvResult
  | data bytes _ => .chunk bytes.length
  | interrupted => .error .eintr
  | wouldBlock => .error .eagain
  | eof => .eof
  | broken => .error .other

-- `closeCalls` counts the calls of `on_close_`, made once `read_loop` has left its loop and closed.
structure Session where
  reader : ReadSide Packet := {}
  script : List Recv
  closeCalls : Nat := 0

def Session.move (s : Session) (reader : ReadSide Packet) (script : List Recv) : Session where
  reader := reader
  script := script
  closeCalls := if reader.phase = .finished then s.closeCalls + 1 else s.closeCalls

/-- One step of the reading thread; it stays where it is once it has ended or has no result left. -/
def Session.step (s : Session) : Session ⊕ Session :=
  match s.reader.phase, s.script with
  | .receiving, recv :: script => match readLoop s.reader recv.bytes (.recv recv.result) with
      | some (reader, _) => .inl (s.move reader script)
      | none => .inr s
  | _, script => match readLoop s.reader [] .run with
      | some (reader, _) => .inl (s.move reader script)
      | none => .inr s

def Session.run (fuel : Nat) (s : Session) : Option Session := Library.loop step fuel s

/-! ## `send_packet`, `close` and `write_loop` together -/

-- `accepted` has the packets for which `send_packet` returned true and `out` the bytes that `::send` has taken.
-- `closedAt` is the number of packets accepted before the close; `calls` has, for every `send_packet`, whether the
-- connection was closed and what it returned.
structure Outbox where
  writer : WriteSide := {}
  accepted : List Packet := []
  out : List UInt8 := []
  closedAt : Option Nat := none
  calls : List (Bool × Bool) := []
  deriving DecidableEq, Repr

inductive Outbox.Action
  | sendPacket (pkt : Packet)
  | close
  | write (action : WriteAction)
  deriving DecidableEq, Repr

def Outbox.push (s : Outbox) (pkt : Packet) : Outbox :=
  { s with
    writer := (sendPacket s.writer pkt).2
    accepted := if (sendPacket s.writer pkt).1 then s.accepted ++ [pkt] else s.accepted
    calls := s.calls ++ [(!s.writer.alive, (sendPacket s.writer pkt).1)] }

def Outbox.close (s : Outbox) : Outbox :=
  if s.writer.alive then
    { s with writer := { s.writer with alive := false }, closedAt := some s.accepted.length }
  else s

def Outbox.step (s : Outbox) : Action → Option Outbox
  | .sendPacket pkt => some (s.push pkt)
  | .close => some s.close
  | .write action => (writeLoop s.writer action).map fun (writer, bytes) =>
      { s with writer := writer, out := s.out ++ bytes }

end ServerFramework.Tcp.TcpConnection
