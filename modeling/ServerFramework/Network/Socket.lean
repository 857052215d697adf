import ServerFramework.Library.Runs
import ServerFramework.Network.Packet

namespace ServerFramework.Tcp
open Protocol

inductive Errno
  | zero | eintr | eagain | other
  deriving DecidableEq, Repr

inductive SendResult
  | sent (n : Nat)
  | error (e : Errno)
  deriving DecidableEq, Repr

inductive RecvResult
  | chunk (n : Nat)
  | eof
  | error (e : Errno)
  deriving DecidableEq, Repr

/-- Where a `write_loop` stands: evaluating its condition, in `wait_for`, with a message just popped,
inside the `::send` loop after `sent` bytes, or returned. -/
inductive WritePhase
  | top
  | waiting
  | holding (msg : List UInt8)
  | sending (msg : List UInt8) (sent : Nat)
  | finished
  deriving DecidableEq, Repr

-- `alive` is `!closed_` of a TcpConnection and `connected_` of a TcpClient. `sendFailed` records that
-- a popped message was not written in full.
structure WriteSide where
  alive : Bool := true
  writeQueue : List (List UInt8) := []
  phase : WritePhase := .top
  sendFailed : Bool := false
  deriving DecidableEq, Repr

inductive WriteAction
  | run
  | send (result : SendResult)
  deriving DecidableEq, Repr

/-- Where a `read_loop` stands; `crashed` is the state after undefined behaviour. -/
inductive ReadPhase
  | top | receiving | parsing | finished | crashed
  deriving DecidableEq, Repr

-- `delivered` lists the arguments of the `on_message_` calls, in order.
structure ReadSide (μ : Type) where
  alive : Bool := true
  errno : Errno := .zero
  readBuf : List UInt8 := []
  phase : ReadPhase := .top
  delivered : List μ := []
  deriving DecidableEq, Repr

inductive ReadAction
  | run
  | recv (result : RecvResult)
  deriving DecidableEq, Repr

def WriteSide.current (w : WriteSide) : List UInt8 :=
  match w.phase with
  | .holding msg => msg
  | .sending msg sent => msg.drop sent
  | _ => []

def WriteSide.push (w : WriteSide) (pkt : Packet) : WriteSide :=
  { w with writeQueue := w.writeQueue ++ [encode pkt] }

def WriteSide.check (w : WriteSide) : WriteSide :=
  { w with phase := if w.alive then .waiting else .finished }

/-- The locked section of a `write_loop`, after `wait_for` has returned: leave, take the front
message, or go round with an empty one. -/
def WriteSide.take (w : WriteSide) : WriteSide :=
  match w.writeQueue with
  | [] => { w with phase := if w.alive then .top else .finished }
  | msg :: rest => { w with writeQueue := rest, phase := .holding msg }

def WriteSide.advance (w : WriteSide) (msg : List UInt8) (sent : Nat) : WriteSide :=
  { w with phase := if sent < msg.length then .sending msg sent else .top }

def ReadSide.receive {μ : Type} (r : ReadSide μ) (channel : List UInt8) (n : Nat) :
    Option (ReadSide μ × List UInt8) :=
  if 1 ≤ n ∧ n ≤ 8192 ∧ n ≤ channel.length then
    some ({ r with readBuf := r.readBuf ++ channel.take n, phase := .parsing }, channel.drop n)
  else none

def ReadSide.parsed {μ : Type} (r : ReadSide μ) :
    Except Fault (Option (μ × List UInt8)) → ReadSide μ
  | .error _ => { r with phase := .crashed }
  | .ok none => { r with phase := .top }
  | .ok (some (msg, rest)) => { r with readBuf := rest, delivered := r.delivered ++ [msg] }

def ReadSide.parseRound {μ : Type} (parse : List UInt8 → Except Fault (Option (μ × List UInt8)))
    (r : ReadSide μ) : ReadSide μ ⊕ ReadSide μ :=
  let next := r.parsed (parse r.readBuf)
  if next.phase = .parsing then .inl next else .inr next

def ReadSide.parseAll {μ : Type} (parse : List UInt8 → Except Fault (Option (μ × List UInt8)))
    (fuel : Nat) (r : ReadSide μ) : Option (ReadSide μ) :=
  Library.loop (parseRound parse) fuel r

end ServerFramework.Tcp
