import Mathlib.Algebra.Group.Nat.Defs
import ServerFramework.Library.Runs

namespace ServerFramework.Tcp

-- What `heartbeat_loop` can see of a connection; `received` is the tick that `read_loop` has read off the clock and
-- not stored yet.
structure Timing where
  lastRecvTime : UInt64
  received : Option UInt64 := none
  closed : Bool := false
  deriving DecidableEq, Repr

/-- `now` is what `get_tick_ms` returned, which is called first; the difference wraps around. -/
def Timing.isIdle (conn : Timing) (now timeoutMs : UInt64) : Bool := now - conn.lastRecvTime > timeoutMs

-- Where `heartbeat_loop` is: outside the lock, in front of the connections that are left, or inside `is_idle`
-- between its two reads.
inductive Round
  | sleeping
  | visiting (left : List Nat)
  | timed (p : Nat) (left : List Nat) (now : UInt64)
  deriving DecidableEq, Repr

-- A call of `is_idle`: the clock value and the stamp it read, and what it returned.
structure Verdict where
  p : Nat
  now : UInt64
  lastRecvTime : UInt64
  timeoutMs : UInt64
  idle : Bool
  deriving DecidableEq, Repr

-- `made` has the connections in the order of their making, `connections` the ones that are registered.
structure IdleTimeout where
  idleTimeoutMs : UInt64
  clock : UInt64 := 0
  made : List Timing := []
  connections : List Nat := []
  round : Round := .sleeping
  verdicts : List Verdict := []
  deriving DecidableEq, Repr

namespace IdleTimeout

inductive Action
  | tick (later : UInt64)
  | accept
  | receive (p : Nat)
  | stamp (p : Nat)
  | erase (p : Nat)
  | wake (order : List Nat)
  | readClock
  | readStamp
  deriving DecidableEq, Repr

def update (s : IdleTimeout) (p : Nat) (conn : Timing) : IdleTimeout := { s with made := s.made.set p conn }

/-- The second read of `is_idle`, and the `close` behind it. -/
def judge (s : IdleTimeout) (p : Nat) (left : List Nat) (now : UInt64) (conn : Timing) : IdleTimeout :=
  let idle := conn.isIdle now s.idleTimeoutMs
  { s.update p { conn with closed := conn.closed || idle } with
    round := .visiting left
    verdicts := s.verdicts ++ [⟨p, now, conn.lastRecvTime, s.idleTimeoutMs, idle⟩] }

def step (s : IdleTimeout) : Action → Option IdleTimeout
  | .tick later => if s.clock ≤ later then some { s with clock := later } else none
  -- the constructor stamps; making and erasing a connection take the lock that `heartbeat_loop` holds
  | .accept => if s.round = .sleeping then
      some { s with
        made := s.made ++ [{ lastRecvTime := s.clock }]
        connections := s.connections ++ [s.made.length] }
    else none
  | .erase p => if s.round = .sleeping then some { s with connections := s.connections.erase p } else none
  -- also on a closed connection, for a `recv` that returned before the close
  | .receive p => s.made[p]?.bind fun conn =>
      if conn.received = none then some (s.update p { conn with received := some s.clock }) else none
  | .stamp p => s.made[p]?.bind fun conn =>
      conn.received.map fun tick => s.update p { conn with lastRecvTime := tick, received := none }
  | .wake order => if s.round = .sleeping ∧ order.isPerm s.connections then some { s with round := .visiting order } else none
  | .readClock => match s.round with
      | .visiting (p :: left) => some { s with round := .timed p left s.clock }
      | .visiting [] => some { s with round := .sleeping }
      | _ => none
  | .readStamp => match s.round with
      | .timed p left now => s.made[p]?.map (s.judge p left now)
      | _ => none

end IdleTimeout

end ServerFramework.Tcp
