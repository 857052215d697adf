import Mathlib.Algebra.Group.Int.Defs
import Mathlib.Algebra.Group.Nat.Defs
import Mathlib.Data.List.AList
import ServerFramework.Library.Runs

namespace ServerFramework.Business

structure ConnectionContext where
  sessionId : Int := 0
  socketFd : Int := -1
  remoteIp : String := ""
  remotePort : Int := 0
  connectTime : UInt64 := 0
  lastMsgTime : UInt64 := 0
  heartbeatCount : UInt32 := 0
  isAlive : Bool := true
  deriving DecidableEq, Repr

def ConnectionContext.beat (tick : UInt64) (ctx : ConnectionContext) : ConnectionContext :=
  { ctx with lastMsgTime := tick, heartbeatCount := ctx.heartbeatCount + 1 }

def ConnectionContext.kill (ctx : ConnectionContext) : ConnectionContext := { ctx with isAlive := false }

-- A call of `cleanup_timeout`. `toRemove` is what its loop has yet to go through, `erased` the contexts that
-- the loop took out of the table, as they were then.
structure Cleanup where
  now : UInt64
  timeout : UInt64
  toRemove : List Int
  count : Nat := 0
  erased : List ConnectionContext := []
  returned : Option Nat := none
  deriving DecidableEq, Repr

structure Stats where
  aliveCount : Nat
  totalCount : Nat
  peakCount : Nat
  deriving DecidableEq, Repr

-- The entries of `sessions` stand in the order of iteration, which nothing relies on. `closed` has the sockets
-- that were closed, `returned` what the calls of `add` returned.
structure SessionMgr where
  nextSid : Int := 1
  sessions : AList fun _ : Int => ConnectionContext := ∅
  totalCount : Nat := 0
  peakCount : Nat := 0
  closed : List Int := []
  cleanups : List Cleanup := []
  returned : List Int := []

namespace SessionMgr

inductive Action
  | add (socketFd : Int) (ip : String) (port : Int) (tick : UInt64)
  | remove (sid : Int)
  | heartbeat (sid : Int) (tick : UInt64)
  | kick (sid : Int)
  | markDead (sid : Int)
  | shutdown
  | scan (now timeout : UInt64) (order : List Int)
  | evict (i : Nat)
  | finish (i : Nat)

def get (mgr : SessionMgr) (sid : Int) : Option ConnectionContext := mgr.sessions.lookup sid

def count (mgr : SessionMgr) : Nat := mgr.sessions.entries.length

def aliveSessions (mgr : SessionMgr) : List ConnectionContext := mgr.sessions.entries.map Sigma.snd

def stats (mgr : SessionMgr) : Stats := ⟨mgr.count, mgr.totalCount, mgr.peakCount⟩

/-- The calls of the broadcaster, if there is one. -/
def broadcast (mgr : SessionMgr) (data : List UInt8) (broadcaster : Bool) : List (Int × List UInt8) :=
  (mgr.sessions.entries.filter fun entry => entry.2.isAlive && broadcaster).map fun entry => (entry.1, data)

def sendTo (mgr : SessionMgr) (sid : Int) : Bool :=
  match mgr.get sid with
  | none => false
  | some ctx => ctx.isAlive

def sendToMultiple (mgr : SessionMgr) (sids : List Int) : Nat :=
  sids.foldl (fun sent sid => if mgr.sendTo sid then sent + 1 else sent) 0

def newContext (sid socketFd : Int) (ip : String) (port : Int) (tick : UInt64) : ConnectionContext :=
  { sessionId := sid, socketFd := socketFd, remoteIp := ip, remotePort := port, connectTime := tick,
    lastMsgTime := tick, heartbeatCount := 0, isAlive := true }

def add (mgr : SessionMgr) (socketFd : Int) (ip : String) (port : Int) (tick : UInt64) : SessionMgr :=
  let sessions := mgr.sessions.insert mgr.nextSid (newContext mgr.nextSid socketFd ip port tick)
  { mgr with
    nextSid := mgr.nextSid + 1
    sessions := sessions
    totalCount := mgr.totalCount + 1
    -- the loop around `compare_exchange_weak`
    peakCount := max mgr.peakCount sessions.entries.length
    returned := mgr.returned ++ [mgr.nextSid] }

def remove (mgr : SessionMgr) (sid : Int) : SessionMgr := { mgr with sessions := mgr.sessions.erase sid }

def modify (mgr : SessionMgr) (sid : Int) (f : ConnectionContext → ConnectionContext) : SessionMgr :=
  match mgr.get sid with
  | none => mgr
  | some ctx => { mgr with sessions := mgr.sessions.replace sid (f ctx) }

def heartbeat (mgr : SessionMgr) (sid : Int) (tick : UInt64) : SessionMgr := mgr.modify sid (ConnectionContext.beat tick)

def markDead (mgr : SessionMgr) (sid : Int) : SessionMgr := mgr.modify sid ConnectionContext.kill

def kick (mgr : SessionMgr) (sid : Int) : Bool × SessionMgr :=
  match mgr.get sid with
  | none => (false, mgr)
  | some ctx =>
      (true, { mgr.remove sid with
        closed := if 0 ≤ ctx.socketFd then mgr.closed ++ [ctx.socketFd] else mgr.closed })

def shutdown (mgr : SessionMgr) : SessionMgr := { mgr with sessions := ∅ }

/-- What the first half of `cleanup_timeout` collects; the sum wraps around. -/
def timedOut (mgr : SessionMgr) (now timeout : UInt64) : List Int :=
  (mgr.sessions.entries.filter fun entry => entry.2.isAlive && entry.2.lastMsgTime + timeout < now).map Sigma.fst

def beginCleanup (mgr : SessionMgr) (now timeout : UInt64) (order : List Int) : SessionMgr :=
  { mgr with cleanups := mgr.cleanups ++ [{ now := now, timeout := timeout, toRemove := order }] }

def evict (mgr : SessionMgr) (i : Nat) (call : Cleanup) (sid : Int) (rest : List Int) : SessionMgr :=
  { mgr.remove sid with
    cleanups := mgr.cleanups.set i { call with
      toRemove := rest
      count := call.count + 1
      erased := call.erased ++ (mgr.get sid).toList } }

def endCleanup (mgr : SessionMgr) (i : Nat) (call : Cleanup) : SessionMgr :=
  { mgr with cleanups := mgr.cleanups.set i { call with returned := some call.count } }

def step (mgr : SessionMgr) : Action → Option SessionMgr
  | .add socketFd ip port tick =>
      -- `next_sid_++` overflows otherwise
      if mgr.nextSid + 1 < 2 ^ 63 then some (mgr.add socketFd ip port tick) else none
  | .remove sid => some (mgr.remove sid)
  | .heartbeat sid tick => some (mgr.heartbeat sid tick)
  | .kick sid => some (mgr.kick sid).2
  | .markDead sid => some (mgr.markDead sid)
  | .shutdown => some mgr.shutdown
  | .scan now timeout order =>
      if order.Perm (mgr.timedOut now timeout) then some (mgr.beginCleanup now timeout order) else none
  | .evict i => mgr.cleanups[i]?.bind fun call => match call.toRemove with
      | [] => none
      | sid :: rest => some (mgr.evict i call sid rest)
  | .finish i => mgr.cleanups[i]?.bind fun call =>
      if call.toRemove = [] ∧ call.returned = none then some (mgr.endCleanup i call) else none

end SessionMgr

end ServerFramework.Business
