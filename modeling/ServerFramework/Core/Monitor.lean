import Mathlib.Algebra.Group.Int.Defs
import Mathlib.Algebra.Group.Nat.Defs
import ServerFramework.Library.LockFreeMax
import ServerFramework.Library.Runs

namespace ServerFramework.Core
open Library

def int32 (x : Int) : Int := x.bmod (2 ^ 32)

structure MonitorStats where
  timestamp : Int := 0
  connectionsAlive : Int := 0
  connectionsTotal : Int := 0
  connectionsPeak : Int := 0
  taskQueueLength : Nat := 0
  threadpoolActive : Int := 0
  threadpoolTotal : Int := 0
  msgsSent : UInt64 := 0
  msgsRecv : UInt64 := 0
  msgsError : UInt64 := 0
  bytesSent : UInt64 := 0
  bytesRecv : UInt64 := 0
  memoryRssKb : Nat := 0
  memoryPeakRssKb : Nat := 0
  totalLogs : UInt64 := 0
  deriving DecidableEq, Repr

structure Monitor where
  connectionsAlive : Int := 0
  connectionsTotal : Int := 0
  connectionsPeak : Atomic Int := ⟨0, []⟩
  taskQueueLength : Nat := 0
  threadpoolActive : Int := 0
  threadpoolTotal : Int := 0
  msgsSent : UInt64 := 0
  msgsRecv : UInt64 := 0
  msgsError : UInt64 := 0
  bytesSent : UInt64 := 0
  bytesRecv : UInt64 := 0
  memoryRssKb : Nat := 0
  memoryPeakRssKb : Atomic Nat := ⟨0, []⟩
  deriving DecidableEq, Repr

namespace Monitor

/-! ## Calls one after the other -/

-- `total` is the value behind the addition; at the largest `int` the source's own `+ 1` overflows.
def onConnect (m : Monitor) (spurious : Nat) : Monitor :=
  let total := int32 (m.connectionsTotal + 1)
  { m with
    connectionsAlive := int32 (m.connectionsAlive + 1)
    connectionsTotal := total
    connectionsPeak := m.connectionsPeak.raise total spurious m.connectionsPeak.value }

def onDisconnect (m : Monitor) : Monitor := { m with connectionsAlive := int32 (m.connectionsAlive - 1) }

def setTaskQueueLength (m : Monitor) (len : Nat) : Monitor := { m with taskQueueLength := len }

def setThreadpoolStats (m : Monitor) (active total : Int) : Monitor :=
  { m with threadpoolActive := active, threadpoolTotal := total }

def onMsgSent (m : Monitor) (bytes : UInt64) : Monitor :=
  { m with
    msgsSent := m.msgsSent + 1
    bytesSent := if bytes ≠ 0 then m.bytesSent + bytes else m.bytesSent }

def onMsgRecv (m : Monitor) (bytes : UInt64) : Monitor :=
  { m with
    msgsRecv := m.msgsRecv + 1
    bytesRecv := if bytes ≠ 0 then m.bytesRecv + bytes else m.bytesRecv }

def onMsgError (m : Monitor) : Monitor := { m with msgsError := m.msgsError + 1 }

-- `usage` is `ru_maxrss`, or the working set in KB on Windows; `none` where the system call fails.
def refresh (m : Monitor) (usage : Option Nat) (spurious : Nat) : Monitor :=
  match usage with
  | none => m
  | some rssKb =>
      { m with
        memoryRssKb := rssKb
        memoryPeakRssKb := m.memoryPeakRssKb.raise rssKb spurious m.memoryPeakRssKb.value }

def snapshot (m : Monitor) (tick : UInt64) : MonitorStats where
  timestamp := (tick.toNat : Int).bmod (2 ^ 64)
  connectionsAlive := m.connectionsAlive
  connectionsTotal := m.connectionsTotal
  connectionsPeak := m.connectionsPeak.value
  taskQueueLength := m.taskQueueLength
  threadpoolActive := m.threadpoolActive
  threadpoolTotal := m.threadpoolTotal
  msgsSent := m.msgsSent
  msgsRecv := m.msgsRecv
  msgsError := m.msgsError
  bytesSent := m.bytesSent
  bytesRecv := m.bytesRecv
  memoryRssKb := m.memoryRssKb
  memoryPeakRssKb := m.memoryPeakRssKb.value

inductive Call
  | onConnect (spurious : Nat)
  | onDisconnect
  | setTaskQueueLength (len : Nat)
  | setThreadpoolStats (active total : Int)
  | onMsgSent (bytes : UInt64)
  | onMsgRecv (bytes : UInt64)
  | onMsgError
  | refresh (usage : Option Nat) (spurious : Nat)
  deriving DecidableEq, Repr

def call (m : Monitor) : Call → Monitor
  | .onConnect spurious => m.onConnect spurious
  | .onDisconnect => m.onDisconnect
  | .setTaskQueueLength len => m.setTaskQueueLength len
  | .setThreadpoolStats active total => m.setThreadpoolStats active total
  | .onMsgSent bytes => m.onMsgSent bytes
  | .onMsgRecv bytes => m.onMsgRecv bytes
  | .onMsgError => m.onMsgError
  | .refresh usage spurious => m.refresh usage spurious

def after (calls : List Call) : Monitor := calls.foldl call {}

/-! ## Calls of `on_connect` and `refresh` in any number of threads, one atomic operation at a time -/

-- What a call does next, up to where it has returned.
inductive Phase
  | countingAlive
  | countingTotal
  | loadingPeak (total : Int)
  | raisingPeak (total peak : Int)
  | connected (total : Int)
  | storingRss (rssKb : Nat)
  | loadingMemoryPeak (rssKb : Nat)
  | raisingMemoryPeak (rssKb peak : Nat)
  | refreshed (rssKb : Nat)
  | unmeasured
  deriving DecidableEq, Repr

def raisePeak (total peak : Int) : Phase := if total > peak then .raisingPeak total peak else .connected total

def raiseMemoryPeak (rssKb peak : Nat) : Phase :=
  if rssKb > peak then .raisingMemoryPeak rssKb peak else .refreshed rssKb

-- An addition, a store or an exchange takes effect; a load, or an exchange that fails, reads what the variable
-- holds or held.
inductive Operation
  | effect
  | read (back : Nat)
  deriving DecidableEq, Repr

def turn (m : Monitor) : Operation → Phase → Option (Monitor × Phase)
  | .effect, .countingAlive => some ({ m with connectionsAlive := int32 (m.connectionsAlive + 1) }, .countingTotal)
  | .effect, .countingTotal =>
      some ({ m with connectionsTotal := int32 (m.connectionsTotal + 1) },
        .loadingPeak (int32 (m.connectionsTotal + 1)))
  | .read back, .loadingPeak total => (m.connectionsPeak.readAt back).map fun peak => (m, raisePeak total peak)
  | .effect, .raisingPeak total peak =>
      if m.connectionsPeak.value = peak then
        some ({ m with connectionsPeak := m.connectionsPeak.store total }, .connected total)
      else none
  | .read back, .raisingPeak total _ => (m.connectionsPeak.readAt back).map fun peak => (m, raisePeak total peak)
  | .effect, .storingRss rssKb => some ({ m with memoryRssKb := rssKb }, .loadingMemoryPeak rssKb)
  | .read back, .loadingMemoryPeak rssKb =>
      (m.memoryPeakRssKb.readAt back).map fun peak => (m, raiseMemoryPeak rssKb peak)
  | .effect, .raisingMemoryPeak rssKb peak =>
      if m.memoryPeakRssKb.value = peak then
        some ({ m with memoryPeakRssKb := m.memoryPeakRssKb.store rssKb }, .refreshed rssKb)
      else none
  | .read back, .raisingMemoryPeak rssKb _ =>
      (m.memoryPeakRssKb.readAt back).map fun peak => (m, raiseMemoryPeak rssKb peak)
  | _, _ => none

structure Threads where
  monitor : Monitor := {}
  calls : List Phase := []
  deriving DecidableEq, Repr

inductive Action
  | onConnect
  | refresh (usage : Option Nat)
  | onDisconnect
  | advance (i : Nat) (operation : Operation)
  deriving DecidableEq, Repr

def Threads.begin (s : Threads) (phase : Phase) : Threads := { s with calls := s.calls ++ [phase] }

def Threads.step (s : Threads) : Action → Option Threads
  | .onConnect => some (s.begin .countingAlive)
  | .refresh none => some (s.begin .unmeasured)
  | .refresh (some rssKb) => some (s.begin (.storingRss rssKb))
  | .onDisconnect => some { s with monitor := s.monitor.onDisconnect }
  | .advance i operation => s.calls[i]?.bind fun phase =>
      (s.monitor.turn operation phase).map fun (monitor, later) => ⟨monitor, s.calls.set i later⟩

end Monitor

end ServerFramework.Core
