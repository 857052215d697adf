import ServerFramework.Library.Runs
import Mathlib.Data.Fintype.Basic

namespace ServerFramework.Core

inductive TaskPriority
  | low
  | normal
  | high
  deriving DecidableEq, Repr

structure Task where
  ticket : Nat
  priority : TaskPriority := .normal
  deriving DecidableEq, Repr

inductive Worker
  | outside
  | evaluating
  | blocking
  | waiting
  | woken
  | ready
  | holding (task : Task)
  | executing (task : Task)
  | exited
  deriving DecidableEq, Repr

inductive ShutdownKind
  | shutdown
  | shutdownNow
  deriving DecidableEq, Repr

inductive Shutdown
  | uncalled
  | stopped
  | swapped
  | notified
  | returned
  deriving DecidableEq, Repr

structure ThreadPool (n : Nat) where
  workers : Fin n → Worker := fun _ => .outside
  tasks : List Task := []
  queueMutex : Option (Fin n) := none
  stop : Bool := false
  notifications : Nat := 0
  shutdown : Shutdown := .uncalled
  submitted : Nat := 0
  early : Nat := 0
  started : List Nat := []
  dropped : List Nat := []

namespace ThreadPool

variable {n : Nat}

inductive Action (n : Nat)
  | append (priority : TaskPriority)
  | notifyOne (target : Option (Fin n))
  | acquire (i : Fin n)
  | evaluate (i : Fin n)
  | block (i : Fin n)
  | spurious (i : Fin n)
  | take (i : Fin n)
  | execute (i : Fin n)
  | finish (i : Fin n)
  | stop
  | swap
  | notifyAll
  | join

/-- `HIGH` goes behind the `HIGH` tasks at the front, everything else to the end. -/
def insertHigh (task : Task) : List Task → List Task
  | [] => [task]
  | front :: rest =>
      if front.priority = .high then front :: insertHigh task rest else task :: front :: rest

def appendPriority (tasks : List Task) (task : Task) : List Task :=
  if task.priority = .high then insertHigh task tasks else tasks ++ [task]

/-- The first loop of `append_priority` over `tmp` and `tasks_`. -/
def drainHigh (tmp : List Task) : List Task → List Task × List Task
  | [] => (tmp, [])
  | front :: rest => if front.priority = .high then drainHigh (tmp ++ [front]) rest else (tmp, front :: rest)

/-- The second loop. -/
def drainAll (tmp : List Task) : List Task → List Task
  | [] => tmp
  | front :: rest => drainAll (tmp ++ [front]) rest

/-- `append_priority` loop by loop. -/
def rebuild (tasks : List Task) (task : Task) : List Task :=
  if task.priority = .high then
    let (tmp, left) := drainHigh [] tasks
    drainAll (tmp ++ [task]) left
  else tasks ++ [task]

def setWorker (pool : ThreadPool n) (i : Fin n) (worker : Worker) : ThreadPool n :=
  { pool with workers := Function.update pool.workers i worker }

def unlock (pool : ThreadPool n) : ThreadPool n := { pool with queueMutex := none }

def takeTask (pool : ThreadPool n) (i : Fin n) : ThreadPool n :=
  match pool.tasks with
  | [] => if pool.stop then (pool.setWorker i .exited).unlock else (pool.setWorker i .outside).unlock
  | task :: rest => { (pool.setWorker i (.holding task)).unlock with tasks := rest }

def wake : Worker → Worker
  | .waiting => .woken
  | worker => worker

def readyToNotify (kind : ShutdownKind) : Shutdown :=
  match kind with
  | .shutdown => .stopped
  | .shutdownNow => .swapped

def step (kind : ShutdownKind) (pool : ThreadPool n) : Action n → Option (ThreadPool n)
  | .append priority =>
      if pool.queueMutex = none then
        some { pool with
          tasks := appendPriority pool.tasks ⟨pool.submitted, priority⟩
          submitted := pool.submitted + 1
          notifications := pool.notifications + 1 }
      else none
  | .notifyOne none =>
      if 0 < pool.notifications ∧ ∀ i, pool.workers i ≠ .waiting then
        some { pool with notifications := pool.notifications - 1 }
      else none
  | .notifyOne (some i) =>
      if 0 < pool.notifications ∧ pool.workers i = .waiting then
        some { pool.setWorker i .woken with notifications := pool.notifications - 1 }
      else none
  | .acquire i =>
      if pool.queueMutex = none ∧ (pool.workers i = .outside ∨ pool.workers i = .woken) then
        some { pool.setWorker i .evaluating with queueMutex := some i }
      else none
  | .evaluate i =>
      if pool.workers i = .evaluating then
        some (pool.setWorker i (if pool.stop ∨ pool.tasks ≠ [] then .ready else .blocking))
      else none
  | .block i =>
      if pool.workers i = .blocking then some (pool.setWorker i .waiting).unlock else none
  | .spurious i =>
      if pool.workers i = .waiting then some (pool.setWorker i .woken) else none
  | .take i => if pool.workers i = .ready then some (pool.takeTask i) else none
  | .execute i =>
      match pool.workers i with
      | .holding task =>
          some { pool.setWorker i (.executing task) with started := pool.started ++ [task.ticket] }
      | _ => none
  | .finish i =>
      match pool.workers i with
      | .executing _ => some (pool.setWorker i .outside)
      | _ => none
  | .stop =>
      if pool.shutdown = .uncalled then
        some { pool with stop := true, early := pool.submitted, shutdown := .stopped }
      else none
  | .swap =>
      if kind = .shutdownNow ∧ pool.shutdown = .stopped ∧ pool.queueMutex = none then
        some { pool with
          dropped := pool.dropped ++ pool.tasks.map Task.ticket
          tasks := []
          shutdown := .swapped }
      else none
  | .notifyAll =>
      if pool.shutdown = readyToNotify kind then
        some { pool with workers := fun i => wake (pool.workers i), shutdown := .notified }
      else none
  | .join =>
      if pool.shutdown = .notified ∧ ∀ i, pool.workers i = .exited then
        some { pool with shutdown := .returned }
      else none

end ThreadPool

end ServerFramework.Core
