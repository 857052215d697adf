import ServerFramework.Base.TimerRun

namespace ServerFramework.Base
open Library Library.Heap

abbrev TimerEntry := TimerItem

/-- Where the thread of the loop stands in `run_once`. With `executing` and `calling`, a task or a callback runs;
with `locking` and `restoring`, the thread waits for `timers_mutex_`. -/
inductive RunPhase (κ τ : Type)
  | outside
  | draining (tasks : List τ)
  | executing (tasks : List τ)
  | ticking
  | locking (now : Int)
  | firing (now : Int) (fired : List (TimerEntry κ))
  | calling (now : Int) (t : TimerEntry κ) (fired : List (TimerEntry κ))
  | rearming (now : Int) (t : TimerEntry κ) (fired : List (TimerEntry κ))
  | restoring (now : Int) (t nt : TimerEntry κ) (fired : List (TimerEntry κ))
  | polling
  deriving DecidableEq, Repr

-- `root` is the id under which `add_timer` handed out the timer that the entry belongs to.
inductive LoopRecord (κ : Type)
  | cancelled (id root : Int) (result : Bool)
  | invoked (t : TimerEntry κ) (root clock : Int)
  | restored (t nt : TimerEntry κ) (now : Int)
  deriving DecidableEq, Repr

-- The timers and the tasks of an `EventLoop`. `clock` is what `get_tick_ms` returns, `adding` has the entries of
-- the calls of `add_timer` that wait for `timers_mutex_`. The last five fields only record: the root of each id, the
-- timers cancelled, run and put back, the calls of `process_tasks` so far, and which call a task was pushed after
-- and executed in.
structure EventLoop (κ τ : Type) where
  clock : Int := 0
  timers : List (TimerEntry κ) := []
  timerIdCounter : Int := 0
  adding : List (TimerEntry κ) := []
  pendingTasks : List τ := []
  phase : RunPhase κ τ := .outside
  registration : Int → Int := id
  log : List (LoopRecord κ) := []
  calls : Nat := 0
  pushed : List (τ × Nat) := []
  executed : List (τ × Nat) := []

namespace EventLoop

inductive Action (κ τ : Type)
  | tick (ms : Nat)
  | addTimer (now afterMs : Int) (cb : Option κ) (intervalMs : Int)
  | insert (i : Nat)
  | cancelTimer (id : Int)
  | pushTask (task : τ)
  | processTasks
  | execute
  | endTask (outcome : Outcome)
  | readTick
  | extract
  | visit
  | endCallback (outcome : Outcome)
  | rearm
  | restore
  | poll

variable {κ τ : Type} (heap : HeapAlgorithms (@TimerItem.expireAt κ))

/-! ## Timers -/

/-- `add_timer` up to the lock; `++timer_id_counter_` and the sum overflow at the bounds. -/
def addTimer (loop : EventLoop κ τ) (now afterMs : Int) (cb : Option κ) (intervalMs : Int) :
    Option (Int × EventLoop κ τ) :=
  if cb.isNone then some (-1, loop)
  else if loop.timerIdCounter + 1 < 2 ^ 63 ∧ InInt64 (now + afterMs) then
    let id := loop.timerIdCounter + 1
    some (id, { loop with
      timerIdCounter := id
      adding := loop.adding ++ [⟨id, now + afterMs, intervalMs, cb, false⟩] })
  else none

/-- `add_timer` under the lock. -/
def insert (loop : EventLoop κ τ) (i : Nat) (entry : TimerEntry κ) : EventLoop κ τ :=
  { loop with
    adding := loop.adding.eraseIdx i
    timers := heap.pushHeap (loop.timers ++ [entry]) }

def cancelTimer (loop : EventLoop κ τ) (id : Int) : Bool × EventLoop κ τ :=
  let (found, timers) := Timer.cancelItem id loop.timers
  (found, { loop with
    timers := timers
    log := loop.log ++ [.cancelled id (loop.registration id) found] })

def afterExtract (loop : EventLoop κ τ) (now : Int) (left fired : List (TimerEntry κ)) : EventLoop κ τ :=
  { loop with timers := left, phase := .firing now fired }

/-- One round of the loop over `fired`, up to the end of the callback. -/
def visit (loop : EventLoop κ τ) (now : Int) (t : TimerEntry κ) (fired : List (TimerEntry κ)) : EventLoop κ τ :=
  if t.cancelled then { loop with phase := .firing now fired }
  else if t.callback.isSome then
    { loop with
      phase := .calling now t fired
      log := loop.log ++ [.invoked t (loop.registration t.id) loop.clock] }
  else { loop with phase := .rearming now t fired }

def renew (loop : EventLoop κ τ) (now : Int) (t : TimerEntry κ) (fired : List (TimerEntry κ)) : EventLoop κ τ :=
  let id := loop.timerIdCounter + 1
  { loop with
    timerIdCounter := id
    registration := Function.update loop.registration id (loop.registration t.id)
    phase := .restoring now t ⟨id, now + t.intervalMs, t.intervalMs, t.callback, false⟩ fired }

def rearm (loop : EventLoop κ τ) (now : Int) (t : TimerEntry κ) (fired : List (TimerEntry κ)) :
    Option (EventLoop κ τ) :=
  if t.intervalMs > 0 then
    if loop.timerIdCounter + 1 < 2 ^ 63 ∧ InInt64 (now + t.intervalMs) then some (loop.renew now t fired) else none
  else some { loop with phase := .firing now fired }

def restore (loop : EventLoop κ τ) (now : Int) (t nt : TimerEntry κ) (fired : List (TimerEntry κ)) : EventLoop κ τ :=
  { loop with
    timers := heap.pushHeap (loop.timers ++ [nt])
    phase := .firing now fired
    log := loop.log ++ [.restored t nt now] }

/-! ## Tasks -/

def pushTask (loop : EventLoop κ τ) (task : τ) : EventLoop κ τ :=
  { loop with
    pendingTasks := loop.pendingTasks ++ [task]
    pushed := loop.pushed ++ [(task, loop.calls)] }

/-- `process_tasks` up to the end of the lock. -/
def processTasks (loop : EventLoop κ τ) : EventLoop κ τ :=
  if loop.pendingTasks.isEmpty then { loop with phase := .ticking, calls := loop.calls + 1 }
  else { loop with phase := .draining loop.pendingTasks, pendingTasks := [], calls := loop.calls + 1 }

/-- A task starts. An empty one starts too, and throws `std::bad_function_call`. -/
def execute (loop : EventLoop κ τ) (task : τ) (tasks : List τ) : EventLoop κ τ :=
  { loop with phase := .executing tasks, executed := loop.executed ++ [(task, loop.calls)] }

/-! ## The steps of all threads -/

/-- Only an `std::exception` is caught. -/
def caught : Outcome → Bool
  | .returned | .stdException => true
  | .otherException => false

def step (loop : EventLoop κ τ) : Action κ τ → Option (EventLoop κ τ)
  | .tick ms => if loop.clock + ms < 2 ^ 63 then some { loop with clock := loop.clock + ms } else none
  | .addTimer now afterMs cb intervalMs =>
      if now ≤ loop.clock then (loop.addTimer now afterMs cb intervalMs).map Prod.snd else none
  | .insert i => loop.adding[i]?.map (loop.insert heap i)
  | .cancelTimer id => some (loop.cancelTimer id).2
  | .pushTask task => some (loop.pushTask task)
  | .processTasks => match loop.phase with
      | .outside => some loop.processTasks
      | _ => none
  | .execute => match loop.phase with
      | .draining [] => some { loop with phase := .ticking }
      | .draining (task :: tasks) => some (loop.execute task tasks)
      | _ => none
  | .endTask outcome => match loop.phase with
      | .executing tasks => if caught outcome then some { loop with phase := .draining tasks } else none
      | _ => none
  | .readTick => match loop.phase with
      | .ticking => some { loop with phase := .locking loop.clock }
      | _ => none
  | .extract => match loop.phase with
      | .locking now => (Timer.extract heap now loop.timers).map fun (left, fired) => loop.afterExtract now left fired
      | _ => none
  | .visit => match loop.phase with
      | .firing _ [] => some { loop with phase := .polling }
      | .firing now (t :: fired) => some (loop.visit now t fired)
      | _ => none
  | .endCallback outcome => match loop.phase with
      | .calling now t fired => if caught outcome then some { loop with phase := .rearming now t fired } else none
      | _ => none
  | .rearm => match loop.phase with
      | .rearming now t fired => loop.rearm now t fired
      | _ => none
  | .restore => match loop.phase with
      | .restoring now t nt fired => some (loop.restore heap now t nt fired)
      | _ => none
  | .poll => match loop.phase with
      | .polling => some { loop with phase := .outside }
      | _ => none

/-- `step`, and the exceptions that nobody catches: they leave `run_once`, and what it had in hand is gone. -/
def throwStep (loop : EventLoop κ τ) : Action κ τ → Option (EventLoop κ τ)
  | .endTask .otherException => match loop.phase with
      | .executing _ => some { loop with phase := .outside }
      | _ => none
  | .endCallback .otherException => match loop.phase with
      | .calling _ _ _ => some { loop with phase := .outside }
      | _ => none
  | action => loop.step heap action

end EventLoop

end ServerFramework.Base
