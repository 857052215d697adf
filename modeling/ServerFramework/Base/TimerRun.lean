import ServerFramework.Base.Timer

namespace ServerFramework.Base
open Library Library.Heap

/-- An activation of `poll`: the items of `fired` not yet visited, and the one whose callback runs. -/
structure Activation (κ : Type) where
  nowMs : Int
  pending : List (TimerItem κ)
  current : Option (TimerItem κ) := none
  deriving DecidableEq, Repr

inductive TimerEvent
  | registered (timerId : Int)
  | cancelled (timerId : Int)
  | invoked (timerId : Int)
  | polled (returned : Int)
  deriving DecidableEq, Repr

/-- A timer with the calls of `poll` in progress, innermost first. `registration` says of the id of
an item under which id its callback was registered; only the log reads it. -/
structure TimerRun (κ : Type) where
  timer : Timer κ := {}
  activations : List (Activation κ) := []
  registration : Int → Int := id
  log : List TimerEvent := []

inductive Outcome
  | returned
  | stdException
  | otherException
  deriving DecidableEq, Repr

inductive TimerAction (κ : Type)
  | call (request : Timer.Call κ)
  | visit
  | finish (outcome : Outcome)
  | leave

namespace TimerRun

variable {κ : Type} (heap : HeapAlgorithms (@TimerItem.expireAt κ))

def clientRuns (run : TimerRun κ) : Bool :=
  match run.activations with
  | [] => true
  | activation :: _ => activation.current.isSome

def register (run : TimerRun κ) (result : Int × Timer κ) : TimerRun κ :=
  if result.1 = -1 then run
  else { run with
    timer := result.2
    registration := Function.update run.registration result.1 result.1
    log := run.log ++ [.registered result.1] }

def perform (run : TimerRun κ) : Timer.Call κ → Option (TimerRun κ)
  | .add now afterMs cb => some (run.register (run.timer.add heap now afterMs cb))
  | .addRepeating now intervalMs cb => some (run.register (run.timer.addRepeating heap now intervalMs cb))
  | .cancel timerId =>
      some { run with timer := (run.timer.cancel timerId).2, log := run.log ++ [.cancelled timerId] }
  | .clear => some { run with timer := run.timer.clear }
  | .poll nowMs => do
      let (items, fired) ← Timer.extract heap nowMs run.timer.items
      return { run with
        timer := { run.timer with items }
        activations := ⟨nowMs, fired, none⟩ :: run.activations }

def rearm (run : TimerRun κ) (nowMs : Int) (t : TimerItem κ) : TimerRun κ :=
  { run with
    timer := Timer.rearm heap nowMs run.timer t
    registration :=
      if t.intervalMs > 0 then
        Function.update run.registration (run.timer.nextId + 1) (run.registration t.id)
      else run.registration }

def visit (run : TimerRun κ) : Option (TimerRun κ) :=
  match run.activations with
  | ⟨nowMs, t :: pending, none⟩ :: outer =>
      if t.cancelled then some { run with activations := ⟨nowMs, pending, none⟩ :: outer }
      else if t.callback.isSome then
        some { run with
          activations := ⟨nowMs, pending, some t⟩ :: outer
          log := run.log ++ [.invoked (run.registration t.id)] }
      else some { run.rearm heap nowMs t with activations := ⟨nowMs, pending, none⟩ :: outer }
  | _ => none

def finish (run : TimerRun κ) (outcome : Outcome) : Option (TimerRun κ) :=
  match run.activations with
  | ⟨nowMs, pending, some t⟩ :: outer =>
      match outcome with
      | .returned | .stdException =>
          some { run.rearm heap nowMs t with activations := ⟨nowMs, pending, none⟩ :: outer }
      -- not a `std::exception`: it leaves `poll` and the rest of `fired` is gone
      | .otherException => some { run with activations := outer }
  | _ => none

def leave (run : TimerRun κ) : Option (TimerRun κ) :=
  match run.activations with
  | ⟨nowMs, [], none⟩ :: outer =>
      some { run with
        activations := outer
        log := run.log ++ [.polled (run.timer.untilFront nowMs)] }
  | _ => none

def step (run : TimerRun κ) : TimerAction κ → Option (TimerRun κ)
  | .call request => if run.clientRuns then run.perform heap request else none
  | .visit => run.visit heap
  | .finish outcome => run.finish heap outcome
  | .leave => run.leave

end TimerRun

end ServerFramework.Base
