import ServerFramework.Core.Monitor
import ServerFramework.Library.Background

namespace ServerFramework.Core.Monitor
open Library

/-! ## The thread that writes the status to the log -/

inductive LogPhase
  | outside
  | testing
  | sleeping
  | woken
  | refreshing
  | taking
  | writing (s : MonitorStats)
  deriving DecidableEq, Repr

def LogPhase.inside : LogPhase → Bool
  | .outside => false
  | .testing | .sleeping | .woken | .refreshing | .taking | .writing _ => true

-- `lines` records the snapshots that went to the log.
structure Logging where
  logging : Bool := false
  phase : LogPhase := .outside
  monitor : Monitor := {}
  lines : List MonitorStats := []
  deriving DecidableEq, Repr

namespace Logging

-- All but the last are steps of the thread; `call` is a call that anybody else makes.
inductive Action
  | test
  | sleep
  | testAgain
  | refresh (usage : Option Nat) (spurious : Nat)
  | snapshot (tick : UInt64)
  | write
  | call (c : Monitor.Call)
  deriving DecidableEq, Repr

def Action.own : Action → Bool
  | .call _ => false
  | _ => true

def setLogging (logging : Bool) (l : Logging) : Logging := { l with logging := logging }

def step (l : Logging) : Action → Option Logging
  | .test => match l.phase with
      | .testing => some { l with phase := if l.logging then .sleeping else .outside }
      | _ => none
  | .sleep => match l.phase with
      | .sleeping => some { l with phase := .woken }
      | _ => none
  | .testAgain => match l.phase with
      | .woken => some { l with phase := if l.logging then .refreshing else .outside }
      | _ => none
  | .refresh usage spurious => match l.phase with
      | .refreshing => some { l with monitor := l.monitor.refresh usage spurious, phase := .taking }
      | _ => none
  | .snapshot tick => match l.phase with
      | .taking => some { l with phase := .writing (l.monitor.snapshot tick) }
      | _ => none
  | .write => match l.phase with
      | .writing s => some { l with lines := l.lines ++ [s], phase := .testing }
      | _ => none
  | .call c => some { l with monitor := l.monitor.call c }

inductive Turn (l : Logging) : Action → Logging → Prop
  | leave {action : Action} (asks : l.phase = .testing ∨ l.phase = .woken) (down : l.logging = false) :
      Turn l action { l with phase := .outside }
  | sleep (testing : l.phase = .testing) (up : l.logging = true) : Turn l .test { l with phase := .sleeping }
  | wake (sleeping : l.phase = .sleeping) : Turn l .sleep { l with phase := .woken }
  | goOn (woken : l.phase = .woken) (up : l.logging = true) : Turn l .testAgain { l with phase := .refreshing }
  | refresh {usage : Option Nat} {spurious : Nat} (refreshing : l.phase = .refreshing) :
      Turn l (.refresh usage spurious) { l with monitor := l.monitor.refresh usage spurious, phase := .taking }
  | snapshot {tick : UInt64} (taking : l.phase = .taking) :
      Turn l (.snapshot tick) { l with phase := .writing (l.monitor.snapshot tick) }
  | write {s : MonitorStats} (writing : l.phase = .writing s) :
      Turn l .write { l with lines := l.lines ++ [s], phase := .testing }

theorem own_turn {l next : Logging} {action : Action} (stepped : l.step action = some next)
    (own : action.own = true) : Turn l action next := by
  cases action with
  | call => cases own
  | test =>
      obtain ⟨logging, phase, monitor, lines⟩ := l
      cases phase <;> simp only [step, reduceCtorEq] at stepped
      cases logging <;> cases stepped
      · exact .leave (.inl rfl) rfl
      · exact .sleep rfl rfl
  | testAgain =>
      obtain ⟨logging, phase, monitor, lines⟩ := l
      cases phase <;> simp only [step, reduceCtorEq] at stepped
      cases logging <;> cases stepped
      · exact .leave (.inr rfl) rfl
      · exact .goOn rfl rfl
  | sleep =>
      cases phase : l.phase <;> simp only [step, phase, reduceCtorEq] at stepped
      cases stepped
      exact .wake phase
  | refresh =>
      cases phase : l.phase <;> simp only [step, phase, reduceCtorEq] at stepped
      cases stepped
      exact .refresh phase
  | snapshot =>
      cases phase : l.phase <;> simp only [step, phase, reduceCtorEq] at stepped
      cases stepped
      exact .snapshot phase
  | write =>
      cases phase : l.phase <;> simp only [step, phase, reduceCtorEq] at stepped
      cases stepped
      exact .write phase

theorem Turn.ends {l next : Logging} {action : Action} (turn : Turn l action next) :
    l.phase.inside = true ∧ next.logging = l.logging ∧ (next.phase.inside = false → l.logging = false) := by
  cases turn with
  | leave asks down => exact ⟨by rcases asks with at_ | at_ <;> rw [at_] <;> rfl, rfl, fun _ => down⟩
  | sleep phase | wake phase | goOn phase | refresh phase | snapshot phase | write phase =>
      exact ⟨by rw [phase]; rfl, rfl, fun gone => by cases gone⟩

/-- `start_logging` and `stop_logging`, around the loop of the logging thread. -/
def thread : LoopThread Logging Action where
  step := step
  own := Action.own
  flag := logging
  setFlag := setLogging
  alive l := l.phase.inside
  launch l := { l with phase := .testing }
  flag_setFlag _ _ := rfl
  setFlag_setFlag _ _ _ := rfl
  setFlag_flag _ := rfl
  alive_setFlag _ _ := rfl
  flag_launch _ := rfl
  alive_launch _ := rfl
  flag_step l action next stepped := by
    cases own : action.own with
    | true => exact (own_turn stepped own).ends.2.1
    | false =>
        cases action <;> cases own
        cases stepped
        rfl
  own_alive _ _ _ stepped own := (own_turn stepped own).ends.1
  own_ends _ _ _ stepped own := (own_turn stepped own).ends.2.2
  other_alive _ action _ stepped own := by
    cases action <;> cases own
    cases stepped
    rfl
  other_flag _ _ action _ stepped own := by
    cases action <;> cases own
    cases stepped
    rfl

end Logging

/-! ## The thread of the HTTP page -/

inductive HttpPhase
  | outside
  | testing
  | sleeping
  deriving DecidableEq, Repr

structure Http where
  httpRunning : Bool := false
  phase : HttpPhase := .outside
  deriving DecidableEq, Repr

namespace Http

inductive Action
  | test
  | sleep
  deriving DecidableEq, Repr

def step (h : Http) : Action → Option Http
  | .test => if h.phase = .testing then some { h with phase := if h.httpRunning then .sleeping else .outside } else none
  | .sleep => if h.phase = .sleeping then some { h with phase := .testing } else none

theorem step_kept {h next : Http} {action : Action} (stepped : h.step action = some next) :
    h.phase ≠ .outside ∧ next.httpRunning = h.httpRunning ∧ (next.phase = .outside → h.httpRunning = false) := by
  cases action with
  | test =>
      obtain ⟨testing, same⟩ := Option.ite_none_right_eq_some.mp stepped
      cases same
      refine ⟨by simp [testing], rfl, fun gone => ?_⟩
      simpa using gone
  | sleep =>
      obtain ⟨sleeping, same⟩ := Option.ite_none_right_eq_some.mp stepped
      cases same
      exact ⟨by simp [sleeping], rfl, by simp⟩

/-- `start_http_server` and `stop_http_server`; so far the thread only sleeps. -/
def thread : LoopThread Http Action where
  step := step
  own _ := true
  flag := httpRunning
  setFlag running h := { h with httpRunning := running }
  alive h := h.phase ≠ .outside
  launch h := { h with phase := .testing }
  flag_setFlag _ _ := rfl
  setFlag_setFlag _ _ _ := rfl
  setFlag_flag _ := rfl
  alive_setFlag _ _ := rfl
  flag_launch _ := rfl
  alive_launch _ := rfl
  flag_step _ _ _ stepped := (step_kept stepped).2.1
  own_alive _ _ _ stepped _ := decide_eq_true (step_kept stepped).1
  own_ends _ _ _ stepped _ gone := (step_kept stepped).2.2 (by simpa using gone)
  other_alive _ _ _ _ own := by cases own
  other_flag _ _ _ _ _ own := by cases own

end Http

end ServerFramework.Core.Monitor
