import ServerFramework.Core.MonitorThreads

namespace ServerFramework.Core.Monitor
open Library

namespace Logging

/-! ## The round a lowered flag finds under way -/

def left (l : Logging) : Nat :=
  match l.phase with
  | .outside => 0
  | .testing | .woken => 1
  | .sleeping | .writing _ => 2
  | .taking => 3
  | .refreshing => 4

theorem thread_winds : thread.Winds (fun _ => True) left where
  keeps _ _ _ _ _ _ _ := trivial
  less _ _ _ stepped own down _ := by
    replace down : logging _ = false := down
    cases own_turn stepped own with
    | leave asks => rcases asks with at_ | at_ <;> simp [left, at_]
    | sleep _ up => simp [down] at up
    | goOn _ up => simp [down] at up
    | wake phase | refresh phase | snapshot phase | write phase => simp [left, phase]
  moves l _ inside _ := by
    replace inside : l.phase.inside = true := inside
    cases phase : l.phase with
    | outside => simp [phase, LogPhase.inside] at inside
    | testing => exact ⟨.test, rfl, by simp [thread, step, phase]⟩
    | sleeping => exact ⟨.sleep, rfl, by simp [thread, step, phase]⟩
    | woken => exact ⟨.testAgain, rfl, by simp [thread, step, phase]⟩
    | refreshing => exact ⟨.refresh none 0, rfl, by simp [thread, step, phase]⟩
    | taking => exact ⟨.snapshot 0, rfl, by simp [thread, step, phase]⟩
    | writing s => exact ⟨.write, rfl, by simp [thread, step, phase]⟩

/-! ## The lines -/

/-- Behind its second look at the flag the thread writes a line. -/
def owed : LogPhase → Nat
  | .refreshing | .taking | .writing _ => 1
  | .outside | .testing | .sleeping | .woken => 0

theorem step_owed {l next : Logging} {action : Action} (stepped : l.step action = some next)
    (down : l.logging = false) : ∃ written, next.lines = l.lines ++ written ∧
      written.length + owed next.phase ≤ owed l.phase := by
  cases own : action.own with
  | true =>
      cases own_turn stepped own with
      | leave | wake => exact ⟨[], by simp, by simp [owed]⟩
      | sleep _ up => simp [down] at up
      | goOn _ up => simp [down] at up
      | refresh phase | snapshot phase => exact ⟨[], by simp, by simp [owed, phase]⟩
      | @write s phase => exact ⟨[s], rfl, by simp [owed, phase]⟩
  | false =>
      cases action <;> cases own
      cases stepped
      exact ⟨[], by simp, by simp⟩

theorem other_lines {l next : Logging} {action : Action} (stepped : l.step action = some next)
    (own : action.own = false) : next.lines = l.lines := by
  cases action <;> cases own
  cases stepped
  rfl

/-- What one owner of the monitor gets from `start_logging` and `stop_logging`, whoever counts beside it. -/
structure LogsAndStops (s : Background Logging) : Prop where
  managed : LoopThread.Managed thread (fun _ => True) left s
  last : s.calls = [.testing] ∨ s.calls = [.joining] → ∀ more later, exec thread.control s more = some later →
    (∀ action ∈ more, action ≠ .start) → ∃ written, later.body.lines = s.body.lines ++ written ∧ written.length ≤ 1
  still : s.calls = [] → s.body.logging = false → ∀ more later, exec thread.control s more = some later →
    (∀ action ∈ more, action ≠ .start) → later.body.phase = .outside ∧ later.body.lines = s.body.lines

theorem initial_orderly : thread.Orderly { body := {} } := .resting rfl rfl ⟨rfl, fun inside => by cases inside⟩

theorem last_line {s later : Background Logging} {more : List (Background.Action Action)}
    (continued : exec thread.control s more = some later) (unstarted : ∀ action ∈ more, action ≠ .start)
    (lowered : thread.Lowered s) :
    ∃ written, later.body.lines = s.body.lines ++ written ∧ written.length ≤ 1 := by
  have counted : ∃ written, later.body.lines = s.body.lines ++ written ∧
      written.length + owed later.body.phase ≤ owed s.body.phase := by
    refine LoopThread.exec_lowered (P := fun l : Logging => ∃ written, l.lines = s.body.lines ++ written ∧
      written.length + owed l.phase ≤ owed s.body.phase) ?_ continued unstarted lowered ⟨[], by simp, by simp⟩
    rintro l action next stepped down ⟨written, same, few⟩
    obtain ⟨line, added, fewer⟩ := step_owed stepped down
    refine ⟨written ++ line, by rw [added, same, List.append_assoc], ?_⟩
    rw [List.length_append]
    omega
  obtain ⟨written, same, few⟩ := counted
  have one : owed s.body.phase ≤ 1 := by cases s.body.phase <;> simp [owed]
  exact ⟨written, same, by omega⟩

theorem logs_and_stops (actions : List (Background.Action Action)) (s : Background Logging)
    (ran : exec thread.control { body := {} } actions = some s)
    (alone : Respects LoopThread.Alone thread.control { body := {} } actions) : LogsAndStops s where
  managed := LoopThread.exec_managed thread_winds ran alone initial_orderly
  last late _ _ continued unstarted :=
    last_line continued unstarted (LoopThread.lowered_of_stopping (LoopThread.exec_orderly ran alone initial_orderly) late)
  still none down more later continued unstarted := by
    have gone := LoopThread.gone_of_resting (LoopThread.exec_orderly ran alone initial_orderly) none down
    obtain ⟨outside, same⟩ := LoopThread.exec_outside lines (fun _ _ _ => other_lines) continued unstarted
      (LoopThread.lowered_of_resting none down) gone
    refine ⟨?_, same⟩
    have gone : later.body.phase.inside = false := outside
    cases phase : later.body.phase with
    | outside => rfl
    | _ => simp [phase, LogPhase.inside] at gone

/-- The flag is lowered behind the thread's second look at it. -/
def lateRun : List (Background.Action Action) :=
  [.start, .advance 0 true, .advance 0 true, .advance 0 true, .body .test, .body (.call (.onConnect 0)), .body .sleep,
    .body .testAgain, .stop, .advance 0 true, .advance 0 true]

theorem logs_and_stops_late :
    ∃ s, exec thread.control { body := {} } lateRun = some s ∧ s.calls = [.testing] ∧ s.body.phase = .refreshing ∧
      LogsAndStops s := by
  obtain ⟨s, ran, calls, refreshing⟩ : ∃ s, exec thread.control { body := {} } lateRun = some s ∧
      s.calls = [.testing] ∧ s.body.phase = .refreshing := ⟨_, rfl, rfl, rfl⟩
  exact ⟨s, ran, calls, refreshing, logs_and_stops _ s ran (by decide)⟩

/-- Then one line follows. -/
example : ∃ s, exec thread.control { body := {} } (lateRun ++ [.body (.refresh (some 7) 0), .body (.snapshot 3),
    .advance 0 true, .body .write, .body .test, .advance 0 true]) = some s ∧ s.calls = [] ∧ s.body.lines.length = 1 :=
  ⟨_, rfl, rfl, rfl⟩

end Logging

namespace Http

def left (h : Http) : Nat :=
  match h.phase with
  | .outside => 0
  | .testing => 1
  | .sleeping => 2

theorem thread_winds : thread.Winds (fun _ => True) left where
  keeps _ _ _ _ _ _ _ := trivial
  less h action _ stepped _ down _ := by
    replace down : h.httpRunning = false := down
    cases action with
    | test =>
        obtain ⟨testing, same⟩ := Option.ite_none_right_eq_some.mp stepped
        cases same
        simp [left, testing, down]
    | sleep =>
        obtain ⟨sleeping, same⟩ := Option.ite_none_right_eq_some.mp stepped
        cases same
        simp [left, sleeping]
  moves h _ inside _ := by
    have around : h.phase ≠ .outside := of_decide_eq_true inside
    cases phase : h.phase with
    | outside => exact absurd phase around
    | testing => exact ⟨.test, rfl, by simp [thread, step, phase]⟩
    | sleeping => exact ⟨.sleep, rfl, by simp [thread, step, phase]⟩

theorem http_managed (actions : List (Background.Action Action)) (s : Background Http)
    (ran : exec thread.control { body := {} } actions = some s)
    (alone : Respects LoopThread.Alone thread.control { body := {} } actions) :
    LoopThread.Managed thread (fun _ => True) left s :=
  LoopThread.exec_managed thread_winds ran alone
    (.resting rfl rfl ⟨rfl, fun inside => by cases inside⟩)

end Http

end ServerFramework.Core.Monitor
