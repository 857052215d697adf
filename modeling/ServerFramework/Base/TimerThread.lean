import ServerFramework.Base.TimerLoop
import ServerFramework.Library.Background

namespace ServerFramework.Base
open Library Library.Heap

def LoopPhase.inside {κ : Type} : LoopPhase κ → Bool
  | .idle => false
  | .merging | .resting | .firing | .running _ | .rearming .. | .storing .. | .pushing .. => true

namespace TimerLoop

variable {κ : Type} (heap : HeapAlgorithms (@TimerItem.expireAt κ))

-- The thread's part of `thread_loop`; the rest are calls that others make.
def Action.own : Action κ → Bool
  | .merge | .rest _ | .fire _ | .invoke | .rearm _ | .storeRearm | .pushRearm => true
  | .start | .stop | .add .. | .addRepeating .. | .store _ | .queue _ | .cancel _ => false

/-- `start` and `stop` come in smaller steps here. -/
def round (loop : TimerLoop κ) : Action κ → Option (TimerLoop κ)
  | .start | .stop => none
  | action => loop.step heap action

def setRunning (running : Bool) (loop : TimerLoop κ) : TimerLoop κ := { loop with running := running }

/-! ## What the steps do to the flag and to the thread -/

variable {heap} {loop next : TimerLoop κ} {action : Action κ}

theorem addImpl_kept {now afterMs intervalMs : Int} {cb : Option κ}
    (added : loop.addImpl now afterMs cb intervalMs = some next) :
    next.running = loop.running ∧ next.phase = loop.phase := by
  simp only [addImpl, Option.ite_none_right_eq_some, Option.some.injEq] at added
  obtain ⟨-, rfl⟩ := added
  exact ⟨rfl, rfl⟩

theorem addImpl_setRunning (running : Bool) {now afterMs intervalMs : Int} {cb : Option κ}
    (added : loop.addImpl now afterMs cb intervalMs = some next) :
    (setRunning running loop).addImpl now afterMs cb intervalMs = some (setRunning running next) := by
  simp only [addImpl, Option.ite_none_right_eq_some, Option.some.injEq] at added
  obtain ⟨small, rfl⟩ := added
  exact if_pos small

theorem other_kept (stepped : loop.round heap action = some next) (own : action.own = false) :
    next.running = loop.running ∧ next.phase = loop.phase := by
  cases action with
  | start | stop => cases stepped
  | add => exact addImpl_kept stepped
  | addRepeating => exact addImpl_kept stepped
  | store | queue =>
      obtain ⟨item, -, rfl⟩ := Option.map_eq_some_iff.mp stepped
      exact ⟨rfl, rfl⟩
  | cancel id =>
      cases stepped
      exact ⟨rfl, rfl⟩
  | _ => cases own

theorem other_setRunning (running : Bool) (stepped : loop.round heap action = some next) (own : action.own = false) :
    (setRunning running loop).round heap action = some (setRunning running next) := by
  cases action with
  | start | stop => cases stepped
  | add => exact addImpl_setRunning running stepped
  | addRepeating => exact addImpl_setRunning running stepped
  | store | queue =>
      obtain ⟨item, here, rfl⟩ := Option.map_eq_some_iff.mp stepped
      exact Option.map_eq_some_iff.mpr ⟨item, here, rfl⟩
  | cancel id =>
      cases stepped
      rfl
  | _ => cases own

/-- One step of the thread; it leaves the loop only at its head. -/
inductive Turn (loop : TimerLoop κ) : Action κ → TimerLoop κ → Prop
  | leave (merging : loop.phase = .merging) (stopped : loop.running = false) :
      Turn loop .merge { loop with phase := .idle }
  | stay {action : Action κ} {next : TimerLoop κ} (from_inside : loop.phase.inside = true)
      (running : next.running = loop.running) (inside : next.phase.inside = true) : Turn loop action next

theorem merge_turn (merging : loop.phase = .merging) : Turn loop .merge (loop.merge heap) := by
  have inside : loop.phase.inside = true := by rw [merging]; rfl
  unfold merge
  split
  · rename_i running
    split
    · exact .stay inside rfl rfl
    · exact .stay inside rfl rfl
  · rename_i stopped
    exact .leave merging (Bool.eq_false_iff.mpr stopped)

theorem own_turn (stepped : loop.round heap action = some next) (own : action.own = true) : Turn loop action next := by
  cases action with
  | merge =>
      cases phase : loop.phase with
      | merging =>
          simp only [round, step, phase, Option.some.injEq] at stepped
          subst stepped
          exact merge_turn phase
      | _ => simp [round, step, phase] at stepped
  | rest now =>
      cases phase : loop.phase with
      | resting =>
          simp only [round, step, phase, Option.some.injEq] at stepped
          subst stepped
          exact .stay (by rw [phase]; rfl) rfl rfl
      | _ => simp [round, step, phase] at stepped
  | fire now2 =>
      cases phase : loop.phase with
      | firing =>
          simp only [round, step, phase] at stepped
          obtain ⟨⟨left, fired⟩, -, rfl⟩ := Option.map_eq_some_iff.mp stepped
          exact .stay (by rw [phase]; rfl) rfl rfl
      | _ => simp [round, step, phase] at stepped
  | invoke =>
      cases phase : loop.phase with
      | running fired =>
          have inside : loop.phase.inside = true := by rw [phase]; rfl
          cases fired with
          | nil =>
              simp only [round, step, phase, Option.some.injEq] at stepped
              subst stepped
              exact .stay inside rfl rfl
          | cons t fired =>
              simp only [round, step, phase] at stepped
              split at stepped <;> cases stepped <;> exact .stay inside rfl rfl
      | _ => simp [round, step, phase] at stepped
  | rearm now3 =>
      cases phase : loop.phase with
      | rearming t fired =>
          have inside : loop.phase.inside = true := by rw [phase]; rfl
          simp only [round, step, phase] at stepped
          split at stepped
          · obtain ⟨-, same⟩ := Option.ite_none_right_eq_some.mp stepped
            cases same
            exact .stay inside rfl rfl
          · cases stepped
            exact .stay inside rfl rfl
      | _ => simp [round, step, phase] at stepped
  | storeRearm =>
      cases phase : loop.phase with
      | storing nt fired =>
          simp only [round, step, phase, Option.some.injEq] at stepped
          subst stepped
          exact .stay (by rw [phase]; rfl) rfl rfl
      | _ => simp [round, step, phase] at stepped
  | pushRearm =>
      cases phase : loop.phase with
      | pushing nt fired =>
          simp only [round, step, phase, Option.some.injEq] at stepped
          subst stepped
          exact .stay (by rw [phase]; rfl) rfl rfl
      | _ => simp [round, step, phase] at stepped
  | _ => cases own

theorem round_running (stepped : loop.round heap action = some next) : next.running = loop.running := by
  cases own : action.own with
  | false => exact (other_kept stepped own).1
  | true =>
      cases own_turn stepped own with
      | leave => rfl
      | stay _ running _ => exact running

variable (heap)

def thread : LoopThread (TimerLoop κ) (Action κ) where
  step := round heap
  own := Action.own
  flag := running
  setFlag := setRunning
  alive loop := loop.phase.inside
  launch loop := { loop with phase := .merging }
  flag_setFlag _ _ := rfl
  setFlag_setFlag _ _ _ := rfl
  setFlag_flag _ := rfl
  alive_setFlag _ _ := rfl
  flag_launch _ := rfl
  alive_launch _ := rfl
  flag_step _ _ _ stepped := round_running stepped
  own_alive _ _ _ stepped own := by
    cases own_turn stepped own with
    | leave merging => rw [merging]; rfl
    | stay from_inside => exact from_inside
  own_ends _ _ _ stepped own ended := by
    cases own_turn stepped own with
    | leave _ stopped => exact stopped
    | stay _ _ inside =>
        rw [inside] at ended
        cases ended
  other_alive _ _ _ stepped own := by rw [(other_kept stepped own).2]
  other_flag running _ _ _ stepped own := other_setRunning running stepped own

end TimerLoop

end ServerFramework.Base
