import ServerFramework.Base.EventLoop

namespace ServerFramework.Base
open Library Library.Heap

inductive RunPhase.Moves {κ τ : Type} (clock : Int) : RunPhase κ τ → RunPhase κ τ → Prop
  | stay (phase : RunPhase κ τ) : Moves clock phase phase
  | drained : Moves clock (.draining []) .ticking
  | ended (tasks : List τ) : Moves clock (.executing tasks) (.draining tasks)
  | read : Moves clock .ticking (.locking clock)
  | fired (now : Int) : Moves clock (.firing now []) .polling
  | called (now : Int) (t : TimerEntry κ) (fired : List (TimerEntry κ)) :
      Moves clock (.calling now t fired) (.rearming now t fired)
  | oneShot (now : Int) {t : TimerEntry κ} (fired : List (TimerEntry κ)) (once : ¬ t.intervalMs > 0) :
      Moves clock (.rearming now t fired) (.firing now fired)
  | polled : Moves clock .polling .outside

namespace EventLoop

variable {κ τ : Type} (heap : HeapAlgorithms (@TimerItem.expireAt κ))

def afterAdd (loop : EventLoop κ τ) (entry : TimerEntry κ) : EventLoop κ τ :=
  { loop with timerIdCounter := loop.timerIdCounter + 1, adding := loop.adding ++ [entry] }

inductive Effect (loop : EventLoop κ τ) : EventLoop κ τ → Prop
  | quiet {clock : Int} {phase : RunPhase κ τ} (later : loop.clock ≤ clock) (moves : loop.phase.Moves loop.clock phase) :
      Effect loop { loop with clock := clock, phase := phase }
  | add {entry : TimerEntry κ} (fresh : entry.id = loop.timerIdCounter + 1) (given : entry.callback.isSome) :
      Effect loop (loop.afterAdd entry)
  | insert {i : Nat} {entry : TimerEntry κ} (here : loop.adding[i]? = some entry) :
      Effect loop (loop.insert heap i entry)
  | cancel (id : Int) : Effect loop (loop.cancelTimer id).2
  | extract {now : Int} {left fired : List (TimerEntry κ)} (phase : loop.phase = .locking now)
      (taken : Timer.extract heap now loop.timers = some (left, fired)) : Effect loop (loop.afterExtract now left fired)
  | visit {now : Int} {t : TimerEntry κ} {fired : List (TimerEntry κ)} (phase : loop.phase = .firing now (t :: fired)) :
      Effect loop (loop.visit now t fired)
  | renew {now : Int} {t : TimerEntry κ} {fired : List (TimerEntry κ)} (phase : loop.phase = .rearming now t fired)
      (repeating : t.intervalMs > 0) : Effect loop (loop.renew now t fired)
  | restore {now : Int} {t nt : TimerEntry κ} {fired : List (TimerEntry κ)}
      (phase : loop.phase = .restoring now t nt fired) : Effect loop (loop.restore heap now t nt fired)
  | push (task : τ) : Effect loop (loop.pushTask task)
  | take (phase : loop.phase = .outside) : Effect loop loop.processTasks
  | execute {task : τ} {tasks : List τ} (phase : loop.phase = .draining (task :: tasks)) :
      Effect loop (loop.execute task tasks)

theorem move_effect {loop : EventLoop κ τ} {phase : RunPhase κ τ} (moves : loop.phase.Moves loop.clock phase) :
    Effect heap loop { loop with phase := phase } :=
  .quiet (Int.le_refl _) moves

theorem addTimer_effect {loop : EventLoop κ τ} {now afterMs intervalMs : Int} {cb : Option κ}
    {result : Int × EventLoop κ τ} (added : loop.addTimer now afterMs cb intervalMs = some result) :
    Effect heap loop result.2 := by
  unfold addTimer at added
  split at added
  · cases added
    exact move_effect heap (.stay _)
  · rename_i given
    split at added
    · cases added
      exact .add rfl (by simpa [Option.isSome_iff_ne_none] using given)
    · cases added

theorem rearm_effect {loop next : EventLoop κ τ} {now : Int} {t : TimerEntry κ} {fired : List (TimerEntry κ)}
    (phase : loop.phase = .rearming now t fired) (rearmed : loop.rearm now t fired = some next) :
    Effect heap loop next := by
  unfold rearm at rearmed
  split at rearmed
  · rename_i repeating
    simp only [Option.ite_none_right_eq_some, Option.some.injEq] at rearmed
    obtain ⟨-, rfl⟩ := rearmed
    exact .renew phase repeating
  · rename_i once
    cases rearmed
    exact move_effect heap (by rw [phase]; exact .oneShot now fired once)

theorem step_effect {loop next : EventLoop κ τ} {action : Action κ τ} (stepped : loop.step heap action = some next) :
    Effect heap loop next := by
  cases action with
  | tick ms =>
      simp only [step, Option.ite_none_right_eq_some, Option.some.injEq] at stepped
      obtain ⟨-, rfl⟩ := stepped
      exact .quiet (Int.le_add_of_nonneg_right (Int.natCast_nonneg ms)) (.stay _)
  | addTimer now afterMs cb intervalMs =>
      simp only [step, Option.ite_none_right_eq_some, Option.map_eq_some_iff] at stepped
      obtain ⟨-, result, added, rfl⟩ := stepped
      exact addTimer_effect heap added
  | insert i =>
      obtain ⟨entry, here, rfl⟩ := Option.map_eq_some_iff.mp stepped
      exact .insert here
  | cancelTimer id =>
      cases stepped
      exact .cancel id
  | pushTask task =>
      cases stepped
      exact .push task
  | processTasks =>
      cases phase : loop.phase <;> simp only [step, phase] at stepped <;> cases stepped
      exact .take phase
  | execute =>
      cases phase : loop.phase with
      | draining tasks =>
          cases tasks with
          | nil =>
              simp only [step, phase] at stepped
              cases stepped
              exact move_effect heap (by rw [phase]; exact .drained)
          | cons task tasks =>
              simp only [step, phase] at stepped
              cases stepped
              exact .execute phase
      | _ => simp [step, phase] at stepped
  | endTask outcome =>
      cases phase : loop.phase <;>
        simp only [step, phase, reduceCtorEq, Option.ite_none_right_eq_some, Option.some.injEq] at stepped
      obtain ⟨-, rfl⟩ := stepped
      exact move_effect heap (by rw [phase]; exact .ended _)
  | readTick =>
      cases phase : loop.phase <;> simp only [step, phase] at stepped <;> cases stepped
      exact move_effect heap (by rw [phase]; exact .read)
  | extract =>
      cases phase : loop.phase <;> simp only [step, phase, reduceCtorEq] at stepped
      obtain ⟨⟨left, fired⟩, taken, rfl⟩ := Option.map_eq_some_iff.mp stepped
      exact .extract phase taken
  | visit =>
      cases phase : loop.phase with
      | firing now fired =>
          cases fired with
          | nil =>
              simp only [step, phase] at stepped
              cases stepped
              exact move_effect heap (by rw [phase]; exact .fired now)
          | cons t fired =>
              simp only [step, phase] at stepped
              cases stepped
              exact .visit phase
      | _ => simp [step, phase] at stepped
  | endCallback outcome =>
      cases phase : loop.phase <;>
        simp only [step, phase, reduceCtorEq, Option.ite_none_right_eq_some, Option.some.injEq] at stepped
      obtain ⟨-, rfl⟩ := stepped
      exact move_effect heap (by rw [phase]; exact .called _ _ _)
  | rearm =>
      cases phase : loop.phase <;> simp only [step, phase, reduceCtorEq] at stepped
      exact rearm_effect heap phase stepped
  | restore =>
      cases phase : loop.phase <;> simp only [step, phase] at stepped <;> cases stepped
      exact .restore phase
  | poll =>
      cases phase : loop.phase <;> simp only [step, phase] at stepped <;> cases stepped
      exact move_effect heap (by rw [phase]; exact .polled)

end EventLoop

end ServerFramework.Base
