import ServerFramework.Base.TimerThread
import ServerFramework.Proof.Base.TimerLoop

namespace ServerFramework.Base
open Library Library.Heap

namespace TimerLoop

variable {κ : Type} (heap : HeapAlgorithms (@TimerItem.expireAt κ))

/-! ## The round a lowered flag finds under way -/

/-- The steps the thread has before it at most, when it will not go round again. -/
def left (loop : TimerLoop κ) : Nat :=
  match loop.phase with
  | .idle => 0
  | .merging => 1
  | .running fired => 4 * fired.length + 2
  | .pushing _ fired => 4 * fired.length + 3
  | .storing _ fired => 4 * fired.length + 4
  | .rearming _ fired => 4 * fired.length + 5
  | .firing => 4 * loop.items.length + 3
  | .resting => 4 * loop.items.length + 4

/-- The id that the thread goes on from, its own store included. -/
def reached (loop : TimerLoop κ) : Int :=
  match loop.phase with
  | .storing nt _ => nt.id
  | _ => loop.nextId

/-- The ids suffice for what may still be re-armed. -/
structure Ready (loop : TimerLoop κ) : Prop where
  ordered : IsMinHeap TimerItem.expireAt loop.items
  room : loop.reached + loop.left < 2 ^ 63

theorem round_nearer {loop next : TimerLoop κ} {action : Action κ} (stepped : loop.round heap action = some next)
    (own : action.own = true) (stopped : loop.running = false) (ordered : IsMinHeap TimerItem.expireAt loop.items) :
    IsMinHeap TimerItem.expireAt next.items ∧ next.left < loop.left ∧
      next.reached + next.left ≤ loop.reached + loop.left := by
  cases action with
  | merge =>
      cases phase : loop.phase with
      | merging =>
          simp only [round, step, phase, merge, stopped, Bool.false_eq_true, if_false, Option.some.injEq] at stepped
          subst stepped
          refine ⟨ordered, ?_, ?_⟩ <;> simp [left, reached, phase]
      | _ => simp [round, step, phase] at stepped
  | rest now =>
      cases phase : loop.phase with
      | resting =>
          simp only [round, step, phase, Option.some.injEq] at stepped
          subst stepped
          refine ⟨ordered, ?_, ?_⟩ <;> simp [left, reached, phase]
      | _ => simp [round, step, phase] at stepped
  | fire now2 =>
      cases phase : loop.phase with
      | firing =>
          simp only [round, step, phase] at stepped
          obtain ⟨⟨kept, fired⟩, taken, rfl⟩ := Option.map_eq_some_iff.mp stepped
          have extraction := Timer.extract_extraction heap ordered taken
          have fewer : fired.length ≤ loop.items.length := by
            have parts := extraction.parts.length_le
            rw [List.length_append] at parts
            omega
          refine ⟨extraction.heap, ?_, ?_⟩ <;> simp only [left, reached, afterFire, phase] <;> omega
      | _ => simp [round, step, phase] at stepped
  | invoke =>
      cases phase : loop.phase with
      | running fired =>
          cases fired with
          | nil =>
              simp only [round, step, phase, Option.some.injEq] at stepped
              subst stepped
              refine ⟨ordered, ?_, ?_⟩ <;> simp [left, reached, phase]
          | cons t fired =>
              simp only [round, step, phase] at stepped
              split at stepped <;> cases stepped <;> refine ⟨ordered, ?_, ?_⟩ <;>
                simp only [left, reached, afterInvoke, phase, List.length_cons] <;> omega
      | _ => simp [round, step, phase] at stepped
  | rearm now3 =>
      cases phase : loop.phase with
      | rearming t fired =>
          simp only [round, step, phase] at stepped
          split at stepped
          · obtain ⟨-, same⟩ := Option.ite_none_right_eq_some.mp stepped
            cases same
            refine ⟨ordered, ?_, ?_⟩ <;> simp only [left, reached, afterRearm, nt, phase] <;> omega
          · cases stepped
            refine ⟨ordered, ?_, ?_⟩ <;> simp only [left, reached, phase] <;> omega
      | _ => simp [round, step, phase] at stepped
  | storeRearm =>
      cases phase : loop.phase with
      | storing nt fired =>
          simp only [round, step, phase, Option.some.injEq] at stepped
          subst stepped
          refine ⟨ordered, ?_, ?_⟩ <;> simp only [left, reached, afterStore, phase] <;> omega
      | _ => simp [round, step, phase] at stepped
  | pushRearm =>
      cases phase : loop.phase with
      | pushing nt fired =>
          simp only [round, step, phase, Option.some.injEq] at stepped
          subst stepped
          refine ⟨heap.push_heap _ _ ordered, ?_, ?_⟩ <;> simp only [left, reached, afterPush, phase] <;> omega
      | _ => simp [round, step, phase] at stepped
  | _ => cases own

theorem round_moves {loop : TimerLoop κ} (inside : loop.phase.inside = true) (ready : Ready loop) :
    ∃ action : Action κ, action.own = true ∧ loop.round heap action ≠ none := by
  have room := ready.room
  cases phase : loop.phase with
  | idle => simp [phase, LoopPhase.inside] at inside
  | merging => exact ⟨.merge, rfl, by simp [round, step, phase]⟩
  | resting => exact ⟨.rest 0, rfl, by simp [round, step, phase]⟩
  | firing =>
      obtain ⟨kept, fired, taken, -⟩ := Timer.extract_spec heap 0 ready.ordered
      exact ⟨.fire 0, rfl, by simp [round, step, phase, taken]⟩
  | running fired =>
      refine ⟨.invoke, rfl, ?_⟩
      cases fired with
      | nil => simp [round, step, phase]
      | cons t fired => cases cancelled : t.cancelled <;> simp [round, step, phase, cancelled]
  | rearming t fired =>
      refine ⟨.rearm 0, rfl, ?_⟩
      simp only [left, reached, phase] at room
      have small : loop.nextId + 1 < 2 ^ 63 := by omega
      simp only [round, step, phase, small, if_true]
      split <;> exact Option.some_ne_none _
  | storing nt fired => exact ⟨.storeRearm, rfl, by simp [round, step, phase]⟩
  | pushing nt fired => exact ⟨.pushRearm, rfl, by simp [round, step, phase]⟩

theorem thread_winds : (thread heap).Winds Ready left where
  keeps _ _ _ stepped own stopped ready := by
    obtain ⟨ordered, -, room⟩ := round_nearer heap stepped own stopped ready.ordered
    exact ⟨ordered, Int.lt_of_le_of_lt room ready.room⟩
  less _ _ _ stepped own stopped ready := (round_nearer heap stepped own stopped ready.ordered).2.1
  moves _ _ inside ready := round_moves heap inside ready

/-! ## Whole runs -/

theorem initial_orderly : (thread heap).Orderly { body := {} } :=
  .resting rfl rfl ⟨rfl, fun inside => by cases inside⟩

/-- Two overlapping calls of `start` both find the flag down. -/
example : ∃ s, exec (thread (sifting (@TimerItem.expireAt Nat))).control { body := {} }
    [.start, .start, .advance 0 true, .advance 1 true, .advance 0 true, .advance 0 true, .advance 0 true,
      .advance 0 true] = some s ∧ s.broken = true := ⟨_, rfl, rfl⟩

end TimerLoop

end ServerFramework.Base
