import ServerFramework.Proof.Base.ObjectPool

namespace ServerFramework.Base
open Library

namespace ObjectPool

def Phase.null : Phase → Bool
  | .returned .threw | .returned .empty | .returned .badAlloc => true
  | _ => false

def Phase.failing : Phase → Bool
  | .pushBack _ | .uncount => true
  | phase => phase.null

def Supplied : Action → Prop
  | .advance _ succeeds => succeeds = true
  | _ => True

/-- The free list has something left when a call comes back to it after adding a chunk. -/
def SlotLeft (pool : ObjectPool) : Action → Prop
  | .advance i _ => ∀ call ∈ pool.calls[i]?, call.phase = .popAgain → pool.freeListSize ≠ 0
  | _ => True

instance (pool : ObjectPool) : ∀ action, Decidable (SlotLeft pool action)
  | .advance i _ => inferInstanceAs (Decidable (∀ call ∈ pool.calls[i]?, _ → _ ≠ _))
  | .allocate | .deallocate _ | .preAllocate _ => isTrue trivial

instance : DecidablePred Supplied
  | .advance _ succeeds => inferInstanceAs (Decidable (succeeds = true))
  | .allocate | .deallocate _ | .preAllocate _ => isTrue trivial

theorem popFree_of_size {pool : ObjectPool} {calls : List Call} {free : List Nat} (good : Good pool calls free) :
    pool.popFree = none ↔ pool.freeListSize = 0 := by
  constructor
  · intro popped
    have chain := good.chain
    rw [popFree_none popped] at chain
    rw [good.size, chain.nil_of_null]
    rfl
  · intro none_left
    have empty : free = [] := List.eq_nil_of_length_eq_zero (good.size.symm.trans none_left)
    have chain := good.chain
    rw [empty] at chain
    exact if_pos chain

theorem turn_failing {pool turned : ObjectPool} {phase after : Phase}
    (turns : pool.turn true phase = some (turned, after)) (fine : phase.failing = false)
    (left : phase = .popAgain → pool.popFree ≠ none) : after.failing = false := by
  cases phase with
  | popping =>
      rcases pop_cases turns with ⟨-, rfl, rfl⟩ | ⟨slot, -, rfl⟩
      · rfl
      · rfl
  | popAgain =>
      rcases pop_cases turns with ⟨popped, -, -⟩ | ⟨slot, -, rfl⟩
      · exact absurd popped (left rfl)
      · rfl
  | pushBack slot => cases fine
  | uncount => cases fine
  | returned outcome => cases turns
  | _ =>
      cases turns
      rfl

theorem resume_failing {phase : Phase} (rounds : Option Nat) (fine : phase.failing = false) :
    (resume rounds phase).phase.failing = false := by
  cases phase with
  | returned outcome =>
      cases outcome with
      | object slot => cases rounds <;> rfl
      | done => rcases rounds with _ | _ | n <;> rfl
      | _ => cases fine
  | _ => exact fine

theorem step_fine {pool next : ObjectPool} {action : Action} {free : List Nat} (stepped : pool.step action = some next)
    (good : Good pool pool.calls free) (supplied : Supplied action) (left : SlotLeft pool action)
    (fine : ∀ call ∈ pool.calls, call.phase.failing = false) : ∀ call ∈ next.calls, call.phase.failing = false := by
  have started (call : Call) (quiet : call.phase.failing = false) :
      ∀ other ∈ pool.calls ++ [call], other.phase.failing = false := by
    intro other member
    rcases List.mem_append.mp member with old | new
    · exact fine other old
    · rw [List.mem_singleton.mp new]
      exact quiet
  cases action with
  | allocate =>
      cases stepped
      exact started _ rfl
  | deallocate slot =>
      simp only [step, Option.ite_none_right_eq_some, Option.some.injEq] at stepped
      obtain ⟨-, rfl⟩ := stepped
      exact started _ rfl
  | preAllocate count =>
      cases count with
      | zero =>
          cases stepped
          exact started _ rfl
      | succ n =>
          cases stepped
          exact started _ rfl
  | advance i succeeds =>
      obtain rfl : succeeds = true := supplied
      obtain ⟨call, turned, phase, here, turns, rfl⟩ := advance_cases stepped
      have free_slot : call.phase = .popAgain → pool.popFree ≠ none := by
        intro again popped
        exact left call here again ((popFree_of_size good).mp popped)
      have after := turn_failing turns (fine call (List.mem_of_getElem? here)) free_slot
      intro other member
      rw [ObjectPool.update, turn_calls turns] at member
      rcases List.mem_or_eq_of_mem_set member with old | rfl
      · exact fine other old
      · exact resume_failing call.rounds after

theorem failing_of_null {phase : Phase} (fine : phase.failing = false) : phase.null = false := by
  cases phase with
  | pushBack | uncount => rfl
  | _ => exact fine

theorem step_left {pool next : ObjectPool} {action : Action} {free : List Nat} (stepped : pool.step action = some next)
    (good : Good pool pool.calls free) (nonnull : ∀ call ∈ next.calls, call.phase.null = false) :
    SlotLeft pool action := by
  cases action with
  | advance i succeeds =>
      intro call here again none_left
      obtain ⟨other, turned, phase, there, turns, rfl⟩ := advance_cases stepped
      obtain rfl := Option.some.inj (here.symm.trans there)
      rw [again] at turns
      simp only [turn, (popFree_of_size good).mpr none_left, Option.some.injEq, Prod.mk.injEq] at turns
      obtain ⟨rfl, rfl⟩ := turns
      obtain ⟨inside, -⟩ := List.getElem?_eq_some_iff.mp here
      have result := nonnull _ (List.mem_set inside _)
      cases result
  | _ => trivial

theorem allocate_nonnull_iff (actions : List Action) (pool : ObjectPool) (supplied : ∀ action ∈ actions, Supplied action)
    (ran : exec step {} actions = some pool) :
    (∀ n earlier, exec step {} (actions.take n) = some earlier → ∀ call ∈ earlier.calls, call.phase.null = false) ↔
      Respects SlotLeft step {} actions := by
  apply always_iff_respects_of (I := fun pool => (∃ free, Good pool pool.calls free) ∧
    ∀ call ∈ pool.calls, call.phase.failing = false) _ _ _ (respects_of_forall supplied _) ran
  · exact ⟨⟨[], initial_good⟩, fun _ member => absurd member List.not_mem_nil⟩
  · rintro before action after stepped given left ⟨⟨free, good⟩, fine⟩
    exact ⟨step_good stepped good, step_fine stepped good given left fine⟩
  · intro state holds call member
    exact failing_of_null (holds.2 call member)
  · rintro before action after stepped ⟨⟨free, good⟩, -⟩ nonnull
    exact step_left stepped good nonnull

theorem first_allocate_nonnull :
    ∃ pool, exec step {} (.allocate :: List.replicate 8 (.advance 0 true)) = some pool ∧
      ∀ call ∈ pool.calls, call.phase.null = false := by
  obtain ⟨pool, ran⟩ : ∃ pool, exec step {} (.allocate :: List.replicate 8 (.advance 0 true)) = some pool := ⟨_, rfl⟩
  exact ⟨pool, ran, (allocate_nonnull_iff _ pool (by decide) ran).mpr (by decide) 9 pool ran⟩

/-- A chunk is added, 64 other calls take its slots, the call that added it finds the list empty. -/
def drainingRun : List Action :=
  .allocate :: List.replicate 3 (.advance 0 true) ++
    (List.range' 1 64).flatMap (fun i => [.allocate, .advance i true]) ++ [.advance 0 true]

theorem allocate_returns_null :
    (∀ action ∈ drainingRun, Supplied action) ∧
    ∃ pool, exec step {} drainingRun = some pool ∧ ∃ call ∈ pool.calls, call.phase = .returned .empty := by
  obtain ⟨pool, ran, ended⟩ := Option.map_eq_some_iff.mp (show
    (exec step {} drainingRun).map (fun pool => decide (∃ call ∈ pool.calls, call.phase = .returned .empty)) =
      some true by decide +kernel)
  exact ⟨by decide +kernel, pool, ran, of_decide_eq_true ended⟩

end ObjectPool

end ServerFramework.Base
