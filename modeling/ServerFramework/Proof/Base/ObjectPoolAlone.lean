import ServerFramework.Proof.Base.ObjectPoolCalls

namespace ServerFramework.Base
open Library

namespace ObjectPool

/-! ## A call that runs alone -/

def withCalls (pool : ObjectPool) (calls : List Call) : ObjectPool := { pool with calls := calls }

def Runs (pool later : ObjectPool) : Prop := ∃ events, exec event pool events = some later

theorem Runs.trans {pool between later : ObjectPool} (first : Runs pool between) (second : Runs between later) :
    Runs pool later := by
  obtain ⟨events, ran⟩ := first
  obtain ⟨others, after⟩ := second
  exact ⟨events ++ others, by rw [exec_append, ran, Option.bind_some, after]⟩

theorem Runs.one {pool later : ObjectPool} {e : Event} (stepped : pool.event e = some later) : Runs pool later :=
  ⟨[e], exec_cons.mpr ⟨later, stepped, rfl⟩⟩

theorem popFree_withCalls (pool : ObjectPool) (calls : List Call) :
    (pool.withCalls calls).popFree = pool.popFree.map fun (slot, popped) => (slot, popped.withCalls calls) := by
  have same : (pool.withCalls calls).freeList = pool.freeList := rfl
  by_cases null : pool.freeList = 0
  · rw [popFree, popFree, same, if_pos null, if_pos null]
    rfl
  · rw [popFree, popFree, same, if_neg null, if_neg null]
    rfl

theorem turn_withCalls {pool turned : ObjectPool} {calls : List Call} {succeeds : Bool} {phase after : Phase}
    (turns : pool.turn succeeds phase = some (turned, after)) :
    (pool.withCalls calls).turn succeeds phase = some (turned.withCalls calls, after) := by
  cases phase with
  | popping | popAgain =>
      rcases pop_cases turns with ⟨popped, rfl, rfl⟩ | ⟨slot, popped, rfl⟩
      · rw [turn, popFree_withCalls, popped]
        rfl
      · rw [turn, popFree_withCalls, popped]
        rfl
  | making => cases succeeds <;> cases turns <;> rfl
  | returned outcome => cases turns
  | _ =>
      cases turns
      rfl

theorem event_turn {pool turned : ObjectPool} {calls : List Call} {rounds : Option Nat} {succeeds : Bool}
    {phase after : Phase} (turns : pool.turn succeeds phase = some (turned, after)) :
    (pool.withCalls (calls ++ [⟨rounds, phase⟩])).event (.thread (.advance calls.length succeeds)) =
      some { turned.withCalls (calls ++ [resume rounds after]) with
        owned := handedOver (resume rounds after) ++ turned.owned } := by
  have here : (pool.withCalls (calls ++ [⟨rounds, phase⟩])).calls[calls.length]? = some ⟨rounds, phase⟩ := by
    simp [withCalls]
  change (Option.bind _ _) = _
  rw [here, Option.bind_some, turn_withCalls turns, Option.map_some]
  simp [ObjectPool.update, withCalls]

theorem runs_turn {pool turned : ObjectPool} (calls : List Call) (rounds : Option Nat) {succeeds : Bool}
    {phase after : Phase} (turns : pool.turn succeeds phase = some (turned, after))
    (kept : handedOver (resume rounds after) = []) :
    Runs (pool.withCalls (calls ++ [⟨rounds, phase⟩])) (turned.withCalls (calls ++ [resume rounds after])) := by
  apply Runs.one
  rw [event_turn turns, kept]
  rfl

theorem runs_taking {pool popped : ObjectPool} {calls : List Call} {rounds : Option Nat} {slot : Nat}
    (taken : pool.takeSlot = some (slot, popped)) :
    Runs (pool.withCalls (calls ++ [⟨rounds, .popping⟩]))
      (popped.withCalls (calls ++ [⟨rounds, .countAllocated slot⟩])) := by
  rw [takeSlot] at taken
  cases first : pool.popFree with
  | some other =>
      rw [first] at taken
      cases taken
      have popping : pool.turn true .popping = some (popped, .countAllocated slot) := by
        rw [turn, first]
      exact runs_turn calls rounds popping rfl
  | none =>
      rw [first] at taken
      have popping : pool.turn true .popping = some (pool, .making) := by
        rw [turn, first]
      have making : pool.turn true .making = some ({ pool with made := pool.made + 1 }, .splicing pool.made) := rfl
      have splicing : turn { pool with made := pool.made + 1 } true (.splicing pool.made) =
          some (pool.grow, .popAgain) := rfl
      have again : pool.grow.turn true .popAgain = some (popped, .countAllocated slot) := by
        change pool.grow.popFree = some (slot, popped) at taken
        rw [turn, taken]
      have made := (runs_turn calls rounds popping rfl).trans (runs_turn calls rounds making rfl)
      have spliced := made.trans (runs_turn calls rounds splicing rfl)
      exact spliced.trans (runs_turn calls rounds again rfl)

def counted (pool : ObjectPool) : ObjectPool :=
  { pool with allocated := pool.allocated + 1, totalCreated := pool.totalCreated + 1 }

theorem runs_counting (pool : ObjectPool) (calls : List Call) (rounds : Option Nat) (slot : Nat) :
    Runs (pool.withCalls (calls ++ [⟨rounds, .countAllocated slot⟩]))
      (pool.counted.withCalls (calls ++ [⟨rounds, .constructing slot⟩])) := by
  have first : pool.turn true (.countAllocated slot) =
      some ({ pool with allocated := pool.allocated + 1 }, .countCreated slot) := rfl
  have second : turn { pool with allocated := pool.allocated + 1 } true (.countCreated slot) =
      some (pool.counted, .constructing slot) := rfl
  exact (runs_turn calls rounds first rfl).trans (runs_turn calls rounds second rfl)

theorem runs_created (pool : ObjectPool) (calls : List Call) (rounds : Option Nat) (slot : Nat) :
    Runs (pool.withCalls (calls ++ [⟨rounds, .constructing slot⟩]))
      (pool.withCalls (calls ++ [⟨rounds, .creating slot⟩])) := by
  have created : pool.turn true (.constructing slot) = some (pool, .creating slot) := rfl
  exact runs_turn calls rounds created rfl

theorem runs_thrown (pool : ObjectPool) (calls : List Call) (rounds : Option Nat) (slot : Nat) :
    Runs (pool.withCalls (calls ++ [⟨rounds, .constructing slot⟩]))
      (withCalls { pool.pushFree slot with allocated := pool.allocated - 1 }
        (calls ++ [⟨rounds, .returned .threw⟩])) := by
  have thrown : pool.turn false (.constructing slot) = some (pool, .pushBack slot) := rfl
  have pushed : pool.turn true (.pushBack slot) = some (pool.pushFree slot, .uncount) := rfl
  have uncounted : (pool.pushFree slot).turn true .uncount =
      some ({ pool.pushFree slot with allocated := pool.allocated - 1 }, .returned .threw) := rfl
  have back := (runs_turn calls rounds thrown rfl).trans (runs_turn calls rounds pushed rfl)
  exact back.trans (runs_turn calls rounds uncounted rfl)

theorem runs_createThrows (pool : ObjectPool) (calls : List Call) (rounds : Option Nat) (slot : Nat) :
    Runs (pool.withCalls (calls ++ [⟨rounds, .creating slot⟩])) (pool.withCalls calls) := by
  apply @Runs.one _ _ (.createThrows calls.length)
  have here : (pool.withCalls (calls ++ [⟨rounds, .creating slot⟩])).calls[calls.length]? =
      some ⟨rounds, .creating slot⟩ := by
    simp [withCalls]
  change (Option.bind _ _) = _
  rw [here]
  simp [withCalls, List.eraseIdx_append_of_length_le]

theorem runs_badAlloc {pool : ObjectPool} (calls : List Call) (rounds : Option Nat) (empty : pool.popFree = none) :
    Runs (pool.withCalls (calls ++ [⟨rounds, .popping⟩]))
      (pool.withCalls (calls ++ [⟨rounds, .returned .badAlloc⟩])) := by
  have popping : pool.turn true .popping = some (pool, .making) := by
    rw [turn, empty]
  have failed : pool.turn false .making = some (pool, .returned .badAlloc) := rfl
  exact (runs_turn calls rounds popping rfl).trans (runs_turn calls rounds failed rfl)

/-- `allocate` ends with an object, or its call ends without one. -/
theorem runs_allocate (pool : ObjectPool) (calls : List Call) (rounds : Option Nat) (thrown : Option Thrown) :
    (∃ slot popped, pool.allocate thrown = ({ counted popped with owned := slot :: popped.owned }, .object slot) ∧
      Runs (pool.withCalls (calls ++ [⟨rounds, .popping⟩]))
        (popped.counted.withCalls (calls ++ [⟨rounds, .creating slot⟩]))) ∨
    ((∀ slot, (pool.allocate thrown).2 ≠ .object slot) ∧ ∃ left : List Call, left.all Call.idle ∧
      Runs (pool.withCalls (calls ++ [⟨rounds, .popping⟩])) ((pool.allocate thrown).1.withCalls (calls ++ left))) := by
  by_cases failed : pool.popFree.isNone ∧ thrown = some .chunk
  · rw [allocate, if_pos failed]
    refine .inr ⟨fun slot same => ?_, _, rfl, runs_badAlloc calls rounds (Option.isNone_iff_eq_none.mp failed.1)⟩
    cases same
  · obtain ⟨slot, popped, taken⟩ := takeSlot_some pool
    rw [allocate_eq taken failed]
    have constructing := (@runs_taking _ _ calls rounds _ taken).trans (runs_counting popped calls rounds slot)
    have created := constructing.trans (runs_created _ calls rounds slot)
    rcases thrown with _ | _ | _ | _
    · exact .inl ⟨slot, popped, rfl, created⟩
    · exact .inl ⟨slot, popped, rfl, created⟩
    · refine .inr ⟨fun other same => ?_, _, rfl, constructing.trans (runs_thrown _ calls rounds slot)⟩
      cases same
    · refine .inr ⟨fun other same => ?_, [], rfl, ?_⟩
      · cases same
      · rw [List.append_nil]
        exact created.trans (runs_createThrows _ calls rounds slot)

theorem allocate_alone (pool : ObjectPool) (thrown : Option Thrown) : ∃ left : List Call, left.all Call.idle ∧
    Runs pool ((pool.allocate thrown).1.withCalls (pool.calls ++ left)) := by
  have started : Runs pool (pool.withCalls (pool.calls ++ [⟨none, .popping⟩])) := @Runs.one _ _ (.thread .allocate) rfl
  rcases runs_allocate pool pool.calls none thrown with ⟨slot, popped, ends, run⟩ | ⟨-, left, idle, run⟩
  · have passed : popped.counted.turn true (.creating slot) = some (popped.counted, .returned (.object slot)) := rfl
    rw [ends]
    exact ⟨_, rfl, (started.trans run).trans (.one (event_turn passed))⟩
  · exact ⟨left, idle, started.trans run⟩

/-- `pre_allocate` gives back what it got, and the next round begins. -/
theorem runs_round {popped : ObjectPool} (calls : List Call) (n slot : Nat) :
    Runs (popped.counted.withCalls (calls ++ [⟨some n, .creating slot⟩]))
      ((deallocate { counted popped with owned := slot :: popped.owned } slot).withCalls
        (calls ++ [resume (some n) (.returned .done)])) := by
  have passed : popped.counted.turn true (.creating slot) = some (popped.counted, .returned (.object slot)) := rfl
  have destroyed : popped.counted.turn true (.destroying slot) = some (popped.counted, .pushing slot) := rfl
  have pushed : popped.counted.turn true (.pushing slot) = some (popped.counted.pushFree slot, .uncounting) := rfl
  have uncounted : (popped.counted.pushFree slot).turn true .uncounting =
      some ({ popped.counted.pushFree slot with allocated := popped.counted.allocated - 1 }, .returned .done) := rfl
  have kept : handedOver (resume (some n) (.returned .done)) = [] := by
    cases n <;> rfl
  have lent := (runs_turn calls (some n) passed rfl).trans (runs_turn calls (some n) destroyed rfl)
  have back := lent.trans (runs_turn calls (some n) pushed rfl)
  have erased : (slot :: popped.owned).erase slot = popped.owned := List.erase_cons_head ..
  rw [deallocate, erased]
  exact back.trans (runs_turn calls (some n) uncounted kept)

theorem preAllocate_round {thrown : Nat → Option Thrown} {n slot : Nat} {pool allocated : ObjectPool}
    (ends : pool.allocate (thrown n) = (allocated, .object slot)) :
    preAllocate thrown (n + 1) pool = preAllocate thrown n (allocated.deallocate slot) := by
  rw [preAllocate, ends]

theorem preAllocate_broken {thrown : Nat → Option Thrown} {n : Nat} {pool : ObjectPool}
    (fails : ∀ slot, (pool.allocate (thrown n)).2 ≠ .object slot) :
    preAllocate thrown (n + 1) pool = (pool.allocate (thrown n)).1 := by
  rw [preAllocate]
  rcases same : pool.allocate (thrown n) with ⟨allocated, _ | _ | _⟩
  · rw [same] at fails
    exact absurd rfl (fails _)
  · rfl
  · rfl

theorem preAllocate_alone (thrown : Nat → Option Thrown) (count : Nat) (pool : ObjectPool) :
    ∃ left : List Call, left.all Call.idle ∧
      Runs pool ((preAllocate thrown count pool).withCalls (pool.calls ++ left)) := by
  have rounds (n : Nat) (calls : List Call) (pool : ObjectPool) : ∃ left : List Call, left.all Call.idle ∧
      Runs (pool.withCalls (calls ++ [⟨some n, .popping⟩]))
        ((preAllocate thrown (n + 1) pool).withCalls (calls ++ left)) := by
    induction n generalizing pool with
    | zero =>
        rcases runs_allocate pool calls (some 0) (thrown 0) with ⟨slot, popped, ends, run⟩ | ⟨fails, left, idle, run⟩
        · rw [preAllocate_round ends]
          exact ⟨_, rfl, run.trans (runs_round calls 0 slot)⟩
        · rw [preAllocate_broken fails]
          exact ⟨left, idle, run⟩
    | succ n ih =>
        rcases runs_allocate pool calls (some (n + 1)) (thrown (n + 1)) with
          ⟨slot, popped, ends, run⟩ | ⟨fails, left, idle, run⟩
        · rw [preAllocate_round ends]
          obtain ⟨left, idle, rest⟩ := ih (deallocate { counted popped with owned := slot :: popped.owned } slot)
          exact ⟨left, idle, (run.trans (runs_round calls (n + 1) slot)).trans rest⟩
        · rw [preAllocate_broken fails]
          exact ⟨left, idle, run⟩
  cases count with
  | zero => exact ⟨_, rfl, @Runs.one _ _ (.thread (.preAllocate 0)) rfl⟩
  | succ n =>
      obtain ⟨left, idle, run⟩ := rounds n pool.calls pool
      exact ⟨left, idle, (@Runs.one pool _ (.thread (.preAllocate (n + 1))) rfl).trans run⟩

end ObjectPool

end ServerFramework.Base
