import Mathlib.Order.Bounds.Basic
import Mathlib.Logic.Relation

namespace ServerFramework.Library

-- What an atomic variable holds, and what it held before. A relaxed load may return any of it, an exchange finds
-- the newest.
structure Atomic (α : Type*) where
  value : α
  past : List α := []
  deriving DecidableEq, Repr

namespace Atomic

variable {α : Type*}

def readAt (a : Atomic α) (back : Nat) : Option α := (a.value :: a.past)[back]?

def store (a : Atomic α) (value : α) : Atomic α := ⟨value, a.value :: a.past⟩

def Had (a : Atomic α) (seen : α) : Prop := seen ∈ a.value :: a.past

theorem readAt_had {a : Atomic α} {back : Nat} {seen : α} (read : a.readAt back = some seen) : a.Had seen :=
  List.mem_of_getElem? read

@[simp]
theorem store_value (a : Atomic α) (value : α) : (a.store value).value = value := rfl

/-- `while (value > expected && !compare_exchange_weak(expected, value)) {}` in a thread that is alone: an exchange
fails only spuriously. -/
def raise [LT α] [DecidableLT α] (value : α) : Nat → α → Atomic α → Atomic α
  | spurious, expected, a =>
      if expected < value then
        match spurious with
        | 0 => a.store value
        | n + 1 => raise value n a.value a
      else a

theorem raise_value [LinearOrder α] (value : α) (spurious : Nat) (a : Atomic α) :
    (a.raise value spurious a.value).value = max a.value value := by
  induction spurious with
  | zero =>
      rw [raise]
      split
      next below => exact (max_eq_right below.le).symm
      next above => exact (max_eq_left (not_lt.mp above)).symm
  | succ n ih =>
      rw [raise]
      split
      next => exact ih
      next above => exact (max_eq_left (not_lt.mp above)).symm

end Atomic

/-! ## Any number of threads that raise one variable -/

namespace LockFreeMax

variable {α : Type*}

inductive Phase (α : Type*)
  | outside
  | loading (value : α)
  | trying (value expected : α)
  | done (value : α)

structure State (α : Type*) where
  cell : Atomic α
  calls : List (Phase α)

def State.initial (value : α) : State α := ⟨⟨value, []⟩, []⟩

variable [LinearOrder α]

def Phase.test (value expected : α) : Phase α := if value > expected then .trying value expected else .done value

/-- What one atomic operation of a call does to the variable and to the call. -/
inductive Turn (cell : Atomic α) : Phase α → Atomic α → Phase α → Prop
  | stay (phase : Phase α) : Turn cell phase cell phase
  | start (value : α) : Turn cell .outside cell (.loading value)
  | load {value seen : α} (had : cell.Had seen) : Turn cell (.loading value) cell (.test value seen)
  | exchange {value : α} : Turn cell (.trying value cell.value) (cell.store value) (.done value)
  -- whatever the exchange has read: another value, or the one that was expected
  | fail {value expected seen : α} (had : cell.Had seen) : Turn cell (.trying value expected) cell (.test value seen)

inductive Step : State α → State α → Prop
  | enter {s : State α} : Step s ⟨s.cell, s.calls ++ [.outside]⟩
  | turn {s : State α} {i : Nat} {phase later : Phase α} {cell : Atomic α} (here : s.calls[i]? = some phase)
      (turns : Turn s.cell phase cell later) : Step s ⟨cell, s.calls.set i later⟩

/-- No copy is larger than what is stored, and a call that tries has a value larger than its copy. -/
structure Good (initial : α) (s : State α) : Prop where
  newest : ∀ seen, s.cell.Had seen → seen ≤ s.cell.value
  larger : ∀ value expected, .trying value expected ∈ s.calls → expected < value
  greatest : IsGreatest {value | value = initial ∨ .done value ∈ s.calls} s.cell.value

theorem initial_good (value : α) : Good value (State.initial value) := by
  refine ⟨?_, ?_, .inl rfl, ?_⟩
  · intro seen had
    rw [List.mem_singleton.mp had]
  · intro value expected member
    exact absurd member List.not_mem_nil
  · rintro other (rfl | member)
    · exact le_rfl
    · exact absurd member List.not_mem_nil

variable {initial : α} {s t : State α}

theorem Good.settle (good : Good initial s) {i : Nat} {phase later : Phase α} (here : s.calls[i]? = some phase)
    (pending : ∀ value, phase = .done value → later = .done value)
    (larger : ∀ value expected, later = .trying value expected → expected < value)
    (reached : ∀ value, later = .done value → value ≤ s.cell.value) : Good initial ⟨s.cell, s.calls.set i later⟩ := by
  refine ⟨good.newest, ?_, ?_, ?_⟩
  · intro value expected member
    rcases List.mem_or_eq_of_mem_set member with old | new
    · exact good.larger value expected old
    · exact larger value expected new.symm
  · rcases good.greatest.1 with first | published
    · exact .inl first
    · right
      obtain ⟨j, there⟩ := List.mem_iff_getElem?.mp published
      by_cases same : i = j
      · subst same
        rw [pending _ (Option.some.inj (here.symm.trans there))]
        exact List.mem_set (List.getElem?_eq_some_iff.mp here).1 _
      · exact List.mem_of_getElem? ((List.getElem?_set_ne same).trans there)
  · rintro value (rfl | member)
    · exact good.greatest.2 (.inl rfl)
    · rcases List.mem_or_eq_of_mem_set member with old | new
      · exact good.greatest.2 (.inr old)
      · exact reached value new.symm

theorem Good.test (good : Good initial s) {i : Nat} {phase : Phase α} {value seen : α} (here : s.calls[i]? = some phase)
    (pending : ∀ value, phase ≠ .done value) (had : s.cell.Had seen) :
    Good initial ⟨s.cell, s.calls.set i (.test value seen)⟩ := by
  unfold Phase.test
  split
  next above =>
    apply good.settle here
    · intro other done
      exact absurd done (pending other)
    · rintro other expected ⟨⟩
      exact above
    · intro other absent
      cases absent
  next reached =>
    apply good.settle here
    · intro other done
      exact absurd done (pending other)
    · intro other expected absent
      cases absent
    · rintro other ⟨⟩
      exact (not_lt.mp reached).trans (good.newest seen had)

theorem Good.exchange (good : Good initial s) {i : Nat} {value : α}
    (here : s.calls[i]? = some (.trying value s.cell.value)) :
    Good initial ⟨s.cell.store value, s.calls.set i (.done value)⟩ := by
  have above := good.larger value s.cell.value (List.mem_of_getElem? here)
  have inside := (List.getElem?_eq_some_iff.mp here).1
  refine ⟨?_, ?_, .inr (List.mem_set inside _), ?_⟩
  · intro seen had
    rcases List.mem_cons.mp had with rfl | old
    · exact le_rfl
    · exact (good.newest seen old).trans above.le
  · intro other expected member
    rcases List.mem_or_eq_of_mem_set member with old | new
    · exact good.larger other expected old
    · cases new
  · rintro other (rfl | member)
    · exact (good.greatest.2 (.inl rfl)).trans above.le
    · rcases List.mem_or_eq_of_mem_set member with old | new
      · exact (good.greatest.2 (.inr old)).trans above.le
      · cases new
        exact le_rfl

theorem turn_good {i : Nat} {phase later : Phase α} {cell : Atomic α} (good : Good initial s)
    (here : s.calls[i]? = some phase) (turns : Turn s.cell phase cell later) :
    Good initial ⟨cell, s.calls.set i later⟩ ∧ s.cell.value ≤ cell.value := by
  cases turns with
  | stay =>
      refine ⟨good.settle here (fun _ done => done) ?_ ?_, le_rfl⟩
      · rintro value expected rfl
        exact good.larger value expected (List.mem_of_getElem? here)
      · rintro value rfl
        exact good.greatest.2 (.inr (List.mem_of_getElem? here))
  | start value =>
      refine ⟨good.settle here ?_ ?_ ?_, le_rfl⟩
      · intro other absent
        cases absent
      · intro other expected absent
        cases absent
      · intro other absent
        cases absent
  | load had =>
      refine ⟨good.test here ?_ had, le_rfl⟩
      intro other absent
      cases absent
  | exchange => exact ⟨good.exchange here, (good.larger _ _ (List.mem_of_getElem? here)).le⟩
  | fail had =>
      refine ⟨good.test here ?_ had, le_rfl⟩
      intro other absent
      cases absent

theorem enter_good (good : Good initial s) : Good initial ⟨s.cell, s.calls ++ [.outside]⟩ := by
  refine ⟨good.newest, ?_, ?_, ?_⟩
  · intro value expected member
    rcases List.mem_append.mp member with old | new
    · exact good.larger value expected old
    · cases List.mem_singleton.mp new
  · rcases good.greatest.1 with first | published
    · exact .inl first
    · exact .inr (List.mem_append_left _ published)
  · rintro value (rfl | member)
    · exact good.greatest.2 (.inl rfl)
    · rcases List.mem_append.mp member with old | new
      · exact good.greatest.2 (.inr old)
      · cases List.mem_singleton.mp new

theorem step_good (step : Step s t) (good : Good initial s) : Good initial t ∧ s.cell.value ≤ t.cell.value := by
  cases step with
  | enter => exact ⟨enter_good good, le_rfl⟩
  | turn here turns => exact turn_good good here turns

theorem run_good (run : Relation.ReflTransGen Step s t) (good : Good initial s) :
    Good initial t ∧ s.cell.value ≤ t.cell.value := by
  induction run with
  | refl => exact ⟨good, le_rfl⟩
  | tail _ step ih =>
      obtain ⟨middle, grown⟩ := ih
      obtain ⟨after, more⟩ := step_good step middle
      exact ⟨after, grown.trans more⟩

end LockFreeMax

end ServerFramework.Library
