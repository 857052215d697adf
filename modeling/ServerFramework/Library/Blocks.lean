import Mathlib.Data.Set.Insert
import Mathlib.Data.Set.Pairwise.Basic

namespace ServerFramework.Library

/-! ## Blocks of memory -/

structure Block (β : Type*) where
  base : Nat
  bytes : List β

namespace Block

variable {β : Type*}

def limit (block : Block β) : Nat := block.base + block.bytes.length

def Apart (block other : Block β) : Prop :=
  block.base ≠ other.base ∧ (block.limit ≤ other.base ∨ other.limit ≤ block.base)

theorem Apart.symm {block other : Block β} (apart : block.Apart other) : other.Apart block :=
  ⟨apart.1.symm, apart.2.symm⟩

theorem Apart.moved {block other moved : Block β} (apart : block.Apart other) (place : moved.base = other.base)
    (size : moved.bytes.length = other.bytes.length) : block.Apart moved := by
  rw [Apart, limit, limit, place, size]
  exact apart

end Block

/-- What the clients of an allocator hold, and what is in it. -/
abbrev Blocks (β : Type*) := Set (Block β)

namespace Blocks

variable {β : Type*}

inductive Event (β : Type*)
  | give (block : Block β)
  | write (block : Block β)
  | takeBack (base : Nat)

def Event.base : Event β → Nat
  | .give block => block.base
  | .write block => block.base
  | .takeBack base => base

def Event.leaves : Event β → Option (Block β)
  | .give block => some block
  | .write block => some block
  | .takeBack _ => none

def without (held : Blocks β) (base : Nat) : Blocks β := {block ∈ held | block.base ≠ base}

/-- An allocator may give any block that is apart from those it has given. -/
inductive Step : Blocks β → Event β → Blocks β → Prop
  | give {held : Blocks β} {block : Block β} (room : ∀ other ∈ held, other.Apart block) :
      Step held (.give block) (insert block held)
  | write {held : Blocks β} {old block : Block β} (member : old ∈ held) (place : block.base = old.base)
      (size : block.bytes.length = old.bytes.length) :
      Step held (.write block) (insert block (held.without block.base))
  | takeBack {held : Blocks β} {old : Block β} (member : old ∈ held) :
      Step held (.takeBack old.base) (held.without old.base)

/-- The newest event comes first. -/
inductive Reaches : List (Event β) → Blocks β → Prop
  | start : Reaches [] ∅
  | step {log : List (Event β)} {held next : Blocks β} {event : Event β} (before : Reaches log held)
      (step : Step held event next) : Reaches (event :: log) next

def Follows (held : Blocks β) : Option (Event β) → Blocks β → Prop
  | none, next => next = held
  | some event, next => Step held event next

/-! ## Blocks stay apart -/

theorem without_pairwise {held : Blocks β} (apart : held.Pairwise Block.Apart) (base : Nat) :
    (held.without base).Pairwise Block.Apart :=
  apart.mono fun _ member => member.1

theorem insert_pairwise {held : Blocks β} {block : Block β} (apart : held.Pairwise Block.Apart)
    (room : ∀ other ∈ held, other.Apart block) : (insert block held).Pairwise Block.Apart :=
  apart.insert fun other member _ => ⟨(room other member).symm, room other member⟩

theorem Step.apart {held next : Blocks β} {event : Event β} (step : Step held event next)
    (apart : held.Pairwise Block.Apart) : next.Pairwise Block.Apart := by
  cases step with
  | give room => exact insert_pairwise apart room
  | @write old block member place size =>
      refine insert_pairwise (without_pairwise apart _) ?_
      rintro other ⟨among, elsewhere⟩
      have differs : other ≠ old := fun same => elsewhere (by rw [same, place])
      exact (apart among member differs).moved place size
  | takeBack member => exact without_pairwise apart _

theorem Reaches.apart {log : List (Event β)} {held : Blocks β} (reaches : Reaches log held) :
    held.Pairwise Block.Apart := by
  induction reaches with
  | start => exact Set.pairwise_empty _
  | step _ step ih => exact step.apart ih

theorem Reaches.follows {log : List (Event β)} {held next : Blocks β} {event : Option (Event β)}
    (reaches : Reaches log held) (follows : Follows held event next) : Reaches (event.toList ++ log) next := by
  cases event with
  | none =>
      obtain rfl : next = held := follows
      exact reaches
  | some event => exact reaches.step follows

/-! ## What is in a block -/

theorem Step.mem_iff {held next : Blocks β} {event : Event β} (step : Step held event next) (block : Block β) :
    block ∈ next ↔ event.leaves = some block ∨ (block ∈ held ∧ block.base ≠ event.base) := by
  cases step with
  | give room =>
      simp only [Set.mem_insert_iff, Event.leaves, Event.base, Option.some.injEq, eq_comm (a := block)]
      exact or_congr_right ⟨fun member => ⟨member, (room block member).1⟩, And.left⟩
  | write member place size =>
      simp only [Set.mem_insert_iff, Event.leaves, Event.base, Option.some.injEq, eq_comm (a := block), without,
        Set.mem_ofPred_eq]
  | takeBack member => simp [Event.leaves, Event.base, without]

/-- A block is held, with these contents, when the newest event at its address has left it so. -/
theorem Reaches.mem_iff {log : List (Event β)} {held : Blocks β} (reaches : Reaches log held) (block : Block β) :
    block ∈ held ↔ ((log.find? fun event => event.base = block.base).bind Event.leaves) = some block := by
  induction reaches with
  | start => simp
  | @step log held next event _ step ih =>
      have places : ∀ left, event.leaves = some left → left.base = event.base := by
        intro left leaves
        cases event <;> cases leaves <;> rfl
      rw [step.mem_iff, List.find?_cons]
      by_cases here : event.base = block.base
      · simp [here]
      · have elsewhere : event.leaves ≠ some block := fun leaves => here (places block leaves).symm
        simp [here, Ne.symm here, elsewhere, ih]

/-! ## Several allocators beside one another -/

theorem without_union {others held : Blocks β} {base : Nat} (elsewhere : ∀ other ∈ others, other.base ≠ base) :
    without (others ∪ held) base = others ∪ held.without base := by
  ext block
  simp only [without, Set.mem_ofPred_eq, Set.mem_union]
  constructor
  · rintro ⟨member | member, differs⟩
    · exact .inl member
    · exact .inr ⟨member, differs⟩
  · rintro (member | ⟨member, differs⟩)
    · exact ⟨.inl member, elsewhere block member⟩
    · exact ⟨.inr member, differs⟩

/-- What one allocator does is a step of all of them together when the others' blocks are apart from its own. -/
theorem Step.frame {others held next : Blocks β} {event : Event β} (step : Step held event next)
    (before : ∀ other ∈ others, ∀ block ∈ held, other.Apart block)
    (after : ∀ other ∈ others, ∀ block ∈ next, other.Apart block) : Step (others ∪ held) event (others ∪ next) := by
  cases step with
  | give room =>
      rw [Set.union_insert]
      refine .give fun other member => ?_
      rcases member with foreign | own
      · exact after other foreign _ (Set.mem_insert _ _)
      · exact room other own
  | write member place size =>
      have elsewhere := fun other foreign => (after other foreign _ (Set.mem_insert _ _)).1
      rw [Set.union_insert, ← without_union elsewhere]
      exact .write (Set.mem_union_right _ member) place size
  | takeBack member =>
      rw [← without_union fun other foreign => (before other foreign _ member).1]
      exact .takeBack (Set.mem_union_right _ member)

theorem Follows.frame {others held next : Blocks β} {event : Option (Event β)} (follows : Follows held event next)
    (before : ∀ other ∈ others, ∀ block ∈ held, other.Apart block)
    (after : ∀ other ∈ others, ∀ block ∈ next, other.Apart block) :
    Follows (others ∪ held) event (others ∪ next) := by
  cases event with
  | none => exact congrArg (others ∪ ·) (show next = held from follows)
  | some event => exact Step.frame follows before after

end Blocks

end ServerFramework.Library
