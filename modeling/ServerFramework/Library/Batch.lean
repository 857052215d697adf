import Mathlib.Data.List.Perm.Basic

namespace ServerFramework.Library

structure Batch (α : Type*) where
  done : List α
  current : Option α
  pending : List α

namespace Batch

variable {α : Type*}

def all (batch : Batch α) : List α := batch.done ++ (batch.current.toList ++ batch.pending)

def begun (batch : Batch α) : List α := batch.done ++ batch.current.toList

theorem all_eq (batch : Batch α) : batch.all = batch.begun ++ batch.pending :=
  (List.append_assoc ..).symm

def Spares (throws : α → Prop) (keeps : α → Bool) (items : List α) : Prop :=
  (∀ t ∈ items.dropLast, ¬ throws t) ∧ ∀ t ∈ items.getLast?, throws t → keeps t = false

def Over (batch : Batch α) (throws : α → Prop) : Prop :=
  batch.current = none ∧ batch.pending = [] ∨ ∃ t, batch.current = some t ∧ throws t

theorem complete_iff {batch : Batch α} {keeps : α → Bool} {due : List α} (perm : batch.all.Perm due) :
    batch.begun.Perm due ∧ (batch.done.filter keeps).Perm (due.filter keeps) ↔
      batch.pending = [] ∧ ∀ t ∈ batch.current, keeps t = false := by
  constructor
  · rintro ⟨begun, kept⟩
    have none_left : batch.pending = [] := by
      have length := begun.length_eq.trans perm.length_eq.symm
      rw [all_eq, List.length_append] at length
      exact List.length_eq_zero_iff.mp (by omega)
    refine ⟨none_left, ?_⟩
    intro t current
    have length := kept.length_eq.trans (perm.filter keeps).length_eq.symm
    rw [all, none_left, current, List.append_nil, Option.toList_some, List.filter_append, List.length_append] at length
    cases keep : keeps t with
    | false => rfl
    | true => simp [keep] at length
  · rintro ⟨none_left, dropped⟩
    rw [all_eq, none_left, List.append_nil] at perm
    refine ⟨perm, ?_⟩
    have skipped : batch.current.toList.filter keeps = [] := by
      cases current : batch.current with
      | none => rfl
      | some t => simp [dropped t current]
    have kept := perm.filter keeps
    rwa [begun, List.filter_append, skipped, List.append_nil] at kept

theorem spares_iff {throws : α → Prop} {keeps : α → Bool} {batch : Batch α} (calm : ∀ t ∈ batch.done, ¬ throws t)
    (ends : batch.Over throws) :
    Spares throws keeps batch.all ↔ batch.pending = [] ∧ ∀ t ∈ batch.current, keeps t = false := by
  obtain ⟨done, current, pending⟩ := batch
  rcases ends with ⟨rfl, rfl⟩ | ⟨t, rfl, thrown⟩
  · have quiet : Spares throws keeps done := by
      refine ⟨fun t member => calm t (List.dropLast_subset done member), ?_⟩
      exact fun t last throws => absurd throws (calm t (List.mem_of_mem_getLast? last))
    simpa [all] using quiet
  · cases pending with
    | nil =>
        simp only [Spares, all, Option.toList_some, List.append_nil, List.dropLast_concat, List.getLast?_concat,
          Option.mem_some_iff, forall_eq', thrown, forall_const, true_and]
        exact and_iff_right calm
    | cons next pending =>
        have early : t ∈ (done ++ t :: next :: pending).dropLast := by simp
        constructor
        · exact fun spares => absurd thrown (spares.1 t early)
        · exact fun impossible => absurd impossible.1 (List.cons_ne_nil _ _)

/-! ## What has been begun and kept so far -/

structure Accounts (throws : α → Prop) (keeps : α → Bool) (items : List α) (batch : Batch α)
    (begun kept : List α) : Prop where
  all : batch.all = items
  calm : ∀ t ∈ batch.done, ¬ throws t
  begun : begun = batch.begun
  kept : kept = batch.done.filter keeps

variable {throws : α → Prop} {keeps : α → Bool} {items begun kept done pending due : List α} {batch : Batch α} {t : α}

theorem accounts_start (items : List α) : Accounts throws keeps items ⟨[], none, items⟩ [] [] :=
  ⟨rfl, fun _ member => absurd member List.not_mem_nil, rfl, rfl⟩

theorem Accounts.begin (accounts : Accounts throws keeps items ⟨done, none, t :: pending⟩ begun kept) :
    Accounts throws keeps items ⟨done, some t, pending⟩ (begun ++ [t]) kept where
  all := accounts.all
  calm := accounts.calm
  begun := by simp [accounts.begun, Batch.begun]
  kept := accounts.kept

theorem Accounts.finish (accounts : Accounts throws keeps items ⟨done, some t, pending⟩ begun kept)
    (calm : ¬ throws t) :
    Accounts throws keeps items ⟨done ++ [t], none, pending⟩ begun (kept ++ if keeps t then [t] else []) where
  all := by simpa [Batch.all] using accounts.all
  calm u member := by
    rcases List.mem_append.mp member with before | last
    · exact accounts.calm u before
    · rwa [List.mem_singleton.mp last]
  begun := by simp [accounts.begun, Batch.begun]
  kept := by simp [accounts.kept, List.filter_append, List.filter_cons]

theorem Accounts.complete_iff (accounts : Accounts throws keeps items batch begun kept) (ends : batch.Over throws)
    (perm : items.Perm due) :
    begun.Perm due ∧ kept.Perm (due.filter keeps) ↔ Spares throws keeps items := by
  rw [accounts.begun, accounts.kept, Batch.complete_iff (accounts.all ▸ perm), ← spares_iff accounts.calm ends,
    accounts.all]

end Batch

end ServerFramework.Library
