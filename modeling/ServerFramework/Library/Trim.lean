import Mathlib.Data.List.DropRight

namespace ServerFramework.Library

variable {α : Type*} {p : α → Bool} {xs ys zs : List α} {c : α}

/-! ## Cutting a list at its ends -/

theorem takeWhile_stop (inside : ∀ x ∈ xs, p x = true) (stop : p c = false) : (xs ++ c :: ys).takeWhile p = xs := by
  rw [List.takeWhile_append_of_pos inside, List.takeWhile_cons_of_neg (by simp [stop]), List.append_nil]

theorem takeWhile_all (inside : ∀ x ∈ xs, p x = true) : xs.takeWhile p = xs :=
  List.takeWhile_eq_self_iff.mpr inside

theorem dropWhile_stop (stop : p c = false) : (xs ++ c :: ys).dropWhile p = xs.dropWhile p ++ c :: ys := by
  induction xs with
  | nil => simp [stop]
  | cons x xs ih =>
      cases skip : p x with
      | true => simp [skip, ih]
      | false => simp [skip]

theorem rdropWhile_stop (stop : p c = false) : (xs ++ c :: ys).rdropWhile p = xs ++ c :: ys.rdropWhile p := by
  rw [List.rdropWhile, List.reverse_append, List.reverse_cons, List.append_assoc, List.singleton_append,
    dropWhile_stop stop]
  simp [List.rdropWhile]

theorem rdropWhile_append_all (behind : ∀ y ∈ ys, p y = true) : (xs ++ ys).rdropWhile p = xs.rdropWhile p := by
  rw [List.rdropWhile, List.reverse_append, List.dropWhile_append_of_pos (by simpa using behind), List.rdropWhile]

structure Trimmed (p : α → Bool) (xs : List α) : Prop where
  first : ∀ x ∈ xs.head?, p x = false
  last : ∀ x ∈ xs.getLast?, p x = false

theorem Trimmed.rdropWhile (trimmed : Trimmed p xs) : xs.rdropWhile p = xs := by
  rcases List.eq_nil_or_concat xs with rfl | ⟨rest, x, rfl⟩
  · rfl
  · rw [List.concat_eq_append] at trimmed ⊢
    exact List.rdropWhile_concat_neg _ _ _ (by simp [trimmed.last x (by simp)])

theorem Trimmed.trim (trimmed : Trimmed p ys) (before : ∀ x ∈ xs, p x = true) (behind : ∀ z ∈ zs, p z = true) :
    ((xs ++ (ys ++ zs)).dropWhile p).rdropWhile p = ys := by
  rw [List.dropWhile_append_of_pos before]
  cases ys with
  | nil =>
      rw [List.nil_append, List.dropWhile_eq_nil_iff.mpr behind]
      rfl
  | cons y ys =>
      rw [List.cons_append, List.dropWhile_cons_of_neg (by simp [trimmed.first y rfl]), ← List.cons_append,
        rdropWhile_append_all behind, trimmed.rdropWhile]

end ServerFramework.Library
