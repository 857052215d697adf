import Mathlib.Data.List.Perm.Basic
import Mathlib.Data.List.Nodup

namespace ServerFramework.Library

variable {α : Type*} (p : α → Bool)

def frontFirst (xs : List α) : List α := xs.filter p ++ xs.filter fun x => !p x

theorem frontFirst_perm (xs : List α) : (frontFirst p xs).Perm xs := List.filter_append_perm p xs

variable {p}

theorem frontFirst_behind {xs : List α} {x : α} (second : p x = false) :
    frontFirst p (xs ++ [x]) = frontFirst p xs ++ [x] := by
  simp [frontFirst, second]

theorem frontFirst_between {xs : List α} {x : α} (first : p x = true) :
    frontFirst p (xs ++ [x]) = (frontFirst p xs).takeWhile p ++ x :: (frontFirst p xs).dropWhile p := by
  have front : ∀ y ∈ xs.filter p, p y = true := fun y member => (List.mem_filter.mp member).2
  have behind : ∀ y ∈ xs.filter fun x => !p x, p y ≠ true := by
    intro y member
    simpa using (List.mem_filter.mp member).2
  have stops : (xs.filter fun x => !p x).takeWhile p = [] := by
    cases rest : xs.filter fun x => !p x with
    | nil => rfl
    | cons y ys => exact List.takeWhile_cons_of_neg (behind y (by simp [rest]))
  have keeps : (xs.filter fun x => !p x).dropWhile p = xs.filter fun x => !p x := by
    have whole := List.takeWhile_append_dropWhile (p := p) (l := xs.filter fun x => !p x)
    rwa [stops, List.nil_append] at whole
  rw [frontFirst, frontFirst, List.takeWhile_append_of_pos front, List.dropWhile_append_of_pos front, stops, keeps]
  simp [first]

/-- Whoever is taken is the earliest of its class, and of the second class only when nobody of the first is there. -/
theorem frontFirst_cons {xs rest : List α} {x : α} (front : frontFirst p xs = x :: rest) :
    (∃ before after, xs = before ++ x :: after ∧ (∀ y ∈ before, p y ≠ p x) ∧ rest = frontFirst p (before ++ after)) ∧
    (p x = false → ∀ y ∈ xs, p y = false) := by
  cases here : xs.filter p with
  | nil =>
      have nobody : ∀ y ∈ xs, p y = false := by simpa [List.filter_eq_nil_iff] using here
      have same : xs = x :: rest := by
        rw [frontFirst, here, List.nil_append] at front
        rw [← front]
        exact (List.filter_eq_self.mpr fun y member => by simp [nobody y member]).symm
      refine ⟨⟨[], rest, same, nofun, ?_⟩, fun _ => nobody⟩
      have later : ∀ y ∈ rest, p y = false := fun y member => nobody y (by simp [same, member])
      have none_first : rest.filter p = [] := List.filter_eq_nil_iff.mpr fun y member => by simp [later y member]
      rw [List.nil_append, frontFirst, none_first, List.nil_append]
      exact (List.filter_eq_self.mpr fun y member => by simp [later y member]).symm
  | cons y others =>
      rw [frontFirst, here, List.cons_append, List.cons.injEq] at front
      obtain ⟨rfl, rfl⟩ := front
      have first : p y = true := (List.mem_filter.mp (here ▸ List.mem_cons_self)).2
      obtain ⟨before, after, rfl, second, -, rfl⟩ := List.filter_eq_cons_iff.mp here
      refine ⟨⟨before, after, rfl, ?_, ?_⟩, fun contrary => absurd first (by simp [contrary])⟩
      · intro z member same
        exact second z member (same.trans first)
      · have none_first : before.filter p = [] := List.filter_eq_nil_iff.mpr second
        simp [frontFirst, none_first, first]

theorem sublist_eq_filter [DecidableEq α] {kept all : List α} (sublist : kept.Sublist all) (nodup : all.Nodup) :
    kept = all.filter (· ∈ kept) := by
  induction sublist with
  | slnil => rfl
  | @cons kept all x sublist ih =>
      obtain ⟨absent, nodup⟩ := List.nodup_cons.mp nodup
      have outside : x ∉ kept := fun member => absent (sublist.subset member)
      rw [List.filter_cons_of_neg (by simpa using outside)]
      exact ih nodup
  | @cons_cons kept all x sublist ih =>
      obtain ⟨absent, nodup⟩ := List.nodup_cons.mp nodup
      have others : ∀ y ∈ all, decide (y ∈ x :: kept) = decide (y ∈ kept) := by
        intro y member
        have other : y ≠ x := by
          rintro rfl
          exact absent member
        simp [other]
      rw [List.filter_cons_of_pos (by simp), List.filter_congr others, ← ih nodup]

end ServerFramework.Library
