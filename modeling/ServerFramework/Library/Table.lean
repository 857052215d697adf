import Mathlib.Data.List.AList

namespace ServerFramework.Library

variable {κ α : Type*} [DecidableEq κ]

theorem dlookup_kreplace (k a : κ) (b : α) (entries : List (Sigma fun _ : κ => α)) :
    (entries.kreplace a b).dlookup k = if k = a then (entries.dlookup k).map fun _ => b else entries.dlookup k := by
  induction entries with
  | nil => simp [List.kreplace]
  | cons entry entries ih =>
      obtain ⟨c, x⟩ := entry
      by_cases here : a = c
      · subst here
        rw [List.kreplace, List.lookmap_cons_some _ _ (dif_pos rfl)]
        by_cases same : k = a
        · subst same
          simp
        · rw [List.dlookup_cons_ne _ _ same, List.dlookup_cons_ne _ _ same, if_neg same]
      · rw [List.kreplace, List.lookmap_cons_none _ _ (dif_neg here)]
        by_cases first : k = c
        · subst first
          simp [Ne.symm here]
        · rw [List.dlookup_cons_ne _ _ first, List.dlookup_cons_ne _ _ first]
          exact ih

theorem lookup_replace (k a : κ) (b : α) (table : AList fun _ : κ => α) :
    (table.replace a b).lookup k = if k = a then (table.lookup k).map fun _ => b else table.lookup k :=
  dlookup_kreplace k a b table.entries

theorem lookup_erase (k a : κ) (table : AList fun _ : κ => α) :
    (table.erase a).lookup k = if k = a then none else table.lookup k := by
  by_cases same : k = a
  · rw [if_pos same, same, AList.lookup_erase]
  · rw [if_neg same, AList.lookup_erase_ne same]

theorem lookup_insert (k a : κ) (b : α) (table : AList fun _ : κ => α) :
    (table.insert a b).lookup k = if k = a then some b else table.lookup k := by
  by_cases same : k = a
  · rw [if_pos same, same, AList.lookup_insert]
  · rw [if_neg same, AList.lookup_insert_ne same]

theorem lookup_of_sublist {smaller table : AList fun _ : κ => α}
    (sublist : smaller.entries.Sublist table.entries) {k : κ} {a : α} (found : smaller.lookup k = some a) :
    table.lookup k = some a :=
  AList.mem_lookup_iff.mpr (sublist.subset (AList.mem_lookup_iff.mp found))

theorem length_replace (a : κ) (b : α) (table : AList fun _ : κ => α) :
    (table.replace a b).entries.length = table.entries.length := List.length_lookmap ..

theorem length_insert_le (a : κ) (b : α) (table : AList fun _ : κ => α) :
    (table.insert a b).entries.length ≤ table.entries.length + 1 := by
  rw [AList.entries_insert, List.length_cons]
  exact Nat.succ_le_succ (List.kerase_sublist ..).length_le

/-! ## Lists of entries -/

section

variable {κ α β : Type*} [BEq κ] [LawfulBEq κ]

theorem lookup_eq_some_iff_mem {entries : List (κ × α)} (distinct : (entries.map Prod.fst).Nodup) {key : κ} {value : α} :
    entries.lookup key = some value ↔ (key, value) ∈ entries := by
  induction entries with
  | nil => simp
  | cons entry entries ih =>
      obtain ⟨front, first⟩ := entry
      rw [List.map_cons, List.nodup_cons] at distinct
      rw [List.lookup_cons, List.mem_cons, Prod.mk.injEq]
      by_cases same : key = front
      · subst same
        have absent : (key, value) ∉ entries := fun member => distinct.1 (List.mem_map.mpr ⟨_, member, rfl⟩)
        simp [absent, eq_comm]
      · simp [same, beq_false_of_ne same, ih distinct.2]

theorem lookup_perm {entries others : List (κ × α)} (distinct : (entries.map Prod.fst).Nodup)
    (same : entries.Perm others) (key : κ) : entries.lookup key = others.lookup key := by
  have distinct' : (others.map Prod.fst).Nodup := (same.map Prod.fst).nodup_iff.mp distinct
  apply Option.ext
  intro value
  rw [lookup_eq_some_iff_mem distinct, lookup_eq_some_iff_mem distinct']
  exact same.mem_iff

omit [LawfulBEq κ] in
theorem lookup_map (f : α → β) (entries : List (κ × α)) (key : κ) :
    (entries.map fun entry => (entry.1, f entry.2)).lookup key = (entries.lookup key).map f := by
  induction entries with
  | nil => rfl
  | cons entry entries ih =>
      rw [List.map_cons, List.lookup_cons, List.lookup_cons, ih]
      cases key == entry.1 with
      | false => rfl
      | true => rfl

end

end ServerFramework.Library
