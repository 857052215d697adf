import Mathlib.Data.List.Nodup
import ServerFramework.Base.Config

namespace ServerFramework.Base

namespace ConfigNode

variable {δ : Type}

theorem lookup_assign (key other : Text) (child : ConfigNode δ) (children : List (Text × ConfigNode δ)) :
    (assign key child children).lookup other = if other = key then some child else children.lookup other := by
  induction children with
  | nil =>
      by_cases same : other = key
      · simp [assign, same]
      · simp [assign, same]
  | cons entry rest ih =>
      obtain ⟨front, node⟩ := entry
      rw [assign]
      by_cases found : front = key
      · subst found
        by_cases same : other = front
        · simp [same]
        · simp [same, List.lookup_cons, beq_eq_false_iff_ne.mpr same]
      · rw [if_neg found, List.lookup_cons, List.lookup_cons, ih]
        by_cases here : other = front
        · simp [here, found]
        · simp [beq_eq_false_iff_ne.mpr here]

theorem assign_assign (key : Text) (first second : ConfigNode δ) (children : List (Text × ConfigNode δ)) :
    assign key second (assign key first children) = assign key second children := by
  induction children with
  | nil => simp [assign]
  | cons entry rest ih =>
      obtain ⟨front, node⟩ := entry
      by_cases found : front = key
      · simp [assign, found]
      · simp [assign, found, ih]

@[simp] theorem getKey_putChild (key other : Text) (child node : ConfigNode δ) :
    (putChild key child node).getKey other = if other = key then some child else node.getKey other :=
  lookup_assign key other child node.children

@[simp] theorem putChild_putChild (key : Text) (first second node : ConfigNode δ) :
    putChild key second (putChild key first node) = putChild key second node :=
  congrArg (mk node.value) (assign_assign key first second node.children)

theorem assign_keys (key : Text) (node : ConfigNode δ) (children : List (Text × ConfigNode δ)) :
    (assign key node children).map Prod.fst = children.map Prod.fst ∨
      key ∉ children.map Prod.fst ∧ (assign key node children).map Prod.fst = children.map Prod.fst ++ [key] := by
  induction children with
  | nil => exact .inr ⟨List.not_mem_nil, rfl⟩
  | cons entry children ih =>
      obtain ⟨other, child⟩ := entry
      rw [assign]
      split
      · rename_i same
        exact .inl (by rw [List.map_cons, List.map_cons, same])
      · rename_i different
        rcases ih with kept | ⟨fresh, added⟩
        · exact .inl (by rw [List.map_cons, List.map_cons, kept])
        · refine .inr ⟨List.not_mem_cons_of_ne_of_not_mem (Ne.symm different) fresh, ?_⟩
          rw [List.map_cons, List.map_cons, added, List.cons_append]

theorem nodup_putChild (key : Text) (child : ConfigNode δ) {node : ConfigNode δ}
    (distinct : (node.children.map Prod.fst).Nodup) : ((putChild key child node).children.map Prod.fst).Nodup := by
  change ((assign key child node.children).map Prod.fst).Nodup
  rcases assign_keys key child node.children with kept | ⟨fresh, added⟩
  · rw [kept]
    exact distinct
  · rw [added]
    apply List.Nodup.append distinct (List.nodup_singleton key)
    rw [List.disjoint_singleton]
    exact fresh

theorem follow_snoc (node : ConfigNode δ) (path : List Text) (key : Text) :
    node.follow (path ++ [key]) = (node.follow path).bind fun last => last.getKey key := by
  induction path generalizing node with
  | nil => cases found : node.getKey key <;> simp [follow, found]
  | cons front path ih =>
      cases found : node.getKey front with
      | none => simp [follow, found]
      | some child => simp [follow, found, ih]

theorem follow_modify (f : ConfigNode δ → ConfigNode δ) (path : List Text) (root : ConfigNode δ) :
    (root.modify f path).follow path = (root.follow path).map f := by
  induction path generalizing root with
  | nil => rfl
  | cons front path ih =>
      cases found : root.getKey front with
      | none => simp [modify, follow, found]
      | some child => simp [modify, follow, found, ih]

theorem modify_modify (f g : ConfigNode δ → ConfigNode δ) (path : List Text) (root : ConfigNode δ) :
    (root.modify f path).modify g path = root.modify (g ∘ f) path := by
  induction path generalizing root with
  | nil => rfl
  | cons front path ih =>
      cases found : root.getKey front with
      | none => simp [modify, found]
      | some child => simp [modify, found, ih]

theorem putChild_getKey {node child : ConfigNode δ} {key : Text} (found : node.getKey key = some child) :
    putChild key child node = node := by
  have unchanged (children : List (Text × ConfigNode δ)) (found : children.lookup key = some child) :
      assign key child children = children := by
    induction children with
    | nil => cases found
    | cons entry rest ih =>
        obtain ⟨front, below⟩ := entry
        rw [List.lookup_cons] at found
        by_cases same : front = key
        · subst same
          obtain rfl : below = child := by simpa using found
          simp [assign]
        · rw [beq_false_of_ne (Ne.symm same)] at found
          simp [assign, same, ih found]
  cases node with
  | mk value children => exact congrArg (mk value) (unchanged children found)

theorem modify_id (path : List Text) (root : ConfigNode δ) : root.modify id path = root := by
  induction path generalizing root with
  | nil => rfl
  | cons front path ih =>
      cases found : root.getKey front with
      | none => simp [modify, found]
      | some child => simp [modify, found, ih, putChild_getKey found]

theorem modify_child (g : ConfigNode δ → ConfigNode δ) (path : List Text) (key : Text)
    (child root : ConfigNode δ) :
    (root.modify (putChild key child) path).modify g (path ++ [key]) =
      root.modify (putChild key (g child)) path := by
  induction path generalizing root with
  | nil => simp [modify]
  | cons front path ih =>
      cases found : root.getKey front with
      | none => simp [modify, found]
      | some below => simp [modify, found, ih]

/-! ## Many children at once -/

def putAll : List (Text × ConfigNode δ) → ConfigNode δ → ConfigNode δ
  | [], node => node
  | (key, child) :: rest, node => putAll rest (putChild key child node)

@[simp] theorem putAll_append (front back : List (Text × ConfigNode δ)) (node : ConfigNode δ) :
    putAll (front ++ back) node = putAll back (putAll front node) := by
  induction front generalizing node with
  | nil => rfl
  | cons entry front ih => exact ih _

@[simp] theorem value_putAll (nodes : List (Text × ConfigNode δ)) (node : ConfigNode δ) :
    (putAll nodes node).value = node.value := by
  induction nodes generalizing node with
  | nil => rfl
  | cons entry nodes ih => exact ih _

theorem getKey_putAll (nodes : List (Text × ConfigNode δ)) (node : ConfigNode δ) (key : Text) :
    (putAll nodes node).getKey key = (nodes.reverse.lookup key).or (node.getKey key) := by
  induction nodes generalizing node with
  | nil => rfl
  | cons entry nodes ih =>
      obtain ⟨front, child⟩ := entry
      rw [putAll, ih, getKey_putChild, List.reverse_cons, List.lookup_append, Option.or_assoc]
      congr 1
      by_cases same : key = front
      · simp [same]
      · simp [same, List.lookup_cons, beq_false_of_ne same]

theorem nodup_putAll (nodes : List (Text × ConfigNode δ)) {node : ConfigNode δ}
    (distinct : (node.children.map Prod.fst).Nodup) : ((putAll nodes node).children.map Prod.fst).Nodup := by
  induction nodes generalizing node with
  | nil => exact distinct
  | cons entry nodes ih => exact ih (nodup_putChild _ _ distinct)

end ConfigNode

end ServerFramework.Base
