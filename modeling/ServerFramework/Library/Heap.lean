import Mathlib.Data.List.Basic
import Mathlib.Logic.Equiv.Basic
import Mathlib.Order.WithBot

namespace ServerFramework.Library.Heap

def parent (i : Nat) : Nat := (i - 1) / 2

theorem parent_lt {i : Nat} (positive : 0 < i) : parent i < i := by
  unfold parent
  omega

theorem parent_eq_iff {i j : Nat} (positive : 0 < j) : parent j = i ↔ j = 2 * i + 1 ∨ j = 2 * i + 2 := by
  unfold parent
  omega

/-- The positions on the way from `i` to the root. -/
inductive Above : Nat → Nat → Prop
  | parent {i : Nat} (positive : 0 < i) : Above (parent i) i
  | further {a i : Nat} (positive : 0 < i) (above : Above a (Heap.parent i)) : Above a i

theorem Above.lt {a i : Nat} (above : Above a i) : a < i := by
  induction above with
  | parent positive => exact parent_lt positive
  | further positive _ ih => exact ih.trans (parent_lt positive)

theorem Above.trans {a b i : Nat} (first : Above a b) (second : Above b i) : Above a i := by
  induction second with
  | parent positive => exact .further positive first
  | further positive _ ih => exact .further positive (ih first)

theorem exists_topmost {P : Nat → Prop} {i : Nat} (holds : P i) :
    ∃ top, (top = i ∨ Above top i) ∧ P top ∧ ∀ a, Above a top → ¬ P a := by
  induction i using Nat.strongRecOn with
  | ind i ih =>
      by_cases higher : ∃ a, Above a i ∧ P a
      · obtain ⟨a, above, found⟩ := higher
        obtain ⟨top, place, first, none_above⟩ := ih a above.lt found
        refine ⟨top, .inr ?_, first, none_above⟩
        rcases place with rfl | beyond
        · exact above
        · exact beyond.trans above
      · exact ⟨i, .inl rfl, holds, fun a above found => higher ⟨a, above, found⟩⟩

/-! ## Heap order of a ranking of positions -/

section Rankings

variable {β : Type*} [LinearOrder β]

def Ordered (rank : Nat → β) : Prop := ∀ i, rank (parent i) ≤ rank i

structure UpReady (rank : Nat → β) (i : Nat) : Prop where
  edges : ∀ j, j ≠ i → rank (parent j) ≤ rank j
  around : ∀ j, 0 < j → parent j = i → rank (parent i) ≤ rank j

structure DownReady (rank : Nat → β) (i : Nat) : Prop where
  edges : ∀ j, 0 < j → parent j ≠ i → rank (parent j) ≤ rank j
  around : ∀ j, 0 < i → 0 < j → parent j = i → rank (parent i) ≤ rank j

theorem Ordered.root_le {rank : Nat → β} (ordered : Ordered rank) (i : Nat) : rank 0 ≤ rank i := by
  induction i using Nat.strongRecOn with
  | ind i ih =>
      rcases Nat.eq_zero_or_pos i with rfl | positive
      · exact le_refl _
      · exact (ih (parent i) (parent_lt positive)).trans (ordered i)

theorem Ordered.above_le {rank : Nat → β} (ordered : Ordered rank) {a i : Nat} (above : Above a i) :
    rank a ≤ rank i := by
  induction above with
  | @parent i _ => exact ordered i
  | @further a i _ _ ih => exact ih.trans (ordered i)

theorem UpReady.done {rank : Nat → β} {i : Nat} (ready : UpReady rank i)
    (stop : rank (parent i) ≤ rank i) : Ordered rank := by
  intro j
  by_cases same : j = i
  · rwa [same]
  · exact ready.edges j same

theorem UpReady.move {rank : Nat → β} {i : Nat} (ready : UpReady rank i)
    (below : rank i < rank (parent i)) : UpReady (rank ∘ Equiv.swap i (parent i)) (parent i) := by
  have positive : 0 < i := by
    rcases Nat.eq_zero_or_pos i with rfl | positive
    · exact absurd below (lt_irrefl _)
    · exact positive
  have above : parent i < i := parent_lt positive
  have new_child : (rank ∘ Equiv.swap i (parent i)) i = rank (parent i) := by simp
  have new_parent : (rank ∘ Equiv.swap i (parent i)) (parent i) = rank i := by simp
  have elsewhere : ∀ k, k ≠ i → k ≠ parent i → (rank ∘ Equiv.swap i (parent i)) k = rank k :=
    fun k child up => congrArg rank (Equiv.swap_apply_of_ne_of_ne child up)
  constructor
  · intro j other
    by_cases same : j = i
    · rw [same, new_parent, new_child]
      exact below.le
    rw [elsewhere j same other]
    by_cases child : parent j = i
    · rw [child, new_child]
      refine ready.around j ?_ child
      rcases Nat.eq_zero_or_pos j with rfl | nonroot
      · exact absurd child (Nat.ne_of_lt positive)
      · exact nonroot
    by_cases sibling : parent j = parent i
    · rw [sibling, new_parent]
      exact below.le.trans (sibling ▸ ready.edges j same)
    · rw [elsewhere _ child sibling]
      exact ready.edges j same
  · intro j nonroot sibling
    have lower : parent j < j := parent_lt nonroot
    have reaches : rank (parent i) ≤ (rank ∘ Equiv.swap i (parent i)) j := by
      by_cases same : j = i
      · rw [same, new_child]
      · rw [elsewhere j same (by omega)]
        exact sibling ▸ ready.edges j same
    rcases Nat.eq_zero_or_pos (parent i) with root | inner
    · have up : parent (parent i) = parent i := by rw [root]; rfl
      rw [up, new_parent]
      exact below.le.trans reaches
    · have higher := parent_lt inner
      rw [elsewhere _ (by omega) (by omega)]
      exact (ready.edges _ (by omega)).trans reaches

theorem DownReady.done {rank : Nat → β} {i : Nat} (ready : DownReady rank i)
    (left : rank i ≤ rank (2 * i + 1)) (right : rank i ≤ rank (2 * i + 2)) : Ordered rank := by
  intro j
  rcases Nat.eq_zero_or_pos j with rfl | nonroot
  · exact le_refl _
  · by_cases child : parent j = i
    · rw [child]
      rcases (parent_eq_iff nonroot).mp child with rfl | rfl
      · exact left
      · exact right
    · exact ready.edges j nonroot child

theorem DownReady.move {rank : Nat → β} {i c : Nat} (ready : DownReady rank i) (nonroot : 0 < c)
    (child : parent c = i) (smallest : ∀ j, 0 < j → parent j = i → rank c ≤ rank j)
    (below : rank c < rank i) : DownReady (rank ∘ Equiv.swap i c) c := by
  have lower : i < c := child ▸ parent_lt nonroot
  have new_parent : (rank ∘ Equiv.swap i c) i = rank c := by simp
  have new_child : (rank ∘ Equiv.swap i c) c = rank i := by simp
  have elsewhere : ∀ k, k ≠ i → k ≠ c → (rank ∘ Equiv.swap i c) k = rank k :=
    fun k up down => congrArg rank (Equiv.swap_apply_of_ne_of_ne up down)
  constructor
  · intro j positive other
    have up := parent_lt positive
    by_cases same : j = c
    · rw [same, child, new_parent, new_child]
      exact below.le
    by_cases hole : j = i
    · subst hole
      rw [new_parent, elsewhere (parent j) (by omega) (by omega)]
      exact ready.around c positive nonroot child
    rw [elsewhere j hole same]
    by_cases sibling : parent j = i
    · rw [sibling, new_parent]
      exact smallest j positive sibling
    · rw [elsewhere _ sibling other]
      exact ready.edges j positive sibling
  · intro j _ positive grandchild
    have up := parent_lt positive
    rw [child, new_parent, elsewhere j (by omega) (by omega)]
    exact grandchild ▸ ready.edges j positive (by omega)

end Rankings

/-! ## Lists in level order -/

section Lists

variable {α κ : Type*} [LinearOrder κ] (key : α → κ)

/-- Positions past the end of the list rank above every key. -/
def rankAt (xs : List α) (i : Nat) : WithTop κ := (xs[i]?.map key).elim ⊤ (↑)

def IsMinHeap (xs : List α) : Prop := Ordered (rankAt key xs)

structure HeapAlgorithms where
  pushHeap : List α → List α
  popHeap : List α → List α
  push_perm : ∀ xs x, IsMinHeap key xs → (pushHeap (xs ++ [x])).Perm (xs ++ [x])
  push_heap : ∀ xs x, IsMinHeap key xs → IsMinHeap key (pushHeap (xs ++ [x]))
  pop_heap : ∀ x xs, IsMinHeap key (x :: xs) →
    ∃ ys, popHeap (x :: xs) = ys ++ [x] ∧ ys.Perm xs ∧ IsMinHeap key ys

variable {key}

omit [LinearOrder κ] in
theorem rankAt_of_lt {xs : List α} {i : Nat} (inside : i < xs.length) :
    rankAt key xs i = key xs[i] := by
  simp [rankAt, inside]

omit [LinearOrder κ] in
theorem rankAt_of_ge {xs : List α} {i : Nat} (outside : xs.length ≤ i) : rankAt key xs i = ⊤ := by
  simp [rankAt, outside]

theorem isMinHeap_nil : IsMinHeap key ([] : List α) := by
  intro i
  have outside : rankAt key ([] : List α) i = ⊤ := rankAt_of_ge (Nat.zero_le i)
  rw [outside]
  exact le_top

theorem IsMinHeap.front_le {x : α} {xs : List α} (heap : IsMinHeap key (x :: xs)) :
    ∀ y ∈ x :: xs, key x ≤ key y := by
  intro y member
  obtain ⟨i, inside, rfl⟩ := List.getElem_of_mem member
  have root := Ordered.root_le heap i
  rw [rankAt_of_lt (Nat.zero_lt_succ _), rankAt_of_lt inside] at root
  exact WithTop.coe_le_coe.mp root

theorem IsMinHeap.of_map_eq {xs ys : List α} (heap : IsMinHeap key xs)
    (same : ys.map key = xs.map key) : IsMinHeap key ys := by
  have ranks : rankAt key ys = rankAt key xs := by
    funext i
    rw [rankAt, rankAt, ← List.getElem?_map, ← List.getElem?_map, same]
  rwa [IsMinHeap, ranks]

/-! ## Sifting -/

def exchange (xs : List α) (i j : Nat) : List α :=
  match xs[i]?, xs[j]? with
  | some x, some y => (xs.set i y).set j x
  | _, _ => xs

omit [LinearOrder κ] in
theorem exchange_inside {xs : List α} {i j : Nat} (first : i < xs.length) (second : j < xs.length) :
    exchange xs i j = (xs.set i xs[j]).set j xs[i] := by
  simp [exchange, first, second]

theorem exchange_perm (xs : List α) (i j : Nat) : (exchange xs i j).Perm xs := by
  by_cases first : i < xs.length
  · by_cases second : j < xs.length
    · rw [exchange_inside first second]
      exact List.set_set_perm first second
    · rw [exchange, List.getElem?_eq_none (Nat.le_of_not_lt second)]
      simp
  · rw [exchange, List.getElem?_eq_none (Nat.le_of_not_lt first)]

omit [LinearOrder κ] in
theorem rankAt_exchange {xs : List α} {i j : Nat} (first : i < xs.length) (second : j < xs.length) :
    rankAt key (exchange xs i j) = rankAt key xs ∘ Equiv.swap i j := by
  funext k
  rw [exchange_inside first second, Function.comp_apply]
  by_cases left : k = i
  · subst left
    by_cases same : k = j
    · subst same
      simp [rankAt]
    · simp [rankAt, first, second, Ne.symm same]
  · by_cases right : k = j
    · subst right
      simp [rankAt, first, second]
    · rw [Equiv.swap_apply_of_ne_of_ne left right]
      simp [rankAt, Ne.symm left, Ne.symm right]

variable (key)

def below (xs : List α) (i j : Nat) : Bool :=
  match xs[i]?, xs[j]? with
  | some x, some y => key x < key y
  | some _, none => true
  | none, _ => false

def siftUp : Nat → List α → Nat → List α
  | 0, xs, _ => xs
  | fuel + 1, xs, i =>
      if below key xs i (parent i) then siftUp fuel (exchange xs i (parent i)) (parent i) else xs

def smallerChild (xs : List α) (i : Nat) : Nat :=
  if below key xs (2 * i + 2) (2 * i + 1) then 2 * i + 2 else 2 * i + 1

def siftDown : Nat → List α → Nat → List α
  | 0, xs, _ => xs
  | fuel + 1, xs, i =>
      let child := smallerChild key xs i
      if below key xs child i then siftDown fuel (exchange xs i child) child else xs

def siftPush (xs : List α) : List α := siftUp key xs.length xs (xs.length - 1)

def siftPop (xs : List α) : List α :=
  match xs with
  | [] => []
  | x :: rest => match rest.getLast? with
      | none => [x]
      | some last => siftDown key rest.length (last :: rest.dropLast) 0 ++ [x]

variable {key}

theorem below_iff {xs : List α} {i j : Nat} :
    below key xs i j = true ↔ rankAt key xs i < rankAt key xs j := by
  cases first : xs[i]? <;> cases second : xs[j]? <;> simp [below, rankAt, first, second]

theorem siftUp_perm (fuel : Nat) (xs : List α) (i : Nat) : (siftUp key fuel xs i).Perm xs := by
  induction fuel generalizing xs i with
  | zero => exact .refl xs
  | succ fuel ih =>
      rw [siftUp]
      split
      · exact (ih _ _).trans (exchange_perm xs i (parent i))
      · exact .refl xs

theorem siftUp_heap {fuel : Nat} {xs : List α} {i : Nat} (inside : i < xs.length) (enough : i < fuel)
    (ready : UpReady (rankAt key xs) i) : IsMinHeap key (siftUp key fuel xs i) := by
  induction fuel generalizing xs i with
  | zero => exact absurd enough (Nat.not_lt_zero i)
  | succ fuel ih =>
      rw [siftUp]
      split
      · rename_i smaller
        have out := below_iff.mp smaller
        have positive : 0 < i := by
          rcases Nat.eq_zero_or_pos i with rfl | positive
          · exact absurd out (lt_irrefl _)
          · exact positive
        have up := parent_lt positive
        apply ih
        · rw [(exchange_perm xs i (parent i)).length_eq]
          omega
        · omega
        · rw [rankAt_exchange inside (by omega)]
          exact ready.move out
      · rename_i stop
        exact ready.done (le_of_not_gt fun out => stop (below_iff.mpr out))

theorem siftDown_perm (fuel : Nat) (xs : List α) (i : Nat) : (siftDown key fuel xs i).Perm xs := by
  induction fuel generalizing xs i with
  | zero => exact .refl xs
  | succ fuel ih =>
      rw [siftDown]
      split
      · exact (ih _ _).trans (exchange_perm xs i _)
      · exact .refl xs

theorem smallerChild_parent (xs : List α) (i : Nat) :
    0 < smallerChild key xs i ∧ parent (smallerChild key xs i) = i := by
  unfold smallerChild parent
  split <;> omega

theorem smallerChild_le (xs : List α) (i j : Nat) (nonroot : 0 < j) (child : parent j = i) :
    rankAt key xs (smallerChild key xs i) ≤ rankAt key xs j := by
  unfold smallerChild
  split
  · rename_i right
    rcases (parent_eq_iff nonroot).mp child with rfl | rfl
    · exact (below_iff.mp right).le
    · exact le_refl _
  · rename_i left
    have order := le_of_not_gt fun right => left (below_iff.mpr right)
    rcases (parent_eq_iff nonroot).mp child with rfl | rfl
    · exact le_refl _
    · exact order

theorem siftDown_heap {fuel : Nat} {xs : List α} {i : Nat} (enough : xs.length ≤ i + fuel)
    (ready : DownReady (rankAt key xs) i) : IsMinHeap key (siftDown key fuel xs i) := by
  induction fuel generalizing xs i with
  | zero =>
      have left : rankAt key xs (2 * i + 1) = ⊤ := rankAt_of_ge (by omega)
      have right : rankAt key xs (2 * i + 2) = ⊤ := rankAt_of_ge (by omega)
      exact ready.done (by rw [left]; exact le_top) (by rw [right]; exact le_top)
  | succ fuel ih =>
      obtain ⟨nonroot, child⟩ : 0 < smallerChild key xs i ∧ parent (smallerChild key xs i) = i :=
        smallerChild_parent xs i
      have lower := parent_lt nonroot
      rw [siftDown]
      split
      · rename_i smaller
        have out := below_iff.mp smaller
        have inside : smallerChild key xs i < xs.length := by
          by_contra outside
          rw [rankAt_of_ge (Nat.le_of_not_lt outside)] at out
          exact not_top_lt out
        apply ih
        · rw [(exchange_perm xs i _).length_eq]
          omega
        · rw [rankAt_exchange (by omega) inside]
          exact ready.move nonroot child (smallerChild_le xs i) out
      · rename_i stop
        have least := le_of_not_gt fun out => stop (below_iff.mpr out)
        exact ready.done (least.trans (smallerChild_le xs i _ (by omega) (by unfold parent; omega)))
          (least.trans (smallerChild_le xs i _ (by omega) (by unfold parent; omega)))

theorem upReady_push {xs : List α} (x : α) (heap : IsMinHeap key xs) :
    UpReady (rankAt key (xs ++ [x])) xs.length := by
  have length : (xs ++ [x]).length = xs.length + 1 := by simp
  have old : ∀ i < xs.length, rankAt key (xs ++ [x]) i = rankAt key xs i := by
    intro i inside
    simp [rankAt, List.getElem?_append_left inside]
  constructor
  · intro j other
    by_cases inside : j < xs.length
    · have up : parent j ≤ j := by
        unfold parent
        omega
      rw [old j inside, old _ (by omega)]
      exact heap j
    · rw [rankAt_of_ge (i := j) (by omega)]
      exact le_top
  · intro j nonroot child
    have lower := parent_lt nonroot
    rw [rankAt_of_ge (i := j) (by omega)]
    exact le_top

theorem downReady_pop {x last : α} {rest : List α} (heap : IsMinHeap key (x :: (rest ++ [last]))) :
    DownReady (rankAt key (last :: rest)) 0 := by
  have old : ∀ i, 0 < i → i < rest.length + 1 →
      rankAt key (last :: rest) i = rankAt key (x :: (rest ++ [last])) i := by
    intro i positive inside
    obtain ⟨i, rfl⟩ := Nat.exists_eq_succ_of_ne_zero (Nat.ne_of_gt positive)
    simp [rankAt, List.getElem?_append_left (Nat.lt_of_succ_lt_succ inside)]
  constructor
  · intro j nonroot other
    have up := parent_lt nonroot
    by_cases inside : j < rest.length + 1
    · rw [old j nonroot inside, old _ (Nat.pos_of_ne_zero other) (by omega)]
      exact heap j
    · rw [rankAt_of_ge (i := j) (by rw [List.length_cons]; omega)]
      exact le_top
  · intro j impossible
    exact absurd impossible (Nat.lt_irrefl 0)

variable (key)

def sifting : HeapAlgorithms key where
  pushHeap := siftPush key
  popHeap := siftPop key
  push_perm xs x _ := siftUp_perm _ _ _
  push_heap xs x heap := by
    have length : (xs ++ [x]).length = xs.length + 1 := by simp
    rw [siftPush, length, Nat.add_sub_cancel]
    exact siftUp_heap (by omega) (by omega) (upReady_push x heap)
  pop_heap x xs heap := by
    rcases List.eq_nil_or_concat xs with rfl | ⟨rest, last, rfl⟩
    · exact ⟨[], rfl, .nil, isMinHeap_nil⟩
    · rw [List.concat_eq_append] at heap ⊢
      refine ⟨siftDown key (rest ++ [last]).length (last :: rest) 0, ?_, ?_, ?_⟩
      · simp [siftPop]
      · exact (siftDown_perm _ _ _).trans (List.perm_append_singleton last rest).symm
      · exact siftDown_heap (by simp) (downReady_pop heap)

end Lists

end ServerFramework.Library.Heap
