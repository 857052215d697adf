import ServerFramework.Proof.Base.TimerSteps

namespace ServerFramework.Base
open Library Library.Heap Timer

namespace Timer

variable {κ : Type}

structure NearestExact (timer : Timer κ) : Prop where
  least : live timer.items ≠ [] → IsLeast {expireAt | ∃ item ∈ live timer.items, item.expireAt = expireAt} (nearestExpire timer)
  idle : nearestExpire timer = -1 ↔ live timer.items = []

/-- A live item all of whose ancestors in the heap are cancelled. -/
structure Topmost (items : List (TimerItem κ)) (i : Nat) (item : TimerItem κ) : Prop where
  here : items[i]? = some item
  alive : item.cancelled = false
  roofless : ∀ a, Above a i → ∀ other, items[a]? = some other → other.cancelled = true

/-- The first of the topmost items does not expire after any other of them. -/
def TopsInOrder (items : List (TimerItem κ)) : Prop :=
  ∀ i front, Topmost items i front → (∀ j < i, ∀ item, ¬ Topmost items j item) →
    ∀ j item, Topmost items j item → front.expireAt ≤ item.expireAt

/-! ## The first live item in array order -/

theorem nearestExpire_cons {items : List (TimerItem κ)} {nextId : Int} {front : TimerItem κ} {rest : List (TimerItem κ)}
    (alive : live items = front :: rest) : nearestExpire ⟨nextId, items⟩ = front.expireAt := by
  have first : items.find? (fun item => !item.cancelled) = some front := by
    rw [← List.head?_filter]
    exact congrArg List.head? alive
  have nonempty : items ≠ [] := by
    rintro rfl
    cases alive
  simp [nearestExpire, nonempty, first]

theorem nearestExpire_nil {items : List (TimerItem κ)} {nextId : Int} (alive : live items = []) :
    nearestExpire ⟨nextId, items⟩ = -1 := by
  have nobody : items.find? (fun item => !item.cancelled) = none := by
    rw [← List.head?_filter]
    exact congrArg List.head? alive
  simp [nearestExpire, nobody]

/-- Every live item has a topmost one on its way to the root, and that one expires no later. -/
theorem topmost_below {items : List (TimerItem κ)} (ordered : IsMinHeap TimerItem.expireAt items)
    {item : TimerItem κ} (member : item ∈ live items) :
    ∃ i top, Topmost items i top ∧ top.expireAt ≤ item.expireAt := by
  obtain ⟨among, awake⟩ := mem_live.mp member
  obtain ⟨k, inside, same⟩ := List.getElem_of_mem among
  obtain ⟨i, place, ⟨top, here, alive⟩, none_above⟩ :=
    exists_topmost (P := fun i => ∃ other, items[i]? = some other ∧ other.cancelled = false)
      ⟨item, List.getElem?_eq_some_iff.mpr ⟨inside, same⟩, awake⟩
  refine ⟨i, top, ⟨here, alive, ?_⟩, ?_⟩
  · intro a above other found
    by_contra lives
    exact none_above a above ⟨other, found, by simpa using lives⟩
  · obtain ⟨bound, rfl⟩ := List.getElem?_eq_some_iff.mp here
    have rank : rankAt TimerItem.expireAt items i ≤ rankAt TimerItem.expireAt items k := by
      rcases place with rfl | above
      · exact le_refl _
      · exact Ordered.above_le ordered above
    rw [rankAt_of_lt bound, rankAt_of_lt inside, same] at rank
    exact WithTop.coe_le_coe.mp rank

theorem front_topmost {items : List (TimerItem κ)} {front : TimerItem κ} {rest : List (TimerItem κ)}
    (alive : live items = front :: rest) :
    ∃ i, Topmost items i front ∧ ∀ j < i, ∀ item, ¬ Topmost items j item := by
  obtain ⟨before, after, split, dead, awake, -⟩ := List.filter_eq_cons_iff.mp alive
  have earlier (j : Nat) (inside : j < before.length) (item : TimerItem κ) (found : items[j]? = some item) :
      item.cancelled = true := by
    rw [split, List.getElem?_append_left inside] at found
    simpa using dead item (List.mem_of_getElem? found)
  refine ⟨before.length, ⟨by simp [split], by simpa using awake, ?_⟩, ?_⟩
  · exact fun a above other found => earlier a above.lt other found
  · intro j inside item top
    have cancelled := earlier j inside item top.here
    rw [top.alive] at cancelled
    cases cancelled

theorem Topmost.live {items : List (TimerItem κ)} {i : Nat} {item : TimerItem κ} (top : Topmost items i item) :
    item ∈ live items :=
  mem_live.mpr ⟨List.mem_of_getElem? top.here, top.alive⟩

theorem topsInOrder_iff {items : List (TimerItem κ)} (ordered : IsMinHeap TimerItem.expireAt items)
    {front : TimerItem κ} {rest : List (TimerItem κ)} (alive : live items = front :: rest) :
    TopsInOrder items ↔ ∀ item ∈ live items, front.expireAt ≤ item.expireAt := by
  obtain ⟨i, top, first⟩ := front_topmost alive
  constructor
  · intro inOrder item member
    obtain ⟨j, other, higher, below⟩ := topmost_below ordered member
    exact (inOrder i front top first j other higher).trans below
  · intro least k other found earliest j item higher
    have same : k = i := by
      rcases Nat.lt_trichotomy k i with lower | same | above
      · exact absurd found (first k lower other)
      · exact same
      · exact absurd top (earliest i above front)
    have equal : other = front := by
      have here := found.here
      rw [same, top.here] at here
      exact (Option.some.inj here).symm
    rw [equal]
    exact least item higher.live

theorem nearestExact_iff {timer : Timer κ} (ordered : IsMinHeap TimerItem.expireAt timer.items) :
    NearestExact timer ↔ TopsInOrder timer.items ∧
      ∀ item ∈ live timer.items, item.expireAt = -1 → ∃ earlier ∈ live timer.items, earlier.expireAt < -1 := by
  obtain ⟨nextId, items⟩ := timer
  cases alive : live items with
  | nil =>
      have nearest : nearestExpire ⟨nextId, items⟩ = -1 := nearestExpire_nil alive
      have nobody (i : Nat) (item : TimerItem κ) : ¬ Topmost items i item := by
        intro top
        have member := top.live
        rw [alive] at member
        cases member
      refine iff_of_true ⟨fun some => absurd alive some, iff_of_true nearest alive⟩ ⟨?_, ?_⟩
      · exact fun i front top => absurd top (nobody i front)
      · exact fun item member => absurd member (by simp)
  | cons front rest =>
      have nearest : nearestExpire ⟨nextId, items⟩ = front.expireAt := nearestExpire_cons alive
      have here : front ∈ live items := alive ▸ List.mem_cons_self
      rw [topsInOrder_iff ordered alive, ← alive]
      constructor
      · rintro ⟨least, idle⟩
        have minimal (item : TimerItem κ) (member : item ∈ live items) : front.expireAt ≤ item.expireAt := by
          have bound := (least (List.ne_nil_of_mem here)).2 ⟨item, member, rfl⟩
          rwa [nearest] at bound
        refine ⟨minimal, ?_⟩
        intro item member reads
        have other : front.expireAt ≠ -1 := fun same => List.ne_nil_of_mem here (idle.mp (nearest.trans same))
        have bound := minimal item member
        exact ⟨front, here, by omega⟩
      · rintro ⟨minimal, distinct⟩
        constructor
        · rintro -
          rw [nearest]
          exact ⟨⟨front, here, rfl⟩, fun expireAt ⟨item, member, same⟩ => same ▸ minimal item member⟩
        · refine iff_of_false ?_ (List.ne_nil_of_mem here)
          rw [nearest]
          intro reads
          obtain ⟨earlier, member, lower⟩ := distinct front here reads
          have bound := minimal earlier member
          omega

end Timer

namespace TimerRun

variable {κ : Type} (heap : HeapAlgorithms (@TimerItem.expireAt κ))

theorem nearest_exact_iff (actions : List (TimerAction κ)) (run : TimerRun κ)
    (ran : exec (step heap) {} actions = some run) :
    NearestExact run.timer ↔ TopsInOrder run.timer.items ∧
      ∀ item ∈ live run.timer.items, item.expireAt = -1 → ∃ earlier ∈ live run.timer.items, earlier.expireAt < -1 :=
  nearestExact_iff (run_standing heap ran initial_standing).valid.ordered

theorem nearest_exact_behind_cancelled_root :
    ∃ run, exec (step (sifting (@TimerItem.expireAt Nat))) {}
        [.call (.add 0 10 (some 1)), .call (.add 0 20 (some 2)), .call (.add 0 30 (some 3)), .call (.cancel 1)] =
          some run ∧
      nearestExpire run.timer = 20 ∧ NearestExact run.timer := by
  obtain ⟨run, ran⟩ : ∃ run, exec (step (sifting (@TimerItem.expireAt Nat))) {}
      [.call (.add 0 10 (some 1)), .call (.add 0 20 (some 2)), .call (.add 0 30 (some 3)), .call (.cancel 1)] =
        some run := ⟨_, rfl⟩
  have state : run.timer =
      ⟨3, [⟨1, 10, 0, some 1, true⟩, ⟨2, 20, 0, some 2, false⟩, ⟨3, 30, 0, some 3, false⟩]⟩ := by
    obtain rfl := Option.some.inj ran
    decide +kernel
  have ordered : IsMinHeap TimerItem.expireAt run.timer.items :=
    (run_standing (sifting _) ran initial_standing).valid.ordered
  have alive : live run.timer.items = ⟨2, 20, 0, some 2, false⟩ :: [⟨3, 30, 0, some 3, false⟩] := by
    rw [state]
    rfl
  refine ⟨run, ran, by rw [state]; rfl, (nearest_exact_iff (sifting _) _ run ran).mpr ⟨?_, ?_⟩⟩
  · rw [topsInOrder_iff ordered alive, alive]
    decide
  · rw [alive]
    decide

/-- The root is cancelled, and the first live item is not the one that expires first. -/
theorem nearest_misses_second_child :
    ∃ run, exec (step (sifting (@TimerItem.expireAt Nat))) {}
        [.call (.add 0 10 (some 1)), .call (.add 0 30 (some 2)), .call (.add 0 20 (some 3)), .call (.cancel 1)] =
          some run ∧
      (live run.timer.items).map TimerItem.expireAt = [30, 20] ∧ nearestExpire run.timer = 30 ∧
      ¬ NearestExact run.timer := by
  obtain ⟨run, ran⟩ : ∃ run, exec (step (sifting (@TimerItem.expireAt Nat))) {}
      [.call (.add 0 10 (some 1)), .call (.add 0 30 (some 2)), .call (.add 0 20 (some 3)), .call (.cancel 1)] =
        some run := ⟨_, rfl⟩
  have state : run.timer =
      ⟨3, [⟨1, 10, 0, some 1, true⟩, ⟨2, 30, 0, some 2, false⟩, ⟨3, 20, 0, some 3, false⟩]⟩ := by
    obtain rfl := Option.some.inj ran
    decide +kernel
  refine ⟨run, ran, by rw [state]; rfl, by rw [state]; rfl, ?_⟩
  rw [state]
  intro exactly
  have bound := (exactly.least (by decide)).2 ⟨⟨3, 20, 0, some 3, false⟩, by decide, rfl⟩
  exact absurd bound (by decide)

end TimerRun

end ServerFramework.Base
