import ServerFramework.Base.Timer
import Mathlib.Data.List.Forall2
import Mathlib.Data.List.Perm.Subperm
import Mathlib.Order.Bounds.Basic

namespace ServerFramework.Base
open Library Library.Heap

theorem int64_of_inInt64 {x : Int} (range : InInt64 x) : int64 x = x := by
  obtain ⟨lower, upper⟩ := range
  exact Int.bmod_eq_of_le (by omega) (by omega)

namespace Timer

variable {κ : Type} (heap : HeapAlgorithms (@TimerItem.expireAt κ))

def live (items : List (TimerItem κ)) : List (TimerItem κ) := items.filter fun item => !item.cancelled

theorem mem_live {items : List (TimerItem κ)} {item : TimerItem κ} :
    item ∈ live items ↔ item ∈ items ∧ item.cancelled = false := by
  simp [live]

theorem live_append (as bs : List (TimerItem κ)) : live (as ++ bs) = live as ++ live bs :=
  List.filter_append ..

theorem live_eq_self {items : List (TimerItem κ)} (all : ∀ item ∈ items, item.cancelled = false) :
    live items = items :=
  List.filter_eq_self.mpr fun item member => by simp [all item member]

theorem live_perm (items : List (TimerItem κ)) : items.Perm (live items ++ items.filter (·.cancelled)) := by
  have split := List.filter_append_perm (fun item : TimerItem κ => !item.cancelled) items
  simpa only [live, Bool.not_not] using split.symm

theorem dead_apart {f : TimerItem κ → Int} {items others : List (TimerItem κ)}
    (unique : ((items ++ others).map f).Nodup) {dead : TimerItem κ} (among : dead ∈ items)
    (cancelled : dead.cancelled = true) : f dead ∉ (live items ++ others).map f := by
  have split : (items ++ others).Perm (items.filter (·.cancelled) ++ (live items ++ others)) := by
    rw [← List.append_assoc]
    exact ((live_perm items).trans List.perm_append_comm).append_right others
  have apart := (split.map f).nodup_iff.mp unique
  rw [List.map_append] at apart
  intro member
  have marked := List.mem_map_of_mem (f := f) (List.mem_filter.mpr ⟨among, cancelled⟩)
  exact (List.nodup_append.mp apart).2.2 _ marked _ member rfl

/-! ## Moving the due items out of the heap -/

structure Extraction (nowMs : Int) (items left fired : List (TimerItem κ)) : Prop where
  heap : IsMinHeap TimerItem.expireAt left
  parts : (left ++ fired).Subperm items
  alive : (live items).Perm (fired ++ live left)
  due : ∀ item ∈ fired, item.expireAt ≤ nowMs
  sorted : fired.Pairwise fun first second => first.expireAt ≤ second.expireAt
  late : ∀ item ∈ left, nowMs < item.expireAt
  front : ∀ item ∈ left.head?, item.cancelled = false

theorem Extraction.fired_live {nowMs : Int} {items left fired : List (TimerItem κ)}
    (extraction : Extraction nowMs items left fired) :
    ∀ item ∈ fired, item ∈ items ∧ item.cancelled = false :=
  fun _ member => mem_live.mp (extraction.alive.mem_iff.mpr (List.mem_append_left _ member))

theorem extraction_nil (nowMs : Int) : Extraction nowMs ([] : List (TimerItem κ)) [] [] := by
  refine ⟨isMinHeap_nil, .refl _, .nil, ?_, .nil, ?_, ?_⟩ <;> simp

theorem extraction_stop {nowMs : Int} {top : TimerItem κ} {rest : List (TimerItem κ)}
    (ordered : IsMinHeap TimerItem.expireAt (top :: rest)) (alive : top.cancelled = false)
    (late : nowMs < top.expireAt) : Extraction nowMs (top :: rest) (top :: rest) [] := by
  refine ⟨ordered, by rw [List.append_nil], .refl _, by simp, .nil, ?_, ?_⟩
  · intro item member
    exact late.trans_le (ordered.front_le item member)
  · rintro item ⟨⟩
    exact alive

theorem Extraction.drop {nowMs : Int} {top : TimerItem κ} {rest ys left fired : List (TimerItem κ)}
    (extraction : Extraction nowMs ys left fired) (popped : ys.Perm rest)
    (dead : top.cancelled = true) : Extraction nowMs (top :: rest) left fired := by
  have parts := (extraction.parts.trans popped.subperm).trans (List.sublist_cons_self top rest).subperm
  have skipped : live (top :: rest) = live rest := List.filter_cons_of_neg (by simp [dead])
  have alive : (live (top :: rest)).Perm (fired ++ live left) := by
    rw [skipped]
    exact (popped.symm.filter _).trans extraction.alive
  exact { extraction with parts, alive }

theorem Extraction.take {nowMs : Int} {top : TimerItem κ} {rest ys left fired : List (TimerItem κ)}
    (extraction : Extraction nowMs ys left fired) (popped : ys.Perm rest)
    (ordered : IsMinHeap TimerItem.expireAt (top :: rest)) (alive : top.cancelled = false)
    (due : top.expireAt ≤ nowMs) : Extraction nowMs (top :: rest) left (top :: fired) where
  heap := extraction.heap
  parts := by
    have moved : (left ++ top :: fired).Perm (top :: (left ++ fired)) := List.perm_middle
    exact moved.subperm.trans ((List.subperm_cons top).mpr (extraction.parts.trans popped.subperm))
  alive := by
    have kept : live (top :: rest) = top :: live rest := List.filter_cons_of_pos (by simp [alive])
    rw [kept]
    exact ((popped.symm.filter _).trans extraction.alive).cons top
  due := by
    intro item member
    rcases List.mem_cons.mp member with rfl | member
    · exact due
    · exact extraction.due item member
  sorted := by
    refine .cons ?_ extraction.sorted
    intro item member
    have below := popped.mem_iff.mp (extraction.fired_live item member).1
    exact ordered.front_le item (List.mem_cons_of_mem _ below)
  late := extraction.late
  front := extraction.front

theorem loop_extractBody (nowMs : Int) {n : Nat} {items : List (TimerItem κ)}
    (fired : List (TimerItem κ)) (ordered : IsMinHeap TimerItem.expireAt items)
    (enough : items.length < n) :
    ∃ left found, loop (extractBody heap nowMs) n (items, fired) = some (left, fired ++ found) ∧
      Extraction nowMs items left found := by
  induction n generalizing items fired with
  | zero => exact absurd enough (Nat.not_lt_zero _)
  | succ n ih =>
      cases items with
      | nil => exact ⟨[], [], by simp [loop, extractBody], extraction_nil nowMs⟩
      | cons top rest =>
          obtain ⟨ys, popped, perm, smaller⟩ := heap.pop_heap top rest ordered
          have shorter : ys.length < n := by
            have length := perm.length_eq
            rw [List.length_cons] at enough
            omega
          cases dead : top.cancelled with
          | true =>
              obtain ⟨left, found, run, extraction⟩ := ih fired smaller shorter
              exact ⟨left, found, by simp [loop, extractBody, dead, popped, run],
                extraction.drop perm dead⟩
          | false =>
              by_cases late : top.expireAt > nowMs
              · exact ⟨top :: rest, [], by simp [loop, extractBody, dead, late],
                  extraction_stop ordered dead late⟩
              · obtain ⟨left, found, run, extraction⟩ := ih (fired ++ [top]) smaller shorter
                refine ⟨left, top :: found, ?_, extraction.take perm ordered dead (by omega)⟩
                simp [loop, extractBody, dead, late, popped, run]

theorem extract_spec (nowMs : Int) {items : List (TimerItem κ)}
    (ordered : IsMinHeap TimerItem.expireAt items) :
    ∃ left fired, extract heap nowMs items = some (left, fired) ∧ Extraction nowMs items left fired :=
  loop_extractBody heap nowMs [] ordered (Nat.lt_succ_self _)

theorem extract_extraction {nowMs : Int} {items left fired : List (TimerItem κ)}
    (ordered : IsMinHeap TimerItem.expireAt items) (taken : extract heap nowMs items = some (left, fired)) :
    Extraction nowMs items left fired := by
  obtain ⟨_, _, same, extraction⟩ := extract_spec heap nowMs ordered
  obtain ⟨rfl, rfl⟩ := Prod.mk.inj (Option.some.inj (taken.symm.trans same))
  exact extraction

/-! ## Arming and firing -/

structure Valid (timer : Timer κ) : Prop where
  ordered : IsMinHeap TimerItem.expireAt timer.items
  callbacks : ∀ item ∈ timer.items, item.callback.isSome

theorem Extraction.valid {nowMs : Int} {timer : Timer κ} {left fired : List (TimerItem κ)}
    (extraction : Extraction nowMs timer.items left fired) (valid : Valid timer) :
    Valid ⟨timer.nextId, left⟩ where
  ordered := extraction.heap
  callbacks item member := valid.callbacks item (extraction.parts.subset (List.mem_append_left _ member))

theorem arm_perm {timer : Timer κ} (ordered : IsMinHeap TimerItem.expireAt timer.items)
    (now afterMs intervalMs : Int) (cb : Option κ) :
    (arm heap timer now afterMs intervalMs cb).items.Perm
      (timer.items ++ [⟨timer.nextId + 1, int64 (now + afterMs), intervalMs, cb, false⟩]) :=
  heap.push_perm _ _ ordered

theorem arm_valid {timer : Timer κ} (valid : Valid timer) (now afterMs intervalMs : Int) {cb : Option κ}
    (given : cb.isSome) : Valid (arm heap timer now afterMs intervalMs cb) where
  ordered := heap.push_heap _ _ valid.ordered
  callbacks := by
    intro item member
    have origin := (arm_perm heap valid.ordered now afterMs intervalMs cb).mem_iff.mp member
    rcases List.mem_append.mp origin with old | new
    · exact valid.callbacks item old
    · rw [List.mem_singleton.mp new]
      exact given

structure Rearms (base expireAt : Int) (old new : TimerItem κ) : Prop where
  fresh : base < new.id
  copied : new = { old with id := new.id, expireAt }

theorem foldl_fire (nowMs base : Int) {timer : Timer κ} (invoked : List (TimerItem κ))
    {fired : List (TimerItem κ)} (valid : Valid timer) (known : base ≤ timer.nextId)
    (alive : ∀ t ∈ fired, t.cancelled = false) (callbacks : ∀ t ∈ fired, t.callback.isSome) :
    ∃ next rearmed, fired.foldl (fire heap nowMs) (timer, invoked) = (next, invoked ++ fired) ∧
      Valid next ∧ next.items.Perm (timer.items ++ rearmed) ∧
      List.Forall₂ (fun old new => Rearms base (int64 (nowMs + old.intervalMs)) old new)
        (fired.filter TimerItem.isRepeating) rearmed := by
  induction fired generalizing timer invoked with
  | nil => exact ⟨timer, [], by simp, valid, by simp, .nil⟩
  | cons t fired ih =>
      have awake := alive t (by simp)
      have given := callbacks t (by simp)
      have later := fun u member => alive u (List.mem_cons_of_mem t member)
      have rest := fun u member => callbacks u (List.mem_cons_of_mem t member)
      have round : fire heap nowMs (timer, invoked) t = (rearm heap nowMs timer t, invoked ++ [t]) := by
        simp [fire, awake, given]
      rw [List.foldl_cons, round]
      by_cases repeating : t.intervalMs > 0
      · rw [rearm, if_pos repeating]
        have armed := arm_valid heap valid nowMs t.intervalMs t.intervalMs given
        obtain ⟨next, rearmed, run, final, perm, copies⟩ :=
          ih (invoked ++ [t]) armed (by simp only [arm]; omega) later rest
        refine ⟨next, ⟨timer.nextId + 1, int64 (nowMs + t.intervalMs), t.intervalMs, t.callback, false⟩ ::
          rearmed, by simpa using run, final, ?_, ?_⟩
        · refine perm.trans ?_
          rw [List.append_cons]
          exact (arm_perm heap valid.ordered nowMs t.intervalMs t.intervalMs t.callback).append_right rearmed
        · rw [List.filter_cons_of_pos (by simpa [TimerItem.isRepeating] using repeating)]
          refine .cons ⟨by dsimp only; omega, ?_⟩ copies
          rw [← awake]
      · rw [rearm, if_neg repeating, List.filter_cons_of_neg (by simpa [TimerItem.isRepeating] using repeating)]
        obtain ⟨next, rearmed, run, final, perm, copies⟩ := ih (invoked ++ [t]) valid known later rest
        exact ⟨next, rearmed, by simpa using run, final, perm, copies⟩

theorem poll_spec (nowMs : Int) {timer : Timer κ} (valid : Valid timer) :
    ∃ next left fired rearmed,
      poll heap timer nowMs = some ⟨next, fired, untilFront next nowMs⟩ ∧ Valid next ∧
      Extraction nowMs timer.items left fired ∧ next.items.Perm (left ++ rearmed) ∧
      List.Forall₂ (fun old new => Rearms timer.nextId (int64 (nowMs + old.intervalMs)) old new)
        (fired.filter TimerItem.isRepeating) rearmed := by
  obtain ⟨left, fired, taken, extraction⟩ := extract_spec heap nowMs valid.ordered
  obtain ⟨next, rearmed, run, final, perm, copies⟩ :=
    foldl_fire heap nowMs timer.nextId [] (extraction.valid valid) (Int.le_refl _)
      (fun t member => (extraction.fired_live t member).2)
      (fun t member => valid.callbacks t (extraction.fired_live t member).1)
  refine ⟨next, left, fired, rearmed, ?_, final, extraction, perm, copies⟩
  simp [poll, taken, run]

/-! ## Whole runs -/

theorem cancelItem_map (timerId : Int) (items : List (TimerItem κ)) :
    (cancelItem timerId items).2.map (fun item => (item.id, item.expireAt, item.callback)) =
      items.map fun item => (item.id, item.expireAt, item.callback) := by
  induction items with
  | nil => rfl
  | cons item rest ih =>
      rw [cancelItem]
      split
      · rfl
      · rw [List.map_cons, List.map_cons, ih]

theorem cancelItem_ids (timerId : Int) (items : List (TimerItem κ)) :
    (cancelItem timerId items).2.map TimerItem.id = items.map TimerItem.id := by
  have same := congrArg (List.map fun entry => entry.1) (cancelItem_map timerId items)
  rwa [List.map_map, List.map_map] at same

theorem cancelItem_result (timerId : Int) (items : List (TimerItem κ)) :
    (cancelItem timerId items).1 = true ↔ timerId ∈ items.map TimerItem.id := by
  induction items with
  | nil => simp [cancelItem]
  | cons item rest ih =>
      rw [cancelItem, List.map_cons, List.mem_cons]
      split
      · rename_i same
        exact iff_of_true rfl (.inl same.symm)
      · rename_i other
        rw [ih, or_iff_right (Ne.symm other)]

theorem cancelItem_live (timerId : Int) (items : List (TimerItem κ)) :
    live (cancelItem timerId items).2 ⊆ live items := by
  induction items with
  | nil => exact fun _ member => member
  | cons item rest ih =>
      rw [cancelItem]
      split
      · intro other member
        rw [live, List.filter_cons_of_neg (by simp)] at member
        obtain ⟨among, awake⟩ := mem_live.mp member
        exact mem_live.mpr ⟨List.mem_cons_of_mem _ among, awake⟩
      · intro other member
        obtain ⟨among, awake⟩ := mem_live.mp member
        rcases List.mem_cons.mp among with rfl | among
        · exact mem_live.mpr ⟨List.mem_cons_self .., awake⟩
        · obtain ⟨among, awake⟩ := mem_live.mp (ih (mem_live.mpr ⟨among, awake⟩))
          exact mem_live.mpr ⟨List.mem_cons_of_mem _ among, awake⟩

theorem cancelItem_found {timerId : Int} {items : List (TimerItem κ)}
    (present : ∃ item ∈ items, item.id = timerId) :
    ∃ item ∈ (cancelItem timerId items).2, item.id = timerId ∧ item.cancelled = true := by
  induction items with
  | nil => simp at present
  | cons item rest ih =>
      rw [cancelItem]
      split
      · rename_i same
        exact ⟨{ item with cancelled := true }, List.mem_cons_self .., same, rfl⟩
      · rename_i other
        have later : ∃ item ∈ rest, item.id = timerId := by simpa [other] using present
        obtain ⟨found, among, same⟩ := ih later
        exact ⟨found, List.mem_cons_of_mem _ among, same⟩

theorem cancelItem_ordered (timerId : Int) {items : List (TimerItem κ)}
    (ordered : IsMinHeap TimerItem.expireAt items) : IsMinHeap TimerItem.expireAt (cancelItem timerId items).2 := by
  have keys := congrArg (List.map fun entry => entry.2.1) (cancelItem_map timerId items)
  rw [List.map_map, List.map_map] at keys
  exact ordered.of_map_eq keys

theorem cancelItem_callbacks (timerId : Int) {items : List (TimerItem κ)}
    (callbacks : ∀ item ∈ items, item.callback.isSome) :
    ∀ item ∈ (cancelItem timerId items).2, item.callback.isSome := by
  intro item member
  have entry := List.mem_map_of_mem (f := fun item => (item.id, item.expireAt, item.callback)) member
  rw [cancelItem_map] at entry
  obtain ⟨old, origin, equal⟩ := List.mem_map.mp entry
  simp only [Prod.mk.injEq] at equal
  rw [← equal.2.2]
  exact callbacks old origin

theorem cancel_valid {timer : Timer κ} (valid : Valid timer) (timerId : Int) :
    Valid (cancel timer timerId).2 :=
  ⟨cancelItem_ordered timerId valid.ordered, cancelItem_callbacks timerId valid.callbacks⟩

theorem add_spec (timer : Timer κ) (now afterMs : Int) (cb : Option κ) :
    add heap timer now afterMs cb = (-1, timer) ∨ (cb.isSome ∧
      add heap timer now afterMs cb = (timer.nextId + 1, arm heap timer now afterMs 0 cb)) := by
  cases cb with
  | none => exact .inl (if_pos (.inl rfl))
  | some callback =>
      by_cases expired : afterMs ≤ 0
      · exact .inl (if_pos (.inr expired))
      · exact .inr ⟨rfl, if_neg (by simp [expired])⟩

theorem addRepeating_spec (timer : Timer κ) (now intervalMs : Int) (cb : Option κ) :
    addRepeating heap timer now intervalMs cb = (-1, timer) ∨ (cb.isSome ∧
      addRepeating heap timer now intervalMs cb =
        (timer.nextId + 1, arm heap timer now intervalMs intervalMs cb)) := by
  cases cb with
  | none => exact .inl (if_pos (.inl rfl))
  | some callback =>
      by_cases expired : intervalMs ≤ 0
      · exact .inl (if_pos (.inr expired))
      · exact .inr ⟨rfl, if_neg (by simp [expired])⟩

theorem add_valid {timer : Timer κ} (valid : Valid timer) (now afterMs : Int) (cb : Option κ) :
    Valid (add heap timer now afterMs cb).2 := by
  rcases add_spec heap timer now afterMs cb with refused | ⟨given, accepted⟩
  · rw [refused]
    exact valid
  · rw [accepted]
    exact arm_valid heap valid now afterMs 0 given

theorem addRepeating_valid {timer : Timer κ} (valid : Valid timer) (now intervalMs : Int)
    (cb : Option κ) : Valid (addRepeating heap timer now intervalMs cb).2 := by
  rcases addRepeating_spec heap timer now intervalMs cb with refused | ⟨given, accepted⟩
  · rw [refused]
    exact valid
  · rw [accepted]
    exact arm_valid heap valid now intervalMs intervalMs given

theorem call_valid {timer : Timer κ} (request : Call κ) (valid : Valid timer) :
    ∃ next, call heap timer request = some next ∧ Valid next := by
  cases request with
  | add now afterMs cb => exact ⟨_, rfl, add_valid heap valid now afterMs cb⟩
  | addRepeating now intervalMs cb => exact ⟨_, rfl, addRepeating_valid heap valid now intervalMs cb⟩
  | cancel timerId => exact ⟨_, rfl, cancel_valid valid timerId⟩
  | clear => exact ⟨_, rfl, isMinHeap_nil, by simp [clear]⟩
  | poll nowMs =>
      obtain ⟨next, left, fired, rearmed, run, final, -⟩ := poll_spec heap nowMs valid
      exact ⟨next, by simp [call, run], final⟩

theorem exec_call_valid (requests : List (Call κ)) :
    ∃ timer, exec (call heap) {} requests = some timer ∧ Valid timer :=
  exec_total (fun _ request valid => call_valid heap request valid) requests ⟨isMinHeap_nil, by simp⟩

/-- No sum or difference of a `poll` leaves the range of `int64_t`. -/
structure PollInRange (timer : Timer κ) (nowMs : Int) : Prop where
  rearmed : ∀ item ∈ live timer.items, item.expireAt ≤ nowMs → item.intervalMs > 0 →
    InInt64 (nowMs + item.intervalMs)
  returned : ∀ result ∈ poll heap timer nowMs, ∀ front ∈ result.timer.items.head?,
    InInt64 (front.expireAt - nowMs)

structure PollExact (timer : Timer κ) (nowMs : Int) (result : PollResult κ) : Prop where
  invoked : result.invoked.Perm ((live timer.items).filter fun item => item.expireAt ≤ nowMs)
  sorted : result.invoked.Pairwise fun first second => first.expireAt ≤ second.expireAt
  remaining : ∃ rearmed,
    List.Forall₂ (fun old new => Rearms timer.nextId (nowMs + old.intervalMs) old new)
      (result.invoked.filter TimerItem.isRepeating) rearmed ∧
    (live result.timer.items).Perm
      (((live timer.items).filter fun item => item.expireAt > nowMs) ++ rearmed)
  returned : live result.timer.items ≠ [] → 0 < result.returned ∧
    IsLeast {expireAt | ∃ item ∈ live result.timer.items, item.expireAt = expireAt}
      (nowMs + result.returned)
  idle : result.returned = -1 ↔ live result.timer.items = []

theorem Extraction.due_live {nowMs : Int} {items left fired : List (TimerItem κ)}
    (extraction : Extraction nowMs items left fired) :
    fired.Perm ((live items).filter fun item => item.expireAt ≤ nowMs) := by
  have taken : fired.filter (fun item => item.expireAt ≤ nowMs) = fired :=
    List.filter_eq_self.mpr fun item member => by simpa using extraction.due item member
  have kept : (live left).filter (fun item => item.expireAt ≤ nowMs) = [] := by
    rw [List.filter_eq_nil_iff]
    intro item member
    have late := extraction.late item (mem_live.mp member).1
    simp only [decide_eq_true_eq]
    omega
  have split := extraction.alive.filter fun item => item.expireAt ≤ nowMs
  rw [List.filter_append, taken, kept, List.append_nil] at split
  exact split.symm

theorem Extraction.late_live {nowMs : Int} {items left fired : List (TimerItem κ)}
    (extraction : Extraction nowMs items left fired) :
    (live left).Perm ((live items).filter fun item => item.expireAt > nowMs) := by
  have taken : fired.filter (fun item => item.expireAt > nowMs) = [] := by
    rw [List.filter_eq_nil_iff]
    intro item member
    have due := extraction.due item member
    simp only [decide_eq_true_eq]
    omega
  have kept : (live left).filter (fun item => item.expireAt > nowMs) = live left :=
    List.filter_eq_self.mpr fun item member => by
      simpa using extraction.late item (mem_live.mp member).1
  have split := extraction.alive.filter fun item => item.expireAt > nowMs
  rw [List.filter_append, taken, kept, List.nil_append] at split
  exact split.symm

/-- The front of the heap after a `poll` expires with a live item, though it may itself be dead. -/
theorem front_alive {nowMs : Int} {items left fired rearmed : List (TimerItem κ)} {front : TimerItem κ}
    {rest : List (TimerItem κ)} (extraction : Extraction nowMs items left fired)
    (alive : ∀ item ∈ rearmed, item.cancelled = false)
    (perm : (front :: rest).Perm (left ++ rearmed))
    (ordered : IsMinHeap TimerItem.expireAt (front :: rest)) :
    ∃ item ∈ live (front :: rest), item.expireAt = front.expireAt := by
  rcases List.mem_append.mp (perm.mem_iff.mp (List.mem_cons_self ..)) with old | new
  · cases left with
    | nil => cases old
    | cons top others =>
        have member : top ∈ front :: rest := perm.mem_iff.mpr (by simp)
        refine ⟨top, mem_live.mpr ⟨member, extraction.front top rfl⟩, ?_⟩
        exact Int.le_antisymm (extraction.heap.front_le front old) (ordered.front_le top member)
  · exact ⟨front, mem_live.mpr ⟨List.mem_cons_self .., alive front new⟩, rfl⟩

theorem untilFront_exact {nowMs : Int} {items left fired rearmed : List (TimerItem κ)} {next : Timer κ}
    (extraction : Extraction nowMs items left fired) (alive : ∀ item ∈ rearmed, item.cancelled = false)
    (perm : next.items.Perm (left ++ rearmed)) (ordered : IsMinHeap TimerItem.expireAt next.items)
    (late : ∀ item ∈ next.items, nowMs < item.expireAt)
    (range : ∀ front ∈ next.items.head?, InInt64 (front.expireAt - nowMs)) :
    (live next.items ≠ [] → 0 < untilFront next nowMs ∧
      IsLeast {expireAt | ∃ item ∈ live next.items, item.expireAt = expireAt}
        (nowMs + untilFront next nowMs)) ∧
    (untilFront next nowMs = -1 ↔ live next.items = []) := by
  obtain ⟨nextId, contents⟩ := next
  cases contents with
  | nil => simp [untilFront, live]
  | cons front rest =>
      have difference : untilFront ⟨nextId, front :: rest⟩ nowMs = front.expireAt - nowMs :=
        int64_of_inInt64 (range front rfl)
      have positive : nowMs < front.expireAt := late front (List.mem_cons_self ..)
      obtain ⟨least, member, equal⟩ := front_alive extraction alive perm ordered
      rw [difference]
      refine ⟨fun _ => ⟨by omega, ⟨least, member, by omega⟩, ?_⟩, ?_⟩
      · rintro expireAt ⟨item, found, rfl⟩
        have bound := ordered.front_le item (mem_live.mp found).1
        omega
      · exact iff_of_false (by omega) (List.ne_nil_of_mem member)

theorem exists_of_mem_right {α β : Type} {R : α → β → Prop} {as : List α} {bs : List β}
    (related : List.Forall₂ R as bs) {b : β} (member : b ∈ bs) : ∃ a ∈ as, R a b := by
  induction related with
  | nil => cases member
  | cons first _ ih =>
      rcases List.mem_cons.mp member with rfl | member
      · exact ⟨_, List.mem_cons_self .., first⟩
      · obtain ⟨a, found, holds⟩ := ih member
        exact ⟨a, List.mem_cons_of_mem _ found, holds⟩

theorem poll_pollExact {timer : Timer κ} {nowMs : Int} (valid : Valid timer)
    (range : PollInRange heap timer nowMs) :
    ∃ result, poll heap timer nowMs = some result ∧ PollExact timer nowMs result := by
  obtain ⟨next, left, fired, rearmed, run, final, extraction, perm, copies⟩ := poll_spec heap nowMs valid
  have exact_copies : List.Forall₂ (fun old new => Rearms timer.nextId (nowMs + old.intervalMs) old new)
      (fired.filter TimerItem.isRepeating) rearmed := by
    have sums : ∀ old ∈ fired.filter TimerItem.isRepeating,
        int64 (nowMs + old.intervalMs) = nowMs + old.intervalMs := by
      intro old member
      obtain ⟨member, repeating⟩ := List.mem_filter.mp member
      exact int64_of_inInt64 (range.rearmed old (mem_live.mpr (extraction.fired_live old member))
        (extraction.due old member) (by simpa [TimerItem.isRepeating] using repeating))
    refine ((List.forall₂_and_left _ _).mpr ⟨sums, copies⟩).imp ?_
    rintro old new ⟨sum, copy⟩
    rwa [sum] at copy
  have copied : ∀ item ∈ rearmed, item.cancelled = false ∧ nowMs < item.expireAt := by
    intro item member
    obtain ⟨old, origin, copy⟩ := exists_of_mem_right exact_copies member
    obtain ⟨origin, repeating⟩ := List.mem_filter.mp origin
    have interval : old.intervalMs > 0 := by simpa [TimerItem.isRepeating] using repeating
    rw [copy.copied]
    exact ⟨(extraction.fired_live old origin).2, by dsimp only; omega⟩
  have late : ∀ item ∈ next.items, nowMs < item.expireAt := by
    intro item member
    rcases List.mem_append.mp (perm.mem_iff.mp member) with old | new
    · exact extraction.late item old
    · exact (copied item new).2
  obtain ⟨least, none_left⟩ :=
    untilFront_exact extraction (fun item member => (copied item member).1) perm final.ordered late
      fun front member => range.returned _ run front member
  refine ⟨_, run, extraction.due_live, extraction.sorted, ⟨rearmed, exact_copies, ?_⟩, least, none_left⟩
  have split := perm.filter fun item => !item.cancelled
  change (live next.items).Perm (live (left ++ rearmed)) at split
  rw [live_append, live_eq_self fun item member => (copied item member).1] at split
  exact split.trans (extraction.late_live.append_right rearmed)

theorem poll_exact (requests : List (Call κ)) :
    ∃ timer, exec (call heap) {} requests = some timer ∧
      IsMinHeap TimerItem.expireAt timer.items ∧
      ∀ nowMs, PollInRange heap timer nowMs →
        ∃ result, poll heap timer nowMs = some result ∧ PollExact timer nowMs result := by
  obtain ⟨timer, run, valid⟩ := exec_call_valid heap requests
  exact ⟨timer, run, valid.ordered, fun nowMs range => poll_pollExact heap valid range⟩

theorem poll_exact_after_cancel :
    ∃ timer result, exec (call (sifting (@TimerItem.expireAt Nat))) {}
        [.add 0 100 (some 1), .addRepeating 0 200 (some 2), .cancel 1] = some timer ∧
      poll (sifting TimerItem.expireAt) timer 250 = some result ∧ PollExact timer 250 result := by
  obtain ⟨timer, run, -, polls⟩ := poll_exact (sifting (@TimerItem.expireAt Nat))
    [.add 0 100 (some 1), .addRepeating 0 200 (some 2), .cancel 1]
  have state : timer = ⟨2, [⟨1, 100, 0, some 1, true⟩, ⟨2, 200, 200, some 2, false⟩]⟩ :=
    Option.some.inj (run.symm.trans (by decide +kernel))
  have answer : poll (sifting (@TimerItem.expireAt Nat)) timer 250 =
      some ⟨⟨3, [⟨3, 450, 200, some 2, false⟩]⟩, [⟨2, 200, 200, some 2, false⟩], 200⟩ := by
    rw [state]
    decide +kernel
  have range : PollInRange (sifting (@TimerItem.expireAt Nat)) timer 250 := by
    constructor
    · rw [state]
      simp [live, InInt64]
    · rw [answer]
      simp [InInt64]
  obtain ⟨result, returned, exactly⟩ := polls 250 range
  exact ⟨timer, result, run, returned, exactly⟩

end Timer

end ServerFramework.Base
