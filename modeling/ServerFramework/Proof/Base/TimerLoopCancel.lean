import ServerFramework.Library.Tickets
import ServerFramework.Proof.Base.TimerRun
import ServerFramework.Proof.Base.TimerLoop

namespace ServerFramework.Base
open Library Library.Heap Timer

namespace TimerLoop

variable {κ : Type} (heap : HeapAlgorithms (@TimerItem.expireAt κ))

def CancelsEffective (loop : TimerLoop κ) : Prop :=
  ∀ call ∈ loop.cancels, call.timely = true → call.result = true ∧ call.id ∉ loop.invoked

/-! ## One increment at a time -/

/-- What an increment will store is still the next id. -/
structure Single (loop : TimerLoop κ) : Prop where
  one : loop.incrementing.length ≤ 1
  next : ∀ item ∈ loop.incrementing, item.id = loop.nextId + 1

theorem Single.keep {loop next : TimerLoop κ} (single : Single loop)
    (fewer : next.incrementing.Sublist loop.incrementing) (same : next.nextId = loop.nextId) : Single next := by
  refine ⟨fewer.length_le.trans single.one, ?_⟩
  rw [same]
  exact fun item member => single.next item (fewer.subset member)

theorem single_of_none {loop : TimerLoop κ} (none : loop.incrementing = []) : Single loop := by
  constructor <;> simp [none]

theorem single_of_one {loop : TimerLoop κ} {item : TimerItem κ} (one : loop.incrementing = [item])
    (fresh : item.id = loop.nextId + 1) : Single loop := by
  constructor <;> simp [one, fresh]

theorem Single.store {loop : TimerLoop κ} (single : Single loop) {i : Nat} {item : TimerItem κ}
    (here : loop.loading[i]? = some item) : item.id = loop.nextId + 1 ∧ Single (loop.store i item) := by
  have member : item ∈ loop.incrementing := List.mem_append_right _ (List.mem_of_getElem? here)
  refine ⟨single.next item member, single_of_none ?_⟩
  obtain ⟨inside, -⟩ := List.getElem?_eq_some_iff.mp here
  have one := single.one
  rw [incrementing, List.length_append] at one
  rw [← List.length_eq_zero_iff]
  change (loop.phase.loaded ++ loop.loading.eraseIdx i).length = 0
  rw [List.length_append, List.length_eraseIdx_of_lt inside]
  omega

theorem Single.storeRearm {loop : TimerLoop κ} (single : Single loop) {nt : TimerItem κ} {fired : List (TimerItem κ)}
    (storing : loop.phase = .storing nt fired) : nt.id = loop.nextId + 1 ∧ Single (loop.afterStore nt fired) := by
  have whole : loop.incrementing = nt :: loop.loading := by
    rw [incrementing, storing]
    rfl
  have one := single.one
  rw [whole, List.length_cons] at one
  have none : loop.loading = [] := List.length_eq_zero_iff.mp (by omega)
  exact ⟨single.next nt (by rw [whole]; exact List.mem_cons_self), single_of_none none⟩

theorem step_single {loop next : TimerLoop κ} {action : Action κ} (stepped : loop.step heap action = some next)
    (unraced : Unraced loop action) (single : Single loop) : Single next := by
  have aside : loop.loading.Sublist loop.incrementing := List.sublist_append_right ..
  cases step_effect heap stepped with
  | control running phase sleepMs hand loaded => exact single.keep (loaded.append_right _) rfl
  | load item fresh alone =>
      have none := List.append_eq_nil_iff.mp (alone unraced)
      refine single_of_one ?_ fresh
      change loop.phase.loaded ++ (loop.loading ++ [item]) = [item]
      rw [none.1, none.2]
      rfl
  | store here => exact (single.store here).2
  | @rearm now3 t fired hand alone =>
      have none := List.append_eq_nil_iff.mp (alone unraced)
      have one : (loop.afterRearm now3 t fired).incrementing = [loop.nt now3 t] := by
        rw [incrementing, afterRearm, none.2]
        rfl
      exact single_of_one one rfl
  | storeRearm storing => exact (single.storeRearm storing).2
  | queue | cancel => exact single.keep (.refl _) rfl
  | merge | fire | invoke | pushRearm => exact single.keep aside rfl

/-! ## Where the ids are -/

def ids (items : List (TimerItem κ)) : List Int := items.map TimerItem.id

def waiting (loop : TimerLoop κ) : List (TimerItem κ) := loop.pendingAdd ++ loop.adding

def held (loop : TimerLoop κ) : List (TimerItem κ) := loop.items ++ (loop.phase.hand ++ loop.waiting)

def carriers (loop : TimerLoop κ) : List (TimerItem κ) := live loop.items ++ (loop.phase.hand ++ loop.waiting)

def Revoked (loop : TimerLoop κ) (id : Int) : Prop := ∃ call ∈ loop.cancels, call.timely = true ∧ call.id = id

structure Tracked (loop : TimerLoop κ) : Prop where
  tickets : Tickets loop.nextId (ids loop.held) (ids loop.carriers) loop.invoked loop.Revoked
  honoured : ∀ call ∈ loop.cancels, call.timely = true → call.result = true
  queued : ids loop.pendingAdd ⊆ loop.returned
  gone : ∀ id ∈ loop.extracted, id ≤ loop.nextId ∧ id ∉ ids loop.waiting
  findable : ∀ id ∈ loop.returned, id ∈ loop.extracted ∨ id ∈ ids (loop.items ++ loop.pendingAdd)

theorem ids_append (items others : List (TimerItem κ)) : ids (items ++ others) = ids items ++ ids others :=
  List.map_append

theorem ids_perm {items others : List (TimerItem κ)} (same : items.Perm others) : (ids items).Perm (ids others) :=
  same.map _

theorem ids_subset {items others : List (TimerItem κ)} (fewer : items ⊆ others) : ids items ⊆ ids others :=
  List.map_subset _ fewer

theorem mem_missing {items left : List (TimerItem κ)} {id : Int} :
    id ∈ missing items left ↔ id ∈ ids items ∧ id ∉ ids left := by
  simp only [missing, ids, List.mem_map, List.mem_filter, List.all_eq_true, decide_eq_true_eq]
  constructor
  · rintro ⟨item, ⟨member, apart⟩, rfl⟩
    refine ⟨⟨item, member, rfl⟩, ?_⟩
    rintro ⟨other, among, same⟩
    exact apart other among same
  · rintro ⟨⟨item, member, rfl⟩, apart⟩
    exact ⟨item, ⟨member, fun other among same => apart ⟨other, among, same⟩⟩, rfl⟩

theorem initial_tracked : Tracked ({} : TimerLoop κ) where
  tickets := Tickets.none_issued.revoke fun _ ⟨_, member, _⟩ => absurd member List.not_mem_nil
  honoured _ member := absurd member List.not_mem_nil
  queued := List.nil_subset _
  gone _ member := absurd member List.not_mem_nil
  findable _ member := absurd member List.not_mem_nil

theorem waiting_apart {loop : TimerLoop κ} (tracked : Tracked loop) {id : Int} (member : id ∈ ids loop.items) :
    id ∉ ids loop.waiting := by
  have unique := tracked.tickets.unique
  rw [held, ids_append, ids_append] at unique
  intro also
  exact (List.nodup_append.mp unique).2.2 id member id (List.mem_append_right _ also) rfl

/-! ## One step -/

theorem Tracked.control {loop : TimerLoop κ} (tracked : Tracked loop) (running : Bool) (phase : LoopPhase κ)
    (sleepMs : Int) (hand : phase.hand.Sublist loop.phase.hand) :
    Tracked { loop with running := running, phase := phase, sleepMs := sleepMs } where
  tickets := by
    have fewer := hand.append (List.Sublist.refl loop.waiting)
    exact tracked.tickets.keep (subperm_map _ (fewer.append_left loop.items).subperm)
      (ids_subset (fewer.append_left (live loop.items)).subset)
  honoured := tracked.honoured
  queued := tracked.queued
  gone := tracked.gone
  findable := tracked.findable

theorem Tracked.load {loop : TimerLoop κ} (tracked : Tracked loop) (item : TimerItem κ) :
    Tracked (loop.afterLoad item) :=
  ⟨tracked.tickets, tracked.honoured, tracked.queued, tracked.gone, tracked.findable⟩

theorem Tracked.store {loop : TimerLoop κ} (tracked : Tracked loop) {i : Nat} {item : TimerItem κ}
    (fresh : item.id = loop.nextId + 1) : Tracked (loop.store i item) where
  tickets := by
    have counter : (loop.store i item).nextId = loop.nextId + 1 := fresh
    rw [counter]
    have more (items : List (TimerItem κ)) : (ids (items ++ (loop.phase.hand ++ (loop.pendingAdd ++
        (loop.adding ++ [item]))))).Perm ((loop.nextId + 1) :: ids (items ++ (loop.phase.hand ++ loop.waiting))) := by
      rw [← fresh, waiting]
      simp only [← List.append_assoc]
      exact ids_perm (List.perm_append_singleton item _)
    exact tracked.tickets.issue (more loop.items) (more (live loop.items)).subset
  honoured := tracked.honoured
  queued := tracked.queued
  gone := by
    intro id member
    obtain ⟨below, apart⟩ := tracked.gone id member
    refine ⟨?_, ?_⟩
    · change id ≤ item.id
      omega
    · intro again
      have more : ids (loop.store i item).waiting = ids loop.waiting ++ [loop.nextId + 1] := by
        rw [← fresh, waiting, waiting, ids, ids, ← List.map_singleton, ← List.map_append, List.append_assoc]
        rfl
      rw [more, List.mem_append, List.mem_singleton] at again
      rcases again with old | rfl
      · exact apart old
      · omega
  findable := tracked.findable

theorem Tracked.queue {loop : TimerLoop κ} (tracked : Tracked loop) {i : Nat} {item : TimerItem κ}
    (here : loop.adding[i]? = some item) : Tracked (loop.queue i item) := by
  have moved : (loop.queue i item).waiting.Perm loop.waiting := by
    obtain ⟨inside, rfl⟩ := List.getElem?_eq_some_iff.mp here
    rw [waiting, waiting, TimerLoop.queue, List.append_assoc]
    exact (List.getElem_cons_eraseIdx_perm inside).append_left loop.pendingAdd
  have same := moved.append_left loop.phase.hand
  refine ⟨?_, tracked.honoured, ?_, ?_, ?_⟩
  · exact tracked.tickets.keep (ids_perm (same.append_left loop.items)).subperm
      (ids_perm (same.append_left (live loop.items))).subset
  · have more : ids (loop.queue i item).pendingAdd = ids loop.pendingAdd ++ [item.id] := ids_append ..
    rw [more]
    exact List.append_subset.mpr ⟨List.subset_append_of_subset_left _ tracked.queued, List.subset_append_right ..⟩
  · intro id member
    obtain ⟨below, apart⟩ := tracked.gone id member
    exact ⟨below, fun again => apart ((ids_perm moved).mem_iff.mp again)⟩
  · intro id member
    have more : ids (loop.items ++ (loop.pendingAdd ++ [item])) = ids (loop.items ++ loop.pendingAdd) ++ [item.id] := by
      rw [← List.append_assoc, ids_append]
      rfl
    change id ∈ loop.extracted ∨ id ∈ ids (loop.items ++ (loop.pendingAdd ++ [item]))
    rw [more, List.mem_append]
    rcases List.mem_append.mp member with old | new
    · exact (tracked.findable id old).imp_right .inl
    · exact .inr (.inr new)

def CancelMerged (loop : TimerLoop κ) : Action κ → Prop
  | .cancel id => id ∉ ids loop.pendingAdd
  | _ => True

theorem cancel_ids (loop : TimerLoop κ) (id : Int) : ids (loop.cancel id).items = ids loop.items :=
  cancelItem_ids id loop.items

theorem Tracked.cancel {loop : TimerLoop κ} (tracked : Tracked loop) {id : Int} (merged : CancelMerged loop (.cancel id)) :
    Tracked (loop.cancel id) := by
  have present (member : id ∈ loop.returned ∧ id ∉ loop.extracted) : id ∈ ids loop.items := by
    have found := (tracked.findable id member.1).resolve_left member.2
    rw [ids_append, List.mem_append] at found
    exact found.resolve_right merged
  have same : ids (loop.cancel id).held = ids loop.held := by
    rw [held, ids_append, cancel_ids, ← ids_append]
    rfl
  have fewer : ids (loop.cancel id).carriers ⊆ ids loop.carriers :=
    ids_subset (append_subset_append (cancelItem_live id loop.items) (List.Subset.refl _))
  have kept := tracked.tickets.keep (List.Subperm.refl _) fewer
  rw [← same] at kept
  refine ⟨kept.revoke ?_, ?_, tracked.queued, tracked.gone, ?_⟩
  · rintro other ⟨call, member, timely, rfl⟩
    rcases List.mem_append.mp member with old | new
    · exact .inl ⟨call, old, timely, rfl⟩
    · rw [List.mem_singleton.mp new] at timely ⊢
      have here := present (of_decide_eq_true timely)
      obtain ⟨dead, among, found, cancelled⟩ := cancelItem_found (List.mem_map.mp here)
      have silent : dead.id ∉ ids (loop.cancel id).carriers := dead_apart kept.unique among cancelled
      rw [found] at silent
      exact .inr ⟨by rw [same, held, ids_append]; exact List.mem_append_left _ here, silent⟩
  · intro call member timely
    rcases List.mem_append.mp member with old | new
    · exact tracked.honoured call old timely
    · rw [List.mem_singleton.mp new] at timely ⊢
      exact (cancelItem_result id loop.items).mpr (present (of_decide_eq_true timely))
  · intro other member
    rw [ids_append, cancel_ids, ← ids_append]
    exact tracked.findable other member

theorem Tracked.merge {loop : TimerLoop κ} (tracked : Tracked loop) (hand : loop.phase.hand = [])
    (merged : (loop.afterMerge heap).items.Perm (loop.items ++ loop.pendingAdd)) :
    Tracked (loop.afterMerge heap) := by
  have same : (loop.afterMerge heap).held.Perm loop.held := by
    have whole : loop.held = loop.items ++ loop.pendingAdd ++ loop.adding := by
      rw [held, waiting, hand, List.nil_append, List.append_assoc]
    rw [whole]
    exact merged.append_right loop.adding
  refine ⟨tracked.tickets.keep (ids_perm same).subperm ?_, tracked.honoured, List.nil_subset _, ?_, ?_⟩
  · have alive : (live (loop.afterMerge heap).items).Perm (live loop.items ++ live loop.pendingAdd) := by
      rw [← live_append]
      exact merged.filter _
    refine ids_subset ?_
    have whole : loop.carriers = live loop.items ++ loop.pendingAdd ++ loop.adding := by
      rw [carriers, waiting, hand, List.nil_append, List.append_assoc]
    rw [whole]
    refine append_subset_append (fun _ member => ?_) (List.Subset.refl loop.adding)
    exact append_subset_append (List.Subset.refl _) List.filter_sublist.subset (alive.subset member)
  · intro id member
    obtain ⟨below, apart⟩ := tracked.gone id member
    refine ⟨below, fun again => apart ?_⟩
    rw [waiting, ids_append]
    exact List.mem_append_right _ again
  · intro id member
    refine (tracked.findable id member).imp_right ?_
    intro found
    change id ∈ ids ((loop.afterMerge heap).items ++ [])
    rw [List.append_nil]
    exact (ids_perm merged).mem_iff.mpr found

theorem Tracked.fire {loop : TimerLoop κ} (tracked : Tracked loop) (hand : loop.phase.hand = []) {now2 : Int}
    {left fired : List (TimerItem κ)} (extraction : Extraction now2 loop.items left fired) :
    Tracked (loop.afterFire left fired) := by
  have fewer : (loop.afterFire left fired).held.Subperm loop.held := by
    rw [held, held, hand, List.nil_append, ← List.append_assoc]
    exact (List.subperm_append_right _).mpr extraction.parts
  refine ⟨tracked.tickets.keep (subperm_map _ fewer) ?_, tracked.honoured, tracked.queued, ?_, ?_⟩
  · refine ids_subset ?_
    rw [carriers, carriers, hand, List.nil_append, ← List.append_assoc]
    exact append_subset_append (List.perm_append_comm.trans extraction.alive.symm).subset (List.Subset.refl _)
  · intro id member
    rcases List.mem_append.mp member with old | new
    · exact tracked.gone id old
    · have here := (mem_missing.mp new).1
      have known := tracked.tickets.known id
      rw [held, ids_append] at known
      exact ⟨known (List.mem_append_left _ here), waiting_apart tracked here⟩
  · intro id member
    change id ∈ loop.extracted ++ missing loop.items left ∨ id ∈ ids (left ++ loop.pendingAdd)
    rw [List.mem_append, mem_missing, ids_append, List.mem_append]
    have found := tracked.findable id member
    rw [ids_append, List.mem_append] at found
    by_cases remains : id ∈ ids left
    · exact .inr (.inl remains)
    · rcases found with old | here | pending
      · exact .inl (.inl old)
      · exact .inl (.inr ⟨here, remains⟩)
      · exact .inr (.inr pending)

theorem Tracked.invoke {loop : TimerLoop κ} (tracked : Tracked loop) {t : TimerItem κ} {fired : List (TimerItem κ)}
    (hand : loop.phase.hand = t :: fired) : Tracked (loop.afterInvoke t fired) := by
  have parted (items : List (TimerItem κ)) : (items ++ (loop.phase.hand ++ loop.waiting)).Perm
      (t :: (items ++ (fired ++ loop.waiting))) := by
    rw [hand]
    exact List.perm_middle
  have alive : t ∈ loop.carriers := (parted _).mem_iff.mpr List.mem_cons_self
  have still : (loop.afterInvoke t fired).carriers ⊆ loop.carriers :=
    fun _ member => (parted _).mem_iff.mpr (List.mem_cons_of_mem _ member)
  refine ⟨?_, tracked.honoured, tracked.queued, tracked.gone, tracked.findable⟩
  have used := tracked.tickets.use (ids_perm (parted loop.items)) (List.mem_map_of_mem alive) (ids_subset still)
  cases given : t.callback.isSome with
  | true =>
      have invoked : (loop.afterInvoke t fired).invoked = loop.invoked ++ [t.id] := if_pos given
      rw [invoked]
      exact used
  | false =>
      have invoked : (loop.afterInvoke t fired).invoked = loop.invoked := if_neg (by simp [given])
      rw [invoked]
      exact tracked.tickets.keep
        ((List.sublist_cons_self _ _).subperm.trans (ids_perm (parted loop.items)).symm.subperm) (ids_subset still)

theorem Tracked.rearm {loop : TimerLoop κ} (tracked : Tracked loop) {now3 : Int} {t : TimerItem κ}
    {fired : List (TimerItem κ)} (hand : loop.phase.hand = fired) : Tracked (loop.afterRearm now3 t fired) := by
  subst hand
  exact ⟨tracked.tickets, tracked.honoured, tracked.queued, tracked.gone, tracked.findable⟩

theorem Tracked.storeRearm {loop : TimerLoop κ} (tracked : Tracked loop) {nt : TimerItem κ} {fired : List (TimerItem κ)}
    (hand : loop.phase.hand = fired) (fresh : nt.id = loop.nextId + 1) : Tracked (loop.afterStore nt fired) := by
  have more (items : List (TimerItem κ)) : (ids (items ++ ((nt :: fired) ++ loop.waiting))).Perm
      ((loop.nextId + 1) :: ids (items ++ (fired ++ loop.waiting))) := by
    rw [← fresh]
    exact ids_perm List.perm_middle
  have counter : (loop.afterStore nt fired).nextId = loop.nextId + 1 := fresh
  subst hand
  refine ⟨?_, tracked.honoured, tracked.queued, ?_, tracked.findable⟩
  · rw [counter]
    exact tracked.tickets.issue (more loop.items) (more (live loop.items)).subset
  · intro id member
    obtain ⟨below, apart⟩ := tracked.gone id member
    rw [counter]
    exact ⟨by omega, apart⟩

theorem Tracked.pushRearm {loop : TimerLoop κ} (tracked : Tracked loop) {nt : TimerItem κ} {fired : List (TimerItem κ)}
    (hand : loop.phase.hand = nt :: fired) (ordered : IsMinHeap TimerItem.expireAt loop.items) :
    Tracked (loop.afterPush heap nt fired) := by
  have pushed : (loop.afterPush heap nt fired).items.Perm (nt :: loop.items) :=
    (heap.push_perm _ nt ordered).trans (List.perm_append_singleton nt loop.items)
  have parted (items : List (TimerItem κ)) : (nt :: items ++ (fired ++ loop.waiting)).Perm
      (items ++ (loop.phase.hand ++ loop.waiting)) := by
    rw [hand]
    exact List.perm_middle.symm
  have alive : live (loop.afterPush heap nt fired).items ⊆ nt :: live loop.items := by
    intro item member
    have fewer : live (nt :: loop.items) ⊆ nt :: live loop.items := by
      rw [live, List.filter_cons]
      split
      · exact List.Subset.refl _
      · exact List.subset_cons_self ..
    exact fewer ((pushed.filter _).mem_iff.mp member)
  refine ⟨?_, tracked.honoured, tracked.queued, tracked.gone, ?_⟩
  · refine tracked.tickets.keep (ids_perm ((pushed.append_right _).trans (parted loop.items))).subperm (ids_subset ?_)
    exact fun item member => (parted (live loop.items)).subset
      (append_subset_append alive (List.Subset.refl _) member)
  · intro id member
    refine (tracked.findable id member).imp_right ?_
    intro found
    exact (ids_perm (pushed.append_right _)).mem_iff.mpr (List.mem_cons_of_mem _ found)

theorem step_tracked {loop next : TimerLoop κ} {action : Action κ} (stepped : loop.step heap action = some next)
    (ready : PushReady loop action) (merged : CancelMerged loop action)
    (ordered : IsMinHeap TimerItem.expireAt loop.items) (single : Single loop) (tracked : Tracked loop) :
    Tracked next := by
  cases step_effect heap stepped with
  | control running phase sleepMs hand => exact tracked.control running phase sleepMs hand
  | load item => exact tracked.load item
  | store here => exact tracked.store (single.store here).1
  | queue here => exact tracked.queue here
  | cancel id => exact tracked.cancel merged
  | merge running some_pending hand =>
      exact tracked.merge heap hand (pushed_batch heap some_pending (ready running some_pending)).2
  | fire hand taken => exact tracked.fire hand (extract_extraction heap ordered taken)
  | invoke hand => exact tracked.invoke hand
  | rearm now3 t hand => exact tracked.rearm hand
  | storeRearm storing => exact tracked.storeRearm (by rw [storing]; rfl) (single.storeRearm storing).1
  | pushRearm hand => exact tracked.pushRearm heap hand ordered

/-! ## Whole runs -/

theorem Tracked.effective {loop : TimerLoop κ} (tracked : Tracked loop) : CancelsEffective loop :=
  fun call member timely =>
    ⟨tracked.honoured call member timely, (tracked.tickets.silent call.id ⟨call, member, timely, rfl⟩).2.1⟩

/-- A timer that waits in `pending_add` can be cancelled by its id but is not found. -/
theorem step_merged {loop next : TimerLoop κ} {action : Action κ} (stepped : loop.step heap action = some next)
    (tracked : Tracked loop) (effective : CancelsEffective next) : CancelMerged loop action := by
  cases action with
  | cancel id =>
      cases stepped
      intro pending
      have waits : id ∈ ids loop.waiting := by
        rw [waiting, ids_append]
        exact List.mem_append_left _ pending
      have timely : id ∈ loop.returned ∧ id ∉ loop.extracted :=
        ⟨tracked.queued pending, fun taken => (tracked.gone id taken).2 waits⟩
      have result := (effective _ (List.mem_append_right _ List.mem_cons_self) (decide_eq_true timely)).1
      exact waiting_apart tracked ((cancelItem_result id loop.items).mp result) waits
  | _ => trivial

theorem cancel_effective_iff (actions : List (Action κ)) (loop : TimerLoop κ)
    (ran : exec (step heap) {} actions = some loop) (ready : Respects PushReady (step heap) {} actions)
    (unraced : Respects Unraced (step heap) {} actions) :
    (∀ n earlier, exec (step heap) {} (actions.take n) = some earlier → CancelsEffective earlier) ↔
      Respects CancelMerged (step heap) {} actions := by
  apply always_iff_respects_of
    (I := fun loop => IsMinHeap TimerItem.expireAt loop.items ∧ Single loop ∧ Tracked loop) _ _ _ (ready.and unraced) ran
  · exact ⟨isMinHeap_nil, single_of_none rfl, initial_tracked⟩
  · rintro before action after stepped ⟨ready, unraced⟩ merged ⟨ordered, single, tracked⟩
    exact ⟨step_ordered heap stepped ready ordered, step_single heap stepped unraced single,
      step_tracked heap stepped ready merged ordered single tracked⟩
  · intro state holds
    exact holds.2.2.effective
  · intro before action after stepped holds effective
    exact step_merged heap stepped holds.2.2 effective

instance (loop : TimerLoop κ) : ∀ action, Decidable (CancelMerged loop action)
  | .cancel id => inferInstanceAs (Decidable (id ∉ ids loop.pendingAdd))
  | .start | .stop | .add .. | .addRepeating .. | .store _ | .queue _ | .merge | .rest _ | .fire _ | .invoke | .rearm _
  | .storeRearm | .pushRearm => isTrue trivial

instance (loop : TimerLoop κ) : ∀ action, Decidable (Unraced loop action)
  | .add .. | .addRepeating .. => inferInstanceAs (Decidable (loop.incrementing = []))
  | .rearm _ => inferInstanceAs (Decidable (loop.phase.loads = true → loop.incrementing = []))
  | .start | .stop | .store _ | .queue _ | .cancel _ | .merge | .rest _ | .fire _ | .invoke | .storeRearm | .pushRearm =>
      isTrue trivial

theorem cancel_effective_after_merge :
    ∃ loop, exec (step (sifting (@TimerItem.expireAt Nat))) {}
        [.start, .add 0 10 (some 1), .store 0, .queue 0, .merge, .addRepeating 5 10 (some 2), .store 0, .cancel 1,
          .queue 0, .rest 0, .fire 20, .invoke, .merge, .rest 20, .fire 30, .invoke, .rearm 30, .storeRearm, .pushRearm,
          .cancel 3] = some loop ∧
      loop.cancels = [⟨1, true, true⟩, ⟨3, false, true⟩] ∧ loop.invoked = [2] ∧ CancelsEffective loop := by
  obtain ⟨loop, ran, cancels, invoked⟩ : ∃ loop, exec (step (sifting (@TimerItem.expireAt Nat))) {}
      [.start, .add 0 10 (some 1), .store 0, .queue 0, .merge, .addRepeating 5 10 (some 2), .store 0, .cancel 1,
        .queue 0, .rest 0, .fire 20, .invoke, .merge, .rest 20, .fire 30, .invoke, .rearm 30, .storeRearm, .pushRearm,
        .cancel 3] = some loop ∧
      loop.cancels = [⟨1, true, true⟩, ⟨3, false, true⟩] ∧ loop.invoked = [2] := ⟨_, rfl, rfl, rfl⟩
  have always := (cancel_effective_iff _ _ loop ran (push_ready_of_one_pending _ (by decide)) (by decide)).mpr
    (by decide)
  exact ⟨loop, ran, cancels, invoked, always 20 loop ran⟩

theorem cancel_before_merge_lost :
    ∃ loop, exec (step (sifting (@TimerItem.expireAt Nat))) {}
        [.start, .add 0 10 (some 1), .store 0, .queue 0, .cancel 1, .merge, .rest 0, .fire 20, .invoke] = some loop ∧
      loop.cancels = [⟨1, true, false⟩] ∧ loop.invoked = [1] ∧ ¬ CancelsEffective loop := by
  refine ⟨_, rfl, rfl, rfl, ?_⟩
  intro effective
  have result := (effective ⟨1, true, false⟩ (by decide) rfl).1
  cases result

/-- Two increments of `next_id` overlap: both timers get the id 1, and the cancelled one is not the one that runs. -/
example : ∃ loop, exec (step (sifting (@TimerItem.expireAt Nat))) {}
    [.start, .add 0 10 (some 1), .add 0 10 (some 2), .store 0, .queue 0, .merge, .store 0, .queue 0, .cancel 1, .rest 0,
      .fire 20, .invoke, .merge, .rest 20, .fire 40, .invoke] = some loop ∧
    loop.returned = [1, 1] ∧ loop.cancels = [⟨1, true, true⟩] ∧ loop.invoked = [1] := ⟨_, rfl, rfl, rfl, rfl⟩

end TimerLoop

end ServerFramework.Base
