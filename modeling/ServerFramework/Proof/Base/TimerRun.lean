import ServerFramework.Base.TimerRun
import ServerFramework.Proof.Base.Timer
import Mathlib.Data.List.Nodup

namespace ServerFramework.Base
open Library Library.Heap Timer

/-! ## What the log says -/

def Silenced (log : List TimerEvent) (timerId : Int) : Prop :=
  ∃ k, log[k]? = some (.cancelled timerId) ∧ .registered timerId ∈ log.take k

def CancelledNeverFire (log : List TimerEvent) : Prop :=
  ∀ k timerId, log[k]? = some (.invoked timerId) → ¬ Silenced (log.take k) timerId

theorem getElem?_concat {log : List TimerEvent} {event found : TimerEvent} {k : Nat}
    (located : (log ++ [event])[k]? = some found) :
    (log[k]? = some found ∧ (log ++ [event]).take k = log.take k) ∨
    (found = event ∧ (log ++ [event]).take k = log) := by
  by_cases inside : k < log.length
  · rw [List.getElem?_append_left inside] at located
    exact .inl ⟨located, List.take_append_of_le_length (Nat.le_of_lt inside)⟩
  · have bound := (List.getElem?_eq_some_iff.mp located).1
    have last : k = log.length := by
      rw [List.length_append, List.length_singleton] at bound
      omega
    subst last
    refine .inr ⟨?_, List.take_left' rfl⟩
    simpa using located.symm

theorem silenced_concat {log : List TimerEvent} {event : TimerEvent} {timerId : Int}
    (silenced : Silenced (log ++ [event]) timerId) :
    Silenced log timerId ∨ (event = .cancelled timerId ∧ .registered timerId ∈ log) := by
  obtain ⟨k, located, registered⟩ := silenced
  rcases getElem?_concat located with ⟨old, before⟩ | ⟨new, before⟩
  · exact .inl ⟨k, old, before ▸ registered⟩
  · exact .inr ⟨new.symm, before ▸ registered⟩

theorem Silenced.registered {log : List TimerEvent} {timerId : Int} (silenced : Silenced log timerId) :
    .registered timerId ∈ log := by
  obtain ⟨k, -, registered⟩ := silenced
  exact List.mem_of_mem_take registered

theorem cancelledNeverFire_concat {log : List TimerEvent} {event : TimerEvent}
    (before : CancelledNeverFire log)
    (allowed : ∀ timerId, event = .invoked timerId → ¬ Silenced log timerId) :
    CancelledNeverFire (log ++ [event]) := by
  intro k timerId located
  rcases getElem?_concat located with ⟨old, same⟩ | ⟨new, same⟩
  · rw [same]
    exact before k timerId old
  · rw [same]
    exact allowed timerId new.symm

/-! ## Where a callback can still be called from -/

def Activation.held {κ : Type} (activation : Activation κ) : List (TimerItem κ) :=
  activation.current.toList ++ activation.pending

def Activation.carriers {κ : Type} (activation : Activation κ) : List (TimerItem κ) :=
  activation.current.toList.filter TimerItem.isRepeating ++ activation.pending

theorem Activation.carriers_subset {κ : Type} (activation : Activation κ) :
    activation.carriers ⊆ activation.held := by
  intro item member
  rcases List.mem_append.mp member with current | pending
  · exact List.mem_append_left _ (List.mem_filter.mp current).1
  · exact List.mem_append_right _ pending

namespace TimerRun

variable {κ : Type} (heap : HeapAlgorithms (@TimerItem.expireAt κ))

def held (run : TimerRun κ) : List (TimerItem κ) :=
  run.timer.items ++ run.activations.flatMap Activation.held

def carriers (run : TimerRun κ) : List (TimerItem κ) :=
  live run.timer.items ++ run.activations.flatMap Activation.carriers

theorem carriers_subset_held (run : TimerRun κ) : run.carriers ⊆ run.held := by
  intro item member
  rcases List.mem_append.mp member with alive | active
  · exact List.mem_append_left _ (mem_live.mp alive).1
  · obtain ⟨activation, among, carrier⟩ := List.mem_flatMap.mp active
    exact List.mem_append_right _
      (List.mem_flatMap.mpr ⟨activation, among, activation.carriers_subset carrier⟩)

structure Sound (run : TimerRun κ) : Prop where
  valid : run.timer.Valid
  counter : 0 ≤ run.timer.nextId
  callbacks : ∀ item ∈ run.held, item.callback.isSome
  ids : ∀ item ∈ run.held,
    item.id ≤ run.timer.nextId ∧ run.registration item.id ≤ run.timer.nextId
  unique : (run.held.map fun item => run.registration item.id).Nodup
  registered : ∀ timerId, .registered timerId ∈ run.log →
    timerId ≤ run.timer.nextId ∧ run.registration timerId = timerId
  silent : ∀ timerId, Silenced run.log timerId →
    ∀ item ∈ run.carriers, run.registration item.id ≠ timerId
  safe : CancelledNeverFire run.log

theorem Sound.drop {run : TimerRun κ} (sound : Sound run) {items : List (TimerItem κ)}
    {activations : List (Activation κ)} (valid : Valid ⟨run.timer.nextId, items⟩)
    (fewer : (items ++ activations.flatMap Activation.held).Subperm run.held)
    (carried : live items ++ activations.flatMap Activation.carriers ⊆ run.carriers) :
    Sound { run with timer := ⟨run.timer.nextId, items⟩, activations } where
  valid := valid
  counter := sound.counter
  callbacks item member := sound.callbacks item (fewer.subset member)
  ids item member := sound.ids item (fewer.subset member)
  unique := by
    obtain ⟨kept, same, part⟩ := fewer
    exact (same.map _).nodup_iff.mp (sound.unique.sublist (part.map _))
  registered := sound.registered
  silent timerId silenced item member := sound.silent timerId silenced item (carried member)
  safe := sound.safe

theorem Sound.retire {run : TimerRun κ} (sound : Sound run) {activations : List (Activation κ)}
    (fewer : (activations.flatMap Activation.held).Subperm (run.activations.flatMap Activation.held))
    (carried : activations.flatMap Activation.carriers ⊆ run.activations.flatMap Activation.carriers) :
    Sound { run with activations } :=
  sound.drop sound.valid ((List.subperm_append_left _).mpr fewer)
    (List.append_subset.mpr ⟨List.subset_append_left _ _,
      List.Subset.trans carried (List.subset_append_right _ _)⟩)

theorem Sound.record {run : TimerRun κ} (sound : Sound run) {event : TimerEvent}
    (keeps : ∀ timerId, event ≠ .cancelled timerId)
    (known : ∀ timerId, event = .registered timerId →
      timerId ≤ run.timer.nextId ∧ run.registration timerId = timerId)
    (allowed : ∀ timerId, event = .invoked timerId → ¬ Silenced run.log timerId) :
    Sound { run with log := run.log ++ [event] } :=
  { sound with
    registered := by
      intro timerId member
      rcases List.mem_append.mp member with old | new
      · exact sound.registered timerId old
      · exact known timerId (List.mem_singleton.mp new).symm
    silent := by
      intro timerId silenced
      rcases silenced_concat silenced with old | ⟨new, -⟩
      · exact sound.silent timerId old
      · exact absurd new (keeps timerId)
    safe := cancelledNeverFire_concat sound.safe allowed }

theorem Sound.arm {run : TimerRun κ} (sound : Sound run) (now afterMs intervalMs : Int) {cb : Option κ}
    (given : cb.isSome) {root : Int} (known : root ≤ run.timer.nextId + 1)
    (fresh : root ∉ run.held.map fun item => run.registration item.id)
    (heard : ¬ Silenced run.log root) :
    Sound { run with
      timer := run.timer.arm heap now afterMs intervalMs cb
      registration := Function.update run.registration (run.timer.nextId + 1) root } := by
  let item : TimerItem κ := ⟨run.timer.nextId + 1, int64 (now + afterMs), intervalMs, cb, false⟩
  have perm : (run.timer.arm heap now afterMs intervalMs cb).items.Perm (run.timer.items ++ [item]) :=
    arm_perm heap sound.valid.ordered now afterMs intervalMs cb
  let next : TimerRun κ := { run with
    timer := run.timer.arm heap now afterMs intervalMs cb
    registration := Function.update run.registration (run.timer.nextId + 1) root }
  have old : ∀ timerId, timerId ≤ run.timer.nextId →
      next.registration timerId = run.registration timerId :=
    fun timerId bound => Function.update_of_ne (by omega) root run.registration
  have new : next.registration item.id = root := Function.update_self ..
  have count : next.timer.nextId = run.timer.nextId + 1 := rfl
  have added : next.held.Perm (item :: run.held) := by
    refine (perm.append_right _).trans ?_
    rw [List.append_assoc, List.singleton_append]
    exact List.perm_middle
  change Sound next
  constructor
  · exact arm_valid heap sound.valid now afterMs intervalMs given
  · have positive := sound.counter
    omega
  · intro other member
    rcases List.mem_cons.mp (added.mem_iff.mp member) with rfl | held
    · exact given
    · exact sound.callbacks other held
  · intro other member
    rcases List.mem_cons.mp (added.mem_iff.mp member) with rfl | held
    · exact ⟨Int.le_refl _, by rw [new]; exact known⟩
    · have bounds := sound.ids other held
      rw [old _ bounds.1, count]
      omega
  · refine (added.map _).nodup_iff.mpr ?_
    have same : run.held.map (fun item => next.registration item.id) =
        run.held.map fun item => run.registration item.id :=
      List.map_congr_left fun other member => old _ (sound.ids other member).1
    rw [List.map_cons, same, new]
    exact List.nodup_cons.mpr ⟨fresh, sound.unique⟩
  · intro timerId member
    have known := sound.registered timerId member
    rw [old _ known.1, count]
    exact ⟨by omega, known.2⟩
  · intro timerId silenced other member
    have cases : other = item ∨ other ∈ run.carriers := by
      rcases List.mem_append.mp member with alive | active
      · obtain ⟨found, awake⟩ := mem_live.mp alive
        rcases List.mem_append.mp (perm.mem_iff.mp found) with among | last
        · exact .inr (List.mem_append_left _ (mem_live.mpr ⟨among, awake⟩))
        · exact .inl (List.mem_singleton.mp last)
      · exact .inr (List.mem_append_right _ active)
    rcases cases with rfl | carrier
    · rw [new]
      rintro rfl
      exact heard silenced
    · rw [old _ (sound.ids other (run.carriers_subset_held carrier)).1]
      exact sound.silent timerId silenced other carrier
  · exact sound.safe

theorem Sound.register {run : TimerRun κ} (sound : Sound run) (now afterMs intervalMs : Int)
    {cb : Option κ} (given : cb.isSome) :
    Sound { run with
      timer := run.timer.arm heap now afterMs intervalMs cb
      registration := Function.update run.registration (run.timer.nextId + 1) (run.timer.nextId + 1)
      log := run.log ++ [.registered (run.timer.nextId + 1)] } := by
  have fresh : run.timer.nextId + 1 ∉ run.held.map fun item => run.registration item.id := by
    intro member
    obtain ⟨item, held, equal⟩ := List.mem_map.mp member
    have bound := (sound.ids item held).2
    omega
  have heard : ¬ Silenced run.log (run.timer.nextId + 1) := by
    intro silenced
    have bound := (sound.registered _ silenced.registered).1
    omega
  refine (sound.arm heap now afterMs intervalMs given (Int.le_refl _) fresh heard).record
    (by simp) ?_ (by simp)
  rintro timerId ⟨⟩
  exact ⟨Int.le_refl _, Function.update_self ..⟩

theorem Sound.rearm {run : TimerRun κ} (sound : Sound run) (nowMs : Int) {t : TimerItem κ}
    {activations : List (Activation κ)} (given : t.callback.isSome)
    (parts : run.activations.flatMap Activation.held = t :: activations.flatMap Activation.held)
    (carried : activations.flatMap Activation.carriers ⊆ run.activations.flatMap Activation.carriers)
    (carrier : t.intervalMs > 0 → t ∈ run.carriers) :
    Sound { run.rearm heap nowMs t with activations } := by
  have whole : run.held.Perm (t :: (run.timer.items ++ activations.flatMap Activation.held)) := by
    rw [held, parts]
    exact List.perm_middle
  have rest : Sound { run with activations } :=
    sound.retire (by rw [parts]; exact (List.sublist_cons_self _ _).subperm) carried
  by_cases repeating : t.intervalMs > 0
  · have unique := (whole.map fun item => run.registration item.id).nodup_iff.mp sound.unique
    have member : t ∈ run.held := whole.mem_iff.mpr (List.mem_cons_self ..)
    have bound : run.registration t.id ≤ run.timer.nextId + 1 := by
      have known := (sound.ids t member).2
      omega
    have armed := rest.arm heap nowMs t.intervalMs t.intervalMs given bound
      (List.nodup_cons.mp unique).1 fun silenced =>
        sound.silent _ silenced t (carrier repeating) rfl
    simpa only [TimerRun.rearm, Timer.rearm, if_pos repeating] using armed
  · simpa only [TimerRun.rearm, Timer.rearm, if_neg repeating] using rest

/-! ## Cancelling -/

/-- A cancel that finds the item it is meant for, or for whose id nothing is left to call. -/
def CancelInTime (run : TimerRun κ) : TimerAction κ → Prop
  | .call (.cancel timerId) =>
      (∃ item ∈ run.timer.items, item.id = timerId) ∨
      ∀ item ∈ run.carriers, run.registration item.id ≠ timerId
  | _ => True

theorem carrier_ne_dead {run : TimerRun κ}
    (unique : (run.held.map fun item => run.registration item.id).Nodup) {dead item : TimerItem κ}
    (among : dead ∈ run.timer.items) (cancelled : dead.cancelled = true) (carrier : item ∈ run.carriers) :
    run.registration item.id ≠ run.registration dead.id := by
  intro equal
  refine dead_apart unique among cancelled (List.mem_map.mpr ⟨item, ?_, equal⟩)
  rcases List.mem_append.mp carrier with alive | active
  · exact List.mem_append_left _ alive
  · obtain ⟨activation, running, carried⟩ := List.mem_flatMap.mp active
    exact List.mem_append_right _ (List.mem_flatMap.mpr ⟨activation, running, activation.carriers_subset carried⟩)

theorem Sound.cancel {run : TimerRun κ} (sound : Sound run) {timerId : Int}
    (inTime : CancelInTime run (.call (.cancel timerId))) :
    Sound { run with
      timer := (run.timer.cancel timerId).2
      log := run.log ++ [.cancelled timerId] } := by
  let next : TimerRun κ := { run with
    timer := (run.timer.cancel timerId).2
    log := run.log ++ [.cancelled timerId] }
  let entry : TimerItem κ → Int × Int × Option κ := fun item => (item.id, item.expireAt, item.callback)
  have entries : next.held.map entry = run.held.map entry := by
    rw [held, held, List.map_append, List.map_append]
    exact congrArg (· ++ _) (cancelItem_map timerId run.timer.items)
  have origin : ∀ item ∈ next.held, ∃ old ∈ run.held, old.id = item.id ∧ old.callback = item.callback := by
    intro item member
    have listed := List.mem_map_of_mem (f := entry) member
    rw [entries] at listed
    obtain ⟨old, among, equal⟩ := List.mem_map.mp listed
    simp only [entry, Prod.mk.injEq] at equal
    exact ⟨old, among, equal.1, equal.2.2⟩
  have roots : next.held.map (fun item => next.registration item.id) =
      run.held.map fun item => run.registration item.id := by
    have mapped := congrArg (List.map fun listed => run.registration listed.1) entries
    rwa [List.map_map, List.map_map] at mapped
  have fewer : next.carriers ⊆ run.carriers := by
    intro item member
    rcases List.mem_append.mp member with alive | active
    · exact List.mem_append_left _ (cancelItem_live timerId _ alive)
    · exact List.mem_append_right _ active
  have unique : (next.held.map fun item => next.registration item.id).Nodup := roots ▸ sound.unique
  change Sound next
  refine ⟨cancel_valid sound.valid timerId, sound.counter, ?_, ?_, unique, ?_, ?_, ?_⟩
  · intro item member
    obtain ⟨old, among, -, same⟩ := origin item member
    exact same ▸ sound.callbacks old among
  · intro item member
    obtain ⟨old, among, same, -⟩ := origin item member
    exact same ▸ sound.ids old among
  · intro other member
    have old : .registered other ∈ run.log := by simpa [next] using member
    exact sound.registered other old
  · intro other silenced item member
    rcases silenced_concat silenced with old | ⟨new, registered⟩
    · exact sound.silent other old item (fewer member)
    obtain rfl := TimerEvent.cancelled.inj new
    rcases inTime with present | none_left
    · obtain ⟨dead, among, sameId, cancelled⟩ := cancelItem_found present
      have root : next.registration dead.id = timerId := by
        rw [sameId]
        exact (sound.registered timerId registered).2
      rw [← root]
      exact carrier_ne_dead unique among cancelled member
    · exact none_left item (fewer member)
  · exact cancelledNeverFire_concat sound.safe (by simp)

/-! ## Every step -/

theorem register_sound {run : TimerRun κ} (sound : Sound run) (now afterMs intervalMs : Int)
    {cb : Option κ} (given : cb.isSome) :
    Sound (run.register (run.timer.nextId + 1, run.timer.arm heap now afterMs intervalMs cb)) := by
  have accepted : run.timer.nextId + 1 ≠ -1 := by
    have positive := sound.counter
    omega
  rw [TimerRun.register, if_neg accepted]
  exact sound.register heap now afterMs intervalMs given

theorem add_sound {run : TimerRun κ} (sound : Sound run) (now afterMs : Int) (cb : Option κ) :
    Sound (run.register (run.timer.add heap now afterMs cb)) := by
  rcases add_spec heap run.timer now afterMs cb with refused | ⟨given, accepted⟩
  · rw [refused]
    exact sound
  · rw [accepted]
    exact register_sound heap sound now afterMs 0 given

theorem addRepeating_sound {run : TimerRun κ} (sound : Sound run) (now intervalMs : Int)
    (cb : Option κ) : Sound (run.register (run.timer.addRepeating heap now intervalMs cb)) := by
  rcases addRepeating_spec heap run.timer now intervalMs cb with refused | ⟨given, accepted⟩
  · rw [refused]
    exact sound
  · rw [accepted]
    exact register_sound heap sound now intervalMs intervalMs given

theorem perform_sound {run next : TimerRun κ} {request : Call κ}
    (performed : run.perform heap request = some next) (inTime : CancelInTime run (.call request))
    (sound : Sound run) : Sound next := by
  cases request with
  | add now afterMs cb =>
      obtain rfl := Option.some.inj performed
      exact add_sound heap sound now afterMs cb
  | addRepeating now intervalMs cb =>
      obtain rfl := Option.some.inj performed
      exact addRepeating_sound heap sound now intervalMs cb
  | cancel timerId =>
      obtain rfl := Option.some.inj performed
      exact sound.cancel inTime
  | clear =>
      obtain rfl := Option.some.inj performed
      exact sound.drop ⟨isMinHeap_nil, by simp⟩ (List.sublist_append_right _ _).subperm
        (List.subset_append_right _ _)
  | poll nowMs =>
      obtain ⟨left, fired, taken, extraction⟩ := extract_spec heap nowMs sound.valid.ordered
      obtain rfl : _ = next := by simpa [perform, taken] using performed
      apply sound.drop
      · exact extraction.valid sound.valid
      · rw [List.flatMap_cons, ← List.append_assoc]
        exact (List.subperm_append_right _).mpr extraction.parts
      · intro item member
        have alive := extraction.alive.mem_iff (a := item)
        simp only [List.flatMap_cons, List.mem_append] at member
        rw [List.mem_append] at alive
        rcases member with kept | taken | active
        · exact List.mem_append_left _ (alive.mpr (.inr kept))
        · exact List.mem_append_left _ (alive.mpr (.inl taken))
        · exact List.mem_append_right _ active

theorem visit_sound {run next : TimerRun κ} (visited : run.visit heap = some next) (sound : Sound run) :
    Sound next := by
  unfold visit at visited
  split at visited
  · rename_i nowMs t pending outer active
    have member : t ∈ run.carriers := by simp [carriers, active, Activation.carriers]
    have given : t.callback.isSome := sound.callbacks t (run.carriers_subset_held member)
    split at visited
    · obtain rfl := Option.some.inj visited
      apply sound.retire <;> rw [active, List.flatMap_cons, List.flatMap_cons]
      · exact (List.sublist_cons_self t _).subperm
      · exact List.subset_cons_self t _
    · obtain rfl : _ = next := by simpa [given] using visited
      have moved : Sound { run with activations := ⟨nowMs, pending, some t⟩ :: outer } := by
        apply sound.retire <;> rw [active, List.flatMap_cons, List.flatMap_cons]
        · exact .refl _
        · refine List.append_subset.mpr ⟨?_, List.subset_append_right _ _⟩
          intro item among
          rcases List.mem_append.mp among with current | later
          · rw [List.mem_singleton.mp (List.mem_filter.mp current).1]
            exact List.mem_cons_self ..
          · exact List.mem_cons_of_mem _ (List.mem_append_left _ later)
      exact moved.record (by simp) (by simp) fun timerId same silenced =>
        sound.silent timerId silenced t member (TimerEvent.invoked.inj same)
  · cases visited

theorem finish_sound {run next : TimerRun κ} {outcome : Outcome}
    (finished : run.finish heap outcome = some next) (sound : Sound run) : Sound next := by
  unfold finish at finished
  split at finished
  · rename_i nowMs pending t outer active
    have member : t ∈ run.held := by simp [held, active, Activation.held]
    have carrier : t.intervalMs > 0 → t ∈ run.carriers := by
      intro repeating
      simp [carriers, active, Activation.carriers, TimerItem.isRepeating, repeating]
    have rearmed : Sound { run.rearm heap nowMs t with activations := ⟨nowMs, pending, none⟩ :: outer } := by
      apply sound.rearm heap nowMs (sound.callbacks t member) _ _ carrier <;>
        rw [active, List.flatMap_cons, List.flatMap_cons]
      · rfl
      · refine List.append_subset.mpr ⟨?_, List.subset_append_right _ _⟩
        exact List.Subset.trans (List.subset_append_right _ _) (List.subset_append_left _ _)
    cases outcome with
    | returned => exact Option.some.inj finished ▸ rearmed
    | stdException => exact Option.some.inj finished ▸ rearmed
    | otherException =>
        obtain rfl := Option.some.inj finished
        apply sound.retire <;> rw [active, List.flatMap_cons]
        · exact (List.sublist_append_right _ _).subperm
        · exact List.subset_append_right _ _
  · cases finished

theorem leave_sound {run next : TimerRun κ} (left : run.leave = some next) (sound : Sound run) :
    Sound next := by
  unfold leave at left
  split at left
  · rename_i nowMs outer active
    obtain rfl := Option.some.inj left
    have popped : Sound { run with activations := outer } := by
      apply sound.retire <;> rw [active, List.flatMap_cons]
      · exact (List.sublist_append_right _ _).subperm
      · exact List.subset_append_right _ _
    exact popped.record (by simp) (by simp) (by simp)
  · cases left

theorem step_sound {run next : TimerRun κ} {action : TimerAction κ}
    (stepped : run.step heap action = some next) (inTime : CancelInTime run action)
    (sound : Sound run) : Sound next := by
  cases action with
  | call request =>
      rw [step] at stepped
      split at stepped
      · exact perform_sound heap stepped inTime sound
      · cases stepped
  | visit => exact visit_sound heap stepped sound
  | finish outcome => exact finish_sound heap stepped sound
  | leave => exact leave_sound stepped sound

theorem initial_sound : Sound ({} : TimerRun κ) where
  valid := ⟨isMinHeap_nil, by simp⟩
  counter := Int.le_refl 0
  callbacks := by simp [held]
  ids := by simp [held]
  unique := by simp [held]
  registered := by simp
  silent := by simp [carriers, live]
  safe := by simp [CancelledNeverFire]

theorem cancelled_never_fires (actions : List (TimerAction κ)) (run : TimerRun κ)
    (ran : exec (step heap) {} actions = some run)
    (inTime : Respects CancelInTime (step heap) {} actions) : CancelledNeverFire run.log :=
  (exec_invariant_of_respects (fun _ _ _ stepped allowed sound => step_sound heap stepped allowed sound)
    ran inTime initial_sound).safe

theorem cancelled_before_firing :
    ∃ run, exec (step (sifting (@TimerItem.expireAt Nat))) {}
        [.call (.addRepeating 0 100 (some 7)), .call (.cancel 1), .call (.poll 100), .leave] = some run ∧
      CancelledNeverFire run.log := by
  obtain ⟨run, ran⟩ : ∃ run, exec (step (sifting (@TimerItem.expireAt Nat))) {}
      [.call (.addRepeating 0 100 (some 7)), .call (.cancel 1), .call (.poll 100), .leave] = some run :=
    ⟨_, rfl⟩
  refine ⟨run, ran, cancelled_never_fires (sifting _) _ run ran ?_⟩
  refine respects_cons rfl trivial (respects_cons rfl ?_ (respects_cons rfl trivial
    (respects_cons rfl trivial trivial)))
  exact .inl ⟨⟨1, 100, 100, some 7, false⟩, by decide +kernel, rfl⟩

/-- A repeating timer comes back under an id that nobody knows, and an item in the batch being
fired is out of reach. -/
theorem cancel_misses_fired_timers :
    ((exec (step (sifting (@TimerItem.expireAt Nat))) {}
        [.call (.addRepeating 0 100 (some 7)), .call (.poll 100), .visit, .finish .returned, .leave,
          .call (.cancel 1), .call (.poll 200), .visit]).map (·.log) =
      some [.registered 1, .invoked 1, .polled 100, .cancelled 1, .invoked 1] ∧
    ¬ CancelledNeverFire [.registered 1, .invoked 1, .polled 100, .cancelled 1, .invoked 1]) ∧
    (exec (step (sifting (@TimerItem.expireAt Nat))) {}
        [.call (.add 0 100 (some 7)), .call (.add 0 100 (some 8)), .call (.poll 100), .visit,
          .call (.cancel 2), .finish .returned, .visit]).map (·.log) =
      some [.registered 1, .registered 2, .invoked 1, .cancelled 2, .invoked 2] ∧
    ¬ CancelledNeverFire [.registered 1, .registered 2, .invoked 1, .cancelled 2, .invoked 2] := by
  refine ⟨⟨by decide +kernel, ?_⟩, by decide +kernel, ?_⟩
  · intro never
    exact never 4 1 rfl ⟨3, rfl, by simp⟩
  · intro never
    exact never 4 2 rfl ⟨3, rfl, by simp⟩

/-! ## A call of `poll` that nothing interrupts -/

def quietRounds (n : Nat) : List (TimerAction κ) :=
  (List.replicate n [.visit, .finish .returned]).flatten

theorem exec_quietRounds {run : TimerRun κ} {nowMs : Int} {fired : List (TimerItem κ)}
    {outer : List (Activation κ)} (active : run.activations = ⟨nowMs, fired, none⟩ :: outer)
    (alive : ∀ t ∈ fired, t.cancelled = false) (callbacks : ∀ t ∈ fired, t.callback.isSome)
    (ids : ∀ t ∈ fired, t.id ≤ run.timer.nextId) (invoked : List (TimerItem κ)) :
    ∃ registration, exec (step heap) run (quietRounds fired.length) = some
      { timer := (fired.foldl (fire heap nowMs) (run.timer, invoked)).1
        activations := ⟨nowMs, [], none⟩ :: outer
        registration
        log := run.log ++ fired.map fun t => .invoked (run.registration t.id) } := by
  induction fired generalizing run invoked with
  | nil =>
      refine ⟨run.registration, ?_⟩
      simp [quietRounds, exec, ← active]
  | cons t fired ih =>
      let next : TimerRun κ :=
        { run.rearm heap nowMs t with
          activations := ⟨nowMs, fired, none⟩ :: outer
          log := run.log ++ [.invoked (run.registration t.id)] }
      have awake := alive t (List.mem_cons_self ..)
      have given := callbacks t (List.mem_cons_self ..)
      have round : fire heap nowMs (run.timer, invoked) t = (next.timer, invoked ++ [t]) := by
        simp [fire, awake, given, next, TimerRun.rearm]
      have rounds : exec (step heap) run (quietRounds (fired.length + 1)) =
          exec (step heap) next (quietRounds fired.length) := by
        simp [quietRounds, List.replicate_succ, exec, step, visit, finish, active, awake, given, next,
          TimerRun.rearm]
      have later : ∀ u ∈ fired, u.id ≤ next.timer.nextId ∧
          next.registration u.id = run.registration u.id := by
        intro u member
        have known := ids u (List.mem_cons_of_mem t member)
        by_cases repeating : t.intervalMs > 0
        · have other : u.id ≠ run.timer.nextId + 1 := by omega
          simp [next, TimerRun.rearm, Timer.rearm, repeating, Timer.arm, other]
          omega
        · simp [next, TimerRun.rearm, Timer.rearm, repeating, known]
      obtain ⟨registration, ran⟩ := ih (show next.activations = ⟨nowMs, fired, none⟩ :: outer from rfl)
        (fun u member => alive u (List.mem_cons_of_mem t member))
        (fun u member => callbacks u (List.mem_cons_of_mem t member))
        (fun u member => (later u member).1) (invoked ++ [t])
      refine ⟨registration, ?_⟩
      have events : fired.map (fun u => TimerEvent.invoked (next.registration u.id)) =
          fired.map fun u => .invoked (run.registration u.id) :=
        List.map_congr_left fun u member => by rw [(later u member).2]
      rw [List.length_cons, rounds, ran, List.foldl_cons, round, events]
      simp [next]

/-- `poll` as a function is a run whose callbacks return and make no calls. -/
theorem exec_poll {run : TimerRun κ} (sound : Sound run) (client : run.clientRuns = true) (nowMs : Int) :
    ∃ result next, run.timer.poll heap nowMs = some result ∧
      exec (step heap) run
        (.call (.poll nowMs) :: quietRounds result.invoked.length ++ [.leave]) = some next ∧
      next.timer = result.timer ∧ next.activations = run.activations ∧
      next.log = run.log ++ (result.invoked.map fun t => .invoked (run.registration t.id)) ++
        [.polled result.returned] := by
  obtain ⟨left, fired, taken, extraction⟩ := extract_spec heap nowMs sound.valid.ordered
  let begun : TimerRun κ :=
    { run with
      timer := ⟨run.timer.nextId, left⟩
      activations := ⟨nowMs, fired, none⟩ :: run.activations }
  have started : step heap run (.call (.poll nowMs)) = some begun := by
    simp [step, client, perform, taken, begun]
  have among : ∀ t ∈ fired, t ∈ run.held := fun t member =>
    List.mem_append_left _ (extraction.fired_live t member).1
  have valid : Valid begun.timer := extraction.valid sound.valid
  have alive := fun t member => (extraction.fired_live t member).2
  have callbacks := fun t member => sound.callbacks t (among t member)
  obtain ⟨next, rearmed, folded, -⟩ :=
    foldl_fire heap nowMs run.timer.nextId [] valid (Int.le_refl _) alive callbacks
  have active : begun.activations = ⟨nowMs, fired, none⟩ :: run.activations := rfl
  obtain ⟨registration, ran⟩ := exec_quietRounds heap active alive callbacks
    (fun t member => (sound.ids t (among t member)).1) []
  rw [folded] at ran
  let ended : TimerRun κ :=
    { timer := next
      activations := run.activations
      registration
      log := run.log ++ (fired.map fun t => .invoked (run.registration t.id)) ++
        [.polled (next.untilFront nowMs)] }
  refine ⟨⟨next, fired, next.untilFront nowMs⟩, ended, ?_, ?_, rfl, rfl, rfl⟩
  · simp only [begun, List.nil_append] at folded
    simp [poll, taken, folded]
  · rw [List.cons_append]
    refine exec_cons.mpr ⟨begun, started, exec_snoc.mpr ⟨_, ran, ?_⟩⟩
    rfl

end TimerRun

end ServerFramework.Base
