import ServerFramework.Proof.Base.TimerRun

namespace ServerFramework.Base
open Library Library.Heap Timer

structure Taken {κ : Type} (nowMs : Int) (item : TimerItem κ) : Prop where
  given : item.callback.isSome
  awake : item.cancelled = false
  due : item.expireAt ≤ nowMs

namespace TimerRun

variable {κ : Type} (heap : HeapAlgorithms (@TimerItem.expireAt κ))

/-! ## What a step does to the timer and to the calls of `poll` -/

inductive Moves : Timer κ → List (Activation κ) → Timer κ → List (Activation κ) → Prop
  | refuse (timer : Timer κ) (active : List (Activation κ)) : Moves timer active timer active
  | arm (timer : Timer κ) (active : List (Activation κ)) (now afterMs intervalMs : Int) {cb : Option κ}
      (given : cb.isSome) : Moves timer active (timer.arm heap now afterMs intervalMs cb) active
  | cancel (timer : Timer κ) (active : List (Activation κ)) (timerId : Int) :
      Moves timer active (timer.cancel timerId).2 active
  | clear (timer : Timer κ) (active : List (Activation κ)) : Moves timer active timer.clear active
  | poll {timer : Timer κ} {active : List (Activation κ)} {nowMs : Int} {left fired : List (TimerItem κ)}
      (taken : Timer.extract heap nowMs timer.items = some (left, fired))
      (client : ∀ activation ∈ active.head?, activation.current.isSome) :
      Moves timer active { timer with items := left } (⟨nowMs, fired, none⟩ :: active)
  | skip {timer : Timer κ} {nowMs : Int} {t : TimerItem κ} {pending : List (TimerItem κ)}
      {outer : List (Activation κ)} (dead : t.cancelled = true) :
      Moves timer (⟨nowMs, t :: pending, none⟩ :: outer) timer (⟨nowMs, pending, none⟩ :: outer)
  | invoke {timer : Timer κ} {nowMs : Int} {t : TimerItem κ} {pending : List (TimerItem κ)}
      {outer : List (Activation κ)} :
      Moves timer (⟨nowMs, t :: pending, none⟩ :: outer) timer (⟨nowMs, pending, some t⟩ :: outer)
  | bare {timer : Timer κ} {nowMs : Int} {t : TimerItem κ} {pending : List (TimerItem κ)}
      {outer : List (Activation κ)} (empty : t.callback.isSome = false) :
      Moves timer (⟨nowMs, t :: pending, none⟩ :: outer) (timer.rearm heap nowMs t) (⟨nowMs, pending, none⟩ :: outer)
  | rearm {timer : Timer κ} {nowMs : Int} {t : TimerItem κ} {pending : List (TimerItem κ)}
      {outer : List (Activation κ)} :
      Moves timer (⟨nowMs, pending, some t⟩ :: outer) (timer.rearm heap nowMs t) (⟨nowMs, pending, none⟩ :: outer)
  | drop {timer : Timer κ} {activation : Activation κ} {outer : List (Activation κ)} :
      Moves timer (activation :: outer) timer outer

theorem register_moves (run : TimerRun κ) (active : List (Activation κ)) {result : Int × Timer κ}
    (added : result = (-1, run.timer) ∨ ∃ now afterMs intervalMs cb, cb.isSome = true ∧
      result = (run.timer.nextId + 1, run.timer.arm heap now afterMs intervalMs cb)) :
    Moves heap run.timer active (run.register result).timer active := by
  unfold register
  rcases added with rfl | ⟨now, afterMs, intervalMs, cb, given, rfl⟩
  · rw [if_pos rfl]
    exact .refuse _ _
  · split
    · exact .refuse _ _
    · exact .arm _ _ now afterMs intervalMs given

theorem register_activations (run : TimerRun κ) (result : Int × Timer κ) :
    (run.register result).activations = run.activations := by
  unfold register
  split <;> rfl

theorem clientRuns_iff (run : TimerRun κ) :
    run.clientRuns = true ↔ ∀ activation ∈ run.activations.head?, activation.current.isSome := by
  unfold clientRuns
  cases run.activations <;> simp

theorem perform_moves {run next : TimerRun κ} {request : Call κ} (client : run.clientRuns = true)
    (performed : run.perform heap request = some next) :
    Moves heap run.timer run.activations next.timer next.activations := by
  cases request with
  | add now afterMs cb =>
      obtain rfl := Option.some.inj performed
      rw [register_activations]
      apply register_moves
      exact (add_spec heap run.timer now afterMs cb).imp_right fun ⟨given, accepted⟩ => ⟨_, _, _, _, given, accepted⟩
  | addRepeating now intervalMs cb =>
      obtain rfl := Option.some.inj performed
      rw [register_activations]
      apply register_moves
      exact (addRepeating_spec heap run.timer now intervalMs cb).imp_right fun ⟨given, accepted⟩ =>
        ⟨_, _, _, _, given, accepted⟩
  | cancel timerId =>
      obtain rfl := Option.some.inj performed
      exact .cancel _ _ timerId
  | clear =>
      obtain rfl := Option.some.inj performed
      exact .clear _ _
  | poll nowMs =>
      obtain ⟨⟨left, fired⟩, taken, same⟩ := Option.bind_eq_some_iff.mp performed
      obtain rfl := Option.some.inj same
      exact .poll taken (run.clientRuns_iff.mp client)

theorem visit_moves {run next : TimerRun κ} (visited : run.visit heap = some next) :
    Moves heap run.timer run.activations next.timer next.activations := by
  unfold visit at visited
  split at visited
  · rename_i nowMs t pending outer active
    rw [active]
    split at visited
    · rename_i dead
      obtain rfl := Option.some.inj visited
      exact .skip dead
    · split at visited
      · obtain rfl := Option.some.inj visited
        exact .invoke
      · rename_i empty
        obtain rfl := Option.some.inj visited
        exact .bare (Bool.eq_false_iff.mpr empty)
  · cases visited

theorem step_moves {run next : TimerRun κ} {action : TimerAction κ} (stepped : run.step heap action = some next) :
    Moves heap run.timer run.activations next.timer next.activations := by
  cases action with
  | call request =>
      rw [step] at stepped
      split at stepped
      · rename_i client
        exact perform_moves heap client stepped
      · cases stepped
  | visit => exact visit_moves heap stepped
  | finish outcome =>
      rw [step, finish] at stepped
      split at stepped
      · rename_i nowMs pending t outer active
        rw [active]
        cases outcome <;> obtain rfl := Option.some.inj stepped
        · exact .rearm
        · exact .rearm
        · exact .drop
      · cases stepped
  | leave =>
      rw [step, leave] at stepped
      split at stepped
      · rename_i nowMs outer active
        obtain rfl := Option.some.inj stepped
        rw [active]
        exact .drop
      · cases stepped

/-! ## What every step keeps, cancels in time or not -/

structure Standing (timer : Timer κ) (active : List (Activation κ)) : Prop where
  valid : Valid timer
  counter : 0 ≤ timer.nextId
  known : ∀ item ∈ timer.items, item.id ≤ timer.nextId
  taken : ∀ activation ∈ active, ∀ item ∈ activation.held, Taken activation.nowMs item ∧ item.id ≤ timer.nextId
  calling : ∀ activation ∈ active.tail, activation.current.isSome

theorem Standing.grow {timer next : Timer κ} {active later : List (Activation κ)} (standing : Standing timer active)
    (valid : Valid next) (counter : timer.nextId ≤ next.nextId) (known : ∀ item ∈ next.items, item.id ≤ next.nextId)
    (held : ∀ activation ∈ later, ∀ item ∈ activation.held, Taken activation.nowMs item ∧ item.id ≤ timer.nextId)
    (calling : later.tail ⊆ active.tail) : Standing next later where
  valid := valid
  counter := standing.counter.trans counter
  known := known
  taken activation among item member := by
    obtain ⟨taken, old⟩ := held activation among item member
    exact ⟨taken, old.trans counter⟩
  calling activation among := standing.calling activation (calling among)

theorem Standing.arm {timer : Timer κ} {active : List (Activation κ)} (standing : Standing timer active)
    (now afterMs intervalMs : Int) {cb : Option κ} (given : cb.isSome) :
    Standing (timer.arm heap now afterMs intervalMs cb) active := by
  apply standing.grow (arm_valid heap standing.valid now afterMs intervalMs given)
    (Int.le_of_lt (Int.lt_succ _)) _ standing.taken (List.Subset.refl _)
  intro item member
  rcases List.mem_append.mp ((arm_perm heap standing.valid.ordered now afterMs intervalMs cb).mem_iff.mp member)
    with old | new
  · exact (standing.known item old).trans (Int.le_of_lt (Int.lt_succ _))
  · rw [List.mem_singleton.mp new]
    exact Int.le_refl _

theorem Standing.rearm {timer : Timer κ} {active : List (Activation κ)} (standing : Standing timer active)
    (nowMs : Int) {t : TimerItem κ} (given : t.callback.isSome) : Standing (timer.rearm heap nowMs t) active := by
  unfold Timer.rearm
  split
  · exact standing.arm heap nowMs t.intervalMs t.intervalMs given
  · exact standing

theorem Standing.advance {timer : Timer κ} {activation later : Activation κ} {outer : List (Activation κ)}
    (standing : Standing timer (activation :: outer)) (same : later.nowMs = activation.nowMs)
    (fewer : later.held ⊆ activation.held) : Standing timer (later :: outer) := by
  refine standing.grow standing.valid (Int.le_refl _) standing.known ?_ (List.Subset.refl outer)
  intro other among item member
  rcases List.mem_cons.mp among with rfl | behind
  · rw [same]
    exact standing.taken activation List.mem_cons_self item (fewer member)
  · exact standing.taken other (List.mem_cons_of_mem _ behind) item member

theorem Standing.drop {timer : Timer κ} {activation : Activation κ} {outer : List (Activation κ)}
    (standing : Standing timer (activation :: outer)) : Standing timer outer := by
  apply standing.grow standing.valid (Int.le_refl _) standing.known _ (List.tail_sublist outer).subset
  exact fun other among => standing.taken other (List.mem_cons_of_mem _ among)

theorem Standing.poll {timer : Timer κ} {active : List (Activation κ)} (standing : Standing timer active)
    {nowMs : Int} {left fired : List (TimerItem κ)} (extraction : Extraction nowMs timer.items left fired)
    (client : ∀ activation ∈ active.head?, activation.current.isSome) :
    Standing { timer with items := left } (⟨nowMs, fired, none⟩ :: active) where
  valid := extraction.valid standing.valid
  counter := standing.counter
  known item member := standing.known item (extraction.parts.subset (List.mem_append_left _ member))
  taken activation among item member := by
    rcases List.mem_cons.mp among with rfl | behind
    · have out : item ∈ fired := member
      obtain ⟨origin, awake⟩ := extraction.fired_live item out
      exact ⟨⟨standing.valid.callbacks item origin, awake, extraction.due item out⟩, standing.known item origin⟩
    · exact standing.taken activation behind item member
  calling activation among := by
    cases active with
    | nil => cases among
    | cons first rest =>
        rcases List.mem_cons.mp among with rfl | behind
        · exact client _ rfl
        · exact standing.calling activation behind

theorem Standing.moves {timer next : Timer κ} {active later : List (Activation κ)}
    (moves : Moves heap timer active next later) (standing : Standing timer active) : Standing next later := by
  cases moves with
  | refuse => exact standing
  | arm _ now afterMs intervalMs given => exact standing.arm heap now afterMs intervalMs given
  | cancel _ timerId =>
      apply standing.grow (cancel_valid standing.valid timerId) (Int.le_refl _) _ standing.taken (List.Subset.refl _)
      intro item member
      have listed : item.id ∈ timer.items.map TimerItem.id := by
        rw [← cancelItem_ids timerId]
        exact List.mem_map_of_mem member
      obtain ⟨old, among, same⟩ := List.mem_map.mp listed
      rw [← same]
      exact standing.known old among
  | clear =>
      have empty : Valid (clear timer) := ⟨isMinHeap_nil, by simp [clear]⟩
      exact standing.grow empty (Int.le_refl _) (by simp [clear]) standing.taken (List.Subset.refl _)
  | poll taken client => exact standing.poll (extract_extraction heap standing.valid.ordered taken) client
  | skip => exact standing.advance rfl (List.subset_cons_self ..)
  | invoke => exact standing.advance rfl (List.Subset.refl _)
  | bare empty =>
      have given := (standing.taken _ List.mem_cons_self _ List.mem_cons_self).1.given
      rw [empty] at given
      cases given
  | rearm =>
      have given := (standing.taken _ List.mem_cons_self _ List.mem_cons_self).1.given
      apply Standing.rearm heap _ _ given
      exact standing.advance rfl (List.subset_cons_self ..)
  | drop => exact standing.drop

theorem run_standing {actions : List (TimerAction κ)} {run next : TimerRun κ}
    (ran : exec (step heap) run actions = some next) (standing : Standing run.timer run.activations) :
    Standing next.timer next.activations :=
  exec_invariant (P := fun run => Standing run.timer run.activations)
    (fun _ _ _ stepped standing => standing.moves heap (step_moves heap stepped)) ran standing

theorem initial_standing : Standing ({} : TimerRun κ).timer ({} : TimerRun κ).activations where
  valid := ⟨isMinHeap_nil, by simp⟩
  counter := Int.le_refl 0
  known := by simp
  taken := by simp
  calling := by simp

end TimerRun

end ServerFramework.Base
