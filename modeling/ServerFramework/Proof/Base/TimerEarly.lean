import ServerFramework.Proof.Base.TimerSteps
import ServerFramework.Library.Tickets

namespace ServerFramework.Base
open Library Library.Heap Timer

theorem int64_of_wrapped {x : Int} (large : 2 ^ 63 ≤ x) (under : x < 2 ^ 64 + 2 ^ 63) : int64 x = x - 2 ^ 64 := by
  rw [int64, Int.bmod_def]
  omega

namespace TimerRun

variable {κ : Type} (heap : HeapAlgorithms (@TimerItem.expireAt κ))

def Calls (run : TimerRun κ) (timerId nowMs : Int) : Prop :=
  ∃ activation ∈ run.activations, activation.nowMs = nowMs ∧ ∃ t ∈ activation.current, t.id = timerId

/-- The steps that arm a timer: an accepted call, and the end of a callback whose timer repeats. -/
inductive Arms (run : TimerRun κ) : TimerAction κ → Int → Int → Prop
  | add (now afterMs : Int) {cb : Option κ} (given : cb.isSome) (positive : 0 < afterMs) :
      Arms run (.call (.add now afterMs cb)) now afterMs
  | addRepeating (now intervalMs : Int) {cb : Option κ} (given : cb.isSome) (positive : 0 < intervalMs) :
      Arms run (.call (.addRepeating now intervalMs cb)) now intervalMs
  | rearm {nowMs : Int} {t : TimerItem κ} {pending : List (TimerItem κ)} {outer : List (Activation κ)}
      {outcome : Outcome} (calling : run.activations = ⟨nowMs, pending, some t⟩ :: outer)
      (caught : outcome ≠ .otherException) (repeating : 0 < t.intervalMs) :
      Arms run (.finish outcome) nowMs t.intervalMs

def holdings (timer : Timer κ) (active : List (Activation κ)) : List (TimerItem κ) :=
  timer.items ++ active.flatMap Activation.held

theorem mem_holdings {timer : Timer κ} {active : List (Activation κ)} {item : TimerItem κ} :
    item ∈ holdings timer active ↔
      item ∈ timer.items ∨ ∃ activation ∈ active, item ∈ activation.held := by
  rw [holdings, List.mem_append, List.mem_flatMap]

theorem holdings_subset (timer : Timer κ) {active later : List (Activation κ)}
    (fewer : later.flatMap Activation.held ⊆ active.flatMap Activation.held) :
    holdings timer later ⊆ holdings timer active :=
  append_subset_append (List.Subset.refl _) fewer

theorem Standing.holdings_known {timer : Timer κ} {active : List (Activation κ)} (standing : Standing timer active) :
    ∀ item ∈ holdings timer active, item.id ≤ timer.nextId := by
  intro item member
  rcases mem_holdings.mp member with among | ⟨activation, running, out⟩
  · exact standing.known item among
  · exact (standing.taken activation running item out).2

/-! ## When a timer expires does not change -/

def ExpiresAt (timerId expireAt : Int) (items : List (TimerItem κ)) : Prop :=
  ∀ item ∈ items, item.id = timerId → item.expireAt = expireAt

theorem ExpiresAt.subset {timerId expireAt : Int} {items others : List (TimerItem κ)}
    (expires : ExpiresAt timerId expireAt items) (fewer : others ⊆ items) : ExpiresAt timerId expireAt others :=
  fun item member => expires item (fewer member)

theorem ExpiresAt.arm {timerId expireAt : Int} {timer : Timer κ} {active : List (Activation κ)}
    (expires : ExpiresAt timerId expireAt (holdings timer active)) (standing : Standing timer active)
    (old : timerId ≤ timer.nextId) (now afterMs intervalMs : Int) (cb : Option κ) :
    ExpiresAt timerId expireAt (holdings (timer.arm heap now afterMs intervalMs cb) active) := by
  intro item member same
  rcases mem_holdings.mp member with among | running
  · rcases List.mem_append.mp ((arm_perm heap standing.valid.ordered now afterMs intervalMs cb).mem_iff.mp among)
      with before | new
    · exact expires item (mem_holdings.mpr (.inl before)) same
    · rw [List.mem_singleton.mp new] at same
      exact absurd old (not_le.mpr (same ▸ Int.lt_succ timer.nextId))
  · exact expires item (mem_holdings.mpr (.inr running)) same

theorem ExpiresAt.rearm {timerId expireAt : Int} {timer : Timer κ} {active : List (Activation κ)}
    (expires : ExpiresAt timerId expireAt (holdings timer active)) (standing : Standing timer active)
    (old : timerId ≤ timer.nextId) (nowMs : Int) (t : TimerItem κ) :
    ExpiresAt timerId expireAt (holdings (timer.rearm heap nowMs t) active) := by
  unfold Timer.rearm
  split
  · exact expires.arm heap standing old nowMs t.intervalMs t.intervalMs t.callback
  · exact expires

theorem ExpiresAt.cancel {timerId expireAt : Int} {items : List (TimerItem κ)}
    (expires : ExpiresAt timerId expireAt items) (id : Int) : ExpiresAt timerId expireAt (cancelItem id items).2 := by
  intro item member same
  have entry := List.mem_map_of_mem (f := fun item => (item.id, item.expireAt, item.callback)) member
  rw [cancelItem_map] at entry
  obtain ⟨old, among, equal⟩ := List.mem_map.mp entry
  simp only [Prod.mk.injEq] at equal
  rw [← equal.2.1]
  exact expires old among (equal.1.trans same)

theorem ExpiresAt.moves {timerId expireAt : Int} {timer next : Timer κ} {active later : List (Activation κ)}
    (moves : Moves heap timer active next later) (standing : Standing timer active) (old : timerId ≤ timer.nextId)
    (expires : ExpiresAt timerId expireAt (holdings timer active)) :
    timerId ≤ next.nextId ∧ ExpiresAt timerId expireAt (holdings next later) := by
  have grows (nowMs : Int) (t : TimerItem κ) : timerId ≤ (timer.rearm heap nowMs t).nextId := by
    unfold Timer.rearm
    split
    · exact old.trans (Int.le_of_lt (Int.lt_succ _))
    · exact old
  cases moves with
  | refuse => exact ⟨old, expires⟩
  | arm _ now afterMs intervalMs given =>
      exact ⟨old.trans (Int.le_of_lt (Int.lt_succ _)), expires.arm heap standing old now afterMs intervalMs _⟩
  | cancel _ id =>
      obtain ⟨inside, outside⟩ := List.forall_mem_append.mp expires
      exact ⟨old, List.forall_mem_append.mpr ⟨ExpiresAt.cancel inside id, outside⟩⟩
  | clear => exact ⟨old, expires.subset (List.subset_append_right _ _)⟩
  | poll taken =>
      refine ⟨old, expires.subset ?_⟩
      have parts := (extract_extraction heap standing.valid.ordered taken).parts.subset
      intro item member
      rcases mem_holdings.mp member with among | ⟨activation, running, out⟩
      · exact mem_holdings.mpr (.inl (parts (List.mem_append_left _ among)))
      · rcases List.mem_cons.mp running with rfl | behind
        · exact mem_holdings.mpr (.inl (parts (List.mem_append_right _ out)))
        · exact mem_holdings.mpr (.inr ⟨activation, behind, out⟩)
  | skip => exact ⟨old, expires.subset (holdings_subset timer (List.subset_cons_self ..))⟩
  | invoke => exact ⟨old, expires⟩
  | bare empty =>
      have given := (standing.taken _ List.mem_cons_self _ List.mem_cons_self).1.given
      rw [empty] at given
      cases given
  | @rearm nowMs t pending outer =>
      have rested : Standing timer (⟨nowMs, pending, none⟩ :: outer) :=
        standing.advance rfl (List.subset_cons_self t pending)
      have fewer : holdings timer (⟨nowMs, pending, none⟩ :: outer) ⊆ holdings timer (⟨nowMs, pending, some t⟩ :: outer) :=
        holdings_subset timer (List.subset_cons_self t (pending ++ outer.flatMap Activation.held))
      exact ⟨grows nowMs t, (expires.subset fewer).rearm heap rested old nowMs t⟩
  | drop => exact ⟨old, expires.subset (holdings_subset timer (List.subset_append_right _ _))⟩

theorem run_expires {timerId expireAt : Int} {actions : List (TimerAction κ)} {run next : TimerRun κ}
    (ran : exec (step heap) run actions = some next) (standing : Standing run.timer run.activations)
    (old : timerId ≤ run.timer.nextId) (expires : ExpiresAt timerId expireAt (holdings run.timer run.activations)) :
    ExpiresAt timerId expireAt (holdings next.timer next.activations) := by
  refine (exec_invariant (P := fun run => Standing run.timer run.activations ∧ timerId ≤ run.timer.nextId ∧
    ExpiresAt timerId expireAt (holdings run.timer run.activations)) ?_ ran ⟨standing, old, expires⟩).2.2
  rintro before action after stepped ⟨standing, old, expires⟩
  have moves := step_moves heap stepped
  exact ⟨standing.moves heap moves, expires.moves heap moves standing old⟩

/-! ## Arming -/

structure Armed (timer : Timer κ) (active : List (Activation κ)) (expireAt : Int) : Prop where
  only : ExpiresAt timer.nextId expireAt (holdings timer active)
  waits : ∃ item ∈ live timer.items, item.id = timer.nextId ∧ item.expireAt = expireAt

theorem Standing.armed {timer : Timer κ} {active : List (Activation κ)} (standing : Standing timer active)
    (now afterMs intervalMs : Int) (cb : Option κ) :
    Armed (timer.arm heap now afterMs intervalMs cb) active (int64 (now + afterMs)) := by
  have pushed := arm_perm heap standing.valid.ordered now afterMs intervalMs cb
  constructor
  · intro item member same
    have new : ¬ item.id ≤ timer.nextId := by
      rw [same]
      exact not_le.mpr (Int.lt_succ timer.nextId)
    rcases mem_holdings.mp member with among | running
    · rcases List.mem_append.mp (pushed.mem_iff.mp among) with before | last
      · exact absurd (standing.known item before) new
      · rw [List.mem_singleton.mp last]
    · exact absurd (standing.holdings_known item (mem_holdings.mpr (.inr running))) new
  · refine ⟨_, mem_live.mpr ⟨pushed.mem_iff.mpr (List.mem_append_right _ (List.mem_singleton_self _)), rfl⟩, rfl, rfl⟩

theorem arms_armed {run next : TimerRun κ} {action : TimerAction κ} {now afterMs : Int}
    (standing : Standing run.timer run.activations) (stepped : run.step heap action = some next)
    (arms : Arms run action now afterMs) : Armed next.timer next.activations (int64 (now + afterMs)) := by
  have accepted : run.timer.nextId + 1 ≠ -1 := by
    have positive := standing.counter
    omega
  cases arms with
  | @add now afterMs cb given positive =>
      have added : run.timer.add heap now afterMs cb = (run.timer.nextId + 1, run.timer.arm heap now afterMs 0 cb) := by
        rw [Timer.add, if_neg (by simp [Option.isNone_iff_eq_none, Option.isSome_iff_ne_none.mp given, positive])]
      simp only [step, perform, added, register, if_neg accepted, Option.ite_none_right_eq_some, Option.some.injEq] at stepped
      obtain ⟨-, rfl⟩ := stepped
      exact standing.armed heap now afterMs 0 cb
  | @addRepeating now afterMs cb given positive =>
      have added : run.timer.addRepeating heap now afterMs cb =
          (run.timer.nextId + 1, run.timer.arm heap now afterMs afterMs cb) := by
        rw [Timer.addRepeating, if_neg (by simp [Option.isNone_iff_eq_none, Option.isSome_iff_ne_none.mp given, positive])]
      simp only [step, perform, added, register, if_neg accepted, Option.ite_none_right_eq_some, Option.some.injEq] at stepped
      obtain ⟨-, rfl⟩ := stepped
      exact standing.armed heap now afterMs afterMs cb
  | @rearm _ t pending outer outcome calling caught repeating =>
      rw [calling] at standing
      have rested : Standing run.timer (⟨now, pending, none⟩ :: outer) :=
        standing.advance rfl (List.subset_cons_self t pending)
      have armed := rested.armed heap now t.intervalMs t.intervalMs t.callback
      cases outcome with
      | otherException => exact absurd rfl caught
      | _ =>
          simp only [step, finish, calling, TimerRun.rearm, Timer.rearm, if_pos repeating, Option.some.injEq] at stepped
          obtain rfl := stepped
          exact armed

/-! ## From any state to the callback of an item that is due -/

theorem exists_client {run : TimerRun κ} (standing : Standing run.timer run.activations) :
    ∃ actions next, exec (step heap) run actions = some next ∧ next.clientRuns = true ∧ next.timer = run.timer := by
  obtain ⟨timer, active, registration, log⟩ := run
  cases active with
  | nil => exact ⟨[], _, rfl, rfl, rfl⟩
  | cons activation outer =>
      obtain ⟨nowMs, pending, current⟩ := activation
      cases current with
      | some t => exact ⟨[], _, rfl, rfl, rfl⟩
      | none =>
          cases pending with
          | nil =>
              refine ⟨[.leave], _, rfl, (clientRuns_iff _).mpr ?_, rfl⟩
              exact fun next first => standing.calling next (List.mem_of_mem_head? first)
          | cons t pending =>
              have ready := (standing.taken _ List.mem_cons_self t List.mem_cons_self).1
              refine ⟨[.visit], ⟨timer, ⟨nowMs, pending, some t⟩ :: outer, registration,
                log ++ [.invoked (registration t.id)]⟩, ?_, rfl, rfl⟩
              simp [exec, step, visit, ready.awake, ready.given]

theorem reaches {nowMs : Int} {pending : List (TimerItem κ)} {outer : List (Activation κ)} {run : TimerRun κ}
    (active : run.activations = ⟨nowMs, pending, none⟩ :: outer) (ready : ∀ t ∈ pending, Taken nowMs t)
    {item : TimerItem κ} (member : item ∈ pending) :
    ∃ actions next, exec (step heap) run actions = some next ∧ Calls next item.id nowMs := by
  induction pending generalizing run with
  | nil => cases member
  | cons t pending ih =>
      have first := ready t List.mem_cons_self
      let called : TimerRun κ := { run with
        activations := ⟨nowMs, pending, some t⟩ :: outer
        log := run.log ++ [.invoked (run.registration t.id)] }
      have visited : run.step heap .visit = some called := by
        simp only [step, visit, active, first.awake, first.given, Bool.false_eq_true, if_false, if_true, called]
      rcases List.mem_cons.mp member with rfl | later
      · exact ⟨[.visit], called, exec_cons.mpr ⟨_, visited, rfl⟩, _, List.mem_cons_self, rfl, item, rfl, rfl⟩
      · let rested : TimerRun κ := { called.rearm heap nowMs t with activations := ⟨nowMs, pending, none⟩ :: outer }
        have finished : called.step heap (.finish .returned) = some rested := rfl
        obtain ⟨actions, next, ran, calls⟩ := ih (show rested.activations = _ from rfl)
          (fun u among => ready u (List.mem_cons_of_mem t among)) later
        exact ⟨.visit :: .finish .returned :: actions, next,
          exec_cons.mpr ⟨_, visited, exec_cons.mpr ⟨_, finished, ran⟩⟩, calls⟩

theorem reaches_due {run : TimerRun κ} (standing : Standing run.timer run.activations) {item : TimerItem κ}
    (waits : item ∈ live run.timer.items) {nowMs : Int} (due : item.expireAt ≤ nowMs) :
    ∃ actions next, exec (step heap) run actions = some next ∧ Calls next item.id nowMs := by
  obtain ⟨before, client, reached, runs, same⟩ := exists_client heap standing
  have ordered : IsMinHeap TimerItem.expireAt client.timer.items := same ▸ standing.valid.ordered
  obtain ⟨left, fired, taken, extraction⟩ := extract_spec heap nowMs ordered
  let polling : TimerRun κ := { client with
    timer := { client.timer with items := left }
    activations := ⟨nowMs, fired, none⟩ :: client.activations }
  have polled : client.step heap (.call (.poll nowMs)) = some polling := by
    simp [step, runs, perform, taken, polling]
  have among : item ∈ fired := by
    rw [← same] at waits
    rcases List.mem_append.mp (extraction.alive.mem_iff.mp waits) with out | stays
    · exact out
    · exact absurd due (not_le.mpr (extraction.late item (mem_live.mp stays).1))
  have ready (t : TimerItem κ) (member : t ∈ fired) : Taken nowMs t := by
    obtain ⟨origin, awake⟩ := extraction.fired_live t member
    rw [same] at origin
    exact ⟨standing.valid.callbacks t origin, awake, extraction.due t member⟩
  obtain ⟨behind, next, ran, calls⟩ := reaches heap (show polling.activations = _ from rfl) ready among
  refine ⟨before ++ .call (.poll nowMs) :: behind, next, ?_, calls⟩
  rw [exec_append, reached]
  exact exec_cons.mpr ⟨polling, polled, ran⟩

/-! ## No timer fires early -/

theorem never_early_iff (actions : List (TimerAction κ)) (run next : TimerRun κ)
    (ran : exec (step heap) {} actions = some run) (action : TimerAction κ) (now afterMs : Int)
    (stepped : run.step heap action = some next) (arms : Arms run action now afterMs)
    (clock : InInt64 now) (delay : InInt64 afterMs) :
    (∀ later after nowMs, exec (step heap) next later = some after → Calls after next.timer.nextId nowMs →
      now + afterMs ≤ nowMs) ↔ now + afterMs < 2 ^ 63 := by
  have standing := run_standing heap ran initial_standing
  have onward := standing.moves heap (step_moves heap stepped)
  have armed := arms_armed heap standing stepped arms
  have positive : 0 < afterMs := by
    cases arms with
    | add _ _ _ positive => exact positive
    | addRepeating _ _ _ positive => exact positive
    | rearm _ _ repeating => exact repeating
  obtain ⟨lower, upper⟩ := clock
  obtain ⟨-, longest⟩ := delay
  constructor
  · intro early
    by_contra wraps
    have sum : int64 (now + afterMs) = now + afterMs - 2 ^ 64 := int64_of_wrapped (by omega) (by omega)
    obtain ⟨item, waits, id, expireAt⟩ := armed.waits
    have due : item.expireAt ≤ 0 := by
      rw [expireAt, sum]
      omega
    obtain ⟨later, after, reached, calls⟩ := reaches_due heap onward waits due
    rw [id] at calls
    have impossible := early later after 0 reached calls
    omega
  · intro fits later after nowMs reached calls
    have sum : int64 (now + afterMs) = now + afterMs := int64_of_inInt64 ⟨by omega, fits⟩
    have expires := armed.only
    rw [sum] at expires
    have holds := run_expires heap reached onward (Int.le_refl _) expires
    obtain ⟨activation, running, rfl, t, current, same⟩ := calls
    have held : t ∈ activation.held := List.mem_append_left _ (by simpa using current)
    have due := ((run_standing heap reached onward).taken activation running t held).1.due
    rwa [holds t (mem_holdings.mpr (.inr ⟨activation, running, held⟩)) same] at due

theorem never_early_second_firing :
    ∃ run next, exec (step (sifting (@TimerItem.expireAt Nat))) {}
        [.call (.addRepeating 0 100 (some 7)), .call (.poll 110), .visit] = some run ∧
      run.step (sifting (@TimerItem.expireAt Nat)) (.finish .stdException) = some next ∧ next.timer.nextId = 2 ∧
      ∀ later after nowMs, exec (step (sifting (@TimerItem.expireAt Nat))) next later = some after →
        Calls after next.timer.nextId nowMs → 210 ≤ nowMs := by
  obtain ⟨run, ran⟩ : ∃ run, exec (step (sifting (@TimerItem.expireAt Nat))) {}
      [.call (.addRepeating 0 100 (some 7)), .call (.poll 110), .visit] = some run := ⟨_, rfl⟩
  have active : run.activations = [⟨110, [], some ⟨1, 100, 100, some 7, false⟩⟩] := by
    obtain rfl := Option.some.inj ran
    decide +kernel
  obtain ⟨next, stepped⟩ : ∃ next, run.step (sifting (@TimerItem.expireAt Nat)) (.finish .stdException) = some next := by
    simp [step, finish, active]
  have second : next.timer.nextId = 2 := by
    obtain rfl := Option.some.inj ran
    obtain rfl := Option.some.inj stepped
    decide +kernel
  refine ⟨run, next, ran, stepped, second, ?_⟩
  exact (never_early_iff (sifting _) _ run next ran _ 110 100 stepped (.rearm active (by decide) (by decide)) (by decide)
    (by decide)).mpr (by decide)

/-- The longest delay there is, added one millisecond after the start: the sum wraps and the next `poll` fires. -/
theorem longest_delay_fires_at_once :
    ∃ next after, step (sifting (@TimerItem.expireAt Nat)) {} (.call (.add 1 (2 ^ 63 - 1) (some 7))) = some next ∧
      Arms ({} : TimerRun Nat) (.call (.add 1 (2 ^ 63 - 1) (some 7))) 1 (2 ^ 63 - 1) ∧
      InInt64 1 ∧ InInt64 (2 ^ 63 - 1) ∧
      exec (step (sifting (@TimerItem.expireAt Nat))) next [.call (.poll 1), .visit] = some after ∧
      Calls after next.timer.nextId 1 ∧ ¬ (1 : Int) + (2 ^ 63 - 1) ≤ 1 := by
  obtain ⟨next, stepped⟩ : ∃ next,
      step (sifting (@TimerItem.expireAt Nat)) {} (.call (.add 1 (2 ^ 63 - 1) (some 7))) = some next := ⟨_, rfl⟩
  obtain ⟨after, ran⟩ : ∃ after,
      exec (step (sifting (@TimerItem.expireAt Nat))) next [.call (.poll 1), .visit] = some after := by
    obtain rfl := Option.some.inj stepped
    exact ⟨_, rfl⟩
  have active : after.activations = [⟨1, [], some ⟨1, -2 ^ 63, 0, some 7, false⟩⟩] ∧ next.timer.nextId = 1 := by
    obtain rfl := Option.some.inj stepped
    obtain rfl := Option.some.inj ran
    decide +kernel
  refine ⟨next, after, stepped, .add 1 _ rfl (by decide), by decide, by decide, ran, ?_, by decide⟩
  rw [Calls, active.1, active.2]
  exact ⟨_, List.mem_cons_self, rfl, _, rfl, rfl⟩

end TimerRun

end ServerFramework.Base
