import ServerFramework.Proof.Base.EventTimers
import ServerFramework.Proof.Base.TimerThrow

namespace ServerFramework.Base
open Library Library.Heap Timer

def RunPhase.handling {κ τ : Type} : RunPhase κ τ → Bool
  | .firing .. | .calling .. | .rearming .. | .restoring .. => true
  | _ => false

namespace EventLoop

variable {κ τ : Type} (heap : HeapAlgorithms (@TimerItem.expireAt κ))

/-! ## Steps while due timers are handled -/

inductive Own (loop : EventLoop κ τ) : Action κ τ → EventLoop κ τ → Prop
  | done {now : Int} (phase : loop.phase = .firing now []) : Own loop .visit { loop with phase := .polling }
  | visit {now : Int} {t : TimerEntry κ} {fired : List (TimerEntry κ)} (phase : loop.phase = .firing now (t :: fired)) :
      Own loop .visit (loop.visit now t fired)
  | ended {now : Int} {t : TimerEntry κ} {fired : List (TimerEntry κ)} {outcome : Outcome}
      (phase : loop.phase = .calling now t fired) (isCaught : outcome ≠ .otherException) :
      Own loop (.endCallback outcome) { loop with phase := .rearming now t fired }
  | threw {now : Int} {t : TimerEntry κ} {fired : List (TimerEntry κ)} (phase : loop.phase = .calling now t fired) :
      Own loop (.endCallback .otherException) { loop with phase := .outside }
  | once {now : Int} {t : TimerEntry κ} {fired : List (TimerEntry κ)} (phase : loop.phase = .rearming now t fired)
      (oneShot : t.isRepeating = false) : Own loop .rearm { loop with phase := .firing now fired }
  | renew {now : Int} {t : TimerEntry κ} {fired : List (TimerEntry κ)} (phase : loop.phase = .rearming now t fired)
      (repeating : t.isRepeating = true) : Own loop .rearm (loop.renew now t fired)
  | restore {now : Int} {t nt : TimerEntry κ} {fired : List (TimerEntry κ)}
      (phase : loop.phase = .restoring now t nt fired) : Own loop .restore (loop.restore heap now t nt fired)

/-- A step of another thread, or a call that a callback makes. -/
structure Beside (loop next : EventLoop κ τ) : Prop where
  phase : next.phase = loop.phase
  log : ∃ more, next.log = loop.log ++ more ∧ invocations more = [] ∧ restorations more = []

theorem beside_of_same {loop next : EventLoop κ τ} (phase : next.phase = loop.phase) (log : next.log = loop.log) :
    Beside loop next :=
  ⟨phase, [], by rw [log, List.append_nil], rfl, rfl⟩

theorem addTimer_beside {loop : EventLoop κ τ} {now afterMs intervalMs : Int} {cb : Option κ}
    {result : Int × EventLoop κ τ} (added : loop.addTimer now afterMs cb intervalMs = some result) :
    Beside loop result.2 := by
  unfold addTimer at added
  split at added
  · cases added
    exact beside_of_same rfl rfl
  · split at added <;> cases added
    exact beside_of_same rfl rfl

theorem handling_step {loop next : EventLoop κ τ} {action : Action κ τ} (handling : loop.phase.handling = true)
    (stepped : loop.throwStep heap action = some next) : Beside loop next ∨ Own heap loop action next := by
  cases action with
  | tick ms =>
      simp only [throwStep, step, Option.ite_none_right_eq_some, Option.some.injEq] at stepped
      obtain ⟨-, rfl⟩ := stepped
      exact .inl (beside_of_same rfl rfl)
  | addTimer now afterMs cb intervalMs =>
      simp only [throwStep, step, Option.ite_none_right_eq_some, Option.map_eq_some_iff] at stepped
      obtain ⟨-, result, added, rfl⟩ := stepped
      exact .inl (addTimer_beside added)
  | insert i =>
      obtain ⟨entry, -, rfl⟩ := Option.map_eq_some_iff.mp stepped
      exact .inl (beside_of_same rfl rfl)
  | cancelTimer id =>
      cases stepped
      exact .inl ⟨rfl, _, rfl, rfl, rfl⟩
  | pushTask task =>
      cases stepped
      exact .inl (beside_of_same rfl rfl)
  | visit =>
      cases phase : loop.phase with
      | firing now fired =>
          cases fired with
          | nil =>
              simp only [throwStep, step, phase, Option.some.injEq] at stepped
              exact .inr (stepped ▸ .done phase)
          | cons t fired =>
              simp only [throwStep, step, phase, Option.some.injEq] at stepped
              exact .inr (stepped ▸ .visit phase)
      | _ => simp [throwStep, step, phase] at stepped
  | endCallback outcome =>
      cases phase : loop.phase with
      | calling now t fired =>
          cases outcome with
          | otherException =>
              simp only [throwStep, phase, Option.some.injEq] at stepped
              exact .inr (stepped ▸ .threw phase)
          | _ =>
              simp only [throwStep, step, phase, caught, if_true, Option.some.injEq] at stepped
              exact .inr (stepped ▸ .ended phase (by simp))
      | _ => cases outcome <;> simp [throwStep, step, phase] at stepped
  | rearm =>
      cases phase : loop.phase with
      | rearming now t fired =>
          simp only [throwStep, step, phase, rearm] at stepped
          split at stepped
          · rename_i repeating
            simp only [Option.ite_none_right_eq_some, Option.some.injEq] at stepped
            obtain ⟨-, rfl⟩ := stepped
            exact .inr (.renew phase (by simpa [TimerItem.isRepeating] using repeating))
          · rename_i oneShot
            simp only [Option.some.injEq] at stepped
            exact .inr (stepped ▸ .once phase (by simpa [TimerItem.isRepeating] using oneShot))
      | _ => simp [throwStep, step, phase] at stepped
  | restore =>
      cases phase : loop.phase with
      | restoring now t nt fired =>
          simp only [throwStep, step, phase, Option.some.injEq] at stepped
          exact .inr (stepped ▸ .restore phase)
      | _ => simp [throwStep, step, phase] at stepped
  | processTasks => cases phase : loop.phase <;> simp_all [throwStep, step, RunPhase.handling]
  | execute => cases phase : loop.phase <;> simp_all [throwStep, step, RunPhase.handling]
  | endTask outcome => cases phase : loop.phase <;> cases outcome <;> simp_all [throwStep, step, RunPhase.handling]
  | readTick => cases phase : loop.phase <;> simp_all [throwStep, step, RunPhase.handling]
  | extract => cases phase : loop.phase <;> simp_all [throwStep, step, RunPhase.handling]
  | poll => cases phase : loop.phase <;> simp_all [throwStep, step, RunPhase.handling]

theorem throwStep_kept {loop next : EventLoop κ τ} {action : Action κ τ}
    (stepped : loop.throwStep heap action = some next) (kept : Kept loop) : Kept next := by
  unfold throwStep at stepped
  split at stepped
  · split at stepped <;> cases stepped
    exact { kept with ready := trivial }
  · split at stepped <;> cases stepped
    exact { kept with ready := trivial }
  · exact step_kept heap stepped kept

/-! ## One call of `process_timers` -/

def Handling (outcome : TimerEntry κ → Outcome) (loop : EventLoop κ τ) (action : Action κ τ) : Prop :=
  loop.phase.handling = true ∧ ∀ result, action = .endCallback result →
    ∀ now t fired, loop.phase = .calling now t fired → result = outcome t

inductive At (now : Int) (outcome : TimerEntry κ → Outcome) : Batch (TimerEntry κ) → RunPhase κ τ → Prop
  | firing (entries pending : List (TimerEntry κ)) : At now outcome ⟨entries, none, pending⟩ (.firing now pending)
  | calling (entries : List (TimerEntry κ)) (t : TimerEntry κ) (pending : List (TimerEntry κ)) :
      At now outcome ⟨entries, some t, pending⟩ (.calling now t pending)
  | rearming (entries : List (TimerEntry κ)) {t : TimerEntry κ} (pending : List (TimerEntry κ))
      (calm : ¬ Throws outcome t) : At now outcome ⟨entries, some t, pending⟩ (.rearming now t pending)
  | restoring (entries : List (TimerEntry κ)) {t : TimerEntry κ} (nt : TimerEntry κ) (pending : List (TimerEntry κ))
      (calm : ¬ Throws outcome t) (repeating : t.isRepeating = true) :
      At now outcome ⟨entries, some t, pending⟩ (.restoring now t nt pending)
  | settled {batch : Batch (TimerEntry κ)} {phase : RunPhase κ τ} (left : phase.handling = false)
      (stop : batch.Over (Throws outcome)) : At now outcome batch phase

structure Progress (now : Int) (outcome : TimerEntry κ → Outcome) (log : List (LoopRecord κ))
    (fired : List (TimerEntry κ)) (loop : EventLoop κ τ) : Prop where
  kept : Kept loop
  stands : ∃ batch more, loop.log = log ++ more ∧
    batch.Accounts (Throws outcome) TimerItem.isRepeating fired (invocations more) (restorations more) ∧
    At now outcome batch loop.phase

theorem own_progress {now : Int} {outcome : TimerEntry κ → Outcome} {log : List (LoopRecord κ)}
    {fired : List (TimerEntry κ)} {loop next : EventLoop κ τ} {action : Action κ τ} (own : Own heap loop action next)
    (during : Handling outcome loop action) (progress : Progress now outcome log fired loop) (kept : Kept next) :
    Progress now outcome log fired next := by
  obtain ⟨before, batch, more, logged, accounts, stands⟩ := progress
  refine ⟨kept, ?_⟩
  cases own with
  | done phase =>
      rw [phase] at stands
      cases stands with
      | firing entries pending => exact ⟨_, more, logged, accounts, .settled rfl (.inl ⟨rfl, rfl⟩)⟩
      | settled left => cases left
  | @visit _ t pending phase =>
      have ready := before.ready
      rw [phase] at stands ready
      cases stands with
      | firing entries =>
          refine ⟨⟨entries, some t, pending⟩, more ++ [.invoked t (loop.registration t.id) loop.clock], ?_, ?_, ?_⟩
          · rw [visit_eq ready, logged, List.append_assoc]
          · rw [invocations_append, restorations_append]
            simpa [invocations, restorations] using accounts.begin
          · rw [visit_eq ready]
            exact .calling entries t pending
      | settled left => cases left
  | @ended _ t pending _ phase isCaught =>
      rw [phase] at stands
      cases stands with
      | calling entries =>
          have calm : ¬ Throws outcome t := fun throws =>
            isCaught ((during.2 _ rfl now t pending phase).trans throws)
          exact ⟨_, more, logged, accounts, .rearming entries pending calm⟩
      | settled left => cases left
  | @threw _ t pending phase =>
      rw [phase] at stands
      cases stands with
      | calling entries =>
          have throws : Throws outcome t := (during.2 _ rfl now t pending phase).symm
          exact ⟨_, more, logged, accounts, .settled rfl (.inr ⟨t, rfl, throws⟩)⟩
      | settled left => cases left
  | @once _ t pending phase oneShot =>
      rw [phase] at stands
      cases stands with
      | rearming entries _ calm =>
          refine ⟨⟨entries ++ [t], none, pending⟩, more, logged, ?_, .firing (entries ++ [t]) pending⟩
          simpa [oneShot] using accounts.finish calm
      | settled left => cases left
  | @renew _ t pending phase repeating =>
      rw [phase] at stands
      cases stands with
      | rearming entries _ calm => exact ⟨_, more, logged, accounts, .restoring entries _ pending calm repeating⟩
      | settled left => cases left
  | @restore _ t nt pending phase =>
      rw [phase] at stands
      cases stands with
      | restoring entries _ _ calm repeating =>
          refine ⟨⟨entries ++ [t], none, pending⟩, more ++ [.restored t nt now], ?_, ?_, .firing (entries ++ [t]) pending⟩
          · rw [restore, logged, List.append_assoc]
          · rw [invocations_append, restorations_append]
            simpa [invocations, restorations, repeating] using accounts.finish calm
      | settled left => cases left

theorem step_progress {now : Int} {outcome : TimerEntry κ → Outcome} {log : List (LoopRecord κ)}
    {fired : List (TimerEntry κ)} {loop next : EventLoop κ τ} {action : Action κ τ}
    (stepped : loop.throwStep heap action = some next) (during : Handling outcome loop action)
    (progress : Progress now outcome log fired loop) : Progress now outcome log fired next := by
  have kept := throwStep_kept heap stepped progress.kept
  rcases handling_step heap during.1 stepped with beside | own
  · obtain ⟨batch, more, logged, accounts, stands⟩ := progress.stands
    obtain ⟨phase, others, added, ran, restored⟩ := beside
    refine ⟨kept, batch, more ++ others, ?_, ?_, phase ▸ stands⟩
    · rw [added, logged, List.append_assoc]
    · rwa [invocations_append, restorations_append, ran, restored, List.append_nil, List.append_nil]
  · exact own_progress heap own during progress kept

/-- The run of one call of `process_timers` from its lock on, to the step that leaves it. -/
structure TimersCall (loop : EventLoop κ τ) (now : Int) (outcome : TimerEntry κ → Outcome) (actions : List (Action κ τ))
    (later : EventLoop κ τ) : Prop where
  locks : loop.phase = .locking now
  takes : ∃ begun, loop.throwStep heap .extract = some begun ∧ exec (throwStep heap) begun actions = some later ∧
    Respects (Handling outcome) (throwStep heap) begun actions
  leaves : later.phase.handling = false

theorem processTimers_unharmed_iff {loop later : EventLoop κ τ} (kept : Kept loop) {now : Int}
    {outcome : TimerEntry κ → Outcome} {actions : List (Action κ τ)} (call : TimersCall heap loop now outcome actions later)
    {left fired : List (TimerEntry κ)} (taken : Timer.extract heap now loop.timers = some (left, fired)) :
    Unharmed (due now loop.timers) (invocations (later.log.drop loop.log.length))
        (restorations (later.log.drop loop.log.length)) ↔
      Batch.Spares (Throws outcome) TimerItem.isRepeating fired := by
  obtain ⟨locks, ⟨begun, started, ran, during⟩, leaves⟩ := call
  have extraction := extract_extraction heap kept.ordered taken
  obtain rfl : loop.afterExtract now left fired = begun := by
    simpa only [throwStep, step, locks, taken, Option.map_some, Option.some.injEq] using started
  have initial : Progress now outcome loop.log fired (loop.afterExtract now left fired) :=
    ⟨throwStep_kept heap started kept, ⟨[], none, fired⟩, [], (List.append_nil _).symm, Batch.accounts_start fired,
      .firing [] fired⟩
  obtain ⟨-, batch, more, logged, accounts, stands⟩ := exec_invariant_of_respects
    (fun _ _ _ stepped inside progress => step_progress heap stepped inside progress) ran during initial
  rw [logged, List.drop_left]
  generalize later.phase = phase at stands leaves
  cases stands with
  | settled _ stop => exact unharmed_iff extraction accounts stop
  | _ => cases leaves

theorem run_kept {actions : List (Action κ τ)} {loop : EventLoop κ τ}
    (ran : exec (throwStep heap) {} actions = some loop) : Kept loop :=
  exec_invariant (fun _ _ _ stepped kept => throwStep_kept heap stepped kept) ran initial_kept

/-- For `Timer::poll` in any state, callbacks that use the timer included, and for `EventLoop::process_timers` with
any other threads: no due timer is harmed just when no callback throws what the handlers do not name, but maybe that
of the timer taken out last, when it does not repeat. -/
theorem throwing_callback_harms_iff (outcome : TimerItem κ → Outcome) (nowMs : Int) (left fired : List (TimerItem κ)) :
    (∀ actions run, exec (TimerRun.step heap) {} actions = some run →
      Timer.extract heap nowMs run.timer.items = some (left, fired) →
      ∀ during seen, TimerRun.PollCall heap run nowMs outcome during seen →
        (Unharmed (due nowMs run.timer.items) (TimerRun.invocations seen) (TimerRun.rearmings seen) ↔
          Batch.Spares (Throws outcome) TimerItem.isRepeating fired)) ∧
    ∀ (actions : List (Action κ τ)) loop, exec (throwStep heap) {} actions = some loop →
      Timer.extract heap nowMs loop.timers = some (left, fired) →
      ∀ during later, TimersCall heap loop nowMs outcome during later →
        (Unharmed (due nowMs loop.timers) (invocations (later.log.drop loop.log.length))
            (restorations (later.log.drop loop.log.length)) ↔
          Batch.Spares (Throws outcome) TimerItem.isRepeating fired) := by
  constructor
  · intro actions run ran taken during seen call
    have standing := TimerRun.run_standing heap ran TimerRun.initial_standing
    exact TimerRun.poll_unharmed_iff heap standing call taken
  · intro actions loop ran taken during later call
    exact processTimers_unharmed_iff heap (run_kept heap ran) call taken

theorem throwing_callback_spared :
    (∃ run seen, exec (TimerRun.step (sifting (@TimerItem.expireAt Nat))) {} [.call (.add 0 10 (some 1))] = some run ∧
      TimerRun.PollCall (sifting TimerItem.expireAt) run 10 (fun _ => .otherException)
        [.visit, .finish .otherException] seen ∧
      Unharmed (due 10 run.timer.items) (TimerRun.invocations seen) (TimerRun.rearmings seen)) ∧
    ∃ loop later : EventLoop Nat Nat, exec (throwStep (sifting TimerItem.expireAt)) {}
        [.addTimer 0 10 (some 1) 10, .insert 0, .tick 10, .processTasks, .readTick] = some loop ∧
      TimersCall (sifting TimerItem.expireAt) loop 10 (fun _ => .stdException)
        [.visit, .endCallback .stdException, .rearm, .restore, .visit] later ∧
      Unharmed (due 10 loop.timers) (invocations (later.log.drop loop.log.length))
        (restorations (later.log.drop loop.log.length)) := by
  constructor
  · obtain ⟨run, ran⟩ : ∃ run, exec (TimerRun.step (sifting (@TimerItem.expireAt Nat))) {}
        [.call (.add 0 10 (some 1))] = some run := ⟨_, rfl⟩
    obtain ⟨seen, call⟩ : ∃ seen, TimerRun.PollCall (sifting TimerItem.expireAt) run 10 (fun _ => .otherException)
        [.visit, .finish .otherException] seen := by
      obtain rfl := Option.some.inj ran
      refine ⟨_, ⟨_, rfl, rfl, ?_, _, rfl, rfl⟩⟩
      refine respects_cons rfl (TimerRun.inPoll_visit (by decide)) (respects_cons rfl ⟨by decide, ?_⟩ trivial)
      rintro _ ⟨⟩ _ _ _ _ _ _
      rfl
    have taken : Timer.extract (sifting TimerItem.expireAt) 10 run.timer.items = some ([], [⟨1, 10, 0, some 1, false⟩]) := by
      obtain rfl := Option.some.inj ran
      rfl
    refine ⟨run, seen, ran, call, ?_⟩
    have exactly := (@throwing_callback_harms_iff Nat Nat (sifting TimerItem.expireAt) (fun _ => .otherException) 10 _ _).1
      _ run ran taken _ seen call
    exact exactly.mpr ⟨by simp, by simp [TimerItem.isRepeating]⟩
  · obtain ⟨loop, ran⟩ : ∃ loop : EventLoop Nat Nat, exec (throwStep (sifting TimerItem.expireAt)) {}
        [.addTimer 0 10 (some 1) 10, .insert 0, .tick 10, .processTasks, .readTick] = some loop := ⟨_, rfl⟩
    obtain ⟨later, call⟩ : ∃ later, TimersCall (sifting TimerItem.expireAt) loop 10 (fun _ => .stdException)
        [.visit, .endCallback .stdException, .rearm, .restore, .visit] later := by
      obtain rfl := Option.some.inj ran
      refine ⟨_, rfl, ⟨_, rfl, rfl, ?_⟩, rfl⟩
      refine respects_cons rfl ⟨rfl, fun _ same => by cases same⟩ (respects_cons rfl ⟨rfl, ?_⟩
        (respects_cons rfl ⟨rfl, fun _ same => by cases same⟩ (respects_cons rfl ⟨rfl, fun _ same => by cases same⟩
          (respects_cons rfl ⟨rfl, fun _ same => by cases same⟩ trivial))))
      rintro _ ⟨⟩ _ _ _ _
      rfl
    have taken : Timer.extract (sifting TimerItem.expireAt) 10 loop.timers = some ([], [⟨1, 10, 10, some 1, false⟩]) := by
      obtain rfl := Option.some.inj ran
      rfl
    refine ⟨loop, later, ran, call, ?_⟩
    have exactly := (throwing_callback_harms_iff (sifting TimerItem.expireAt) (fun _ => .stdException) 10 _ _).2
      _ loop ran taken _ later call
    exact exactly.mpr ⟨by simp, by simp [Throws]⟩

/-- The second of two due timers never runs, and a repeating one that throws is gone. -/
theorem throwing_callback_harms_next :
    ∃ run seen, exec (TimerRun.step (sifting (@TimerItem.expireAt Nat))) {}
        [.call (.addRepeating 0 10 (some 1)), .call (.add 0 20 (some 2))] = some run ∧
      TimerRun.PollCall (sifting TimerItem.expireAt) run 20 (fun t => if t.id = 1 then .otherException else .returned)
        [.visit, .finish .otherException] seen ∧
      due 20 run.timer.items = [⟨1, 10, 10, some 1, false⟩, ⟨2, 20, 0, some 2, false⟩] ∧
      TimerRun.invocations seen = [⟨1, 10, 10, some 1, false⟩] ∧ TimerRun.rearmings seen = [] ∧
      ¬ Unharmed (due 20 run.timer.items) (TimerRun.invocations seen) (TimerRun.rearmings seen) := by
  obtain ⟨run, ran⟩ : ∃ run, exec (TimerRun.step (sifting (@TimerItem.expireAt Nat))) {}
      [.call (.addRepeating 0 10 (some 1)), .call (.add 0 20 (some 2))] = some run := ⟨_, rfl⟩
  obtain ⟨seen, call, ran_one, rearmed_none⟩ : ∃ seen,
      TimerRun.PollCall (sifting TimerItem.expireAt) run 20 (fun t => if t.id = 1 then .otherException else .returned)
        [.visit, .finish .otherException] seen ∧
      TimerRun.invocations seen = [⟨1, 10, 10, some 1, false⟩] ∧ TimerRun.rearmings seen = [] := by
    obtain rfl := Option.some.inj ran
    refine ⟨_, ⟨_, rfl, rfl, ?_, _, rfl, rfl⟩, by decide +kernel, by decide +kernel⟩
    refine respects_cons rfl (TimerRun.inPoll_visit (by decide)) (respects_cons rfl ⟨by decide, ?_⟩ trivial)
    rintro _ ⟨⟩ _ _ _ _ ⟨⟩ _
    rfl
  have listed : due 20 run.timer.items = [⟨1, 10, 10, some 1, false⟩, ⟨2, 20, 0, some 2, false⟩] := by
    obtain rfl := Option.some.inj ran
    decide +kernel
  refine ⟨run, seen, ran, call, listed, ran_one, rearmed_none, ?_⟩
  rw [listed, ran_one]
  intro unharmed
  have lengths := unharmed.once.length_eq
  simp at lengths

end EventLoop

end ServerFramework.Base
