import ServerFramework.Library.Batch
import ServerFramework.Proof.Base.TimerSteps

namespace ServerFramework.Base
open Library Library.Heap Timer

/-- What handling of the due timers is for: each callback runs once, and each repeating timer is armed again. -/
structure Unharmed {κ : Type} (due invoked rearmed : List (TimerItem κ)) : Prop where
  once : invoked.Perm due
  again : rearmed.Perm (due.filter TimerItem.isRepeating)

def Throws {κ : Type} (outcome : TimerItem κ → Outcome) (t : TimerItem κ) : Prop := outcome t = .otherException

def due {κ : Type} (nowMs : Int) (items : List (TimerItem κ)) : List (TimerItem κ) :=
  (live items).filter fun item => item.expireAt ≤ nowMs

theorem unharmed_iff {κ : Type} {outcome : TimerItem κ → Outcome} {nowMs : Int} {items left fired begun kept : List (TimerItem κ)}
    {batch : Batch (TimerItem κ)} (extraction : Extraction nowMs items left fired)
    (accounts : batch.Accounts (Throws outcome) TimerItem.isRepeating fired begun kept)
    (ends : batch.Over (Throws outcome)) :
    Unharmed (due nowMs items) begun kept ↔ Batch.Spares (Throws outcome) TimerItem.isRepeating fired := by
  rw [← accounts.complete_iff ends extraction.due_live]
  exact ⟨fun unharmed => ⟨unharmed.once, unharmed.again⟩, fun ⟨once, again⟩ => ⟨once, again⟩⟩

namespace TimerRun

variable {κ : Type} (heap : HeapAlgorithms (@TimerItem.expireAt κ))

/-! ## One call of `poll`, above `depth` others -/

inductive PollRecord (κ : Type)
  | invoked (t : TimerItem κ)
  | rearmed (t : TimerItem κ)

/-- A callback that starts, and a callback behind whose end a timer has been armed. -/
def see (depth : Nat) (run : TimerRun κ) : TimerAction κ → TimerRun κ → List (PollRecord κ)
  | .visit, next => match next.activations with
      | ⟨_, _, some t⟩ :: outer => if outer.length = depth then [.invoked t] else []
      | _ => []
  | .finish _, next => match run.activations with
      | ⟨_, _, some t⟩ :: outer =>
          if outer.length = depth ∧ run.timer.nextId < next.timer.nextId then [.rearmed t] else []
      | _ => []
  | _, _ => []

def invocations (seen : List (PollRecord κ)) : List (TimerItem κ) :=
  seen.filterMap fun
    | .invoked t => some t
    | .rearmed _ => none

def rearmings (seen : List (PollRecord κ)) : List (TimerItem κ) :=
  seen.filterMap fun
    | .invoked _ => none
    | .rearmed t => some t

def InPoll (depth : Nat) (outcome : TimerItem κ → Outcome) (run : TimerRun κ) (action : TimerAction κ) : Prop :=
  depth < run.activations.length ∧ ∀ result, action = .finish result →
    ∀ nowMs pending t outer, run.activations = ⟨nowMs, pending, some t⟩ :: outer → outer.length = depth → result = outcome t

theorem inPoll_visit {depth : Nat} {outcome : TimerItem κ → Outcome} {run : TimerRun κ}
    (inside : depth < run.activations.length) : InPoll depth outcome run .visit :=
  ⟨inside, fun _ same => nomatch same⟩

def At (nowMs : Int) (outer : List (Activation κ)) (outcome : TimerItem κ → Outcome) (batch : Batch (TimerItem κ))
    (active : List (Activation κ)) : Prop :=
  (∃ inner, active = inner ++ ⟨nowMs, batch.pending, batch.current⟩ :: outer ∧ (inner ≠ [] → batch.current.isSome)) ∨
  (active = outer ∧ batch.Over (Throws outcome))

structure Progress (nowMs : Int) (outer : List (Activation κ)) (outcome : TimerItem κ → Outcome)
    (fired : List (TimerItem κ)) (run : TimerRun κ) (seen : List (PollRecord κ)) : Prop where
  standing : Standing run.timer run.activations
  stands : ∃ batch, batch.Accounts (Throws outcome) TimerItem.isRepeating fired (invocations seen) (rearmings seen) ∧
    At nowMs outer outcome batch run.activations

theorem visit_length {run next : TimerRun κ} (visited : run.visit heap = some next) :
    next.activations.length = run.activations.length := by
  unfold visit at visited
  split at visited
  · rename_i nowMs t pending outer active
    rw [active]
    split at visited
    · obtain rfl := Option.some.inj visited
      rfl
    · split at visited <;> obtain rfl := Option.some.inj visited <;> rfl
  · cases visited

theorem see_deeper {run next : TimerRun κ} {action : TimerAction κ} {depth : Nat}
    (stepped : run.step heap action = some next) (deeper : depth + 1 < run.activations.length) :
    see depth run action next = [] := by
  cases action with
  | call request => rfl
  | leave => rfl
  | visit =>
      have length := visit_length heap stepped
      rw [see]
      split
      · rename_i outer active
        rw [active, List.length_cons] at length
        exact if_neg (by omega)
      · rfl
  | finish result =>
      rw [see]
      split
      · rename_i outer active
        rw [active, List.length_cons] at deeper
        exact if_neg (by omega)
      · rfl

theorem Moves.under {timer next : Timer κ} {activation : Activation κ} {inner outer later : List (Activation κ)}
    (moves : Moves heap timer (activation :: inner ++ outer) next later) : ∃ inner, later = inner ++ outer := by
  cases moves with
  | refuse => exact ⟨_, rfl⟩
  | arm => exact ⟨_, rfl⟩
  | cancel => exact ⟨_, rfl⟩
  | clear => exact ⟨_, rfl⟩
  | poll => exact ⟨_ :: activation :: inner, rfl⟩
  | skip => exact ⟨_ :: inner, rfl⟩
  | invoke => exact ⟨_ :: inner, rfl⟩
  | bare => exact ⟨_ :: inner, rfl⟩
  | rearm => exact ⟨_ :: inner, rfl⟩
  | drop => exact ⟨inner, rfl⟩

theorem step_waiting {run next : TimerRun κ} {action : TimerAction κ} {nowMs : Int} {pending : List (TimerItem κ)}
    {outer : List (Activation κ)} (stepped : run.step heap action = some next)
    (standing : Standing run.timer run.activations) (active : run.activations = ⟨nowMs, pending, none⟩ :: outer) :
    (∃ t rest, pending = t :: rest ∧ next.activations = ⟨nowMs, rest, some t⟩ :: outer ∧
      see outer.length run action next = [.invoked t]) ∨
    (pending = [] ∧ next.activations = outer ∧ see outer.length run action next = []) := by
  cases action with
  | call request => simp [step, clientRuns, active] at stepped
  | finish result => simp [step, finish, active] at stepped
  | leave =>
      cases pending with
      | nil =>
          simp only [step, leave, active, Option.some.injEq] at stepped
          obtain rfl := stepped
          exact .inr ⟨rfl, rfl, rfl⟩
      | cons t rest => simp [step, leave, active] at stepped
  | visit =>
      cases pending with
      | nil => simp [step, visit, active] at stepped
      | cons t rest =>
          rw [active] at standing
          have ready := (standing.taken _ List.mem_cons_self t List.mem_cons_self).1
          simp only [step, visit, active, ready.awake, ready.given, Bool.false_eq_true, if_false, if_true,
            Option.some.injEq] at stepped
          obtain rfl := stepped
          exact .inl ⟨t, rest, rfl, rfl, by simp [see]⟩

theorem perform_above {run next : TimerRun κ} {request : Call κ} (performed : run.perform heap request = some next) :
    ∃ inner, next.activations = inner ++ run.activations := by
  cases request with
  | poll nowMs =>
      obtain ⟨⟨left, fired⟩, -, same⟩ := Option.bind_eq_some_iff.mp performed
      obtain rfl := Option.some.inj same
      exact ⟨[_], rfl⟩
  | _ =>
      obtain rfl := Option.some.inj performed
      exact ⟨[], by first | rfl | exact register_activations ..⟩

theorem rearm_nextId (timer : Timer κ) (nowMs : Int) (t : TimerItem κ) :
    timer.nextId < (timer.rearm heap nowMs t).nextId ↔ t.isRepeating = true := by
  rw [TimerItem.isRepeating, decide_eq_true_eq, Timer.rearm]
  split
  · rename_i repeating
    exact iff_of_true (Int.lt_succ _) repeating
  · rename_i once
    exact iff_of_false (Int.lt_irrefl _) once

theorem step_calling {run next : TimerRun κ} {action : TimerAction κ} {nowMs : Int} {pending : List (TimerItem κ)}
    {t : TimerItem κ} {outer : List (Activation κ)} (stepped : run.step heap action = some next)
    (active : run.activations = ⟨nowMs, pending, some t⟩ :: outer) :
    (∃ inner, next.activations = inner ++ ⟨nowMs, pending, some t⟩ :: outer ∧ see outer.length run action next = []) ∨
    (∃ result, action = .finish result ∧ result ≠ .otherException ∧ next.activations = ⟨nowMs, pending, none⟩ :: outer ∧
      see outer.length run action next = if t.isRepeating then [.rearmed t] else []) ∨
    (action = .finish .otherException ∧ next.activations = outer ∧ see outer.length run action next = []) := by
  cases action with
  | call request =>
      rw [step] at stepped
      split at stepped
      · obtain ⟨inner, above⟩ := perform_above heap stepped
        rw [active] at above
        exact .inl ⟨inner, above, rfl⟩
      · cases stepped
  | visit => simp [step, visit, active] at stepped
  | leave => simp [step, leave, active] at stepped
  | finish result =>
      simp only [step, finish, active] at stepped
      cases result with
      | otherException =>
          obtain rfl := Option.some.inj stepped
          exact .inr (.inr ⟨rfl, rfl, by simp [see, active]⟩)
      | _ =>
          obtain rfl := Option.some.inj stepped
          refine .inr (.inl ⟨_, rfl, by simp, rfl, ?_⟩)
          simp only [see, active, true_and, TimerRun.rearm, rearm_nextId]

theorem invocations_append (seen more : List (PollRecord κ)) :
    invocations (seen ++ more) = invocations seen ++ invocations more :=
  List.filterMap_append

theorem rearmings_append (seen more : List (PollRecord κ)) :
    rearmings (seen ++ more) = rearmings seen ++ rearmings more :=
  List.filterMap_append

theorem step_progress {nowMs : Int} {outer : List (Activation κ)} {outcome : TimerItem κ → Outcome}
    {fired : List (TimerItem κ)} {run next : TimerRun κ} {action : TimerAction κ} {seen : List (PollRecord κ)}
    (stepped : run.step heap action = some next) (during : InPoll outer.length outcome run action)
    (progress : Progress nowMs outer outcome fired run seen) :
    Progress nowMs outer outcome fired next (seen ++ see outer.length run action next) := by
  obtain ⟨standing, batch, accounts, stands⟩ := progress
  refine ⟨standing.moves heap (step_moves heap stepped), ?_⟩
  rw [invocations_append, rearmings_append]
  obtain ⟨inside, assigned⟩ := during
  rcases stands with ⟨inner, active, waits⟩ | ⟨active, -⟩
  · cases inner with
    | cons activation inner =>
        have deeper : outer.length + 1 < run.activations.length := by
          rw [active]
          simp only [List.length_cons, List.length_append]
          omega
        have moves := step_moves heap stepped
        rw [active] at moves
        obtain ⟨inner, above⟩ := moves.under
        rw [see_deeper heap stepped deeper]
        exact ⟨batch, by simpa [invocations, rearmings] using accounts,
          .inl ⟨inner, above, fun _ => waits (List.cons_ne_nil _ _)⟩⟩
    | nil =>
        obtain ⟨done, current, pending⟩ := batch
        cases current with
        | none =>
            rcases step_waiting heap stepped standing active with ⟨t, rest, rfl, called, seen⟩ | ⟨rfl, left, seen⟩
            · rw [seen]
              exact ⟨⟨done, some t, rest⟩, by simpa [invocations, rearmings] using accounts.begin,
                .inl ⟨[], called, fun _ => rfl⟩⟩
            · rw [seen]
              exact ⟨_, by simpa [invocations, rearmings] using accounts, .inr ⟨left, .inl ⟨rfl, rfl⟩⟩⟩
        | some t =>
            have ends (result : Outcome) (same : action = .finish result) : result = outcome t :=
              assigned result same nowMs pending t outer active rfl
            rcases step_calling heap stepped active with
              ⟨inner, above, seen⟩ | ⟨result, finished, caught, rested, seen⟩ | ⟨thrown, left, seen⟩
            · rw [seen]
              exact ⟨_, by simpa [invocations, rearmings] using accounts, .inl ⟨inner, above, fun _ => rfl⟩⟩
            · have calm : ¬ Throws outcome t := fun throws => caught ((ends result finished).trans throws)
              have more := accounts.finish calm
              rw [seen]
              refine ⟨⟨done ++ [t], none, pending⟩, ?_, .inl ⟨[], rested, fun none => absurd rfl none⟩⟩
              cases again : t.isRepeating <;> simpa [again, invocations, rearmings] using more
            · rw [seen]
              exact ⟨_, by simpa [invocations, rearmings] using accounts,
                .inr ⟨left, .inr ⟨t, rfl, (ends _ thrown).symm⟩⟩⟩
  · rw [active] at inside
    exact absurd inside (Nat.lt_irrefl _)

/-- The run of one call of `poll`, from its start to the step that leaves it. -/
structure PollCall (run : TimerRun κ) (nowMs : Int) (outcome : TimerItem κ → Outcome) (actions : List (TimerAction κ))
    (seen : List (PollRecord κ)) : Prop where
  starts : ∃ begun, run.step heap (.call (.poll nowMs)) = some begun ∧
    seen = observed (see run.activations.length) (step heap) begun actions ∧
    Respects (InPoll run.activations.length outcome) (step heap) begun actions ∧
    ∃ ended, exec (step heap) begun actions = some ended ∧ ended.activations.length = run.activations.length

theorem poll_unharmed_iff {run : TimerRun κ} (standing : Standing run.timer run.activations) {nowMs : Int}
    {outcome : TimerItem κ → Outcome} {actions : List (TimerAction κ)} {seen : List (PollRecord κ)}
    (call : PollCall heap run nowMs outcome actions seen) {left fired : List (TimerItem κ)}
    (taken : Timer.extract heap nowMs run.timer.items = some (left, fired)) :
    Unharmed (due nowMs run.timer.items) (invocations seen) (rearmings seen) ↔
      Batch.Spares (Throws outcome) TimerItem.isRepeating fired := by
  obtain ⟨begun, started, rfl, during, ended, ran, last⟩ := call.starts
  have extraction := extract_extraction heap standing.valid.ordered taken
  have active : begun.activations = ⟨nowMs, fired, none⟩ :: run.activations := by
    rw [step] at started
    split at started
    · simp only [perform, taken, Option.bind_eq_bind, Option.bind_some, Option.pure_def, Option.some.injEq] at started
      rw [← started]
    · cases started
  have initial : Progress nowMs run.activations outcome fired begun [] :=
    ⟨standing.moves heap (step_moves heap started), ⟨[], none, fired⟩, Batch.accounts_start fired,
      .inl ⟨[], active, fun none => absurd rfl none⟩⟩
  have final : Progress nowMs run.activations outcome fired ended
      ([] ++ observed (see run.activations.length) (step heap) begun actions) := by
    refine exec_observed ?_ ran during initial
    exact fun _ _ _ _ stepped inside progress => step_progress heap stepped inside progress
  obtain ⟨-, batch, accounts, stands⟩ := final
  rcases stands with ⟨inner, inside, -⟩ | ⟨-, stop⟩
  · rw [inside, List.length_append, List.length_cons] at last
    omega
  · exact unharmed_iff extraction accounts stop

end TimerRun

end ServerFramework.Base
