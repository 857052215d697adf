import ServerFramework.Proof.Core.ThreadPool

namespace ServerFramework.Core
open Library

namespace ThreadPool

variable {n : Nat} {kind : ShutdownKind}

theorem exec_consistent {pool : ThreadPool n} {actions : List (Action n)}
    (ran : exec (step kind) {} actions = some pool) : Consistent kind pool :=
  exec_invariant (fun _ _ _ stepped consistent => step_consistent stepped consistent) ran
    initial_consistent

/-! ## What was submitted -/

def submissions (first : Nat) : List (Action n) → List Task
  | [] => []
  | .append priority :: rest => ⟨first, priority⟩ :: submissions (first + 1) rest
  | _ :: rest => submissions first rest

theorem takeTask_keeps (pool : ThreadPool n) (i : Fin n) :
    (pool.takeTask i).shutdown = pool.shutdown ∧ (pool.takeTask i).started = pool.started ∧
      (pool.takeTask i).submitted = pool.submitted ∧ (pool.takeTask i).early = pool.early := by
  unfold takeTask
  split
  · split <;> exact ⟨rfl, rfl, rfl, rfl⟩
  · exact ⟨rfl, rfl, rfl, rfl⟩

theorem step_submitted {pool next : ThreadPool n} {action : Action n} (stepped : step kind pool action = some next)
    (rest : List (Action n)) :
    submissions pool.submitted (action :: rest) =
      submissions pool.submitted [action] ++ submissions next.submitted rest := by
  cases step_effect stepped with
  | take =>
      rw [(takeTask_keeps pool _).2.2.1]
      rfl
  | _ => rfl

theorem step_tickets {pool next : ThreadPool n} {action : Action n} (stepped : step kind pool action = some next) :
    List.range pool.submitted ++ (submissions pool.submitted [action]).map Task.ticket = List.range next.submitted := by
  cases step_effect stepped with
  | append =>
      rw [List.range_succ]
      rfl
  | take =>
      rw [(takeTask_keeps pool _).2.2.1]
      exact List.append_nil _
  | _ => exact List.append_nil _

/-- The tickets are given out one after the other. -/
theorem exec_tickets {pool next : ThreadPool n} {actions : List (Action n)}
    (ran : exec (step kind) pool actions = some next) :
    List.range pool.submitted ++ (submissions pool.submitted actions).map Task.ticket = List.range next.submitted := by
  induction actions generalizing pool with
  | nil =>
      cases ran
      exact List.append_nil _
  | cons action rest ih =>
      obtain ⟨middle, stepped, later⟩ := exec_cons.mp ran
      rw [step_submitted stepped rest, List.map_append, ← List.append_assoc, step_tickets stepped]
      exact ih later

/-- What a run did until it called `shutdown`. -/
def beforeStop (actions : List (Action n)) : List (Action n) := actions.takeWhile fun
  | .stop => false
  | _ => true

theorem step_called {pool next : ThreadPool n} {action : Action n} (stepped : step kind pool action = some next)
    (called : pool.shutdown ≠ .uncalled) : next.shutdown ≠ .uncalled ∧ next.early = pool.early := by
  cases step_effect stepped with
  | stop uncalled => exact absurd uncalled called
  | swap | notifyAll | join => exact ⟨by simp, rfl⟩
  | take =>
      obtain ⟨shutdown, -, -, early⟩ := takeTask_keeps pool _
      exact ⟨shutdown ▸ called, early⟩
  | _ => exact ⟨called, rfl⟩

theorem stays_uncalled {pool next : ThreadPool n} {action : Action n} (stepped : step kind pool action = some next)
    (uncalled : pool.shutdown = .uncalled) (other : action ≠ .stop) : next.shutdown = .uncalled := by
  cases step_effect stepped with
  | stop => exact absurd rfl other
  | swap now stopped => simp [uncalled] at stopped
  | notifyAll due => cases kind <;> simp [uncalled, readyToNotify] at due
  | join notified => simp [uncalled] at notified
  | take => exact (takeTask_keeps pool _).1.trans uncalled
  | _ => exact uncalled

theorem exec_early {pool next : ThreadPool n} {actions : List (Action n)}
    (ran : exec (step kind) pool actions = some next) (uncalled : pool.shutdown = .uncalled)
    (called : next.shutdown ≠ .uncalled) :
    ∃ earlier, exec (step kind) pool (beforeStop actions) = some earlier ∧ next.early = earlier.submitted := by
  induction actions generalizing pool with
  | nil =>
      cases ran
      exact absurd uncalled called
  | cons action rest ih =>
      obtain ⟨middle, stepped, later⟩ := exec_cons.mp ran
      by_cases stops : action = .stop
      · subst stops
        refine ⟨pool, rfl, ?_⟩
        cases step_effect stepped with
        | stop =>
            exact (exec_invariant (P := fun last : ThreadPool n =>
              last.shutdown ≠ .uncalled ∧ last.early = pool.submitted) (fun before action after stepped holds =>
                ⟨(step_called stepped holds.1).1, (step_called stepped holds.1).2.trans holds.2⟩) later
              ⟨by simp, rfl⟩).2
      · obtain ⟨earlier, reached, same⟩ := ih later (stays_uncalled stepped uncalled stops)
        refine ⟨earlier, ?_, same⟩
        have going : beforeStop (action :: rest) = action :: beforeStop rest := by
          cases action with
          | stop => exact absurd rfl stops
          | _ => rfl
        rw [going]
        exact exec_cons.mpr ⟨middle, stepped, reached⟩

/-! ## `shutdown` -/

theorem exits_when_empty {pool next : ThreadPool n} {action : Action n} {i : Fin n}
    (stepped : step kind pool action = some next) (running : pool.workers i ≠ .exited)
    (left : next.workers i = .exited) : pool.tasks = [] := by
  have moved := step_transition stepped i
  rw [left] at moved
  generalize pool.workers i = worker at moved running
  cases moved with
  | stay => exact absurd rfl running
  | exit stop empty => exact empty

theorem held_of_exited {pool : ThreadPool n} (all : ∀ i, pool.workers i = .exited) (ticket : Nat) :
    held pool.workers ticket = 0 :=
  Finset.sum_eq_zero fun i _ => by rw [all i]; rfl

theorem Consistent.all_started {pool : ThreadPool n} (consistent : Consistent .shutdown pool)
    (positive : 0 < n) (returned : pool.shutdown = .returned) {ticket : Nat} (early : ticket < pool.early) :
    pool.started.count ticket = 1 := by
  have all := consistent.joined returned
  have popped : pool.queued ticket = 0 := by
    apply List.count_eq_zero_of_not_mem
    intro member
    obtain ⟨task, among, rfl⟩ := List.mem_map.mp member
    have late := (consistent.exited ⟨0, positive⟩ (all _)).2 task among
    omega
  have balance := consistent.balance ticket
  have known : ticket < pool.submitted := Nat.lt_of_lt_of_le early consistent.early
  rw [popped, held_of_exited all, consistent.kept rfl, List.count_nil, if_pos known] at balance
  omega

theorem early_tickets {pool : ThreadPool n} {actions : List (Action n)} (ran : exec (step kind) {} actions = some pool)
    (called : pool.shutdown ≠ .uncalled) :
    (submissions 0 (beforeStop actions)).map Task.ticket = List.range pool.early := by
  obtain ⟨earlier, reached, same⟩ := exec_early ran rfl called
  rw [same]
  exact exec_tickets reached

theorem shutdown_loses_nothing (positive : 0 < n) (actions : List (Action n)) (pool : ThreadPool n)
    (ran : exec (step .shutdown) {} actions = some pool) :
    (∀ action next i, step .shutdown pool action = some next → pool.workers i ≠ .exited →
      next.workers i = .exited → pool.tasks = []) ∧
    (pool.shutdown = .returned → ∀ task ∈ submissions 0 (beforeStop actions), pool.started.count task.ticket = 1) := by
  refine ⟨fun _ _ _ => exits_when_empty, ?_⟩
  intro returned task submitted
  have tickets := early_tickets ran (by simp [returned])
  have early : task.ticket < pool.early := by
    rw [← List.mem_range, ← tickets]
    exact List.mem_map_of_mem submitted
  exact (exec_consistent ran).all_started positive returned early

theorem shutdown_runs_queued_task :
    ∃ pool : ThreadPool 1, exec (step .shutdown) {}
        [.append .normal, .append .high, .notifyOne none, .stop, .acquire 0, .evaluate 0, .take 0, .execute 0,
          .finish 0, .acquire 0, .evaluate 0, .take 0, .execute 0, .finish 0, .notifyAll, .acquire 0, .evaluate 0,
          .take 0, .join] = some pool ∧
      pool.shutdown = .returned ∧ pool.started.count 0 = 1 ∧ pool.started.count 1 = 1 := by
  obtain ⟨pool, ran, ended⟩ : ∃ pool : ThreadPool 1, exec (step .shutdown) {}
      [.append .normal, .append .high, .notifyOne none, .stop, .acquire 0, .evaluate 0, .take 0, .execute 0,
        .finish 0, .acquire 0, .evaluate 0, .take 0, .execute 0, .finish 0, .notifyAll, .acquire 0, .evaluate 0,
        .take 0, .join] = some pool ∧ pool.shutdown = .returned := ⟨_, rfl, rfl⟩
  have once := (shutdown_loses_nothing (by decide) _ pool ran).2 ended
  exact ⟨pool, ran, ended, once ⟨0, .normal⟩ (by decide), once ⟨1, .high⟩ (by decide)⟩

/-! ## Waking everybody -/

def Announced (pool : ThreadPool n) : Prop := pool.shutdown = .notified ∨ pool.shutdown = .returned

def Swapped (pool : ThreadPool n) : Prop :=
  pool.shutdown = .swapped ∨ pool.shutdown = .notified ∨ pool.shutdown = .returned

theorem Swapped.called {pool : ThreadPool n} (swapped : Swapped pool) : pool.shutdown ≠ .uncalled := by
  rcases swapped with swapped | notified | returned
  · simp [swapped]
  · simp [notified]
  · simp [returned]

def Quiet (pool : ThreadPool n) : Prop :=
  Announced pool → ∀ i, pool.workers i ≠ .waiting ∧ pool.workers i ≠ .blocking

theorem step_announced {pool next : ThreadPool n} {action : Action n}
    (stepped : step kind pool action = some next) (announced : Announced next) :
    Announced pool ∨ action = .notifyAll := by
  cases step_effect stepped with
  | notifyAll => exact .inr rfl
  | join notified => exact .inl (.inl notified)
  | stop => simp [Announced] at announced
  | swap => simp [Announced] at announced
  | take =>
      rw [Announced, (takeTask_keeps pool _).1] at announced
      exact .inl announced
  | _ => exact .inl announced

theorem no_waiter {pool next : ThreadPool n} {action : Action n} {i : Fin n}
    (stepped : step kind pool action = some next) (stop : pool.stop = true)
    (calm : pool.workers i ≠ .waiting ∧ pool.workers i ≠ .blocking) :
    next.workers i ≠ .waiting ∧ next.workers i ≠ .blocking := by
  have moved := step_transition stepped i
  generalize pool.workers i = before at moved calm
  generalize next.workers i = after at moved
  cases moved with
  | stay => exact calm
  | block running => simp [stop] at running
  | wait => exact absurd rfl calm.2
  | _ => simp

theorem wake_ne_waiting (worker : Worker) : wake worker ≠ .waiting := by
  cases worker <;> simp [wake]

theorem wake_eq_blocking {worker : Worker} : wake worker = .blocking ↔ worker = .blocking := by
  cases worker <;> simp [wake]

def NobodyBlocking (pool : ThreadPool n) (action : Action n) : Prop :=
  action = .notifyAll → ∀ i, pool.workers i ≠ .blocking

theorem step_quiet {pool next : ThreadPool n} {action : Action n}
    (stepped : step kind pool action = some next) (calm : NobodyBlocking pool action)
    (consistent : Consistent kind pool) (quiet : Quiet pool) : Quiet next := by
  intro announced i
  rcases step_announced stepped announced with before | rfl
  · have called := Swapped.called (.inr before)
    exact no_waiter stepped (consistent.stop.mpr called) (quiet before i)
  · cases step_effect stepped with
    | notifyAll =>
        exact ⟨wake_ne_waiting _, fun blocking => calm rfl i (wake_eq_blocking.mp blocking)⟩

theorem shutdown_wakes_everyone (actions : List (Action n)) (pool : ThreadPool n)
    (ran : exec (step .shutdown) {} actions = some pool)
    (calm : Respects NobodyBlocking (step .shutdown) {} actions) :
    Announced pool → ∀ i, pool.workers i ≠ .waiting ∧ pool.workers i ≠ .blocking := by
  have both : Consistent .shutdown pool ∧ Quiet pool := by
    refine exec_invariant_of_respects
      (P := fun pool : ThreadPool n => Consistent .shutdown pool ∧ Quiet pool) ?_ ran calm ?_
    · rintro before action after stepped permitted ⟨consistent, quiet⟩
      exact ⟨step_consistent stepped consistent, step_quiet stepped permitted consistent quiet⟩
    · exact ⟨initial_consistent, by simp [Quiet, Announced]⟩
  exact both.2

theorem shutdown_wakes_waiting_worker :
    ∃ pool : ThreadPool 1, exec (step .shutdown) {}
        [.acquire 0, .evaluate 0, .block 0, .stop, .notifyAll] = some pool ∧
      Announced pool ∧ pool.workers 0 ≠ .waiting := by
  obtain ⟨pool, ran⟩ : ∃ pool : ThreadPool 1, exec (step .shutdown) {}
      [.acquire 0, .evaluate 0, .block 0, .stop, .notifyAll] = some pool := ⟨_, rfl⟩
  have announced : Announced pool := by
    rw [← Option.some.inj ran]
    exact .inl rfl
  refine ⟨pool, ran, announced, (shutdown_wakes_everyone _ pool ran ?_ announced 0).1⟩
  refine respects_cons rfl (by simp [NobodyBlocking]) (respects_cons rfl (by simp [NobodyBlocking])
    (respects_cons rfl (by simp [NobodyBlocking]) (respects_cons rfl (by simp [NobodyBlocking])
      (respects_cons rfl ?_ trivial))))
  intro _ i
  obtain rfl : i = 0 := Subsingleton.elim i 0
  decide

theorem stranded {pool : ThreadPool n} (waiting : ∀ i, pool.workers i = .waiting)
    (notified : pool.shutdown = .notified) (silent : pool.notifications = 0) (positive : 0 < n)
    {action : Action n} (enabled : (step .shutdown pool action).isSome = true) :
    (∃ i, action = .spurious i) ∨ ∃ priority, action = .append priority := by
  obtain ⟨next, stepped⟩ := Option.isSome_iff_exists.mp enabled
  cases action with
  | spurious i => exact .inl ⟨i, rfl⟩
  | append priority => exact .inr ⟨priority, rfl⟩
  | notifyOne target => cases target <;> simp [step, silent] at stepped
  | join =>
      simp only [step, notified, Option.ite_none_right_eq_some] at stepped
      have left := stepped.1.2 ⟨0, positive⟩
      simp [waiting] at left
  | _ => simp [step, waiting, notified, readyToNotify] at stepped

/-- `shutdown` can fall between a worker's test and its wait; then only a spurious wake-up or a new
task moves anything. -/
theorem shutdown_strands_worker :
    ∃ pool : ThreadPool 1, exec (step .shutdown) {}
        [.acquire 0, .evaluate 0, .stop, .notifyAll, .block 0] = some pool ∧
      pool.shutdown = .notified ∧ pool.workers 0 = .waiting ∧
      ∀ action, (step .shutdown pool action).isSome →
        (∃ i, action = .spurious i) ∨ ∃ priority, action = .append priority := by
  refine ⟨_, rfl, rfl, rfl, fun action enabled => stranded ?_ rfl rfl (by decide) enabled⟩
  intro i
  obtain rfl : i = 0 := Subsingleton.elim i 0
  rfl

/-! ## `shutdown_now` -/

/-- The lock taken for the swap shuts the window in which a wake-up is lost. -/
def Shut (pool : ThreadPool n) : Prop := Swapped pool → ∀ i, pool.workers i ≠ .blocking

theorem step_swapped {pool next : ThreadPool n} {action : Action n}
    (stepped : step .shutdownNow pool action = some next) (swapped : Swapped next) :
    Swapped pool ∨ action = .swap := by
  cases step_effect stepped with
  | swap => exact .inr rfl
  | notifyAll due => exact .inl (.inl due)
  | join notified => exact .inl (.inr (.inl notified))
  | stop => simp [Swapped] at swapped
  | take =>
      rw [Swapped, (takeTask_keeps pool _).1] at swapped
      exact .inl swapped
  | _ => exact .inl swapped

theorem step_shut {pool next : ThreadPool n} {action : Action n}
    (stepped : step .shutdownNow pool action = some next) (consistent : Consistent .shutdownNow pool)
    (shut : Shut pool) : Shut next := by
  intro swapped i blocking
  have moved := step_transition stepped i
  rw [blocking] at moved
  rcases step_swapped stepped swapped with before | rfl
  · have stop := consistent.stop.mpr before.called
    have open_ := shut before i
    generalize pool.workers i = worker at moved open_
    cases moved with
    | stay => exact open_ rfl
    | block running => simp [stop] at running
  · cases step_effect stepped with
    | swap now stopped unlocked =>
        have locked := consistent.mutex i (by rw [show pool.workers i = .blocking from blocking]; rfl)
        rw [unlocked] at locked
        cases locked

structure Clean (pool : ThreadPool n) : Prop where
  consistent : Consistent .shutdownNow pool
  shut : Shut pool
  quiet : Quiet pool

theorem exec_clean {pool : ThreadPool n} {actions : List (Action n)}
    (ran : exec (step .shutdownNow) {} actions = some pool) : Clean pool := by
  refine exec_invariant ?_ ran ⟨initial_consistent, by simp [Shut, Swapped], by simp [Quiet, Announced]⟩
  rintro before action after stepped ⟨consistent, shut, quiet⟩
  refine ⟨step_consistent stepped consistent, step_shut stepped consistent shut,
    step_quiet stepped ?_ consistent quiet⟩
  rintro rfl
  cases step_effect stepped with
  | notifyAll due => exact shut (.inl due)

theorem started_of_exited {pool later : ThreadPool n} {actions : List (Action n)}
    (ran : exec (step kind) pool actions = some later) (all : ∀ i, pool.workers i = .exited) :
    later.started = pool.started := by
  refine (exec_invariant (P := fun next : ThreadPool n =>
    (∀ i, next.workers i = .exited) ∧ next.started = pool.started) ?_ ran ⟨all, rfl⟩).2
  rintro before action after stepped ⟨gone, same⟩
  constructor
  · intro i
    have moved := step_transition stepped i
    rw [gone i] at moved
    generalize after.workers i = worker at moved
    cases moved with
    | stay => rfl
    | enter enters => simp at enters
  · rw [← same]
    cases step_effect stepped with
    | execute holding => simp [gone] at holding
    | take => exact (takeTask_keeps before _).2.1
    | _ => rfl

theorem shutdownNow_clean (actions : List (Action n)) (pool : ThreadPool n)
    (ran : exec (step .shutdownNow) {} actions = some pool) :
    (Announced pool → ∀ i, pool.workers i ≠ .waiting) ∧
    (∀ ticket, pool.started.count ticket ≤ 1) ∧
    (∀ ticket ∈ pool.dropped, ticket ∉ pool.started) ∧
    (pool.shutdown = .returned → ∀ more later,
      exec (step .shutdownNow) pool more = some later → later.started = pool.started) := by
  obtain ⟨consistent, -, quiet⟩ := exec_clean ran
  refine ⟨fun announced i => (quiet announced i).1, ?_, ?_, ?_⟩
  · intro ticket
    have balance := consistent.balance ticket
    split at balance <;> omega
  · intro ticket dropped started
    have balance := consistent.balance ticket
    have first := List.count_pos_iff.mpr dropped
    have second := List.count_pos_iff.mpr started
    split at balance <;> omega
  · intro returned more later continued
    exact started_of_exited continued (consistent.joined returned)

theorem shutdownNow_drops_queued_task :
    ∃ pool : ThreadPool 1, exec (step .shutdownNow) {}
        [.append .normal, .append .high, .acquire 0, .evaluate 0, .take 0, .stop, .swap, .execute 0,
          .finish 0, .notifyAll, .acquire 0, .evaluate 0, .take 0, .join] = some pool ∧
      pool.shutdown = .returned ∧ 0 ∈ pool.dropped ∧ 0 ∉ pool.started := by
  obtain ⟨pool, ran⟩ : ∃ pool : ThreadPool 1, exec (step .shutdownNow) {}
      [.append .normal, .append .high, .acquire 0, .evaluate 0, .take 0, .stop, .swap, .execute 0,
        .finish 0, .notifyAll, .acquire 0, .evaluate 0, .take 0, .join] = some pool := ⟨_, rfl⟩
  have ended : pool.shutdown = .returned ∧ pool.dropped = [0] := by
    rw [← Option.some.inj ran]
    exact ⟨rfl, rfl⟩
  have dropped : 0 ∈ pool.dropped := by simp [ended.2]
  exact ⟨pool, ran, ended.1, dropped, (shutdownNow_clean _ pool ran).2.2.1 0 dropped⟩

end ThreadPool

end ServerFramework.Core
