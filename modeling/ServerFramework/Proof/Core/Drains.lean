import ServerFramework.Library.Draining
import ServerFramework.Proof.Core.Shutdown

namespace ServerFramework.Core
open Library

/-! ## A pool that nobody shuts down -/

def Worker.awake : Worker → Bool
  | .waiting | .blocking => false
  | _ => true

namespace ThreadPool

variable {n : Nat} {kind : ShutdownKind}

/-- What the workers and the notifications do by themselves: nothing new is submitted, nobody wakes without cause. -/
def Action.internal : Action n → Bool
  | .append _ | .spurious _ | .stop | .swap | .notifyAll | .join => false
  | _ => true

/-- Either somebody is awake to take the tasks, or there is a notification for each of them. -/
structure Live (pool : ThreadPool n) : Prop where
  kept : pool.dropped = []
  locked : ∀ i, pool.queueMutex = some i → (pool.workers i).inside = true
  ready : ∀ i, pool.workers i = .ready → pool.tasks ≠ []
  blocking : ∀ i, pool.workers i = .blocking → pool.tasks = []
  noticed : (∃ i, (pool.workers i).awake = true) ∨ pool.tasks.length ≤ pool.notifications

theorem initial_live : Live ({} : ThreadPool n) where
  kept := rfl
  locked := by simp
  ready := by simp
  blocking := by simp
  noticed := .inr (Nat.le_refl 0)

theorem Live.move {pool : ThreadPool n} (live : Live pool) {i : Fin n} {worker : Worker}
    {queueMutex : Option (Fin n)} {tasks : List Task} {started : List Nat} {notifications : Nat}
    (locked : ∀ j, queueMutex = some j → (j = i ∧ worker.inside = true) ∨ (j ≠ i ∧ pool.queueMutex = some j))
    (same : tasks = pool.tasks ∨ ∀ j, j ≠ i → (pool.workers j).inside ≠ true)
    (ready : worker = .ready → tasks ≠ []) (blocking : worker = .blocking → tasks = [])
    (noticed : worker.awake = true ∨ tasks.length ≤ notifications) :
    Live { pool with
      workers := Function.update pool.workers i worker
      queueMutex
      tasks
      started
      notifications } where
  kept := live.kept
  locked j held := by
    rcases locked j held with ⟨rfl, inside⟩ | ⟨other, held⟩
    · simpa using inside
    · simpa [other] using live.locked j held
  ready := by
    refine (Function.forall_update_iff pool.workers fun _ w => w = .ready → tasks ≠ []).mpr ⟨ready, ?_⟩
    intro j other at_
    rcases same with rfl | alone
    · exact live.ready j at_
    · exact absurd (by simp [at_, Worker.inside]) (alone j other)
  blocking := by
    refine (Function.forall_update_iff pool.workers fun _ w => w = .blocking → tasks = []).mpr ⟨blocking, ?_⟩
    intro j other at_
    rcases same with rfl | alone
    · exact live.blocking j at_
    · exact absurd (by simp [at_, Worker.inside]) (alone j other)
  noticed := by
    rcases noticed with awake | enough
    · exact .inl ⟨i, by simpa using awake⟩
    · exact .inr enough

theorem append_live {pool : ThreadPool n} (consistent : Consistent kind pool) (live : Live pool)
    (unlocked : pool.queueMutex = none) (priority : TaskPriority) :
    Live { pool with
      tasks := appendPriority pool.tasks ⟨pool.submitted, priority⟩
      submitted := pool.submitted + 1
      notifications := pool.notifications + 1 } := by
  have longer := (appendPriority_perm pool.tasks ⟨pool.submitted, priority⟩).length_eq
  rw [List.length_cons] at longer
  refine { live with ready := ?_, blocking := ?_, noticed := ?_ }
  · intro i _ empty
    rw [show appendPriority pool.tasks _ = [] from empty, List.length_nil] at longer
    omega
  · intro i blocking
    have locked := consistent.mutex i (by simp [show pool.workers i = .blocking from blocking, Worker.inside])
    rw [unlocked] at locked
    cases locked
  · rcases live.noticed with awake | enough
    · exact .inl awake
    · right
      dsimp only
      omega

theorem notifyNobody_live {pool : ThreadPool n} (live : Live pool) (positive : 0 < n)
    (nobody : ∀ i, pool.workers i ≠ .waiting) : Live { pool with notifications := pool.notifications - 1 } := by
  refine { live with noticed := ?_ }
  by_cases blocking : pool.workers ⟨0, positive⟩ = .blocking
  · right
    rw [live.blocking _ blocking]
    exact Nat.zero_le _
  · left
    refine ⟨⟨0, positive⟩, ?_⟩
    have running := nobody ⟨0, positive⟩
    dsimp only
    cases worker : pool.workers ⟨0, positive⟩ <;> simp_all [Worker.awake]

theorem takeTask_live {pool : ThreadPool n} (consistent : Consistent kind pool) (live : Live pool) {i : Fin n}
    (ready : pool.workers i = .ready) : Live (pool.takeTask i) := by
  unfold takeTask
  split
  · rename_i empty
    exact absurd empty (live.ready i ready)
  · exact live.move (by simp [unlock]) (.inr fun j other => consistent.owner (by simp [ready, Worker.inside]) other)
      (by simp) (by simp) (.inl rfl)

theorem Live.outside {pool : ThreadPool n} (live : Live pool) {i : Fin n} (outside : (pool.workers i).inside ≠ true)
    {worker : Worker} (awake : worker.awake = true) (unready : worker ≠ .ready) {started : List Nat}
    {notifications : Nat} :
    Live { pool with workers := Function.update pool.workers i worker, started, notifications } := by
  refine live.move ?_ (.inl rfl) (fun ready => absurd ready unready) ?_ (.inl awake)
  · intro j held
    refine .inr ⟨?_, held⟩
    rintro rfl
    exact outside (live.locked j held)
  · rintro rfl
    simp [Worker.awake] at awake

theorem Live.acquired {pool : ThreadPool n} (live : Live pool) {i : Fin n} :
    Live { pool.setWorker i .evaluating with queueMutex := some i } :=
  live.move (fun j held => .inl ⟨(Option.some.inj held).symm, rfl⟩) (.inl rfl) (by simp) (by simp) (.inl rfl)

theorem evaluate_live {pool : ThreadPool n} (consistent : Consistent kind pool) (live : Live pool)
    (running : pool.stop = false) {i : Fin n} (evaluating : pool.workers i = .evaluating) :
    Live (pool.setWorker i (if pool.stop ∨ pool.tasks ≠ [] then .ready else .blocking)) := by
  have locked : pool.queueMutex = some i := consistent.mutex i (by simp [evaluating, Worker.inside])
  have same : ∀ j, pool.queueMutex = some j → j = i := by simp [locked, eq_comm]
  by_cases empty : pool.tasks = []
  · rw [if_neg (by simp [running, empty])]
    exact live.move (fun j held => .inl ⟨same j held, rfl⟩) (.inl rfl) (by simp) (fun _ => empty)
      (.inr (by simp [empty]))
  · rw [if_pos (.inr empty)]
    exact live.move (fun j held => .inl ⟨same j held, rfl⟩) (.inl rfl) (fun _ => empty) (by simp) (.inl rfl)

theorem block_live {pool : ThreadPool n} (live : Live pool) {i : Fin n} (blocking : pool.workers i = .blocking) :
    Live (pool.setWorker i .waiting).unlock := by
  have enough : pool.tasks.length ≤ pool.notifications := by simp [live.blocking i blocking]
  exact live.move (by simp) (.inl rfl) (by simp) (by simp) (.inr enough)

theorem step_live {pool next : ThreadPool n} {action : Action n} (positive : 0 < n)
    (stepped : step kind pool action = some next) (consistent : Consistent kind pool) (live : Live pool)
    (running : next.shutdown = .uncalled) : Live next := by
  cases step_effect stepped with
  | append unlocked => exact append_live consistent live unlocked _
  | notifyNobody =>
      have enabled := (Option.ite_none_right_eq_some.mp stepped).1
      exact notifyNobody_live live positive enabled.2
  | notifyOne waiting => exact live.outside (by simp [waiting, Worker.inside]) rfl (by simp)
  | acquire => exact live.acquired
  | evaluate evaluating =>
      have unstopped : pool.stop = false := by simpa using mt consistent.stop.mp (not_not.mpr running)
      exact evaluate_live consistent live unstopped evaluating
  | block blocking => exact block_live live blocking
  | spurious waiting => exact live.outside (by simp [waiting, Worker.inside]) rfl (by simp)
  | take ready => exact takeTask_live consistent live ready
  | execute holding => exact live.outside (by simp [holding, Worker.inside]) rfl (by simp)
  | finish executing => exact live.outside (by simp [executing, Worker.inside]) rfl (by simp)
  | stop | swap | notifyAll | join => cases running

theorem step_uncalled {pool next : ThreadPool n} {action : Action n} (stepped : step kind pool action = some next)
    (running : next.shutdown = .uncalled) : pool.shutdown = .uncalled :=
  of_not_not fun called => (step_called stepped called).1 running

theorem step_internal {pool next : ThreadPool n} {action : Action n} (stepped : step kind pool action = some next)
    (internal : action.internal = true) : next.shutdown = pool.shutdown ∧ next.submitted = pool.submitted := by
  cases step_effect stepped with
  | append | spurious | stop | swap | notifyAll | join => cases internal
  | take => exact ⟨(takeTask_keeps pool _).1, (takeTask_keeps pool _).2.2.1⟩
  | _ => exact ⟨rfl, rfl⟩

theorem exec_live {pool : ThreadPool n} (positive : 0 < n) {actions : List (Action n)}
    (ran : exec (step kind) {} actions = some pool) : pool.shutdown = .uncalled → Live pool := by
  refine (exec_invariant (P := fun pool : ThreadPool n =>
    Consistent kind pool ∧ (pool.shutdown = .uncalled → Live pool)) ?_ ran ⟨initial_consistent, fun _ => initial_live⟩).2
  rintro before action after stepped ⟨consistent, live⟩
  exact ⟨step_consistent stepped consistent, fun running =>
    step_live positive stepped consistent (live (step_uncalled stepped running)) running⟩

/-! ## What is left to do -/

end ThreadPool

def Worker.rank : Worker → Nat
  | .holding _ => 6
  | .executing _ => 5
  | .outside | .woken => 4
  | .evaluating => 3
  | .ready => 2
  | .blocking => 1
  | .waiting | .exited => 0

namespace ThreadPool

variable {n : Nat} {kind : ShutdownKind}

def work (pool : ThreadPool n) : Nat :=
  5 * pool.tasks.length + 5 * pool.notifications + total Worker.rank pool.workers

theorem internal_work {pool next : ThreadPool n} {action : Action n} (stepped : step kind pool action = some next)
    (internal : action.internal = true) (live : Live pool) : next.work < pool.work := by
  have moved := total_update Worker.rank pool.workers
  cases step_effect stepped with
  | append | spurious | stop | swap | notifyAll | join => cases internal
  | notifyNobody =>
      have enabled := (Option.ite_none_right_eq_some.mp stepped).1
      simp only [work]
      omega
  | @notifyOne i waiting =>
      have enabled := (Option.ite_none_right_eq_some.mp stepped).1
      have change := moved i .woken
      simp only [waiting, Worker.rank] at change
      simp only [work, setWorker]
      omega
  | @acquire i unlocked enters =>
      have change := moved i .evaluating
      have before : (pool.workers i).rank = 4 := by rcases enters with at_ | at_ <;> simp [at_, Worker.rank]
      rw [before] at change
      simp only [Worker.rank] at change
      simp only [work, setWorker]
      omega
  | @evaluate i evaluating =>
      simp only [work, setWorker]
      split
      · have change := moved i .ready
        simp only [evaluating, Worker.rank] at change
        omega
      · have change := moved i .blocking
        simp only [evaluating, Worker.rank] at change
        omega
  | @block i blocking =>
      have change := moved i .waiting
      simp only [blocking, Worker.rank] at change
      simp only [work, setWorker, unlock]
      omega
  | @take i ready =>
      unfold takeTask
      split
      · rename_i empty
        exact absurd empty (live.ready i ready)
      · rename_i task rest front
        have change := moved i (.holding task)
        simp only [ready, Worker.rank] at change
        simp only [work, front, setWorker, unlock, List.length_cons]
        omega
  | @execute i task holding =>
      have change := moved i (.executing task)
      simp only [holding, Worker.rank] at change
      simp only [work, setWorker]
      omega
  | @finish i task executing =>
      have change := moved i .outside
      simp only [executing, Worker.rank] at change
      simp only [work, setWorker]
      omega

/-! ## Where it comes to rest -/

theorem rest_worker {pool : ThreadPool n} (consistent : Consistent kind pool) (live : Live pool)
    (running : pool.shutdown = .uncalled) (rest : AtRest (step kind) (·.internal = true) pool) (i : Fin n) :
    pool.workers i = .waiting := by
  have unlocked : pool.queueMutex = none := by
    cases held : pool.queueMutex with
    | none => rfl
    | some j =>
        have inside := live.locked j held
        have evaluate := rest (.evaluate j) rfl
        have block := rest (.block j) rfl
        have take := rest (.take j) rfl
        simp only [step, ite_eq_right_iff, reduceCtorEq, imp_false] at evaluate block take
        cases worker : pool.workers j <;> simp_all [Worker.inside]
  have acquire := rest (.acquire i) rfl
  have execute := rest (.execute i) rfl
  have finish := rest (.finish i) rfl
  have inside : (pool.workers i).inside ≠ true := by
    intro inside
    have locked := consistent.mutex i inside
    rw [unlocked] at locked
    cases locked
  have exited : pool.workers i ≠ .exited := fun left => consistent.stop.mp (consistent.exited i left).1 running
  simp only [step, unlocked, true_and, ite_eq_right_iff, reduceCtorEq, imp_false, not_or] at acquire
  simp only [step] at execute finish
  cases worker : pool.workers i <;> simp_all [Worker.inside]

theorem rest_empty {pool : ThreadPool n} (positive : 0 < n) (live : Live pool)
    (waiting : ∀ i, pool.workers i = .waiting) (rest : AtRest (step kind) (·.internal = true) pool) :
    pool.tasks = [] := by
  have silent : pool.notifications = 0 := by
    have notify := rest (.notifyOne (some ⟨0, positive⟩)) rfl
    simpa [step, waiting] using notify
  rcases live.noticed with ⟨i, awake⟩ | enough
  · simp [waiting, Worker.awake] at awake
  · exact List.eq_nil_of_length_eq_zero (by omega)

theorem rest_started {pool : ThreadPool n} (consistent : Consistent kind pool) (live : Live pool)
    (waiting : ∀ i, pool.workers i = .waiting) (empty : pool.tasks = []) (ticket : Nat) :
    pool.started.count ticket = if ticket < pool.submitted then 1 else 0 := by
  have none_held : held pool.workers ticket = 0 :=
    Finset.sum_eq_zero fun i _ => by rw [waiting i]; rfl
  have balance := consistent.balance ticket
  rw [queued, empty, none_held, live.kept, List.map_nil, List.count_nil] at balance
  omega

theorem perm_range {started : List Nat} {m : Nat} (once : ∀ ticket, started.count ticket = if ticket < m then 1 else 0) :
    started.Perm (List.range m) := by
  rw [List.perm_iff_count]
  intro ticket
  rw [once, List.nodup_range.count]
  simp only [List.mem_range]

/-- As long as nobody calls a shutdown, no interleaving of the workers' waits with `append` leaves a task behind. -/
theorem every_task_starts (positive : 0 < n) (actions : List (Action n)) (pool : ThreadPool n)
    (ran : exec (step kind) {} actions = some pool) (running : pool.shutdown = .uncalled) :
    Settles (step kind) (·.internal = true)
      (fun later => later.tasks = [] ∧ (∀ i, later.workers i = .waiting) ∧
        later.started.Perm ((submissions 0 actions).map Task.ticket)) pool.work pool := by
  let I : ThreadPool n → Prop := fun later =>
    Consistent kind later ∧ Live later ∧ later.shutdown = .uncalled ∧ later.submitted = pool.submitted
  have tickets : (submissions 0 actions).map Task.ticket = List.range pool.submitted := exec_tickets ran
  refine @settles _ _ (step kind) (·.internal = true) I _ work ?_ ?_ ?_ pool
    ⟨exec_consistent ran, exec_live positive ran running, running, rfl⟩
  · rintro before action after stepped internal ⟨consistent, live, uncalled, same⟩
    obtain ⟨shutdown, submitted⟩ := step_internal stepped internal
    rw [← shutdown] at uncalled
    exact ⟨step_consistent stepped consistent, step_live positive stepped consistent live uncalled, uncalled,
      submitted.trans same⟩
  · rintro before action after stepped internal ⟨-, live, -, -⟩
    exact internal_work stepped internal live
  · rintro later ⟨consistent, live, uncalled, same⟩ rest
    have waiting := rest_worker consistent live uncalled rest
    have empty := rest_empty positive live waiting rest
    refine ⟨empty, waiting, ?_⟩
    rw [tickets, ← same]
    exact perm_range (rest_started consistent live waiting empty)

theorem every_task_starts_of_two :
    ∃ pool : ThreadPool 1, exec (step .shutdown) {}
        [.acquire 0, .evaluate 0, .block 0, .append .normal, .append .high] = some pool ∧
      Settles (step .shutdown) (·.internal = true)
        (fun later => later.tasks = [] ∧ (∀ i, later.workers i = .waiting) ∧ later.started.Perm [0, 1])
        pool.work pool := by
  obtain ⟨pool, ran, running⟩ : ∃ pool : ThreadPool 1, exec (step .shutdown) {}
      [.acquire 0, .evaluate 0, .block 0, .append .normal, .append .high] = some pool ∧ pool.shutdown = .uncalled :=
    ⟨_, rfl, rfl⟩
  exact ⟨pool, ran, every_task_starts (by decide) _ pool ran running⟩

end ThreadPool

end ServerFramework.Core
