import ServerFramework.Library.FrontFirst
import ServerFramework.Proof.Core.Shutdown

namespace ServerFramework.Core
open Library

def Task.isHigh (task : Task) : Bool := task.priority = .high

namespace ThreadPool

variable {n : Nat} {kind : ShutdownKind}

/-! ## The loops of `append_priority` -/

theorem drainHigh_eq (tmp tasks : List Task) :
    drainHigh tmp tasks = (tmp ++ tasks.takeWhile Task.isHigh, tasks.dropWhile Task.isHigh) := by
  induction tasks generalizing tmp with
  | nil => simp [drainHigh]
  | cons front rest ih =>
      rw [drainHigh]
      split
      · rename_i high
        simp [ih, Task.isHigh, high]
      · rename_i other
        simp [Task.isHigh, other]

theorem drainAll_eq (tmp tasks : List Task) : drainAll tmp tasks = tmp ++ tasks := by
  induction tasks generalizing tmp with
  | nil => simp [drainAll]
  | cons front rest ih => simp [drainAll, ih]

theorem insertHigh_eq (task : Task) (tasks : List Task) :
    insertHigh task tasks = tasks.takeWhile Task.isHigh ++ task :: tasks.dropWhile Task.isHigh := by
  induction tasks with
  | nil => rfl
  | cons front rest ih =>
      rw [insertHigh]
      split
      · rename_i high
        simp [ih, Task.isHigh, high]
      · rename_i other
        simp [Task.isHigh, other]

theorem rebuild_eq (tasks : List Task) (task : Task) : rebuild tasks task = appendPriority tasks task := by
  unfold rebuild appendPriority
  split
  · simp [drainHigh_eq, drainAll_eq, insertHigh_eq]
  · rfl

theorem appendPriority_frontFirst (waiting : List Task) (task : Task) :
    appendPriority (frontFirst Task.isHigh waiting) task = frontFirst Task.isHigh (waiting ++ [task]) := by
  unfold appendPriority
  split
  · rename_i high
    rw [insertHigh_eq, frontFirst_between (by simp [Task.isHigh, high])]
  · rename_i other
    rw [frontFirst_behind (by simp [Task.isHigh, other])]

/-! ## The queue against the tasks that wait -/

/-- A worker has taken the task, or `shutdown_now` has dropped it. -/
def Gone (pool : ThreadPool n) (task : Task) : Prop :=
  held pool.workers task.ticket ≠ 0 ∨ task.ticket ∈ pool.started ∨ task.ticket ∈ pool.dropped

instance (pool : ThreadPool n) : DecidablePred pool.Gone := fun task =>
  inferInstanceAs (Decidable (held pool.workers task.ticket ≠ 0 ∨ task.ticket ∈ pool.started ∨ task.ticket ∈ pool.dropped))

def waiting (pool : ThreadPool n) (submitted : List Task) : List Task := submitted.filter fun task => ¬ pool.Gone task

structure Ordered (pool : ThreadPool n) (submitted : List Task) : Prop where
  tickets : submitted.map Task.ticket = List.range pool.submitted
  queue : ∃ waiting : List Task, waiting.Sublist submitted ∧ pool.tasks = frontFirst Task.isHigh waiting

theorem Ordered.kept {pool next : ThreadPool n} {submitted : List Task} (ordered : Ordered pool submitted)
    (count : next.submitted = pool.submitted) (tasks : next.tasks = pool.tasks) : Ordered next submitted := by
  refine ⟨?_, ?_⟩
  · rw [count]
    exact ordered.tickets
  · rw [tasks]
    exact ordered.queue

theorem Ordered.append {pool : ThreadPool n} {submitted : List Task} (ordered : Ordered pool submitted)
    (priority : TaskPriority) : Ordered { pool with
      tasks := appendPriority pool.tasks ⟨pool.submitted, priority⟩
      submitted := pool.submitted + 1
      notifications := pool.notifications + 1 } (submitted ++ [⟨pool.submitted, priority⟩]) where
  tickets := by
    rw [List.map_append, ordered.tickets, List.range_succ]
    rfl
  queue := by
    obtain ⟨waiting, among, tasks⟩ := ordered.queue
    refine ⟨waiting ++ [⟨pool.submitted, priority⟩], among.append_right _, ?_⟩
    rw [← appendPriority_frontFirst, ← tasks]

theorem Ordered.take {pool : ThreadPool n} {submitted : List Task} (ordered : Ordered pool submitted) (i : Fin n) :
    Ordered (pool.takeTask i) submitted := by
  unfold takeTask
  split
  · split <;> exact ordered.kept rfl rfl
  · rename_i task rest front
    obtain ⟨waiting, among, tasks⟩ := ordered.queue
    obtain ⟨⟨before, after, rfl, -, rfl⟩, -⟩ := frontFirst_cons (tasks.symm.trans front)
    refine ⟨ordered.tickets, before ++ after, ?_, rfl⟩
    exact ((List.sublist_cons_self task after).append_left before).trans among

theorem step_ordered {pool next : ThreadPool n} {action : Action n} {submitted : List Task}
    (stepped : step kind pool action = some next) (ordered : Ordered pool submitted) :
    Ordered next (submitted ++ submissions pool.submitted [action]) := by
  have quiet {next : ThreadPool n} (still : Ordered next submitted) : Ordered next (submitted ++ []) := by
    rwa [List.append_nil]
  cases step_effect stepped with
  | append => exact ordered.append _
  | take => exact quiet (ordered.take _)
  | swap =>
      obtain ⟨waiting, among, tasks⟩ := ordered.queue
      exact quiet ⟨ordered.tickets, [], List.nil_sublist _, rfl⟩
  | notifyNobody | notifyOne | acquire | evaluate | block | spurious | execute | finish | stop | notifyAll | join =>
      exact quiet (ordered.kept rfl rfl)

theorem exec_ordered {actions : List (Action n)} {pool next : ThreadPool n} {submitted : List Task}
    (ran : exec (step kind) pool actions = some next) (ordered : Ordered pool submitted) :
    Ordered next (submitted ++ submissions pool.submitted actions) := by
  induction actions generalizing pool submitted with
  | nil =>
      cases ran
      rwa [submissions, List.append_nil]
  | cons action rest ih =>
      obtain ⟨middle, stepped, later⟩ := exec_cons.mp ran
      rw [step_submitted stepped rest, ← List.append_assoc]
      exact ih later (step_ordered stepped ordered)

/-! ## All that waits, in order -/

theorem gone_iff {pool : ThreadPool n} (consistent : Consistent kind pool) {task : Task}
    (known : task.ticket < pool.submitted) : pool.Gone task ↔ task.ticket ∉ pool.tasks.map Task.ticket := by
  have balance := consistent.balance task.ticket
  rw [if_pos known] at balance
  rw [← List.count_eq_zero, ← queued, Gone, ← List.count_pos_iff, ← List.count_pos_iff]
  omega

theorem Ordered.waiting_eq {pool : ThreadPool n} {submitted : List Task} (ordered : Ordered pool submitted)
    (consistent : Consistent kind pool) : pool.tasks = frontFirst Task.isHigh (pool.waiting submitted) := by
  obtain ⟨left, among, tasks⟩ := ordered.queue
  have distinct : (submitted.map Task.ticket).Nodup := ordered.tickets ▸ List.nodup_range
  have same : left = pool.waiting submitted := by
    rw [sublist_eq_filter among (List.Nodup.of_map _ distinct), ThreadPool.waiting]
    apply List.filter_congr
    intro task member
    have known : task.ticket < pool.submitted := by
      rw [← List.mem_range, ← ordered.tickets]
      exact List.mem_map_of_mem member
    have queued : task.ticket ∈ pool.tasks.map Task.ticket ↔ task ∈ left := by
      rw [tasks, ((frontFirst_perm Task.isHigh left).map Task.ticket).mem_iff]
      constructor
      · intro ticket
        obtain ⟨other, here, equal⟩ := List.mem_map.mp ticket
        rwa [← List.inj_on_of_nodup_map distinct (among.subset here) member equal]
      · exact List.mem_map_of_mem
    have waits := gone_iff consistent known
    rw [queued] at waits
    simp [waits]
  rw [tasks, same]

theorem take_front {pool next : ThreadPool n} {i : Fin n} {task : Task} (stepped : step kind pool (.take i) = some next)
    (taken : next.workers i = .holding task) : ∃ rest, pool.tasks = task :: rest := by
  cases step_effect stepped with
  | take =>
      unfold takeTask at taken
      split at taken
      · split at taken <;> simp [setWorker, unlock] at taken
      · rename_i front rest tasks
        have same : front = task := by simpa [setWorker, unlock] using taken
        exact ⟨rest, same ▸ tasks⟩

theorem queue_in_order (actions : List (Action n)) (pool : ThreadPool n)
    (ran : exec (step kind) {} actions = some pool) :
    pool.tasks = frontFirst Task.isHigh (pool.waiting (submissions 0 actions)) ∧
    (∀ priority next, step kind pool (.append priority) = some next →
      next.tasks = rebuild pool.tasks ⟨pool.submitted, priority⟩ ∧
      next.tasks.Perm (⟨pool.submitted, priority⟩ :: pool.tasks)) ∧
    ∀ i task next, step kind pool (.take i) = some next → next.workers i = .holding task →
      task.priority ≠ .high → ∀ other ∈ pool.tasks, other.priority ≠ .high := by
  have consistent : Consistent kind pool := exec_consistent ran
  have ordered : Ordered pool (submissions 0 actions) := exec_ordered ran ⟨rfl, [], .refl _, rfl⟩
  refine ⟨ordered.waiting_eq consistent, ?_, ?_⟩
  · intro priority next stepped
    cases step_effect stepped with
    | append => exact ⟨(rebuild_eq _ _).symm, appendPriority_perm _ _⟩
  · intro i task next stepped taken low other member
    obtain ⟨rest, front⟩ := take_front stepped taken
    have waits := ordered.waiting_eq consistent
    have nobody := (frontFirst_cons (waits.symm.trans front)).2 (by simpa [Task.isHigh] using low)
    rw [waits, (frontFirst_perm _ _).mem_iff] at member
    simpa [Task.isHigh] using nobody other member

theorem queue_in_order_after_take :
    ∃ pool : ThreadPool 1, exec (step .shutdown) {}
        [.append .normal, .append .high, .append .low, .append .high, .acquire 0, .evaluate 0, .take 0] = some pool ∧
      pool.tasks.map Task.ticket = [3, 0, 2] ∧
      pool.tasks = frontFirst Task.isHigh (pool.waiting
        [⟨0, .normal⟩, ⟨1, .high⟩, ⟨2, .low⟩, ⟨3, .high⟩]) := by
  obtain ⟨pool, ran⟩ : ∃ pool : ThreadPool 1, exec (step .shutdown) {}
      [.append .normal, .append .high, .append .low, .append .high, .acquire 0, .evaluate 0, .take 0] = some pool :=
    ⟨_, rfl⟩
  refine ⟨pool, ran, ?_, (queue_in_order _ pool ran).1⟩
  obtain rfl := Option.some.inj ran
  rfl

end ThreadPool

end ServerFramework.Core
