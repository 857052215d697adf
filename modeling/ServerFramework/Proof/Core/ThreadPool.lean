import ServerFramework.Core.ThreadPool
import Mathlib.Algebra.BigOperators.Fin
import Mathlib.Algebra.Order.BigOperators.Group.Finset

namespace ServerFramework.Core
open Library

/-! ## The queue -/

namespace ThreadPool

variable {n : Nat} {kind : ShutdownKind}

theorem insertHigh_perm (task : Task) (tasks : List Task) : (insertHigh task tasks).Perm (task :: tasks) := by
  induction tasks with
  | nil => exact .refl _
  | cons front rest ih =>
      rw [insertHigh]
      split
      · exact (ih.cons front).trans (.swap task front rest)
      · exact .refl _

theorem appendPriority_perm (tasks : List Task) (task : Task) :
    (appendPriority tasks task).Perm (task :: tasks) := by
  unfold appendPriority
  split
  · exact insertHigh_perm task tasks
  · exact List.perm_append_singleton task tasks

/-! ## What a step can do -/

inductive Effect (kind : ShutdownKind) (pool : ThreadPool n) : Action n → ThreadPool n → Prop
  | append {priority : TaskPriority} (unlocked : pool.queueMutex = none) :
      Effect kind pool (.append priority) { pool with
        tasks := appendPriority pool.tasks ⟨pool.submitted, priority⟩
        submitted := pool.submitted + 1
        notifications := pool.notifications + 1 }
  | notifyNobody : Effect kind pool (.notifyOne none) { pool with notifications := pool.notifications - 1 }
  | notifyOne {i : Fin n} (waiting : pool.workers i = .waiting) :
      Effect kind pool (.notifyOne (some i))
        { pool.setWorker i .woken with notifications := pool.notifications - 1 }
  | acquire {i : Fin n} (unlocked : pool.queueMutex = none)
      (enters : pool.workers i = .outside ∨ pool.workers i = .woken) :
      Effect kind pool (.acquire i) { pool.setWorker i .evaluating with queueMutex := some i }
  | evaluate {i : Fin n} (evaluating : pool.workers i = .evaluating) :
      Effect kind pool (.evaluate i)
        (pool.setWorker i (if pool.stop ∨ pool.tasks ≠ [] then .ready else .blocking))
  | block {i : Fin n} (blocking : pool.workers i = .blocking) :
      Effect kind pool (.block i) (pool.setWorker i .waiting).unlock
  | spurious {i : Fin n} (waiting : pool.workers i = .waiting) :
      Effect kind pool (.spurious i) (pool.setWorker i .woken)
  | take {i : Fin n} (ready : pool.workers i = .ready) : Effect kind pool (.take i) (pool.takeTask i)
  | execute {i : Fin n} {task : Task} (holding : pool.workers i = .holding task) :
      Effect kind pool (.execute i)
        { pool.setWorker i (.executing task) with started := pool.started ++ [task.ticket] }
  | finish {i : Fin n} {task : Task} (executing : pool.workers i = .executing task) :
      Effect kind pool (.finish i) (pool.setWorker i .outside)
  | stop (uncalled : pool.shutdown = .uncalled) :
      Effect kind pool .stop { pool with stop := true, early := pool.submitted, shutdown := .stopped }
  | swap (now : kind = .shutdownNow) (stopped : pool.shutdown = .stopped)
      (unlocked : pool.queueMutex = none) :
      Effect kind pool .swap { pool with
        dropped := pool.dropped ++ pool.tasks.map Task.ticket
        tasks := []
        shutdown := .swapped }
  | notifyAll (due : pool.shutdown = readyToNotify kind) :
      Effect kind pool .notifyAll
        { pool with workers := fun i => wake (pool.workers i), shutdown := .notified }
  | join (notified : pool.shutdown = .notified) (all : ∀ i, pool.workers i = .exited) :
      Effect kind pool .join { pool with shutdown := .returned }

theorem step_effect {pool next : ThreadPool n} {action : Action n}
    (stepped : step kind pool action = some next) : Effect kind pool action next := by
  cases action with
  | execute i =>
      rw [step] at stepped
      split at stepped
      · rename_i task holding
        obtain rfl := Option.some.inj stepped
        exact .execute holding
      · cases stepped
  | finish i =>
      rw [step] at stepped
      split at stepped
      · rename_i task executing
        obtain rfl := Option.some.inj stepped
        exact .finish executing
      · cases stepped
  | notifyOne target =>
      cases target with
      | none =>
          obtain ⟨-, rfl⟩ := by simpa only [step, Option.ite_none_right_eq_some, Option.some.injEq] using stepped
          exact .notifyNobody
      | some i =>
          obtain ⟨enabled, rfl⟩ := by
            simpa only [step, Option.ite_none_right_eq_some, Option.some.injEq] using stepped
          exact .notifyOne enabled.2
  | _ =>
      obtain ⟨enabled, rfl⟩ := by
        simpa only [step, Option.ite_none_right_eq_some, Option.some.injEq] using stepped
      first
        | exact .append enabled
        | exact .acquire enabled.1 enabled.2
        | exact .evaluate enabled
        | exact .block enabled
        | exact .spurious enabled
        | exact .take enabled
        | exact .stop enabled
        | exact .swap enabled.1 enabled.2.1 enabled.2.2
        | exact .notifyAll enabled
        | exact .join enabled.1 enabled.2

/-! ## Where each task is -/

def queued (pool : ThreadPool n) (ticket : Nat) : Nat := (pool.tasks.map Task.ticket).count ticket

end ThreadPool

def Worker.holds (ticket : Nat) : Worker → Nat
  | .holding task => if task.ticket = ticket then 1 else 0
  | _ => 0

def Worker.inside : Worker → Bool
  | .evaluating | .blocking | .ready => true
  | _ => false

namespace ThreadPool

variable {n : Nat} {kind : ShutdownKind}

def held (workers : Fin n → Worker) (ticket : Nat) : Nat := ∑ i, (workers i).holds ticket

theorem held_update (workers : Fin n → Worker) (i : Fin n) (worker : Worker) (ticket : Nat) :
    held (Function.update workers i worker) ticket + (workers i).holds ticket =
      held workers ticket + worker.holds ticket := by
  have apply_update : ∀ j, (Function.update workers i worker j).holds ticket =
      Function.update (fun j => (workers j).holds ticket) i (worker.holds ticket) j := by
    intro j
    by_cases same : j = i
    · subst same
      simp
    · simp [same]
  have total := Finset.sum_eq_add_sum_sdiff_singleton_of_mem (Finset.mem_univ i) fun j => (workers j).holds ticket
  rw [held, held, Finset.sum_congr rfl fun j _ => apply_update j,
    Finset.sum_update_of_mem (Finset.mem_univ i), total]
  omega

structure Consistent (kind : ShutdownKind) (pool : ThreadPool n) : Prop where
  mutex : ∀ i, (pool.workers i).inside = true → pool.queueMutex = some i
  stop : pool.stop = true ↔ pool.shutdown ≠ .uncalled
  early : pool.early ≤ pool.submitted
  exited : ∀ i, pool.workers i = .exited →
    pool.stop = true ∧ ∀ task ∈ pool.tasks, pool.early ≤ task.ticket
  balance : ∀ ticket, pool.queued ticket + held pool.workers ticket + pool.started.count ticket +
    pool.dropped.count ticket = if ticket < pool.submitted then 1 else 0
  kept : kind = .shutdown → pool.dropped = []
  joined : pool.shutdown = .returned → ∀ i, pool.workers i = .exited

theorem initial_consistent : Consistent kind ({} : ThreadPool n) where
  mutex := by simp [Worker.inside]
  stop := by simp
  early := Nat.le_refl 0
  exited := by simp
  balance := by simp [queued, held, Worker.holds]
  kept _ := rfl
  joined := by simp

theorem Consistent.renotify {pool : ThreadPool n} (consistent : Consistent kind pool) (notifications : Nat) :
    Consistent kind { pool with notifications } :=
  { consistent with mutex := consistent.mutex }

theorem Consistent.not_returned {pool : ThreadPool n} (consistent : Consistent kind pool) {i : Fin n}
    (running : pool.workers i ≠ .exited) : pool.shutdown ≠ .returned :=
  fun returned => running (consistent.joined returned i)

theorem Consistent.act {pool : ThreadPool n} (consistent : Consistent kind pool) {i : Fin n}
    {worker : Worker} {queueMutex : Option (Fin n)} {tasks : List Task} {started : List Nat}
    (running : pool.workers i ≠ .exited)
    (own : worker.inside = true → queueMutex = some i)
    (others : ∀ j, j ≠ i → (pool.workers j).inside = true → queueMutex = some j)
    (fewer : tasks ⊆ pool.tasks)
    (moved : ∀ ticket, (tasks.map Task.ticket).count ticket + worker.holds ticket + started.count ticket =
      pool.queued ticket + (pool.workers i).holds ticket + pool.started.count ticket)
    (leaves : worker = .exited → pool.stop = true ∧ tasks = []) :
    Consistent kind { pool with
      workers := Function.update pool.workers i worker
      queueMutex
      tasks
      started } where
  mutex :=
    (Function.forall_update_iff pool.workers fun j w => w.inside = true → queueMutex = some j).mpr
      ⟨own, others⟩
  stop := consistent.stop
  early := consistent.early
  exited := by
    refine (Function.forall_update_iff pool.workers fun _ w => w = .exited →
      pool.stop = true ∧ ∀ task ∈ tasks, pool.early ≤ task.ticket).mpr ⟨?_, ?_⟩
    · intro left
      obtain ⟨stop, rfl⟩ := leaves left
      exact ⟨stop, by simp⟩
    · intro j _ left
      obtain ⟨stop, later⟩ := consistent.exited j left
      exact ⟨stop, fun task member => later task (fewer member)⟩
  balance ticket := by
    have update := held_update pool.workers i worker ticket
    have before := consistent.balance ticket
    have change := moved ticket
    simp only [queued] at before change ⊢
    omega
  kept := consistent.kept
  joined returned := absurd returned (consistent.not_returned running)

theorem Consistent.move {pool : ThreadPool n} (consistent : Consistent kind pool) {i : Fin n}
    {worker : Worker} {queueMutex : Option (Fin n)} (running : pool.workers i ≠ .exited)
    (own : worker.inside = true → queueMutex = some i)
    (others : ∀ j, j ≠ i → (pool.workers j).inside = true → queueMutex = some j)
    (same : ∀ ticket, worker.holds ticket = (pool.workers i).holds ticket)
    (leaves : worker = .exited → pool.stop = true ∧ pool.tasks = []) :
    Consistent kind { pool with workers := Function.update pool.workers i worker, queueMutex } :=
  consistent.act running own others (List.Subset.refl _) (fun ticket => by rw [same]; rfl) leaves

theorem Consistent.owner {pool : ThreadPool n} (consistent : Consistent kind pool) {i j : Fin n}
    (inside : (pool.workers i).inside = true) (other : j ≠ i) : (pool.workers j).inside ≠ true := by
  intro second
  have first := consistent.mutex i inside
  rw [consistent.mutex j second] at first
  exact other (Option.some.inj first)

theorem append_consistent {pool : ThreadPool n} (consistent : Consistent kind pool) (priority : TaskPriority) :
    Consistent kind { pool with
      tasks := appendPriority pool.tasks ⟨pool.submitted, priority⟩
      submitted := pool.submitted + 1
      notifications := pool.notifications + 1 } where
  mutex := consistent.mutex
  stop := consistent.stop
  early := Nat.le_succ_of_le consistent.early
  exited i left := by
    obtain ⟨stop, later⟩ := consistent.exited i left
    refine ⟨stop, fun task member => ?_⟩
    rcases List.mem_cons.mp ((appendPriority_perm _ _).mem_iff.mp member) with rfl | old
    · exact consistent.early
    · exact later task old
  balance ticket := by
    have before := consistent.balance ticket
    have added := ((appendPriority_perm pool.tasks ⟨pool.submitted, priority⟩).map Task.ticket).count_eq ticket
    rw [List.map_cons, List.count_cons] at added
    simp only [queued] at before ⊢
    rw [added]
    by_cases new : pool.submitted = ticket
    · subst new
      simp only [beq_self_eq_true, if_true, Nat.lt_irrefl, if_false, Nat.lt_succ_self] at before ⊢
      omega
    · have bound : ticket < pool.submitted + 1 ↔ ticket < pool.submitted := by omega
      simp only [beq_iff_eq, new, if_false, Nat.add_zero, bound]
      exact before
  kept := consistent.kept
  joined := consistent.joined

theorem takeTask_consistent {pool : ThreadPool n} (consistent : Consistent kind pool) {i : Fin n}
    (ready : pool.workers i = .ready) : Consistent kind (pool.takeTask i) := by
  have inside : (pool.workers i).inside = true := by rw [ready]; rfl
  have running : pool.workers i ≠ .exited := by rw [ready]; simp
  have others : ∀ j, j ≠ i → (pool.workers j).inside = true → none = some j :=
    fun j other second => absurd second (consistent.owner inside other)
  unfold takeTask
  split
  · rename_i empty
    split
    · rename_i stop
      exact consistent.move running (by simp [Worker.inside]) others (by simp [ready, Worker.holds])
        fun _ => ⟨stop, empty⟩
    · exact consistent.move running (by simp [Worker.inside]) others (by simp [ready, Worker.holds]) (by simp)
  · rename_i task rest front
    refine consistent.act running (by simp [Worker.inside]) others ?_ ?_ (by simp)
    · rw [front]
      exact List.subset_cons_self task rest
    · intro ticket
      simp only [queued, front, ready, Worker.holds, List.map_cons, List.count_cons, beq_iff_eq,
        setWorker, unlock]
      omega

theorem wake_consistent {pool : ThreadPool n} (consistent : Consistent kind pool) {i : Fin n}
    (waiting : pool.workers i = .waiting) : Consistent kind (pool.setWorker i .woken) :=
  consistent.move (by simp [waiting]) (by simp [Worker.inside]) (fun j _ => consistent.mutex j)
    (by simp [waiting, Worker.holds]) (by simp)

theorem acquire_consistent {pool : ThreadPool n} (consistent : Consistent kind pool) {i : Fin n}
    (unlocked : pool.queueMutex = none)
    (enters : pool.workers i = .outside ∨ pool.workers i = .woken) :
    Consistent kind { pool.setWorker i .evaluating with queueMutex := some i } := by
  have nobody : ∀ j, (pool.workers j).inside ≠ true := by
    intro j inside
    have locked := consistent.mutex j inside
    rw [unlocked] at locked
    cases locked
  refine consistent.move ?_ (fun _ => rfl) (fun j _ inside => absurd inside (nobody j)) ?_ (by simp)
  · rcases enters with outside | woken
    · simp [outside]
    · simp [woken]
  · intro ticket
    rcases enters with outside | woken
    · simp [outside, Worker.holds]
    · simp [woken, Worker.holds]

theorem evaluate_consistent {pool : ThreadPool n} (consistent : Consistent kind pool) {i : Fin n}
    (evaluating : pool.workers i = .evaluating) :
    Consistent kind (pool.setWorker i (if pool.stop ∨ pool.tasks ≠ [] then .ready else .blocking)) := by
  have locked : pool.queueMutex = some i := consistent.mutex i (by simp [evaluating, Worker.inside])
  refine consistent.move (by simp [evaluating]) (fun _ => locked) (fun j _ => consistent.mutex j) ?_ ?_
  · intro ticket
    split <;> simp [evaluating, Worker.holds]
  · split <;> simp

theorem block_consistent {pool : ThreadPool n} (consistent : Consistent kind pool) {i : Fin n}
    (blocking : pool.workers i = .blocking) : Consistent kind (pool.setWorker i .waiting).unlock := by
  have inside : (pool.workers i).inside = true := by simp [blocking, Worker.inside]
  exact consistent.move (by simp [blocking]) (by simp [Worker.inside])
    (fun j other second => absurd second (consistent.owner inside other))
    (by simp [blocking, Worker.holds]) (by simp)

theorem finish_consistent {pool : ThreadPool n} (consistent : Consistent kind pool) {i : Fin n}
    {task : Task} (executing : pool.workers i = .executing task) :
    Consistent kind (pool.setWorker i .outside) :=
  consistent.move (by simp [executing]) (by simp [Worker.inside]) (fun j _ => consistent.mutex j)
    (by simp [executing, Worker.holds]) (by simp)

theorem execute_consistent {pool : ThreadPool n} (consistent : Consistent kind pool) {i : Fin n}
    {task : Task} (holding : pool.workers i = .holding task) :
    Consistent kind { pool.setWorker i (.executing task) with
      started := pool.started ++ [task.ticket] } := by
  refine consistent.act (by simp [holding]) (by simp [Worker.inside])
    (fun j _ => consistent.mutex j) (List.Subset.refl _) ?_ (by simp)
  intro ticket
  simp only [queued, holding, Worker.holds, List.count_append, List.count_singleton, beq_iff_eq,
    setWorker]
  omega

theorem stop_consistent {pool : ThreadPool n} (consistent : Consistent kind pool)
    (uncalled : pool.shutdown = .uncalled) :
    Consistent kind { pool with stop := true, early := pool.submitted, shutdown := .stopped } :=
  { consistent with
    stop := by simp
    early := Nat.le_refl _
    exited := fun i left => absurd uncalled (consistent.stop.mp (consistent.exited i left).1)
    joined := by simp }

theorem swap_consistent {pool : ThreadPool n} (consistent : Consistent .shutdownNow pool)
    (stopped : pool.shutdown = .stopped) :
    Consistent .shutdownNow { pool with
      dropped := pool.dropped ++ pool.tasks.map Task.ticket
      tasks := []
      shutdown := .swapped } where
  mutex := consistent.mutex
  stop := by simpa [stopped] using consistent.stop
  early := consistent.early
  exited i left := ⟨(consistent.exited i left).1, by simp⟩
  balance ticket := by
    have before := consistent.balance ticket
    simp only [queued, List.count_append, List.map_nil, List.count_nil] at before ⊢
    omega
  kept := by simp
  joined := by simp

theorem wake_inside (worker : Worker) : (wake worker).inside = worker.inside := by
  cases worker <;> rfl

theorem wake_holds (ticket : Nat) (worker : Worker) : (wake worker).holds ticket = worker.holds ticket := by
  cases worker <;> rfl

theorem wake_eq_exited {worker : Worker} : wake worker = .exited ↔ worker = .exited := by
  cases worker <;> simp [wake]

theorem notifyAll_consistent {pool : ThreadPool n} (consistent : Consistent kind pool)
    (called : pool.shutdown ≠ .uncalled) :
    Consistent kind { pool with workers := fun i => wake (pool.workers i), shutdown := .notified } where
  mutex i inside := consistent.mutex i (wake_inside _ ▸ inside)
  stop := by simpa [called] using consistent.stop
  early := consistent.early
  exited i left := consistent.exited i (wake_eq_exited.mp left)
  balance ticket := by
    have same : held (fun i => wake (pool.workers i)) ticket = held pool.workers ticket :=
      Finset.sum_congr rfl fun i _ => wake_holds ticket (pool.workers i)
    have before := consistent.balance ticket
    simp only [queued] at before ⊢
    rw [same]
    exact before
  kept := consistent.kept
  joined := by simp

theorem join_consistent {pool : ThreadPool n} (consistent : Consistent kind pool)
    (notified : pool.shutdown = .notified) (all : ∀ i, pool.workers i = .exited) :
    Consistent kind { pool with shutdown := .returned } :=
  { consistent with
    stop := by simpa [notified] using consistent.stop
    joined := fun _ => all }

theorem step_consistent {pool next : ThreadPool n} {action : Action n}
    (stepped : step kind pool action = some next) (consistent : Consistent kind pool) :
    Consistent kind next := by
  cases step_effect stepped with
  | append => exact append_consistent consistent _
  | notifyNobody => exact consistent.renotify _
  | notifyOne waiting => exact (wake_consistent consistent waiting).renotify _
  | acquire unlocked enters => exact acquire_consistent consistent unlocked enters
  | evaluate evaluating => exact evaluate_consistent consistent evaluating
  | block blocking => exact block_consistent consistent blocking
  | spurious waiting => exact wake_consistent consistent waiting
  | take ready => exact takeTask_consistent consistent ready
  | execute holding => exact execute_consistent consistent holding
  | finish executing => exact finish_consistent consistent executing
  | stop uncalled => exact stop_consistent consistent uncalled
  | swap now stopped =>
      subst now
      exact swap_consistent consistent stopped
  | notifyAll due =>
      refine notifyAll_consistent consistent ?_
      cases kind <;> simp [due, readyToNotify]
  | join notified all => exact join_consistent consistent notified all

/-! ## What a step does to one worker -/

inductive Transition (pool : ThreadPool n) : Worker → Worker → Prop
  | stay {worker : Worker} : Transition pool worker worker
  | wake : Transition pool .waiting .woken
  | enter {worker : Worker} (enters : worker = .outside ∨ worker = .woken) :
      Transition pool worker .evaluating
  | ready : Transition pool .evaluating .ready
  | block (running : pool.stop = false) : Transition pool .evaluating .blocking
  | wait : Transition pool .blocking .waiting
  | take {task : Task} : Transition pool .ready (.holding task)
  | skip : Transition pool .ready .outside
  | exit (stop : pool.stop = true) (empty : pool.tasks = []) : Transition pool .ready .exited
  | execute {task : Task} : Transition pool (.holding task) (.executing task)
  | finish {task : Task} : Transition pool (.executing task) .outside

theorem transition_update {pool : ThreadPool n} {i : Fin n} {worker : Worker}
    (moves : Transition pool (pool.workers i) worker) (j : Fin n) :
    Transition pool (pool.workers j) (Function.update pool.workers i worker j) := by
  by_cases same : j = i
  · subst same
    rwa [Function.update_self]
  · rw [Function.update_of_ne same]
    exact .stay

theorem takeTask_transition {pool : ThreadPool n} {i : Fin n} (ready : pool.workers i = .ready) (j : Fin n) :
    Transition pool (pool.workers j) ((pool.takeTask i).workers j) := by
  unfold takeTask
  split
  · rename_i empty
    split
    · rename_i stop
      exact transition_update (ready ▸ .exit stop empty) j
    · exact transition_update (ready ▸ .skip) j
  · exact transition_update (ready ▸ .take) j

theorem step_transition {pool next : ThreadPool n} {action : Action n}
    (stepped : step kind pool action = some next) (j : Fin n) :
    Transition pool (pool.workers j) (next.workers j) := by
  cases step_effect stepped with
  | append | notifyNobody | stop | swap | join => exact .stay
  | notifyOne waiting => exact transition_update (waiting ▸ .wake) j
  | acquire unlocked enters => exact transition_update (.enter enters) j
  | evaluate evaluating =>
      refine transition_update ?_ j
      rw [evaluating]
      split
      · exact .ready
      · rename_i waits
        exact .block (by simpa using fun stop => waits (.inl stop))
  | block blocking => exact transition_update (blocking ▸ .wait) j
  | spurious waiting => exact transition_update (waiting ▸ .wake) j
  | take ready => exact takeTask_transition ready j
  | execute holding => exact transition_update (holding ▸ .execute) j
  | finish executing => exact transition_update (executing ▸ .finish) j
  | notifyAll =>
      dsimp only
      cases pool.workers j with
      | waiting => exact .wake
      | _ => exact .stay

end ThreadPool

end ServerFramework.Core
