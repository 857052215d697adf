import ServerFramework.Proof.Core.Shutdown

namespace ServerFramework.Core
open Library

/-! ## A pool of at most one worker -/

def Worker.hand : Worker → List Nat
  | .holding task => [task.ticket]
  | _ => []

namespace ThreadPool

variable {n : Nat} {kind : ShutdownKind}

/-- What has started, the task in the worker's hand and the queue are one line. -/
structure InOrder (pool : ThreadPool n) (hand : List Nat) : Prop where
  line : pool.started ++ hand ++ pool.tasks.map Task.ticket = List.range pool.submitted
  held : ∀ i, (pool.workers i).hand = hand

theorem initial_inOrder : InOrder ({} : ThreadPool n) [] where
  line := rfl
  held _ := rfl

theorem update_hand (one : n ≤ 1) (workers : Fin n → Worker) (i : Fin n) (worker : Worker) (j : Fin n) :
    (Function.update workers i worker j).hand = worker.hand := by
  obtain rfl : j = i := Fin.ext (by omega)
  rw [Function.update_self]

theorem InOrder.move {pool : ThreadPool n} {hand : List Nat} (inOrder : InOrder pool hand) (one : n ≤ 1) {i : Fin n}
    (idle : (pool.workers i).hand = []) {worker : Worker} (empty : worker.hand = []) {queueMutex : Option (Fin n)}
    {notifications : Nat} :
    InOrder { pool with workers := Function.update pool.workers i worker, queueMutex, notifications } [] where
  line := by
    have line := inOrder.line
    rwa [← inOrder.held i, idle] at line
  held j := (update_hand one pool.workers i worker j).trans empty

theorem append_inOrder {pool : ThreadPool n} {hand : List Nat} (inOrder : InOrder pool hand) {priority : TaskPriority}
    (low : priority ≠ .high) (notifications : Nat) :
    InOrder { pool with
      tasks := appendPriority pool.tasks ⟨pool.submitted, priority⟩
      submitted := pool.submitted + 1
      notifications } hand where
  line := by
    rw [appendPriority, if_neg low, List.map_append, ← List.append_assoc, inOrder.line]
    exact List.range_succ.symm
  held := inOrder.held

theorem takeTask_inOrder {pool : ThreadPool n} {hand : List Nat} (inOrder : InOrder pool hand) (one : n ≤ 1) {i : Fin n}
    (ready : pool.workers i = .ready) : ∃ hand, InOrder (pool.takeTask i) hand := by
  have idle : (pool.workers i).hand = [] := by rw [ready]; rfl
  unfold takeTask
  split
  · split
    · exact ⟨[], inOrder.move one idle rfl⟩
    · exact ⟨[], inOrder.move one idle rfl⟩
  · rename_i task rest front
    refine ⟨[task.ticket], ?_, update_hand one pool.workers i (.holding task)⟩
    have line := inOrder.line
    rw [← inOrder.held i, idle, front, List.append_nil, List.map_cons, List.append_cons] at line
    exact line

theorem execute_inOrder {pool : ThreadPool n} {hand : List Nat} (inOrder : InOrder pool hand) (one : n ≤ 1) {i : Fin n}
    {task : Task} (holding : pool.workers i = .holding task) :
    InOrder { pool.setWorker i (.executing task) with started := pool.started ++ [task.ticket] } [] where
  line := by
    have line := inOrder.line
    rw [← inOrder.held i, holding] at line
    rw [List.append_nil]
    exact line
  held := update_hand one pool.workers i (.executing task)

theorem wake_hand (worker : Worker) : (wake worker).hand = worker.hand := by
  cases worker <;> rfl

theorem step_inOrder {pool next : ThreadPool n} {action : Action n} (one : n ≤ 1)
    (stepped : step .shutdown pool action = some next) (low : ∀ priority, action = .append priority → priority ≠ .high) :
    (∃ hand, InOrder pool hand) → ∃ hand, InOrder next hand := by
  rintro ⟨hand, inOrder⟩
  cases step_effect stepped with
  | append => exact ⟨hand, append_inOrder inOrder (low _ rfl) _⟩
  | notifyNobody | stop | join => exact ⟨hand, inOrder.line, inOrder.held⟩
  | notifyOne waiting | spurious waiting => exact ⟨[], inOrder.move one (by rw [waiting]; rfl) rfl⟩
  | acquire _ enters =>
      refine ⟨[], inOrder.move one ?_ rfl⟩
      rcases enters with at_ | at_
      · rw [at_]; rfl
      · rw [at_]; rfl
  | evaluate evaluating =>
      refine ⟨[], inOrder.move one (by rw [evaluating]; rfl) ?_⟩
      split
      · rfl
      · rfl
  | block blocking => exact ⟨[], inOrder.move one (by rw [blocking]; rfl) rfl⟩
  | swap now => cases now
  | take ready => exact takeTask_inOrder inOrder one ready
  | execute holding => exact ⟨[], execute_inOrder inOrder one holding⟩
  | finish executing => exact ⟨[], inOrder.move one (by rw [executing]; rfl) rfl⟩
  | notifyAll => exact ⟨hand, inOrder.line, fun i => (wake_hand _).trans (inOrder.held i)⟩

theorem InOrder.started_front {pool : ThreadPool n} {hand : List Nat} (inOrder : InOrder pool hand) :
    pool.started <+: List.range pool.submitted := by
  rw [← inOrder.line, List.append_assoc]
  exact List.prefix_append _ _

end ThreadPool

end ServerFramework.Core
