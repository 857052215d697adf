import ServerFramework.Proof.Base.EventLoop
import Mathlib.Data.List.Forall2

namespace ServerFramework.Base
open Library Library.Heap

namespace RunPhase

variable {κ τ : Type}

def batch : RunPhase κ τ → List τ
  | .draining tasks => tasks
  | .executing tasks => tasks
  | _ => []

theorem Moves.batch {clock : Int} {before after : RunPhase κ τ} (moves : before.Moves clock after) :
    after.batch = before.batch := by
  cases moves <;> rfl

end RunPhase

namespace EventLoop

variable {κ τ : Type} (heap : HeapAlgorithms (@TimerItem.expireAt κ))

/-- A push and an execution that are of the same task, the execution in a later call of `process_tasks`. -/
def Later (push execution : τ × Nat) : Prop := push.1 = execution.1 ∧ push.2 < execution.2

-- The pushes fall into those whose tasks were executed, those of the tasks at hand and those of the tasks that wait.
structure Flow (loop : EventLoop κ τ) (past batch waiting : List (τ × Nat)) : Prop where
  parts : loop.pushed = past ++ (batch ++ waiting)
  executed : List.Forall₂ Later past loop.executed
  batched : batch.map Prod.fst = loop.phase.batch
  pending : waiting.map Prod.fst = loop.pendingTasks
  earlier : ∀ push ∈ batch, push.2 < loop.calls
  known : ∀ push ∈ waiting, push.2 ≤ loop.calls

theorem visit_flow {loop : EventLoop κ τ} {now : Int} {t : TimerEntry κ} {fired : List (TimerEntry κ)}
    {past batch waiting : List (τ × Nat)} (phase : loop.phase = .firing now (t :: fired))
    (flow : Flow loop past batch waiting) : Flow (loop.visit now t fired) past batch waiting := by
  have nothing : batch.map Prod.fst = [] := by rw [flow.batched, phase]; rfl
  unfold visit
  split
  · exact ⟨flow.parts, flow.executed, nothing, flow.pending, flow.earlier, flow.known⟩
  · split
    · exact ⟨flow.parts, flow.executed, nothing, flow.pending, flow.earlier, flow.known⟩
    · exact ⟨flow.parts, flow.executed, nothing, flow.pending, flow.earlier, flow.known⟩

theorem Flow.push {loop : EventLoop κ τ} {past batch waiting : List (τ × Nat)} (flow : Flow loop past batch waiting)
    (task : τ) : Flow (loop.pushTask task) past batch (waiting ++ [(task, loop.calls)]) where
  parts := by
    rw [← List.append_assoc batch, ← List.append_assoc past, ← flow.parts]
    rfl
  executed := flow.executed
  batched := flow.batched
  pending := by
    rw [List.map_append, flow.pending]
    rfl
  earlier := flow.earlier
  known := by
    intro push member
    rcases List.mem_append.mp member with old | new
    · exact flow.known push old
    · rw [List.mem_singleton.mp new]
      exact Nat.le_refl loop.calls

theorem processTasks_batch (loop : EventLoop κ τ) : loop.processTasks.phase.batch = loop.pendingTasks := by
  unfold processTasks
  split
  · rename_i nothing
    exact (List.isEmpty_iff.mp nothing).symm
  · rfl

theorem processTasks_pending (loop : EventLoop κ τ) : loop.processTasks.pendingTasks = [] := by
  unfold processTasks
  split
  · rename_i nothing
    exact List.isEmpty_iff.mp nothing
  · rfl

theorem processTasks_records (loop : EventLoop κ τ) : loop.processTasks.pushed = loop.pushed ∧
    loop.processTasks.executed = loop.executed ∧ loop.processTasks.calls = loop.calls + 1 := by
  unfold processTasks
  split <;> exact ⟨rfl, rfl, rfl⟩

theorem Flow.take {loop : EventLoop κ τ} {past batch waiting : List (τ × Nat)} (flow : Flow loop past batch waiting)
    (phase : loop.phase = .outside) : Flow loop.processTasks past waiting [] := by
  obtain ⟨pushed, executed, calls⟩ := loop.processTasks_records
  have nothing : batch = [] := by
    have batched := flow.batched
    rw [phase] at batched
    exact List.map_eq_nil_iff.mp batched
  constructor
  · rw [pushed, flow.parts, nothing, List.nil_append, List.append_nil]
  · rw [executed]
    exact flow.executed
  · rw [processTasks_batch]
    exact flow.pending
  · exact loop.processTasks_pending.symm
  · intro push member
    rw [calls]
    exact Nat.lt_succ_of_le (flow.known push member)
  · exact fun push member => absurd member List.not_mem_nil

theorem Flow.execute {loop : EventLoop κ τ} {past batch waiting : List (τ × Nat)} (flow : Flow loop past batch waiting)
    {task : τ} {tasks : List τ} (phase : loop.phase = .draining (task :: tasks)) :
    ∃ push rest, Flow (loop.execute task tasks) (past ++ [push]) rest waiting := by
  have batched : batch.map Prod.fst = task :: tasks := by rw [flow.batched, phase]; rfl
  obtain ⟨push, rest, rfl, same, others⟩ := List.map_eq_cons_iff.mp batched
  have before : push.2 < loop.calls := flow.earlier push List.mem_cons_self
  refine ⟨push, rest, ?_, ?_, others, flow.pending, ?_, flow.known⟩
  · rw [List.append_assoc]
    exact flow.parts
  · exact List.rel_append flow.executed (.cons ⟨same, before⟩ .nil)
  · exact fun other member => flow.earlier other (List.mem_cons_of_mem push member)

theorem step_flow {loop next : EventLoop κ τ} {action : Action κ τ} (stepped : loop.step heap action = some next)
    (flow : ∃ past batch waiting, Flow loop past batch waiting) :
    ∃ past batch waiting, Flow next past batch waiting := by
  obtain ⟨past, batch, waiting, flow⟩ := flow
  cases step_effect heap stepped with
  | quiet later moves =>
      have batched := flow.batched.trans moves.batch.symm
      exact ⟨past, batch, waiting, flow.parts, flow.executed, batched, flow.pending, flow.earlier, flow.known⟩
  | add => exact ⟨past, batch, waiting, { flow with }⟩
  | insert => exact ⟨past, batch, waiting, { flow with }⟩
  | cancel => exact ⟨past, batch, waiting, { flow with }⟩
  | extract phase =>
      have batched := flow.batched
      rw [phase] at batched
      exact ⟨past, batch, waiting, { flow with batched }⟩
  | visit phase => exact ⟨past, batch, waiting, visit_flow phase flow⟩
  | renew phase =>
      have batched := flow.batched
      rw [phase] at batched
      exact ⟨past, batch, waiting, { flow with batched }⟩
  | restore phase =>
      have batched := flow.batched
      rw [phase] at batched
      exact ⟨past, batch, waiting, { flow with batched }⟩
  | push task => exact ⟨past, batch, _, flow.push task⟩
  | take phase => exact ⟨past, waiting, [], flow.take phase⟩
  | execute phase =>
      obtain ⟨push, rest, flow⟩ := flow.execute phase
      exact ⟨_, rest, waiting, flow⟩

/-! ## Whole runs -/

theorem tasks_fifo (actions : List (Action κ τ)) (loop : EventLoop κ τ)
    (ran : exec (step heap) {} actions = some loop) :
    loop.executed.map Prod.fst <+: loop.pushed.map Prod.fst ∧
    loop.pushed.map Prod.fst = loop.executed.map Prod.fst ++ (loop.phase.batch ++ loop.pendingTasks) ∧
    ∀ (i : Nat) (push execution : τ × Nat), loop.pushed[i]? = some push → loop.executed[i]? = some execution →
      push.1 = execution.1 ∧ push.2 < execution.2 := by
  obtain ⟨past, batch, waiting, flow⟩ : ∃ past batch waiting, Flow loop past batch waiting := by
    refine exec_invariant (P := fun loop => ∃ past batch waiting, Flow loop past batch waiting) ?_ ran ?_
    · exact fun before action after stepped flow => step_flow heap stepped flow
    · exact ⟨[], [], [], rfl, .nil, rfl, rfl, nofun, nofun⟩
  have same : past.map Prod.fst = loop.executed.map Prod.fst := by
    rw [← List.forall₂_eq_eq_eq, List.forall₂_map_left_iff, List.forall₂_map_right_iff]
    exact flow.executed.imp fun push execution later => later.1
  have whole : loop.pushed.map Prod.fst = loop.executed.map Prod.fst ++ (loop.phase.batch ++ loop.pendingTasks) := by
    rw [flow.parts, List.map_append, List.map_append, same, flow.batched, flow.pending]
  refine ⟨⟨_, whole.symm⟩, whole, ?_⟩
  intro i push execution pushed executed
  have inside : i < past.length := by
    rw [flow.executed.length_eq]
    exact (List.getElem?_eq_some_iff.mp executed).1
  rw [flow.parts, List.getElem?_append_left inside] at pushed
  obtain ⟨_, rfl⟩ := List.getElem?_eq_some_iff.mp pushed
  obtain ⟨_, rfl⟩ := List.getElem?_eq_some_iff.mp executed
  exact flow.executed.get inside _

theorem tasks_fifo_late_push :
    ∃ loop : EventLoop Nat Nat, exec (step (sifting TimerItem.expireAt)) {}
        [.pushTask 1, .pushTask 2, .processTasks, .execute, .pushTask 3, .endTask .stdException, .execute,
          .endTask .returned, .execute, .readTick, .extract, .visit, .poll, .processTasks, .execute] = some loop ∧
      loop.pushed = [(1, 0), (2, 0), (3, 1)] ∧ loop.executed = [(1, 1), (2, 1), (3, 2)] ∧
      loop.executed.map Prod.fst <+: loop.pushed.map Prod.fst := by
  obtain ⟨loop, ran, pushed, executed⟩ : ∃ loop : EventLoop Nat Nat, exec (step (sifting TimerItem.expireAt)) {}
      [.pushTask 1, .pushTask 2, .processTasks, .execute, .pushTask 3, .endTask .stdException, .execute,
        .endTask .returned, .execute, .readTick, .extract, .visit, .poll, .processTasks, .execute] = some loop ∧
      loop.pushed = [(1, 0), (2, 0), (3, 1)] ∧ loop.executed = [(1, 1), (2, 1), (3, 2)] := ⟨_, rfl, rfl, rfl⟩
  exact ⟨loop, ran, pushed, executed, (tasks_fifo (sifting TimerItem.expireAt) _ loop ran).1⟩

end EventLoop

end ServerFramework.Base
