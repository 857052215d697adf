import ServerFramework.Proof.Base.Logger

namespace ServerFramework.Base
open Library

/-- How many entries of its batch the log thread is done with. -/
def LogThread.progress : LogThread → Nat
  | .writing size left => size - left.length
  | _ => 0

namespace Logger

/-- What the console gets of an entry. -/
def shown (host : Host) (logger : Logger) (entry : Numbered) : List (StdStream × String) :=
  logger.consoleOutput host entry.2 (formatEntry host logger.fmt entry.2 ++ "\n")

def passes (consoleLevel fileLevel : LogLevel) : Action → Bool
  | .write lvl _ _ _ _ => !(lvl.value < consoleLevel.value ∧ lvl.value < fileLevel.value)
  | _ => false

/-! ## A write -/

theorem write_cases (host : Host) (logger : Logger) (lvl : LogLevel) (tag : Option String) (msg : String)
    (tick threadId : Int) :
    (passes logger.consoleLevel logger.fileLevel (.write lvl tag msg tick threadId) = false ∧
      logger.write host lvl tag msg tick threadId = logger) ∨
    (passes logger.consoleLevel logger.fileLevel (.write lvl tag msg tick threadId) = true ∧
      ((queueMax ≤ logger.queue.length ∧
        logger.write host lvl tag msg tick threadId = { logger with dropped := logger.dropped + 1 }) ∨
      logger.queue.length < queueMax ∧ ∃ e, logger.write host lvl tag msg tick threadId = { logger with
        queue := logger.queue ++ [(logger.accepted.length, e)]
        accepted := logger.accepted ++ [(logger.accepted.length, e)] })) := by
  by_cases low : lvl.value < logger.consoleLevel.value ∧ lvl.value < logger.fileLevel.value
  · left
    rw [write, if_pos low]
    exact ⟨by simp only [passes, low, and_self, decide_true, Bool.not_true], rfl⟩
  · right
    rw [write, if_neg low, enqueue]
    refine ⟨by simp only [passes, low, decide_false, Bool.not_false], ?_⟩
    by_cases full : logger.queue.length ≥ queueMax
    · exact .inl ⟨full, if_pos full⟩
    · exact .inr ⟨Nat.lt_of_not_le full, _, if_neg full⟩

/-! ## What has been printed -/

/-- The log thread has printed `printed`, and `flush` has dealt with `flushed`. -/
structure Shown (host : Host) (logger : Logger) (printed flushed : List Numbered) : Prop where
  handled : logger.handled = printed ++ flushed
  console : logger.console = printed.flatMap (logger.shown host)
  batch : ∀ size left, logger.thread = .writing size left → left.length ≤ size
  counted : logger.totalLogged + logger.thread.progress = printed.length
  late : logger.closing.joined = false → flushed = []
  room : logger.queue.length ≤ queueMax
  few : flushed.length + logger.closing.left.length ≤ queueMax
  dropped : logger.dropped = 0 ∨ queueMax ≤ logger.accepted.length

theorem init_shown (host : Host) (sinks : List LogSink) (consoleLevel fileLevel : LogLevel) (fmt : LogFormatter) :
    Shown host (({} : Logger).init sinks consoleLevel fileLevel fmt) [] [] :=
  ⟨rfl, rfl, by simp [init], rfl, fun _ => rfl, Nat.zero_le _, Nat.zero_le _, .inl rfl⟩

theorem Accounted.queue_length {logger : Logger} (accounted : Accounted logger) :
    logger.queue.length ≤ logger.accepted.length := by
  rw [accounted.split, List.length_append]
  exact Nat.le_add_left _ _

theorem write_shown {host : Host} {logger : Logger} {printed flushed : List Numbered} (accounted : Accounted logger)
    (shown : Shown host logger printed flushed) (lvl : LogLevel) (tag : Option String) (msg : String)
    (tick threadId : Int) : Shown host (logger.write host lvl tag msg tick threadId) printed flushed := by
  rcases write_cases host logger lvl tag msg tick threadId with ⟨-, same⟩ | ⟨-, ⟨full, same⟩ | ⟨space, e, same⟩⟩
  · rw [same]
    exact shown
  · rw [same]
    exact { shown with dropped := .inr (Nat.le_trans full accounted.queue_length) }
  · rw [same]
    refine { shown with room := ?_, dropped := ?_ }
    · rw [List.length_append]
      exact space
    · rw [List.length_append]
      exact shown.dropped.imp_right fun many => Nat.le_trans many (Nat.le_add_right _ _)

theorem wake_shown {host : Host} {logger next : Logger} {printed flushed : List Numbered}
    (shown : Shown host logger printed flushed) (stepped : logger.step host .wake = some next) :
    Shown host next printed flushed := by
  cases place : logger.thread with
  | waiting =>
      have counted := shown.counted
      rw [place] at counted
      simp only [step, place] at stepped
      by_cases empty : logger.queue = []
      · rw [if_pos empty] at stepped
        cases stepped
        exact { shown with batch := by simp, counted }
      · rw [if_neg empty] at stepped
        cases stepped
        refine { shown with batch := ?_, counted := ?_, room := Nat.zero_le _ }
        · rintro size left ⟨⟩
          exact Nat.le_refl _
        · simpa [LogThread.progress] using counted
  | _ => simp [step, place] at stepped

theorem handle_shown {host : Host} {logger next : Logger} {printed flushed : List Numbered}
    (accounted : Accounted logger) (shown : Shown host logger printed flushed)
    (stepped : logger.step host .handle = some next) : ∃ more, Shown host next (printed ++ more) flushed := by
  cases place : logger.thread with
  | writing size left =>
      have counted := shown.counted
      have inside := shown.batch size left place
      rw [place] at counted
      cases left with
      | nil =>
          simp only [step, place, Option.some.injEq] at stepped
          subst stepped
          refine ⟨[], ?_⟩
          rw [List.append_nil]
          refine { shown with batch := by simp, counted := ?_ }
          simpa [LogThread.progress] using counted
      | cons entry left =>
          have living : logger.closing.joined = false := by
            by_contra joined
            have exited := (accounted.joined (by simpa using joined)).1
            rw [place] at exited
            cases exited
          obtain rfl := shown.late living
          simp only [step, place, Option.some.injEq] at stepped
          subst stepped
          have handled := shown.handled
          rw [List.append_nil] at handled
          refine ⟨[entry], { shown with handled := ?_, console := ?_, batch := ?_, counted := ?_ }⟩
          · rw [handled, List.append_nil]
          · rw [List.flatMap_append, shown.console, List.flatMap_singleton]
            rfl
          · rintro _ _ ⟨⟩
            exact Nat.le_of_succ_le inside
          · simp only [LogThread.progress, List.length_cons] at counted inside
            simp only [LogThread.progress, List.length_append, List.length_singleton]
            omega
  | _ => simp [step, place] at stepped

theorem step_shown {host : Host} {logger next : Logger} {action : Action} {printed flushed : List Numbered}
    (stepped : logger.step host action = some next) (accounted : Accounted logger)
    (shown : Shown host logger printed flushed) : ∃ printed' flushed', Shown host next printed' flushed' := by
  cases action with
  | write lvl tag msg tick threadId =>
      cases stepped
      exact ⟨printed, flushed, write_shown accounted shown lvl tag msg tick threadId⟩
  | check =>
      cases place : logger.thread with
      | top =>
          have counted := shown.counted
          rw [place] at counted
          simp only [step, place, Option.some.injEq] at stepped
          subst stepped
          refine ⟨printed, flushed, { shown with batch := ?_, counted := ?_ }⟩
          · intro size left writing
            split at writing
            · cases writing
            · cases writing
          · split
            · exact counted
            · exact counted
      | _ => simp [step, place] at stepped
  | wake => exact ⟨printed, flushed, wake_shown shown stepped⟩
  | handle =>
      obtain ⟨more, later⟩ := handle_shown accounted shown stepped
      exact ⟨_, flushed, later⟩
  | shutdown =>
      obtain ⟨running, same⟩ := Option.ite_none_right_eq_some.mp stepped
      cases same
      have opened := accounted.running running
      have late := shown.late
      have few := shown.few
      rw [opened] at late few
      exact ⟨printed, flushed, { shown with late, few }⟩
  | join =>
      cases call : logger.closing with
      | joining =>
          cases place : logger.thread with
          | exited =>
              simp only [step, call, place, Option.some.injEq] at stepped
              subst stepped
              obtain rfl := shown.late (by rw [call]; rfl)
              have counted := shown.counted
              have few : ([] : List Numbered).length + logger.queue.length ≤ queueMax := by simpa using shown.room
              rw [place] at counted
              exact ⟨printed, [],
                { shown with batch := by simp, counted, late := fun _ => rfl, room := Nat.zero_le _, few }⟩
          | _ => simp [step, call, place] at stepped
      | _ => simp [step, call] at stepped
  | flush =>
      have few := shown.few
      cases call : logger.closing with
      | flushing left =>
          rw [call] at few
          cases left with
          | nil =>
              simp only [step, call, Option.some.injEq] at stepped
              subst stepped
              exact ⟨printed, flushed, { shown with late := by simp [Closing.joined], few }⟩
          | cons entry left =>
              simp only [step, call, Option.some.injEq] at stepped
              subst stepped
              refine ⟨printed, flushed ++ [entry], { shown with handled := ?_, late := by simp [Closing.joined], few := ?_ }⟩
              · rw [shown.handled, List.append_assoc]
              · simp only [Closing.left, List.length_cons] at few
                simp only [Closing.left, List.length_append, List.length_singleton]
                omega
      | _ => simp [step, call] at stepped

/-! ## What has been offered -/

theorem step_kept {host : Host} {logger next : Logger} {action : Action}
    (stepped : logger.step host action = some next) (other : passes .trace .trace action = false) :
    next.accepted = logger.accepted ∧ next.dropped = logger.dropped := by
  cases action with
  | write => cases other
  | check | wake | handle | shutdown | join | flush =>
      simp only [step] at stepped
      repeat' split at stepped
      all_goals first | contradiction | (cases stepped; exact ⟨rfl, rfl⟩)

theorem step_levels {host : Host} {logger next : Logger} {action : Action}
    (stepped : logger.step host action = some next) :
    next.consoleLevel = logger.consoleLevel ∧ next.fileLevel = logger.fileLevel := by
  cases step_effect stepped with
  | refused | accepted | turned | took | printed | stopped | joined | flushed | finished => exact ⟨rfl, rfl⟩

theorem step_offered {host : Host} {logger next : Logger} {action : Action}
    (stepped : logger.step host action = some next) :
    next.accepted.length + next.dropped = logger.accepted.length + logger.dropped +
      [action].countP (passes logger.consoleLevel logger.fileLevel) := by
  cases action with
  | write lvl tag msg tick threadId =>
      cases stepped
      rw [List.countP_singleton]
      rcases write_cases host logger lvl tag msg tick threadId with ⟨low, same⟩ | ⟨high, ⟨-, same⟩ | ⟨-, e, same⟩⟩
      · rw [same, low]
        rfl
      · rw [same, high, if_pos rfl]
        exact (Nat.add_assoc _ _ _).symm
      · rw [same, high, if_pos rfl]
        simp only [List.length_append, List.length_singleton]
        omega
  | _ =>
      obtain ⟨accepted, dropped⟩ := step_kept stepped rfl
      rw [accepted, dropped]
      rfl

theorem exec_offered {host : Host} {logger next : Logger} {actions : List Action}
    (ran : exec (step host) logger actions = some next) :
    next.accepted.length + next.dropped = logger.accepted.length + logger.dropped +
      actions.countP (passes logger.consoleLevel logger.fileLevel) := by
  induction actions generalizing logger with
  | nil =>
      cases ran
      rfl
  | cons action actions ih =>
      obtain ⟨between, first, rest⟩ := exec_cons.mp ran
      have here := step_offered first
      have later := ih rest
      obtain ⟨console, file⟩ := step_levels first
      rw [console, file] at later
      rw [← List.singleton_append, List.countP_append]
      omega

/-- As long as the levels are left alone, the console shows what was accepted, in order and once, and there is nothing
it misses but what waited when the log thread ended and what found the queue full. -/
theorem console_in_order (host : Host) (sinks : List LogSink) (consoleLevel fileLevel : LogLevel) (fmt : LogFormatter)
    (actions : List Action) (logger : Logger)
    (ran : exec (step host) (({} : Logger).init sinks consoleLevel fileLevel fmt) actions = some logger) :
    logger.accepted.length + logger.dropped = actions.countP (passes consoleLevel fileLevel) ∧
    (logger.dropped = 0 ∨ queueMax ≤ logger.accepted.length) ∧
    ∃ printed flushed,
      logger.accepted = printed ++ flushed ++ logger.thread.left ++ logger.closing.left ++ logger.queue ∧
      logger.console = printed.flatMap (logger.shown host) ∧
      logger.totalLogged + logger.thread.progress = printed.length ∧ logger.queue.length ≤ queueMax ∧
      flushed.length ≤ queueMax ∧ (logger.closing.joined = false → flushed = []) ∧
      (logger.closing = .done → logger.early <+: printed ++ flushed) := by
  have both := exec_invariant (P := fun logger => Accounted logger ∧ ∃ printed flushed, Shown host logger printed flushed)
    (fun _ _ _ stepped ⟨accounted, _, _, shown⟩ => ⟨step_accounted stepped accounted, step_shown stepped accounted shown⟩)
    ran ⟨init_accounted .., [], [], init_shown ..⟩
  obtain ⟨accounted, printed, flushed, shown⟩ := both
  refine ⟨(exec_offered ran).trans (Nat.zero_add _), shown.dropped, printed, flushed, ?_, shown.console, shown.counted, shown.room,
    Nat.le_trans (Nat.le_add_right _ _) shown.few, shown.late, fun finished => ?_⟩
  · rw [← shown.handled]
    exact accounted.split
  · rw [← shown.handled]
    exact (early_handled ran finished).1

theorem console_in_order_of_oneEntryRun :
    ∃ logger, exec (step plainHost) (({} : Logger).init [{ path := "logs" }] .info .debug {}) oneEntryRun = some logger ∧
      ∃ printed flushed, logger.console = printed.flatMap (logger.shown plainHost) ∧
        logger.early <+: printed ++ flushed := by
  obtain ⟨logger, ran, finished, -⟩ := oneEntryRun_finishes
  obtain ⟨-, -, printed, flushed, -, console, -, -, -, -, early⟩ :=
    console_in_order plainHost _ .info .debug {} oneEntryRun logger ran
  exact ⟨logger, ran, printed, flushed, console, early finished⟩

end Logger

end ServerFramework.Base
