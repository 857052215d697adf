import ServerFramework.Base.Logger

namespace ServerFramework.Base
open Library

def LogThread.left : LogThread → List Numbered
  | .writing _ left => left
  | _ => []

def Closing.left : Closing → List Numbered
  | .flushing left => left
  | _ => []

def Closing.joined : Closing → Bool
  | .open | .joining => false
  | .flushing _ | .done => true

namespace Logger

/-! ## What a step can do -/

inductive Effect (host : Host) (logger : Logger) : Logger → Prop
  | refused (dropped : Nat) : Effect host logger { logger with dropped := dropped }
  | accepted (e : LogEntry) : Effect host logger { logger with
      queue := logger.queue ++ [(logger.accepted.length, e)]
      accepted := logger.accepted ++ [(logger.accepted.length, e)] }
  | turned (thread : LogThread) (totalLogged : Nat) (before : logger.thread.left = []) (after : thread.left = [])
      (living : logger.thread ≠ .exited) : Effect host logger { logger with thread := thread, totalLogged := totalLogged }
  | took (size : Nat) (waits : logger.thread = .waiting) :
      Effect host logger { logger with queue := [], thread := .writing size logger.queue }
  | printed (size : Nat) (entry : Numbered) (left : List Numbered) (line : String) (lines : List (StdStream × String))
      (writes : logger.thread = .writing size (entry :: left)) :
      Effect host logger { logger with
        thread := .writing size left
        handled := logger.handled ++ [entry]
        console := logger.console ++ lines
        files := logger.files ++ logger.fileOutput entry line }
  | stopped (running : logger.running = true) :
      Effect host logger { logger with running := false, closing := .joining, early := logger.accepted }
  | joined (joins : logger.closing = .joining) (exited : logger.thread = .exited) :
      Effect host logger { logger with queue := [], closing := .flushing logger.queue, thread := .exited }
  | flushed (entry : Numbered) (left : List Numbered) (line : String) (flushes : logger.closing = .flushing (entry :: left)) :
      Effect host logger { logger with
        closing := .flushing left
        handled := logger.handled ++ [entry]
        files := logger.files ++ logger.flushOutput entry line }
  | finished (flushes : logger.closing = .flushing []) : Effect host logger { logger with closing := .done }

theorem write_effect (host : Host) (logger : Logger) (lvl : LogLevel) (tag : Option String) (msg : String)
    (tick threadId : Int) : Effect host logger (logger.write host lvl tag msg tick threadId) := by
  unfold write enqueue
  split
  · exact .refused logger.dropped
  · split
    · exact .refused (logger.dropped + 1)
    · exact .accepted _

theorem step_effect {host : Host} {logger next : Logger} {action : Action}
    (stepped : logger.step host action = some next) : Effect host logger next := by
  cases action with
  | write lvl tag msg tick threadId =>
      cases stepped
      exact write_effect ..
  | check =>
      cases place : logger.thread with
      | top =>
          simp only [step, place, Option.some.injEq] at stepped
          subst stepped
          exact .turned _ logger.totalLogged (by rw [place]; rfl) (by split <;> rfl) (by rw [place]; nofun)
      | _ => simp [step, place] at stepped
  | wake =>
      cases place : logger.thread with
      | waiting =>
          simp only [step, place] at stepped
          split at stepped
          · cases stepped
            exact .turned .top logger.totalLogged (by rw [place]; rfl) rfl (by rw [place]; nofun)
          · cases stepped
            exact .took logger.queue.length place
      | _ => simp [step, place] at stepped
  | handle =>
      cases place : logger.thread with
      | writing size left =>
          cases left with
          | nil =>
              simp only [step, place, Option.some.injEq] at stepped
              subst stepped
              exact .turned .top (logger.totalLogged + size) (by rw [place]; rfl) rfl (by rw [place]; nofun)
          | cons entry left =>
              simp only [step, place, Option.some.injEq] at stepped
              subst stepped
              exact .printed size entry left _ _ place
      | _ => simp [step, place] at stepped
  | shutdown =>
      simp only [step, Option.ite_none_right_eq_some, Option.some.injEq] at stepped
      obtain ⟨running, rfl⟩ := stepped
      exact .stopped running
  | join =>
      cases call : logger.closing with
      | joining =>
          cases place : logger.thread with
          | exited =>
              simp only [step, call, place, Option.some.injEq] at stepped
              subst stepped
              exact .joined call place
          | _ => simp [step, call, place] at stepped
      | _ => simp [step, call] at stepped
  | flush =>
      cases call : logger.closing with
      | flushing left =>
          cases left with
          | nil =>
              simp only [step, call, Option.some.injEq] at stepped
              subst stepped
              exact .finished call
          | cons entry left =>
              simp only [step, call, Option.some.injEq] at stepped
              subst stepped
              exact .flushed entry left _ call
      | _ => simp [step, call] at stepped

/-! ## Every accepted entry is dealt with once, in order -/

structure Accounted (logger : Logger) : Prop where
  split : logger.accepted = logger.handled ++ logger.thread.left ++ logger.closing.left ++ logger.queue
  numbered : logger.accepted.map Prod.fst = List.range logger.accepted.length
  early : logger.early <+: logger.accepted
  running : logger.running = true → logger.closing = .open
  joined : logger.closing.joined = true →
    logger.thread = .exited ∧ logger.early <+: logger.handled ++ logger.closing.left

theorem init_accounted (sinks : List LogSink) (consoleLevel fileLevel : LogLevel) (fmt : LogFormatter) :
    Accounted (({} : Logger).init sinks consoleLevel fileLevel fmt) :=
  ⟨rfl, rfl, List.prefix_rfl, fun _ => rfl, fun joined => by cases joined⟩

theorem Accounted.nothing_flushing {logger : Logger} (accounted : Accounted logger) (living : logger.thread ≠ .exited) :
    logger.closing.left = [] := by
  cases call : logger.closing with
  | flushing left => exact absurd (accounted.joined (by rw [call]; rfl)).1 living
  | _ => rfl

theorem step_accounted {host : Host} {logger next : Logger} {action : Action}
    (stepped : logger.step host action = some next) (accounted : Accounted logger) : Accounted next := by
  have whole := accounted
  obtain ⟨split, numbered, early, running, joined⟩ := accounted
  cases step_effect stepped with
  | refused dropped => exact ⟨split, numbered, early, running, joined⟩
  | accepted e =>
      refine ⟨?_, ?_, early.trans (List.prefix_append _ _), running, joined⟩
      · simp [split]
      · simp [numbered, List.range_succ]
  | turned thread totalLogged before after living =>
      refine ⟨?_, numbered, early, running, fun done => absurd (joined done).1 living⟩
      rw [split, before, after]
  | took size waits =>
      have living : logger.thread ≠ .exited := by rw [waits]; nofun
      refine ⟨?_, numbered, early, running, fun done => absurd (joined done).1 living⟩
      rw [split, waits, whole.nothing_flushing living]
      simp [LogThread.left]
  | printed size entry left line lines writes =>
      have living : logger.thread ≠ .exited := by rw [writes]; nofun
      refine ⟨?_, numbered, early, running, fun done => absurd (joined done).1 living⟩
      rw [split, writes]
      simp [LogThread.left]
  | stopped runs =>
      have opened := running runs
      refine ⟨?_, numbered, List.prefix_rfl, nofun, nofun⟩
      rw [split, opened]
      rfl
  | joined joins exited =>
      have called : logger.closing ≠ .open := by rw [joins]; nofun
      refine ⟨?_, numbered, early, fun runs => absurd (running runs) called, fun _ => ⟨rfl, ?_⟩⟩
      · rw [split, joins, exited]
        simp [LogThread.left, Closing.left]
      · rw [split, joins, exited] at early
        simpa [LogThread.left, Closing.left] using early
  | flushed entry left line flushes =>
      have called : logger.closing ≠ .open := by rw [flushes]; nofun
      obtain ⟨exited, before⟩ := joined (by rw [flushes]; rfl)
      refine ⟨?_, numbered, early, fun runs => absurd (running runs) called, fun _ => ⟨exited, ?_⟩⟩
      · rw [split, flushes, exited]
        simp [LogThread.left, Closing.left]
      · rw [flushes] at before
        simpa [Closing.left] using before
  | finished flushes =>
      have called : logger.closing ≠ .open := by rw [flushes]; nofun
      obtain ⟨exited, before⟩ := joined (by rw [flushes]; rfl)
      refine ⟨?_, numbered, early, fun runs => absurd (running runs) called, fun _ => ⟨exited, ?_⟩⟩
      · rw [split, flushes]
        rfl
      · rw [flushes] at before
        exact before

theorem early_handled {host : Host} {sinks : List LogSink} {consoleLevel fileLevel : LogLevel} {fmt : LogFormatter}
    {actions : List Action} {logger : Logger}
    (ran : exec (step host) (({} : Logger).init sinks consoleLevel fileLevel fmt) actions = some logger)
    (finished : logger.closing = .done) : logger.early <+: logger.handled ∧ (logger.handled.map Prod.fst).Nodup := by
  have accounted := exec_invariant (P := Accounted) (fun _ _ _ stepped => step_accounted stepped) ran
    (init_accounted sinks consoleLevel fileLevel fmt)
  constructor
  · have handled := (accounted.joined (by rw [finished]; rfl)).2
    rw [finished] at handled
    simpa [Closing.left] using handled
  · have numbers : (logger.accepted.map Prod.fst).Nodup := accounted.numbered ▸ List.nodup_range
    rw [accounted.split, List.append_assoc, List.append_assoc, List.map_append] at numbers
    exact (List.nodup_append.mp numbers).1

/-! ## Nothing reaches a file -/

structure Silent (logger : Logger) : Prop where
  path : logger.currentLogPath = ""
  directories : ∀ sink ∈ logger.sinks, sink.path ≠ "" → sink.path ∈ logger.directories
  files : logger.files = []

theorem init_silent (sinks : List LogSink) (consoleLevel fileLevel : LogLevel) (fmt : LogFormatter) :
    Silent (({} : Logger).init sinks consoleLevel fileLevel fmt) := by
  refine ⟨rfl, ?_, rfl⟩
  intro sink member present
  simp only [init, List.nil_append, List.mem_filter, List.mem_map, decide_eq_true_eq]
  exact ⟨⟨sink, member, rfl⟩, present⟩

theorem Silent.fileOutput {logger : Logger} (silent : Silent logger) (entry : Numbered) (line : String) :
    logger.fileOutput entry line = [] := by
  simp [Logger.fileOutput, silent.path]

theorem Silent.flushOutput {logger : Logger} (silent : Silent logger) (entry : Numbered) (line : String) :
    logger.flushOutput entry line = [] := by
  rw [Logger.flushOutput, List.flatMap_eq_nil_iff]
  intro sink member
  by_cases empty : sink.path = ""
  · rw [if_pos empty]
  · have closed : logger.opens sink.path = false := by simp [opens, silent.directories sink member empty]
    rw [if_neg empty, closed]
    rfl

theorem step_silent {host : Host} {logger next : Logger} {action : Action}
    (stepped : logger.step host action = some next) (silent : Silent logger) : Silent next := by
  cases step_effect stepped with
  | printed size entry left line lines writes =>
      refine ⟨silent.path, silent.directories, ?_⟩
      change logger.files ++ logger.fileOutput entry line = []
      rw [silent.files, silent.fileOutput]
      rfl
  | flushed entry left line flushes =>
      refine ⟨silent.path, silent.directories, ?_⟩
      change logger.files ++ logger.flushOutput entry line = []
      rw [silent.files, silent.flushOutput]
      rfl
  | _ => exact ⟨silent.path, silent.directories, silent.files⟩

def due (logger : Logger) : List Numbered :=
  logger.early.filter fun entry => entry.2.level.value ≥ logger.fileLevel.value

/-- Each asynchronous sink with a path has a file that got the due entries, each once and in order. -/
def Delivered (logger : Logger) : Prop :=
  ∀ sink ∈ logger.sinks, sink.async = true → sink.path ≠ "" → ∃ name : String,
    ((logger.files.filter fun write => write.path = sink.path ++ "/" ++ name).map FileWrite.entry).filter
      (fun entry => entry ∈ logger.due) = logger.due

theorem Silent.due_eq_nil {logger : Logger} (silent : Silent logger) (delivered : Delivered logger) {sink : LogSink}
    (member : sink ∈ logger.sinks) (async : sink.async = true) (path : sink.path ≠ "") : logger.due = [] := by
  obtain ⟨name, all⟩ := delivered sink member async path
  rw [silent.files] at all
  exact all.symm

theorem step_sinks {host : Host} {logger next : Logger} {action : Action}
    (stepped : logger.step host action = some next) : next.sinks = logger.sinks := by
  cases step_effect stepped <;> rfl

/-- It holds in every state of a run, and so behind a `shutdown` that has returned. -/
theorem delivered_iff_nothing_due (host : Host) (sinks : List LogSink) (consoleLevel fileLevel : LogLevel)
    (fmt : LogFormatter) (actions : List Action) (logger : Logger)
    (target : ∃ sink ∈ sinks, sink.async = true ∧ sink.path ≠ "")
    (ran : exec (step host) (({} : Logger).init sinks consoleLevel fileLevel fmt) actions = some logger) :
    Delivered logger ↔ logger.due = [] := by
  have silent := exec_invariant (P := Silent) (fun _ _ _ stepped => step_silent stepped) ran
    (init_silent sinks consoleLevel fileLevel fmt)
  have same := exec_invariant (P := fun logger => logger.sinks = sinks)
    (fun _ _ _ stepped before => (step_sinks stepped).trans before) ran rfl
  constructor
  · intro delivered
    obtain ⟨sink, member, async, path⟩ := target
    exact silent.due_eq_nil delivered (same ▸ member) async path
  · intro nothing sink _ _ _
    exact ⟨"", by rw [nothing, silent.files]; rfl⟩

def plainHost : Host where
  strftime _ _ := "2024-01-01 00:00:00"
  isatty _ := false

-- one entry, which the log thread takes before the logger is shut down
def oneEntryRun : List Action :=
  [.write .info none "Server started" 1000 1, .check, .wake, .handle, .handle, .shutdown, .check, .join, .flush]

theorem oneEntryRun_finishes :
    ∃ logger, exec (step plainHost) (({} : Logger).init [{ path := "logs" }] .info .debug {}) oneEntryRun = some logger ∧
      logger.closing = .done ∧ logger.due.map Prod.fst = [0] := by
  obtain ⟨logger, ran, ended⟩ := Option.map_eq_some_iff.mp (show
    (exec (step plainHost) (({} : Logger).init [{ path := "logs" }] .info .debug {}) oneEntryRun).map
      (fun logger => (logger.closing, logger.due.map Prod.fst)) = some (.done, [0]) by decide)
  exact ⟨logger, ran, congrArg Prod.fst ended, congrArg Prod.snd ended⟩

theorem delivered_iff_oneEntryRun :
    ∃ logger, exec (step plainHost) (({} : Logger).init [{ path := "logs" }] .info .debug {}) oneEntryRun = some logger ∧
      logger.closing = .done ∧ (Delivered logger ↔ logger.due = []) := by
  obtain ⟨logger, ran, finished, -⟩ := oneEntryRun_finishes
  have target : ∃ sink ∈ [({ path := "logs" } : LogSink)], sink.async = true ∧ sink.path ≠ "" :=
    ⟨_, List.mem_singleton_self _, rfl, by decide⟩
  exact ⟨logger, ran, finished, delivered_iff_nothing_due plainHost _ .info .debug {} oneEntryRun logger target ran⟩

theorem oneEntryRun_loses_entry :
    ∃ logger, exec (step plainHost) (({} : Logger).init [{ path := "logs" }] .info .debug {}) oneEntryRun = some logger ∧
      logger.closing = .done ∧ logger.due.map Prod.fst = [0] ∧ logger.files = [] ∧ ¬ Delivered logger := by
  obtain ⟨logger, ran, finished, due⟩ := oneEntryRun_finishes
  have silent := exec_invariant (P := Silent) (fun _ _ _ stepped => step_silent stepped) ran (init_silent ..)
  have same := exec_invariant (P := fun logger => logger.sinks = [{ path := "logs" }])
    (fun _ _ _ stepped before => (step_sinks stepped).trans before) ran rfl
  refine ⟨logger, ran, finished, due, silent.files, ?_⟩
  intro delivered
  have member : { path := "logs" } ∈ logger.sinks := by simp [same]
  have nothing := silent.due_eq_nil delivered member rfl (by decide)
  rw [nothing] at due
  cases due

end Logger

end ServerFramework.Base
