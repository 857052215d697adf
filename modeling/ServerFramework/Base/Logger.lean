import ServerFramework.Library.Runs

namespace ServerFramework.Base

inductive LogLevel
  | trace
  | debug
  | info
  | warn
  | error
  | fatal
  | none
  deriving DecidableEq, Repr

def LogLevel.value : LogLevel → Nat
  | .trace => 0
  | .debug => 1
  | .info => 2
  | .warn => 3
  | .error => 4
  | .fatal => 5
  | .none => 6

def logLevelStr : LogLevel → String
  | .trace => "TRACE"
  | .debug => "DEBUG"
  | .info => "INFO "
  | .warn => "WARN "
  | .error => "ERROR"
  | .fatal => "FATAL"
  | .none => "UNKN "

structure LogEntry where
  timestampMs : Int := 0
  level : LogLevel := .info
  threadId : Int := 0
  tag : String := ""
  message : String := ""
  deriving DecidableEq, Repr

structure LogFormatter where
  showTimestamp : Bool := true
  showThreadId : Bool := true
  showLevel : Bool := true
  showTag : Bool := true
  colorful : Bool := true
  timeFormat : String := "%Y-%m-%d %H:%M:%S"
  deriving DecidableEq, Repr

structure LogSink where
  path : String
  async : Bool := true
  deriving DecidableEq, Repr

inductive StdStream
  | stdout
  | stderr
  deriving DecidableEq, Repr

-- What the logger finds around it. `strftime` has the local time of a number of seconds in it.
structure Host where
  strftime : String → Int → String
  isatty : StdStream → Bool
  hook : Option (LogEntry → LogEntry) := none

-- An entry with its number in the order in which `enqueue` accepted them.
abbrev Numbered := Nat × LogEntry

structure FileWrite where
  path : String
  entry : Numbered
  line : String
  deriving DecidableEq, Repr

/-- Where `log_thread_loop` is: at its `while`, in `wait_for`, or writing a batch of that size. -/
inductive LogThread
  | top
  | waiting
  | writing (size : Nat) (left : List Numbered)
  | exited
  deriving DecidableEq, Repr

inductive Closing
  | open
  | joining
  | flushing (left : List Numbered)
  | done
  deriving DecidableEq, Repr

-- `directories` are the paths that `create_directories` made in `init`. `accepted`, `early` (what was accepted
-- before `shutdown` was called), `handled` (what the log thread or `flush` is done with), `console` and `files`
-- record the run.
structure Logger where
  fmt : LogFormatter := {}
  sinks : List LogSink := []
  consoleLevel : LogLevel := .info
  fileLevel : LogLevel := .debug
  running : Bool := false
  thread : LogThread := .exited
  queue : List Numbered := []
  dropped : Nat := 0
  totalLogged : Nat := 0
  currentLogPath : String := ""
  directories : List String := []
  closing : Closing := .open
  accepted : List Numbered := []
  early : List Numbered := []
  handled : List Numbered := []
  console : List (StdStream × String) := []
  files : List FileWrite := []
  deriving DecidableEq, Repr

namespace Logger

def queueMax : Nat := 8192

def init (logger : Logger) (sinks : List LogSink) (consoleLevel fileLevel : LogLevel) (fmt : LogFormatter) : Logger :=
  { logger with
    sinks := sinks
    consoleLevel := consoleLevel
    fileLevel := fileLevel
    fmt := fmt
    directories := logger.directories ++ (sinks.map LogSink.path).filter fun path => path ≠ ""
    running := true
    thread := .top }

def formatEntry (host : Host) (fmt : LogFormatter) (e : LogEntry) : String :=
  (if fmt.showTimestamp then host.strftime fmt.timeFormat (e.timestampMs.tdiv 1000) ++ " " else "") ++
  (if fmt.showLevel then "[" ++ logLevelStr e.level ++ "] " else "") ++
  (if fmt.showThreadId then "[T" ++ toString e.threadId ++ "] " else "") ++
  (if fmt.showTag && e.tag ≠ "" then "[" ++ e.tag ++ "] " else "") ++ e.message

def color : LogLevel → String
  | .trace => "\x1b[90m"
  | .debug => "\x1b[36m"
  | .info => "\x1b[32m"
  | .warn => "\x1b[33m"
  | .error => "\x1b[31m"
  | .fatal => "\x1b[35;1m"
  | .none => ""

def enqueue (logger : Logger) (e : LogEntry) : Logger :=
  if logger.queue.length ≥ queueMax then { logger with dropped := logger.dropped + 1 }
  else
    { logger with
      queue := logger.queue ++ [(logger.accepted.length, e)]
      accepted := logger.accepted ++ [(logger.accepted.length, e)] }

def write (host : Host) (logger : Logger) (lvl : LogLevel) (tag : Option String) (msg : String)
    (tick threadId : Int) : Logger :=
  if lvl.value < logger.consoleLevel.value ∧ lvl.value < logger.fileLevel.value then logger
  else
    let entry : LogEntry :=
      { timestampMs := tick, level := lvl, threadId := threadId, tag := tag.getD "", message := msg }
    logger.enqueue (match host.hook with | none => entry | some hook => hook entry)

/-- A directory cannot be opened for appending. -/
def opens (logger : Logger) (path : String) : Bool := path ≠ "" && !logger.directories.contains path

def consoleOutput (host : Host) (logger : Logger) (e : LogEntry) (line : String) : List (StdStream × String) :=
  if e.level.value ≥ logger.consoleLevel.value then
    let out : StdStream := if e.level.value ≥ LogLevel.error.value then .stderr else .stdout
    [(out, if logger.fmt.colorful && host.isatty out then color e.level ++ line ++ "\x1b[0m" else line)]
  else []

def fileOutput (logger : Logger) (entry : Numbered) (line : String) : List FileWrite :=
  if entry.2.level.value ≥ logger.fileLevel.value then
    logger.sinks.flatMap fun sink =>
      if sink.path = "" || !sink.async then []
      else if logger.currentLogPath = "" then []
      else if logger.opens logger.currentLogPath then [⟨logger.currentLogPath, entry, line⟩] else []
  else []

def flushOutput (logger : Logger) (entry : Numbered) (line : String) : List FileWrite :=
  logger.sinks.flatMap fun sink =>
    if sink.path = "" then []
    else if logger.opens sink.path then [⟨sink.path, entry, line⟩] else []

inductive Action
  | write (lvl : LogLevel) (tag : Option String) (msg : String) (tick threadId : Int)
  | check
  | wake
  | handle
  | shutdown
  | join
  | flush
  deriving DecidableEq, Repr

-- `wake` is the return of `wait_for`, which can be at any time since it has a timeout.
def step (host : Host) (logger : Logger) : Action → Option Logger
  | .write lvl tag msg tick threadId => some (logger.write host lvl tag msg tick threadId)
  | .check => match logger.thread with
      | .top => some { logger with thread := if logger.running then .waiting else .exited }
      | _ => none
  | .wake => match logger.thread with
      | .waiting =>
          if logger.queue = [] then some { logger with thread := .top }
          else some { logger with queue := [], thread := .writing logger.queue.length logger.queue }
      | _ => none
  | .handle => match logger.thread with
      | .writing size [] => some { logger with thread := .top, totalLogged := logger.totalLogged + size }
      | .writing size (entry :: left) =>
          let line := formatEntry host logger.fmt entry.2 ++ "\n"
          some { logger with
            thread := .writing size left
            handled := logger.handled ++ [entry]
            console := logger.console ++ logger.consoleOutput host entry.2 line
            files := logger.files ++ logger.fileOutput entry line }
      | _ => none
  | .shutdown =>
      if logger.running then
        some { logger with running := false, closing := .joining, early := logger.accepted }
      else none
  | .join => match logger.closing, logger.thread with
      | .joining, .exited => some { logger with queue := [], closing := .flushing logger.queue }
      | _, _ => none
  | .flush => match logger.closing with
      | .flushing [] => some { logger with closing := .done }
      | .flushing (entry :: left) =>
          let line := formatEntry host logger.fmt entry.2 ++ "\n"
          some { logger with
            closing := .flushing left
            handled := logger.handled ++ [entry]
            files := logger.files ++ logger.flushOutput entry line }
      | _ => none

end Logger

end ServerFramework.Base
