import Decompile.Disk.Error
import Decompile.Path
import Decompile.Text.Quoted

/-!
# Logging

- `LogLevel`, `LogRecord`: what is logged, from errors down to traces.
- `LogStyle`: which parts of a record a line shows; a part is shown from some level of detail on.
- `LogSink`, `Logger`: where records go. The file keeps warnings and errors only, whatever the
  terminal shows.
- `LogDestination`: what a program asks for, and the places it gets.
- `Channel`: where a line for the user goes.
-/

namespace Decompile

/-- Where a line for the user goes. -/
inductive Channel where
  | output
  /-- For what went wrong. -/
  | complaint
  deriving DecidableEq, Repr

/-- How important a record is. -/
inductive LogLevel where
  | error
  | warn
  | info
  | debug
  | trace
  deriving DecidableEq, Repr

namespace LogLevel

/-- All levels, the most important first. -/
def all : List LogLevel := [error, warn, info, debug, trace]

/-- How much detail records of a level give. -/
def detail : LogLevel → Nat
  | error => 1
  | warn => 2
  | info => 3
  | debug => 4
  | trace => 5

/-- Where a terminal shows records of a level. -/
def channel : LogLevel → Channel
  | error => .complaint
  | warn | info | debug | trace => .output

/-- The word for a level in a line. -/
def word : LogLevel → String
  | error => "ERROR"
  | warn => "WARN"
  | info => "INFO"
  | debug => "DEBUG"
  | trace => "TRACE"

end LogLevel

/-- Records up to a level of detail; none at all without one. -/
abbrev LogFilter := Option LogLevel

/-- A record of the level passes. -/
def LogFilter.admits (f : LogFilter) (l : LogLevel) : Bool :=
  match f with
  | none => false
  | some most => l.detail ≤ most.detail

/-- Something worth noting. -/
structure LogRecord where
  level : LogLevel
  /-- The part of the program that speaks. -/
  target : String
  text : String
  deriving DecidableEq, Repr

/-- From which level of detail on a line shows a part of its record. -/
structure LogStyle where
  /-- The number of the thread. -/
  thread : LogLevel
  target : LogLevel
  /-- The file and line. -/
  location : LogLevel
  deriving DecidableEq, Repr

/-- The style of the program's own log: every line names who speaks. -/
def LogStyle.named : LogStyle := ⟨.debug, .error, .trace⟩

/-- The style of a log that names who speaks only in detail. -/
def LogStyle.terse : LogStyle := ⟨.debug, .debug, .trace⟩

/-- A line shows the part of a record at this level. -/
def shows (l : LogLevel) (part : LogLevel) : Bool := part.detail ≤ l.detail

/-- The line of a record behind its time. -/
def LogStyle.line (s : LogStyle) (time thread location : String) (r : LogRecord) : String :=
  time ++ " [" ++ r.level.word ++ "] "
    ++ (if shows r.level s.thread then "(" ++ thread ++ ") " else "")
    ++ (if shows r.level s.target then r.target ++ ": " else "")
    ++ (if shows r.level s.location then "[" ++ location ++ "] " else "") ++ r.text ++ "\n"

/-- A place that records go to. -/
structure LogSink where
  filter : LogFilter
  style : LogStyle
  deriving DecidableEq, Repr

/-- All places that records go to. -/
structure Logger where
  terminal : Option LogSink
  file : Option LogSink
  deriving DecidableEq, Repr

namespace Logger

/-- Nothing is logged. -/
def silent : Logger := ⟨none, none⟩

/-- The sink of the log file. -/
def fileSink : LogSink := ⟨some .warn, .named⟩

/-- The sink of the terminal. -/
def terminalSink (level : LogFilter) : LogSink := ⟨level, .named⟩

/-- A terminal for tests. -/
def forTests : Logger := ⟨some ⟨some .debug, .terse⟩, none⟩

end Logger

/-- The line a sink makes of a record, if it takes it. -/
def LogSink.line? (s : LogSink) (time thread location : String) (r : LogRecord) :
    Option String :=
  if s.filter.admits r.level then some (s.style.line time thread location r) else none

/-- The lines of a sink for some records. -/
def LogSink.lines (s : LogSink) (time thread location : String) (rs : List LogRecord) :
    List String :=
  rs.filterMap (s.line? time thread location)

/-- Where a program wants its log to go. -/
inductive LogDestination where
  | terminal
  | file (p : FilePath)
  | both (p : FilePath)
  deriving DecidableEq, Repr

namespace LogDestination

/-- The file that is wanted. -/
def path? : LogDestination → Option FilePath
  | terminal => none
  | file p | both p => some p

/-- The places for records. The file is one of them only if it could be made. -/
def logger (d : LogDestination) (level : LogFilter) (fileMade : Bool) : Logger :=
  let onFile := if fileMade then some Logger.fileSink else none
  match d with
  | terminal => ⟨some (Logger.terminalSink level), none⟩
  | file _ => ⟨none, onFile⟩
  | both _ => ⟨some (Logger.terminalSink level), onFile⟩

end LogDestination

/-- The warning when a log file cannot be made. -/
def logFileWarning (p : FilePath) (e : IoError) : String :=
  "Warning: Could not create log file at " ++ Text.quote .plain p.text ++ ": " ++ e.message

end Decompile
