import Decompile.World.Files

/-!
# The log of a program

Records are noted in the journal as they come; what a terminal shows and what a log file holds are
read off the journal.

- `OpenLog`, `openLog`, `closeLog`: the places for records, and the file that gets its lines in the
  end.
- `terminalText`: everything that appears on one channel of the terminal, in order.
-/

namespace Decompile

/-- How the parts of a line are written that do not come from its record. -/
structure LineContext where
  time : String
  thread : String
  location : String
  deriving DecidableEq, Repr

/-- The line of a sink for a record. -/
def LineContext.line? (c : LineContext) (s : LogSink) (r : LogRecord) : Option String :=
  s.line? c.time c.thread c.location r

/-- The places for records, and the log file. -/
structure OpenLog where
  logger : Logger
  file : Option Place
  deriving DecidableEq, Repr

namespace World

/-- Begins a log. A file that cannot be made is complained about and done without. -/
def openLog (h : Host) (d : LogDestination) (level : LogFilter) : Act OpenLog := do
  match d.path? with
  | none => return ⟨d.logger level false, none⟩
  | some p =>
    match ← (createFile h p false).settle with
    | .ok place => return ⟨d.logger level true, some place⟩
    | .error e =>
      print .complaint (logFileWarning p e)
      return ⟨d.logger level false, none⟩

/-- The text of a log file. -/
def fileText (l : Logger) (c : LineContext) (journal : List Occurrence) : String :=
  match l.file with
  | none => ""
  | some sink => String.join ((recordsIn journal).filterMap (c.line? sink))

/-- Ends a log. -/
def closeLog (l : OpenLog) (c : LineContext) : Act Unit := do
  match l.file with
  | none => pure ()
  | some place =>
    let w ← get
    change (.append place (Text.encode (fileText l.logger c w.journal)))

/-- What an occurrence shows on a channel of the terminal. -/
def shownBy (l : Logger) (c : LineContext) (channel : Channel) : Occurrence → Option String
  | .printed k line => if k = channel then some (line ++ "\n") else none
  | .logged r =>
    -- errors are complaints, all else is output
    if r.level.channel = channel then l.terminal.bind fun sink => c.line? sink r else none
  | _ => none

/-- Everything that appears on a channel of the terminal. -/
def terminalText (l : Logger) (c : LineContext) (channel : Channel) (journal : List Occurrence) :
    String :=
  String.join (journal.filterMap (shownBy l c channel))

end World

end Decompile
