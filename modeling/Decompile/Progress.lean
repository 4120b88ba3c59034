import Decompile.Stage
import Decompile.Text.Fraction

/-!
# What listeners are told

- `ProgressEvent`: a notice from inside a stage.
- `TerminalResult`: how a job ended, with `userMessage?`, the text for the user.
- `BusMessage`: everything a listener of a target can be told.
-/

namespace Decompile

/-- What a notice is about. -/
inductive EventKind where
  | status
  | memory
  | error
  deriving DecidableEq, Repr

/-- The word for a kind of notice. -/
def EventKind.word : EventKind → String
  | status => "status"
  | memory => "memory"
  | error => "error"

/-- A notice from inside a stage. -/
structure ProgressEvent where
  kind : EventKind
  title : Option String
  message : Option String
  secondary : Option String
  percent : Option Float

namespace ProgressEvent

/-- A notice of progress. -/
def status (title message : String) : ProgressEvent :=
  ⟨.status, some title, some message, none, none⟩

/-- A notice of memory use, with two places in its text. -/
def memory (percent : Float) : ProgressEvent :=
  ⟨.memory, none, some (String.ofList (Text.fixed 2 percent)), none, some percent⟩

/-- A notice of failure. -/
def error (title message : String) : ProgressEvent :=
  ⟨.error, some title, some message, none, none⟩

/-- The notice with a second text. -/
def withSecondary (e : ProgressEvent) (secondary : String) : ProgressEvent :=
  { e with secondary := some secondary }

end ProgressEvent

/-- How a job ended. -/
structure TerminalResult where
  key : String
  outcome : Outcome
  ranOutOfMemory : Bool
  label : String
  detail : Option String
  deriving DecidableEq, Repr

/-- The text for the user; only a failure has one. -/
def TerminalResult.userMessage? (r : TerminalResult) : Option String :=
  match r.outcome with
  | .succeeded | .cancelled => none
  | .failed =>
    if r.ranOutOfMemory then
      some ("Ran out of memory while decompiling " ++ r.label ++
        ". Reduce the chunk size and try again.")
    else some ("Could not decompile " ++ r.label ++ ".")

/-- What a listener of a target is told. -/
inductive BusMessage where
  | status (key : String) (event : ProgressEvent)
  | stageChanged (key : String) (stage : Stage) (state : StageState)
  | terminal (result : TerminalResult)

end Decompile
