import Decompile.Rehearsal.Sample

/-!
# Rehearsed calls

An engine can be tried without its tools: cues say what each call does instead.

- `Cue`: one call, or every call of a program, and what it does.
- `Cue.fits`: the calls that a cue is for.
- `Cue.perform`: what a call does, in order.
- `play`: the first cue that fits decides.
-/

namespace Decompile.Rehearsal

/-- What some calls do. -/
structure Cue where
  /-- For calls of this program; of any without one. -/
  program : Option String
  /-- For the call after so many calls of the same program; for any without a number. -/
  nth : Option Nat
  /-- What is printed. -/
  lines : List String
  /-- Whether the request under way is submitted again. -/
  resubmits : Bool
  /-- Whether somebody asks the request under way to stop. -/
  cancels : Bool
  /-- The readings of memory in use while the call lasts. -/
  memory : List UInt64
  result : Except StageError Unit
  /-- Whether the call succeeds without the output of the tool. -/
  silent : Bool
  /-- What is written in the end, whatever the result. -/
  writes : List (FilePath × Bytes)

namespace Cue

/-- A call that does what is expected of the tool and nothing else. -/
def plain : Cue where
  program := none
  nth := none
  lines := []
  resubmits := false
  cancels := false
  memory := []
  result := .ok ()
  silent := false
  writes := []

/-- How many calls of a program there were. -/
def callsOf (program : String) (earlier : List Invocation) : Nat :=
  (earlier.filter fun i => i.program == program).length

/-- The cue is for this call. -/
def fits (c : Cue) (earlier : List Invocation) (i : Invocation) : Bool :=
  c.program.all (· == i.program) && c.nth.all (· == callsOf i.program earlier)

/-- The output of the tool of a name. -/
def toolOutput (i : Invocation) : List Activity :=
  match (FilePath.mk i.program).fileName? with
  | some "d2j-dex2jar" => writeJar (argument i.args 2)
  | some "jadx" | some "cfr" => writeTree (argument i.args 2)
  | some "fernflower" => writeArchive (lastArgument i.args) (argument i.args 1)
  | _ => []

/-- Readings of memory; nothing is in use before them. -/
def readings (memory : List UInt64) : List Activity :=
  if memory.isEmpty then [] else (0 :: memory).map fun used => .happening (.sample used)

/-- The call has written the output of the tool. -/
def succeeds (c : Cue) : Bool := c.result.isOk && !c.silent

/-- What the call does while `current` is under way. -/
def activities (c : Cue) (current : Option Submission) (i : Invocation) : List Activity :=
  c.lines.map Activity.line
    ++ (if c.resubmits then (current.map Activity.submit).toList else [])
    ++ (if c.cancels then
        (current.map fun s => Activity.happening (.cancel s.targetKey)).toList else [])
    ++ readings c.memory
    ++ (if c.succeeds then toolOutput i else [])
    ++ c.writes.flatMap fun w => writeWithParents w.1 w.2

/-- What the call does, and what comes of it. -/
def perform (c : Cue) (current : Option Submission) (i : Invocation) : ToolRun :=
  ⟨c.activities current i, c.result⟩

end Cue

/-- The call as the first cue that fits has it. -/
def play (cues : List Cue) (current : Option Submission) (earlier : List Invocation)
    (i : Invocation) : ToolRun :=
  ((cues.find? fun c => c.fits earlier i).getD .plain).perform current i

end Decompile.Rehearsal
