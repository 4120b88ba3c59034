import Decompile.Rehearsal.Sample
import Decompile.Tool.ProgramRun

/-!
# Stand-ins for programs

A stand-in is a small program that prints two texts, leaves sample output behind if it succeeds, and
ends in a given way. It is told from other files by what is stored in it.

- `StandIn`: a stand-in; `StandIn.script` is what is stored.
- `StandIn.perform`: a call of one.
- `findProgram`: the file that a name stands for.
- `launch`: a call of whatever a name stands for.
-/

namespace Decompile.Rehearsal

/-- The output a stand-in leaves behind. -/
inductive Output where
  | nothing
  /-- The sample source below the third argument. -/
  | tree
  /-- A file at the third argument. -/
  | jar
  /-- An archive in the last argument, under the name of the second one. -/
  | archive
  deriving DecidableEq, Repr

/-- A small program. -/
structure StandIn where
  run : ProgramRun
  output : Output
  deriving DecidableEq, Repr

namespace StandIn

/-- The command that leaves the output behind; the archive is kept in `store`. -/
def outputCommand (store : String) : Output → String
  | .nothing => ""
  | .tree => "mkdir -p \"$3/com/app\"\nprintf 'class Main \x7b\x7d' > \"$3/com/app/Main.java\"\n"
  | .jar => "printf 'jar bytes' > \"$3\"\n"
  | .archive =>
    "for last; do :; done\ncp '" ++ store ++ ".jar' \"$last/$(basename \"$2\")\"\n"

/-- The command that ends the program. -/
def endCommand : ExitStatus → String
  | .code n => "exit " ++ countText n ++ "\n"
  | .signal n => "kill -" ++ countText n ++ " $$\n"

/-- The text of the program. What it prints is kept in files whose names start with `store`. -/
def script (store : String) (s : StandIn) : String :=
  "#!/bin/sh\nPATH=/usr/bin:/bin\ncat '" ++ store ++ ".stdout'\ncat '" ++ store ++ ".stderr' >&2\n"
    ++ (if s.run.status.isSuccess then outputCommand store s.output else "")
    ++ endCommand s.run.status

/-- The output for the given arguments. -/
def writes (s : StandIn) (args : List String) : List Activity :=
  if s.run.status.isSuccess then
    match s.output with
    | .nothing => []
    | .tree => writeTree (argument args 2)
    | .jar => writeJar (argument args 2)
    | .archive => writeArchive (lastArgument args) (argument args 1)
  else []

/-- A call of the program. -/
def perform (s : StandIn) (i : Invocation) : ToolRun :=
  ⟨s.run.lines.map Activity.line ++ s.writes i.args, s.run.result i.program⟩

end StandIn

/-- The contents of a file that is to be run. -/
def programAt (d : Disk) (cwd : Place) (p : FilePath) : Except IoError Bytes :=
  match d.entryAt cwd true p with
  | .error e => .error e
  | .ok (_, .file contents true) => .ok contents
  | .ok _ => .error (.fault .permissionDenied)

/-- The first file among some that may be run. Files that may not be run are passed over, and
decide if there is no other. -/
def firstProgram (d : Disk) (cwd : Place) (failure : IoError) :
    List FilePath → Except IoError Bytes
  | [] => .error failure
  | p :: ps =>
    match programAt d cwd p with
    | .ok contents => .ok contents
    | .error e =>
      firstProgram d cwd (if e = .fault .permissionDenied then e else failure) ps

/-- The contents of the file that a name stands for. A name without a slash is looked for in the
directories of the search path. -/
def findProgram (d : Disk) (cwd : Place) (search : Option String) (name : String) :
    Except IoError Bytes :=
  if name.toList.contains '\x00' then
    .error (.reported .other "nul byte found in provided data")
  else if name = "" then .error (.fault .notFound)
  else if name.toList.contains '/' then programAt d cwd ⟨name⟩
  else
    firstProgram d cwd (.fault .notFound)
      (((search.map Catalog.directoriesOf).getD []).map fun dir => dir.join ⟨name⟩)

/-- A call of what the name of a program stands for; `known` are the stand-ins with what is stored
in them. -/
def launch (known : List (Bytes × StandIn)) (search : Option String) (cwd : Place) (d : Disk)
    (i : Invocation) : ToolRun :=
  match findProgram d cwd search i.program with
  | .error e => ⟨[], .error (launchFailure i.program e)⟩
  | .ok contents =>
    match known.lookup contents with
    | some s => s.perform i
    | none => ⟨[], .error (launchFailure i.program (.fault .cannotExecute))⟩

end Decompile.Rehearsal
