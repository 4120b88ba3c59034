import Decompile.CommandLine.Program

/-!
# The command line

The only part that touches the machine. It reads the files that a command may look at, runs the
command on them, makes the same changes to the machine, and prints what was printed. It starts no
programs: a call of a tool is a failure to launch it.
-/

namespace Decompile.Machine

/-- The path of a place. -/
def pathOf (p : Place) : String := "/" ++ "/".intercalate p

/-- The place of a path, links aside. -/
def placeOf (cwd : Place) (p : FilePath) : Place :=
  p.steps.foldl (fun here n => if n = ".." then here.dropLast else here ++ [n])
    (if p.isAbsolute then [] else cwd)

/-- The most levels of directories that are read. -/
def depthLimit : Nat := 64

/-- Reads what stands at a place and below it. Permissions are not read: every file may be run. -/
def readBelow : (depth : Nat) → Disk → Place → IO Disk
  | 0, d, _ => return d
  | depth + 1, d, p => do
    try
      let path ← IO.FS.realPath (pathOf p)
      match (← path.metadata).type with
      | .dir =>
        let mut d := d.put p .directory
        for e in ← path.readDir do
          d ← readBelow depth d (p ++ [e.fileName])
        return d
      | .file => return d.put p (.file (← IO.FS.readBinFile path).toList true)
      | _ => return d
    catch _ => return d

/-- Puts a directory at a place and at every place above it. -/
def withDirectories (d : Disk) (p : Place) : Disk :=
  (List.range (p.length + 1)).foldl (fun d n => d.put (p.take n) .directory) d

/-- Reads a place with the directories above it. -/
def readPlace (d : Disk) (p : Place) : IO Disk :=
  readBelow depthLimit (withDirectories d p.dropLast) p

/-- The names that tools may have. -/
def toolNames : List String := Catalog.dexToJarNames ++ Backend.all.flatMap Catalog.programNames

/-- The places that a command may look at. -/
def placesFor (cwd : Place) (search : Option String) (words : List String) : List Place :=
  let tools := ((search.map Catalog.directoriesOf).getD []).flatMap fun dir =>
    toolNames.map fun n => placeOf cwd (dir.join ⟨n⟩)
  match CommandLine.read words with
  | .error _ => []
  | .ok r =>
    let input := match r.command with
      | .run o => [placeOf cwd o.input]
      | _ => []
    placeOf cwd r.storage :: input ++ tools

/-- Makes a change to the machine. -/
def commit : Change → IO Unit
  | .makeDirectory p => IO.FS.createDir (pathOf p)
  | .create p _ => IO.FS.writeBinFile (pathOf p) ByteArray.empty
  | .append p more => do
    let file ← IO.FS.Handle.mk (pathOf p) .append
    file.write ⟨more.toArray⟩
  | .replace p contents => do
    let unfinished := pathOf p ++ ".part"
    IO.FS.writeBinFile unfinished ⟨contents.toArray⟩
    IO.FS.rename unfinished (pathOf p)
  | .link _ _ => pure ()
  | .remove p => do
    try IO.FS.removeFile (pathOf p)
    catch _ => IO.FS.removeDir (pathOf p)

/-- The time, as the machine stamps what has just been made. -/
def currentTime : IO (Nat × Nat) := do
  try
    let stamp := (← (← IO.FS.realPath "/proc/self").metadata).modified
    return (stamp.sec.toNat, stamp.nsec.toNat)
  catch _ => return (0, 0)

/-- A tool that is not started. -/
def notStarted (i : Invocation) : ToolRun :=
  ⟨[], .error (launchFailure i.program (.reported .other "programs are not started from here"))⟩

/-- A host for which nothing happens that the command does not do. -/
def quietHost (seconds nanos : Nat) : Host where
  settings := .forStorage ⟨CommandLine.defaultStorage⟩
  catalog := .complete 17
  memoryCeiling := 0
  interlude _ := []
  fault _ := none
  tool _ _ i := notStarted i
  time n := .ofEpoch seconds (nanos + n)

end Decompile.Machine

open Decompile in
/-- Runs a command line and returns its exit status. -/
def main (words : List String) : IO UInt32 := do
  let cwd := Machine.placeOf [] ⟨(← IO.currentDir).toString⟩
  let search ← IO.getEnv "PATH"
  let (seconds, nanos) ← Machine.currentTime
  let disk ← (Machine.placesFor cwd search words).foldlM Machine.readPlace
    (Machine.withDirectories Disk.empty cwd)
  let context : LineContext :=
    ⟨String.ofList (Timestamp.ofEpoch seconds nanos).render, "1", "Main"⟩
  let (done, after) := (CommandLine.program ⟨Machine.quietHost seconds nanos, search⟩ context
    words).run (World.new disk cwd)
  (World.changesIn after.journal).forM Machine.commit
  IO.print (World.terminalText done.logger context .output after.journal)
  IO.eprint (World.terminalText done.logger context .complaint after.journal)
  return done.status.toUInt32
