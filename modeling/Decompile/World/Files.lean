import Decompile.World.Basic

/-!
# Files in the world

File operations as actions. Each begins with a `pause` and may meet a fault of the host; what it
does to the disk is one `Change` after another, so that every point between two changes is a point
at which the machine may stop.

- `access`: what every operation begins with.
- `pathExists`, `isDirectory`, `isFile`, `walk`, `readBytes`, `readText`, `listDirectory`: look at the
  disk.
- `makeDirectory`, `makeDirectories`, `createFile`, `appendTo`, `replaceFile`, `removeFile`,
  `removeTree`, `copyFile`: change it.
-/

namespace Decompile.World

/-- Begins a file operation. -/
def access (h : Host) : Try IoError Unit := do
  pause h
  match h.fault (← get).clock with
  | some e => throw e
  | none => pure ()

/-- What the plan of an operation says of the disk as it is. -/
def plan {α : Type} (f : Disk → Place → Except IoError α) : Try IoError α := do
  let w ← get
  match f w.disk w.cwd with
  | .ok a => return a
  | .error e => throw e

/-- The path names an entry. -/
def pathExists (p : FilePath) : Act Bool := do
  let w ← get
  return w.disk.exists? w.cwd p

/-- The path names a directory. -/
def isDirectory (p : FilePath) : Act Bool := do
  let w ← get
  return w.disk.isDirectory w.cwd p

/-- The path names a file. -/
def isFile (p : FilePath) : Act Bool := do
  let w ← get
  return w.disk.isFile w.cwd p

/-- The files at and below a path. -/
def walk (p : FilePath) : Act (List Disk.Found) := do
  let w ← get
  return w.disk.walk w.cwd p

/-- The bytes of a file. -/
def readBytes (h : Host) (p : FilePath) : Try IoError Bytes := do
  access h
  plan fun d cwd => d.read cwd p

/-- The text of a file. -/
def readText (h : Host) (p : FilePath) : Try IoError String := do
  match Text.decode? (← readBytes h p) with
  | some s => return s
  | none => throw .notText

/-- The entries of a directory, by name. -/
def listDirectory (h : Host) (p : FilePath) : Try IoError (List (String × Entry)) := do
  access h
  plan fun d cwd => d.list cwd p

/-- Makes a directory in one that exists. -/
def makeDirectory (h : Host) (p : FilePath) : Try IoError Unit := do
  access h
  change (← plan fun d cwd => d.planMakeDirectory cwd p)

/-- A path and those above it, the lowest first. The root and the working directory are not
listed. -/
def ancestors : (fuel : Nat) → FilePath → List FilePath
  | 0, _ => []
  | fuel + 1, p =>
    match p.parent? with
    | none => []
    | some q => if p.text = "" then [] else p :: ancestors fuel q

/-- Makes the directories of a list, each of which may exist already. -/
def makeEach (h : Host) : List FilePath → Try IoError Unit
  | [] => pure ()
  | p :: ps => do
    match ← (makeDirectory h p).outcome with
    | .ok () => pure ()
    | .error e =>
      if e = .fault .alreadyExists ∧ (← isDirectory p) then pure ()
      else throw e
    makeEach h ps

/-- Looks from the lowest directory upwards for one that exists or can be made; `missing` holds
those that could not, the highest first. -/
def makeLowest (h : Host) (missing : List FilePath) : List FilePath → Try IoError (List FilePath)
  | [] => return missing
  | p :: above => do
    match ← (makeDirectory h p).outcome with
    | .ok () => return missing
    | .error e =>
      -- one above is missing: make that first
      if e = .fault .notFound then makeLowest h (p :: missing) above
      -- somebody else may have made it meanwhile
      else if e = .fault .alreadyExists ∧ (← isDirectory p) then
        return missing
      else throw e

/-- Makes a directory and those above it that do not exist. -/
def makeDirectories (h : Host) (p : FilePath) : Try IoError Unit := do
  let missing ← makeLowest h [] (ancestors (p.text.length + 1) p)
  makeEach h missing

/-- Empties a file or makes an empty one, and says where it is. -/
def createFile (h : Host) (p : FilePath) (executable : Bool) : Try IoError Place := do
  access h
  let c ← plan fun d cwd => d.planCreate cwd p executable
  change c
  return c.place

/-- Writes bytes at the end of a file. -/
def appendTo (h : Host) (place : Place) (more : Bytes) : Try IoError Unit := do
  access h
  change (.append place more)

/-- Writes a file from its start. -/
def writeFile (h : Host) (p : FilePath) (contents : Bytes) : Try IoError Unit := do
  let place ← createFile h p false
  appendTo h place contents

/-- Puts a finished file under a name, in place of what had it. -/
def replaceFile (h : Host) (p : FilePath) (contents : Bytes) : Try IoError Unit := do
  access h
  change (← plan fun d cwd => d.planReplace cwd p contents)

/-- Removes a file. -/
def removeFile (h : Host) (p : FilePath) : Try IoError Unit := do
  access h
  change (← plan fun d cwd => d.planRemoveFile cwd p)

/-- Changes the disk several times. -/
def changeAll (h : Host) : List Change → Try IoError Unit
  | [] => pure ()
  | c :: cs => do
    access h
    change c
    changeAll h cs

/-- Removes a directory with everything below it. -/
def removeTree (h : Host) (p : FilePath) : Try IoError Unit := do
  changeAll h (← plan fun d cwd => d.planRemoveTree cwd p)

/-- The action, with a missing entry taken for success. -/
def ifPresent (t : Try IoError Unit) : Try IoError Unit := do
  match ← t.outcome with
  | .ok () => pure ()
  | .error e => if e.kind = .notFound then pure () else throw e

/-- Copies a file. The target is emptied before the source is read, so that a file copied to
itself ends up empty. -/
def copyFile (h : Host) (source target : FilePath) : Try IoError Unit := do
  access h
  let (_, entry) ← plan fun d cwd => d.entryAt cwd true source
  match entry with
  | .file _ executable =>
    -- created with the permission of the source, and read only then
    let place ← createFile h target executable
    appendTo h place (← readBytes h source)
  | _ =>
    throw (.reported .other "the source path is neither a regular file nor a symlink to a regular file")

end Decompile.World
