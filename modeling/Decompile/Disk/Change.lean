import Decompile.Disk.Lookup

/-!
# Changes to a disk

A change is one step that either happens or does not: a machine that stops leaves a disk on which
some first part of a list of changes has happened. Operations on paths turn into changes in the
`plan` functions below, or are refused.

- `Change`, `Disk.apply`: the steps and what they do.
- `Disk.replay`: the disk after a list of changes.
- `Disk.planMakeDirectory`, `planCreate`, `planReplace`, `planRemoveFile`, `planRemoveTree`,
  `planLink`: from paths to changes.
-/

namespace Decompile

/-- A step that happens as a whole or not at all. -/
inductive Change where
  /-- A new directory without entries. -/
  | makeDirectory (p : Place)
  /-- A file without contents, in place of what was there. -/
  | create (p : Place) (executable : Bool)
  /-- More bytes at the end of a file. -/
  | append (p : Place) (more : Bytes)
  /-- A finished file moved to its name, in place of what was there. -/
  | replace (p : Place) (contents : Bytes)
  /-- A symbolic link. -/
  | link (p : Place) (target : String)
  /-- The entry is gone. -/
  | remove (p : Place)
  deriving DecidableEq, Repr

/-- The place a change is about. -/
def Change.place : Change → Place
  | .makeDirectory p | .create p _ | .append p _ | .replace p _ | .link p _ | .remove p => p

namespace Disk

/-- The disk after a change. -/
def apply (d : Disk) : Change → Disk
  | .makeDirectory p => d.put p .directory
  | .create p x => d.put p (.file [] x)
  | .append p more =>
    match d.find? p with
    | some (.file c x) => d.put p (.file (c ++ more) x)
    | _ => d
  | .replace p c => d.put p (.file c false)
  | .link p t => d.put p (.link t)
  | .remove p => d.erase p

/-- The disk after some changes. -/
def replay (d : Disk) (cs : List Change) : Disk := cs.foldl apply d

theorem replay_append (d : Disk) (a b : List Change) :
    d.replay (a ++ b) = (d.replay a).replay b := by
  simp [replay, List.foldl_append]

/-- A change touches no other place. -/
theorem find?_apply_of_ne (d : Disk) (c : Change) {q : Place} (h : q ≠ c.place) :
    (d.apply c).find? q = d.find? q := by
  cases c with
  | append p more =>
    simp only [Change.place] at h
    simp only [apply]
    split
    · simp [find?_put, h]
    · rfl
  | remove p =>
    simp only [Change.place] at h
    simp [apply, find?_erase, h]
  | _ =>
    simp only [Change.place] at h
    simp [apply, find?_put, h]

/-! ## From paths to changes -/

/-- A new directory. -/
def planMakeDirectory (d : Disk) (cwd : Place) (p : FilePath) : Except IoError Change :=
  match d.locate cwd (p.ending = .dots) p with
  | .error e => .error e
  | .ok (place, ending) =>
    if ending = .dots || (d.find? place).isSome then .error (.fault .alreadyExists)
    else .ok (.makeDirectory place)

/-- A file to write to from its start. A file that exists keeps its permission to be run. -/
def planCreate (d : Disk) (cwd : Place) (p : FilePath) (executable : Bool) :
    Except IoError Change :=
  match d.locate cwd true p with
  | .error e => .error e
  | .ok (place, ending) =>
    match d.find? place with
    | some .directory => .error (.fault .isDirectory)
    | some (.file _ x) =>
      if ending = .plain then .ok (.create place x) else .error (.fault .notDirectory)
    | some (.link _) => .error (.fault .tooManyLinks)
    | none => if ending = .plain then .ok (.create place executable)
        else .error (.fault .isDirectory)

/-- A finished file moved to the name `p`. A link of that name is replaced, not followed. -/
def planReplace (d : Disk) (cwd : Place) (p : FilePath) (contents : Bytes) :
    Except IoError Change :=
  match d.locate cwd false p with
  | .error e => .error e
  | .ok (place, ending) =>
    match ending, d.find? place with
    | .dots, _ => .error (.fault .busy)
    | .slash, _ => .error (.fault .notDirectory)
    | .plain, some .directory => .error (.fault .isDirectory)
    | .plain, _ => .ok (.replace place contents)

/-- Removes a file or a link. -/
def planRemoveFile (d : Disk) (cwd : Place) (p : FilePath) : Except IoError Change :=
  match d.entryAt cwd false p with
  | .error e => .error e
  | .ok (_, .directory) => .error (.fault .isDirectory)
  | .ok (place, _) => .ok (.remove place)

/-- Removes a directory with all entries below it, these first. A link is removed itself. -/
def planRemoveTree (d : Disk) (cwd : Place) (p : FilePath) : Except IoError (List Change) :=
  match d.entryAt cwd false p with
  | .error e => .error e
  | .ok (_, .file _ _) => .error (.fault .notDirectory)
  | .ok (place, .link _) => .ok [.remove place]
  | .ok (place, .directory) =>
    .ok (((d.below place).reverse.map fun x => Change.remove (place ++ x.1)) ++ [.remove place])

/-- A symbolic link at `p`. -/
def planLink (d : Disk) (cwd : Place) (p : FilePath) (target : String) :
    Except IoError Change :=
  match d.locate cwd false p with
  | .error e => .error e
  | .ok (place, ending) =>
    if ending = .dots || (d.find? place).isSome then .error (.fault .alreadyExists)
    else if ending = .slash then .error (.fault .notFound)
    else .ok (.link place target)

end Disk

end Decompile
