import Decompile.Record.Store
import Decompile.Target.Markers

/-!
# What the disk says about targets

Nothing about a target is remembered: `Info.of` looks at its directory anew.

- `Info`, `Info.of`: one target.
- `isTarget`: a directory that looks like a target's.
- `history`: all targets, in ascending order of their keys.
-/

namespace Decompile.Target

/-- What the disk says about a target. -/
structure Info where
  key : String
  label : Option String
  directory : FilePath
  hasJava : Bool
  hasResources : Bool
  /-- Some tree was begun and not finished. -/
  isCorrupted : Bool
  sizeBytes : UInt64
  deriving DecidableEq, Repr

/-- The file counts towards the size of a target. -/
def counts (f : Disk.Found) : Bool :=
  match f.path.fileName? with
  | some n => !isMarkerName n && n != recordName
  | none => true

/-- The bytes of the files in a directory, markers and the record aside. -/
def treeSize (d : Disk) (cwd : Place) (dir : FilePath) : UInt64 :=
  ((d.walk cwd dir).filter counts).foldl (fun n f => n + UInt64.ofNat f.contents.length) 0

namespace Info

/-- Looks at a target's directory. -/
def of (d : Disk) (cwd : Place) (dir : FilePath) : Info :=
  let layout : Layout := ⟨dir⟩
  let java := treeState d cwd layout.java
  let resources := treeState d cwd layout.resources
  let record := ((JobRecord.load d cwd layout).toOption).join
  { key := dir.fileName?.getD ""
    label := record.map fun r => r.submission.label
    directory := dir
    hasJava := java = .complete
    hasResources := resources = .complete
    isCorrupted := java = .incomplete || resources = .incomplete
    sizeBytes := treeSize d cwd dir }

/-- The sources are complete, and nothing is half written. -/
def isUsable (i : Info) : Bool := i.hasJava && !i.isCorrupted

end Info

/-- The directory looks like one of a target. -/
def isTarget (d : Disk) (cwd : Place) (dir : FilePath) : Bool :=
  let layout : Layout := ⟨dir⟩
  d.isDirectory cwd dir &&
    (d.isDirectory cwd layout.java || d.isDirectory cwd layout.resources
      || d.isFile cwd (dir.join ⟨recordName⟩))

/-- All targets of a storage directory, in ascending order of their keys. -/
def history (d : Disk) (cwd : Place) (storage : FilePath) : List Info :=
  match d.list cwd (sourcesIn storage) with
  | .error _ => []
  | .ok entries =>
    let dirs := (entries.map fun x => (sourcesIn storage).child x.1).filter (isTarget d cwd)
    (dirs.map (Info.of d cwd)).mergeSort fun a b => !(b.key < a.key)

end Decompile.Target
