import Decompile.World.Storage

/-!
# Markers

An output tree says itself whether it is finished: `.started` is written when its stage begins, and
`.complete` when it has succeeded.

- `markStarted`, `markComplete`: the two moments.
- `TreeState`, `treeState`: what the markers of a tree say.
-/

namespace Decompile.Target

/-- Written into a tree when its stage begins. -/
def startedMarker : String := ".started"

/-- Written into a tree when its stage has succeeded. -/
def completeMarker : String := ".complete"

/-- The name is that of a marker. -/
def isMarkerName (n : String) : Bool := n == startedMarker || n == completeMarker

/-- Marks a tree as begun, and takes away the mark of an earlier completion. -/
def markStarted (h : Host) (dir : FilePath) : Try PersistError Unit := do
  let _ ← World.store h dir startedMarker []
  (World.ifPresent (World.removeFile h (dir.join ⟨completeMarker⟩))).mapError .io

/-- Marks a tree as finished. -/
def markComplete (h : Host) (dir : FilePath) : Try PersistError Unit := do
  let _ ← World.store h dir completeMarker []

/-- What the markers of a tree say. -/
inductive TreeState where
  /-- No stage has begun to write it. -/
  | absent
  /-- A stage began to write it and did not succeed. -/
  | incomplete
  | complete
  deriving DecidableEq, Repr

/-- What the markers of a tree say. -/
def treeState (d : Disk) (cwd : Place) (dir : FilePath) : TreeState :=
  if d.isFile cwd (dir.join ⟨completeMarker⟩) then .complete
  else if d.isFile cwd (dir.join ⟨startedMarker⟩) then .incomplete
  else .absent

end Decompile.Target
