import Decompile.Record.Text
import Decompile.World.Storage

/-!
# Job records on disk

Each target's directory holds the record of its last job.

- `JobRecord.save`, `JobRecord.load`: one record.
- `pendingRecords`: the records of jobs that never ended, in ascending order of their keys.
-/

namespace Decompile

/-- The name of the file that holds a record. -/
def recordName : String := "job.ron"

namespace JobRecord

/-- Writes a record to the directory of its target. -/
def save (h : Host) (l : Layout) (r : JobRecord) : Try PersistError Unit := do
  let _ ← World.store h l.root recordName (Text.encode r.render)

/-- What bytes say of a record, read from `path`. -/
def ofBytes (path : FilePath) (bytes : Bytes) : Except PersistError JobRecord :=
  match Text.decode? bytes with
  | none => .error (.io .notText)
  | some text =>
    match read? text with
    | some r => .ok r
    | none => .error (.parse path "unreadable record")

/-- The record in a target's directory, if there is one. -/
def load (d : Disk) (cwd : Place) (l : Layout) : Except PersistError (Option JobRecord) :=
  let path := l.root.join ⟨recordName⟩
  match d.read cwd path with
  | .ok bytes => (ofBytes path bytes).map some
  | .error e => if e.kind = .notFound then .ok none else .error (.io e)

end JobRecord

/-- Records in ascending order of their keys. -/
def sortRecords (rs : List JobRecord) : List JobRecord :=
  rs.mergeSort fun a b => !(b.submission.targetKey < a.submission.targetKey)

/-- The pending record of one target's directory, with a note if it cannot be read. -/
def pendingIn (sources : FilePath) (d : Disk) (cwd : Place) (name : String) :
    Except LogRecord (Option JobRecord) :=
  let dir := sources.child name
  match JobRecord.load d cwd ⟨dir⟩ with
  | .ok r => .ok (r.filter JobRecord.isPending)
  | .error e =>
    .error ⟨.warn, "decaf_engine::record", "Skipping unreadable job record in " ++
      Text.quote .plain dir.text ++ ": " ++ e.message⟩

/-- The names of the directories of targets. -/
def targetNames (d : Disk) (cwd : Place) (storage : FilePath) : List String :=
  match d.list cwd (sourcesIn storage) with
  | .error _ => []
  | .ok entries => (entries.filter fun x => x.2 = .directory).map Prod.fst

/-- The records of jobs that never ended, in ascending order of their keys. -/
def pendingRecords (d : Disk) (cwd : Place) (storage : FilePath) : List JobRecord :=
  sortRecords ((targetNames d cwd storage).filterMap fun n =>
    (pendingIn (sourcesIn storage) d cwd n).toOption.join)

/-- The notes on records that cannot be read. -/
def unreadableRecords (d : Disk) (cwd : Place) (storage : FilePath) : List LogRecord :=
  (targetNames d cwd storage).filterMap fun n =>
    match pendingIn (sourcesIn storage) d cwd n with
    | .error note => some note
    | .ok _ => none

end Decompile
