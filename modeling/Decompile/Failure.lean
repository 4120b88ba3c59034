import Decompile.Archive.Zip
import Decompile.Text.Quoted

/-!
# Failures of stages and of storage

- `PersistError`: storage cannot be written or read.
- `StageError`: a stage cannot go on; only a transient failure is worth another attempt.
- `StageError.ofIo`, `ofPersist`, `ofArchive`: how other failures are judged.
-/

namespace Decompile

/-- Storage cannot be written or read. -/
inductive PersistError where
  /-- The directory is missing and cannot be made, or is none. -/
  | outputDirectory (text : String)
  /-- A value has no stored form. -/
  | serialize (text : String)
  /-- A file does not say what it should. -/
  | parse (path : FilePath) (text : String)
  | io (e : IoError)
  deriving DecidableEq, Repr

/-- The text of a failure. -/
def PersistError.message : PersistError → String
  | .outputDirectory text => "output directory missing or not writable: " ++ text
  | .serialize text => "failed to serialize " ++ text
  | .parse path text =>
    "failed to parse " ++ Text.quote .plain path.text ++ ": " ++ text
  | .io e => "io error: " ++ e.message

/-- A stage cannot go on. -/
inductive StageError where
  /-- Another attempt may succeed. -/
  | transient (text : String)
  /-- Another attempt cannot help. -/
  | fatal (text : String)
  /-- Too much memory was used; another attempt needs smaller chunks. -/
  | outOfMemory (text : String)
  | cancelled
  deriving DecidableEq, Repr

namespace StageError

/-- The text of a failure. -/
def message : StageError → String
  | transient text | fatal text | outOfMemory text => text
  | cancelled => "cancelled"

/-- Another attempt may succeed. -/
def isTransient : StageError → Bool
  | transient _ => true
  | fatal _ | outOfMemory _ | cancelled => false

/-- Too much memory was used. -/
def isOutOfMemory : StageError → Bool
  | outOfMemory _ => true
  | transient _ | fatal _ | cancelled => false

/-- What is missing or forbidden stays so; other failures of files may pass. -/
def ofIo (e : IoError) : StageError :=
  match e.kind with
  | .notFound | .permissionDenied => fatal e.message
  | .outOfMemory => outOfMemory e.message
  | .other => transient e.message

/-- Storage that is not usable stays so, unless a file operation failed. -/
def ofPersist : PersistError → StageError
  | .io e => ofIo e
  | e => fatal e.message

/-- An archive that is damaged stays so, unless a file operation failed. -/
def ofArchive : ArchiveError → StageError
  | .io e => ofIo e
  | e => fatal ("corrupted archive: " ++ e.message)

end StageError

end Decompile
