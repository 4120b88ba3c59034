import Decompile.World.Files

/-!
# Storage

Directories that are made when they are needed, and files that appear under their names only when
they are finished.

- `ensureDirectory`: a directory to write to.
- `store`: a file written as a whole.
-/

namespace Decompile.World

/-- Makes a directory if nothing of its name exists. -/
def ensureDirectory (h : Host) (dir : FilePath) : Try PersistError Unit := do
  if ← pathExists dir then
    if !(← isDirectory dir) then
      throw (.outputDirectory (dir.text ++ " is not a directory"))
  else
    (makeDirectories h dir).mapError fun e => .outputDirectory e.message

/-- Writes a file of a directory as a whole, in place of what had its name. -/
def store (h : Host) (dir : FilePath) (name : String) (contents : Bytes) :
    Try PersistError FilePath := do
  ensureDirectory h dir
  let target := dir.join ⟨name⟩
  (replaceFile h target contents).mapError .io
  return target

end Decompile.World
