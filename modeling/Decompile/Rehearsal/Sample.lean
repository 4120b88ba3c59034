import Decompile.World.Basic

/-!
# Sample output

What stand-ins for the tools write: one source, as a tree, in an archive, or a file in place of an
archive.

- `samplePath`, `sampleSource`: the source.
- `writeTree`, `writeJar`, `writeArchive`: the three kinds of output, as activities of a call.
-/

namespace Decompile.Rehearsal

/-- The path of the sample source below its root. -/
def samplePath : String := "com/app/Main.java"

/-- The directory of the sample source below its root. -/
def sampleDirectory : String := "com/app"

/-- The text of the sample source. -/
def sampleSource : Bytes := Text.encode "class Main \x7b\x7d"

/-- What stands for a Java archive that nobody opens. -/
def sampleJar : Bytes := Text.encode "jar bytes"

/-- An archive of the sample source. -/
def sampleArchive : Bytes := Zip.write [⟨samplePath, sampleSource, false⟩]

/-- Writes a file, and makes the directories above it. -/
def writeWithParents (p : FilePath) (contents : Bytes) : List Activity :=
  (p.parent?.map Activity.makeDirectories).toList ++ [.writeFile p contents]

/-- Writes the sample source below `root`. -/
def writeTree (root : FilePath) : List Activity :=
  [.makeDirectories (root.join ⟨sampleDirectory⟩), .writeFile (root.join ⟨samplePath⟩) sampleSource]

/-- Writes what stands for a Java archive. -/
def writeJar (p : FilePath) : List Activity := [.writeFile p sampleJar]

/-- Writes the archive of the sample source to `dir`, under the name of `source`. -/
def writeArchive (dir source : FilePath) : List Activity :=
  match source.fileName? with
  | some n => [.writeFile (dir.join ⟨n⟩) sampleArchive]
  | none => []

/-- An argument as a path. -/
def argument (args : List String) (i : Nat) : FilePath := ⟨args.getD i ""⟩

/-- The last argument as a path. -/
def lastArgument (args : List String) : FilePath := ⟨args.getLastD ""⟩

end Decompile.Rehearsal
