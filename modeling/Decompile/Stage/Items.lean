import Decompile.Target.Markers

/-!
# The items of a stage

What a stage works through: the members of the input archive, or files.

- `StageContext`: what a stage knows about its job.
- `outputOf`: the directory a stage writes.
- `Items.collect`: the items of a stage, found when it starts.
-/

namespace Decompile

/-- What a stage knows about its job. -/
structure StageContext where
  job : Job
  layout : Layout
  ticket : Nat

/-- What a stage works through. -/
inductive Items where
  /-- Members of the input archive, by name. -/
  | members (names : List String)
  | files (paths : List FilePath)
  deriving DecidableEq, Repr

/-- How many items there are. -/
def Items.count : Items → Nat
  | members names => names.length
  | files paths => paths.length

/-- The directory a stage writes. -/
def outputOf (l : Layout) : StageKind → FilePath
  | .unpack => l.unpacked
  | .intermediateConvert => l.intermediate
  | .convert => l.java
  | .resources => l.resources

/-- The file is bytecode. -/
def isCode (p : FilePath) : Bool := p.hasExtension "dex" || p.hasExtension "class"

/-- The file is a marker. -/
def isMarker (p : FilePath) : Bool :=
  match p.fileName? with
  | some n => Target.isMarkerName n
  | none => false

/-- The extension of the bytecode in an input of this type. -/
def codeExtension : InputType → String
  | .jar => "class"
  | .apk | .dex => "dex"

namespace Items

/-- The paths at and below `root` that `keep` admits, depth first and by name. -/
def filesBelow (root : FilePath) (keep : FilePath → Bool) : Act (List FilePath) := do
  return ((← World.walk root).map Disk.Found.path).filter keep

/-- The members of an archive that are not directories, in the order of its directory. -/
def listMembers (h : Host) (archive : FilePath) : Try StageError (List String) := do
  let bytes ← (World.readBytes h archive).mapError .ofIo
  match Zip.read bytes with
  | .error e => throw (.ofArchive e)
  | .ok ls => return (ls.map Zip.Listed.name).filter fun n => n.toList.getLast? ≠ some '/'

/-- The bytecode that unpacking has left; there must be some. -/
def code (l : Layout) (t : InputType) : Try StageError Items := do
  let extension := codeExtension t
  let files ← filesBelow l.unpacked fun p => p.hasExtension extension
  if files.isEmpty then
    throw (.fatal ("no ." ++ extension ++ " files in " ++ l.unpacked.text))
  return .files files

/-- The archives made of the bytecode; there must be some. -/
def jars (l : Layout) : Try StageError Items := do
  let files ← filesBelow l.intermediate fun p => p.hasExtension "jar"
  if files.isEmpty then throw (.fatal ("no converted jars in " ++ l.intermediate.text))
  return .files files

/-- The input itself, or its members without those of bundled libraries. -/
def input (h : Host) (s : Submission) : Try StageError Items := do
  if !(← World.isFile s.inputPath) then
    throw (.fatal ("input file " ++ s.inputPath.text ++ " is missing"))
  -- a single container has no members to choose from
  if !s.inputType.isArchive then return .files [s.inputPath]
  let names ← listMembers h s.inputPath
  if s.ignoreLibraries then
    return .members (names.filter fun n => !isLibraryPath h.settings.libraryRoots n)
  return .members names

/-- What unpacking has left and is neither bytecode nor a marker. -/
def resources (l : Layout) : Try StageError Items := do
  return .files (← filesBelow l.unpacked fun p => !isCode p && !isMarker p)

/-- The items of a stage. -/
def collect (h : Host) (c : StageContext) : StageKind → Try StageError Items
  | .unpack => input h c.job.submission
  | .intermediateConvert => code c.layout c.job.submission.inputType
  | .convert =>
    if c.job.backend.isDirect then code c.layout c.job.submission.inputType else jars c.layout
  | .resources => resources c.layout

end Items

end Decompile
