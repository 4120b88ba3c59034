import Decompile.Path

/-!
# Settings of the engine and the directories of a target

- `Settings`: what all jobs of an engine share.
- `isLibraryPath`: the path of a bundled library, by the start of its name.
- `Layout`: the directories of one target.
-/

namespace Decompile

/-- What all jobs of an engine share. -/
structure Settings where
  /-- The root of everything that is written. -/
  storage : FilePath
  /-- The version of the Java runtime that the tools run on. -/
  runtime : UInt32
  /-- The memory that counts as all of it; the whole machine's if none is given. -/
  memoryCeiling : Option UInt64
  /-- The time between two readings of memory use. -/
  sampleMillis : Nat
  /-- So many readings above a threshold in a row end a stage. -/
  samplesToTrip : UInt32
  /-- How the paths of bundled libraries start. -/
  libraryRoots : List String
  deriving DecidableEq, Repr

/-- The packages that are bundled libraries unless told otherwise. -/
def defaultLibraryRoots : List String :=
  ["android/support/", "androidx/", "com/google/", "kotlin/", "kotlinx/", "okhttp3/", "okio/",
   "retrofit2/", "io/reactivex/", "org/jetbrains/"]

/-- The settings for a storage directory. -/
def Settings.forStorage (storage : FilePath) : Settings where
  storage := storage
  runtime := 17
  memoryCeiling := none
  sampleMillis := 500
  samplesToTrip := 3
  libraryRoots := defaultLibraryRoots

/-- The directory of all targets. -/
def sourcesIn (storage : FilePath) : FilePath := storage.join ⟨"sources"⟩

/-- The directory of all targets. -/
def Settings.sources (s : Settings) : FilePath := sourcesIn s.storage

/-- The path, slashes at its start aside, starts like a bundled library. -/
def isLibraryPath (roots : List String) (path : String) : Bool :=
  let cs := path.toList.dropWhile (· == '/')
  roots.any fun r => r.toList.isPrefixOf cs

/-- The directories of one target, by its own. -/
structure Layout where
  root : FilePath
  deriving DecidableEq, Repr

namespace Layout

/-- The directories of the target `key`. -/
def of (storage : FilePath) (key : String) : Layout := ⟨(sourcesIn storage).join ⟨key⟩⟩

/-- Where the contents of the input go. -/
def unpacked (l : Layout) : FilePath := l.root.join ⟨"unpacked"⟩

/-- Where Java archives go that are made on the way. -/
def intermediate (l : Layout) : FilePath := l.root.join ⟨"intermediate"⟩

/-- Where the sources go. -/
def java (l : Layout) : FilePath := l.root.join ⟨"java"⟩

/-- Where everything else goes. -/
def resources (l : Layout) : FilePath := l.root.join ⟨"resources"⟩

end Layout

end Decompile
