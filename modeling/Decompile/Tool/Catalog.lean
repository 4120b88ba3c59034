import Decompile.Backend
import Decompile.Disk.Lookup

/-!
# The tools of a machine

- `Tool`: a tool, whether the machine has it, and where.
- `Catalog`: the four tools and the version of the Java runtime; `Catalog.has` says which backends
  can run.
- `Catalog.detect`: looks for the tools in the directories of a search path.
-/

namespace Decompile

/-- A tool of the machine. -/
structure Tool where
  name : String
  available : Bool
  /-- Where it was found; a tool without a path is run by its name. -/
  path : Option FilePath
  deriving DecidableEq, Repr

namespace Tool

/-- A tool that is run by its name. -/
def byName (name : String) : Tool := ⟨name, true, none⟩

/-- A tool the machine does not have. -/
def missing (name : String) : Tool := ⟨name, false, none⟩

/-- What is run. -/
def program (t : Tool) : String := (t.path.map FilePath.text).getD t.name

end Tool

/-- The name of the tool that makes Java archives of bytecode containers. -/
def dexToJarName : String := "d2j-dex2jar"

/-- The tools of a machine. -/
structure Catalog where
  runtime : UInt32
  jadx : Tool
  cfr : Tool
  fernflower : Tool
  dexToJar : Tool
  deriving DecidableEq, Repr

namespace Catalog

/-- All tools are there, and run by their names. -/
def complete (runtime : UInt32) : Catalog where
  runtime := runtime
  jadx := .byName "jadx"
  cfr := .byName "cfr"
  fernflower := .byName "fernflower"
  dexToJar := .byName dexToJarName

/-- The tool of a backend. -/
def tool (c : Catalog) : Backend → Tool
  | .jadx => c.jadx
  | .cfr => c.cfr
  | .fernflower => c.fernflower

/-- The backend can run: the runtime is new enough, its tool is there, and so is the one it
needs before it. -/
def has (c : Catalog) (b : Backend) : Bool :=
  b.leastRuntime ≤ c.runtime && (c.tool b).available && (b.isDirect || c.dexToJar.available)

/-- The names that the program of a backend may have. -/
def programNames : Backend → List String
  | .jadx => ["jadx"]
  | .cfr => ["cfr", "cfr-decompiler"]
  | .fernflower => ["fernflower", "java-decompiler"]

/-- The names that the program which makes Java archives may have. -/
def dexToJarNames : List String := [dexToJarName, "d2j-dex2jar.sh"]

/-- The directories of a search path. -/
def directoriesOf (search : String) : List FilePath :=
  (Text.pieces ':' search.toList).map fun d => ⟨String.ofList d⟩

/-- The first file with one of the names that may be run; earlier names win over earlier
directories. -/
def findProgram (d : Disk) (cwd : Place) (directories : List FilePath) (names : List String) :
    Option FilePath :=
  names.findSome? fun n =>
    (directories.map fun dir => dir.join ⟨n⟩).find? fun p => d.isExecutable cwd p

/-- Looks for a tool under its names. -/
def probe (d : Disk) (cwd : Place) (directories : List FilePath) (label : String)
    (names : List String) : Tool :=
  match findProgram d cwd directories names with
  | some p => ⟨label, true, some p⟩
  | none => .missing label

/-- The tools that the directories of a search path hold; none without a search path. -/
def detect (d : Disk) (cwd : Place) (search : Option String) (runtime : UInt32) : Catalog :=
  let directories := (search.map directoriesOf).getD []
  let probe := probe d cwd directories
  { runtime := runtime
    jadx := probe "jadx" (programNames .jadx)
    cfr := probe "cfr" (programNames .cfr)
    fernflower := probe "fernflower" (programNames .fernflower)
    dexToJar := probe dexToJarName dexToJarNames }

end Catalog

end Decompile
