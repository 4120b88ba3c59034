import Decompile.Failure
import Decompile.Text.Decimal
import Decompile.Tool.Catalog

/-!
# Calls of tools

How a chunk of files becomes calls of tools. Nothing is run here.

- `Invocation`: a program with its arguments, and a note on what it is for.
- `planIntermediate`: one call for each bytecode container, which makes a Java archive of it.
- `planConvert`: the calls of the backend.
-/

namespace Decompile

/-- A call of a program. -/
structure Invocation where
  program : String
  args : List String
  note : String
  deriving DecidableEq, Repr

/-- The archive that is made of a bytecode container. -/
def jarOf (outDir dex : FilePath) : FilePath :=
  outDir.join ⟨dex.stem?.getD "classes" ++ ".jar"⟩

/-- Makes an archive of a bytecode container. -/
def dexToJarCall (c : Catalog) (outDir dex : FilePath) : Invocation where
  program := c.dexToJar.program
  args := ["--force", "--output", (jarOf outDir dex).text, dex.text]
  note := "dex2jar conversion of " ++ dex.text

/-- The calls that make archives of some bytecode containers. A direct backend has none. -/
def planIntermediate (b : Backend) (c : Catalog) (dexes : List FilePath) (outDir : FilePath) :
    Except StageError (List Invocation) :=
  if b.isDirect then
    .error (.fatal "jadx reads dex containers directly and has no intermediate step")
  else .ok (dexes.map (dexToJarCall c outDir))

/-- A number in a note. -/
def countText (n : Nat) : String := String.ofList (Text.decimal n)

/-- Reads all inputs in one call. -/
def jadxCall (c : Catalog) (inputs : List FilePath) (outDir : FilePath) : Invocation where
  program := c.jadx.program
  args := ["--no-res", "-d", outDir.text] ++ inputs.map FilePath.text
  note := "jadx source export for " ++ countText inputs.length ++ " input(s)"

/-- Reads one archive. -/
def cfrCall (c : Catalog) (outDir jar : FilePath) : Invocation where
  program := c.cfr.program
  args := [jar.text, "--outputdir", outDir.text]
  note := "cfr source export for " ++ jar.text

/-- Reads all archives in one call. -/
def fernflowerCall (c : Catalog) (jars : List FilePath) (outDir : FilePath) : Invocation where
  program := c.fernflower.program
  args := ["-dgs=1"] ++ jars.map FilePath.text ++ [outDir.text]
  note := "fernflower source export for " ++ countText jars.length ++ " jar(s)"

/-- The calls of the backend for some inputs; none for no inputs. -/
def planConvert (b : Backend) (c : Catalog) (inputs : List FilePath) (outDir : FilePath) :
    List Invocation :=
  if inputs.isEmpty then []
  else
    match b with
    | .jadx => [jadxCall c inputs outDir]
    | .cfr => inputs.map (cfrCall c outDir)
    | .fernflower => [fernflowerCall c inputs outDir]

end Decompile
