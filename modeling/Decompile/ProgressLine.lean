import Decompile.Text.Ascii
import Decompile.Text.Blank

/-!
# Progress lines

A tool prints much that is of no use to the user. `normalize` keeps the lines that name what is
being worked on: it takes off labels at the front and a mark of completion at the end, and drops
lines that look like diagnostics.

- `labels`, `completion`, `diagnostics`: the texts taken off, and those that drop a line.
- `stripLabels`: a line without the labels it starts with.
- `isProgress`: the characters of a line that is kept.
- `normalize`: the whole rule.
-/

namespace Decompile.ProgressLine

/-- Texts taken off the front of a line, in any letter case and again and again. -/
def labels : List (List Char) :=
  ["[stdout]", "[stderr]", "INFO:", "WARN:", "ERROR:", "Processing ", "Decompiling ",
   "Extracting "].map String.toList

/-- The text taken off the end of a line. -/
def completion : List Char := "... done".toList

/-- Texts that drop a line in which they occur in any letter case. -/
def diagnostics : List (List Char) :=
  ["[ignored]", "TRYBLOCK", "stack info", "Produces", "ASTORE", "targets", "WARN jadx",
   "ERROR jadx", "thread-1", "JadxRuntimeException", "java.lang"].map String.toList

/-- The line behind the first label that it starts with. -/
def dropLabel? (cs : List Char) : Option (List Char) :=
  labels.findSome? fun l => Text.dropLeadIgnoringCase? l cs

/-- The line without labels and the blanks behind them. Every label has characters, so that a
line of length `fuel` is done within that many steps. -/
def stripLabelsFrom : (fuel : Nat) → List Char → List Char
  | 0, cs => cs
  | fuel + 1, cs =>
    match dropLabel? cs with
    | some rest => stripLabelsFrom fuel (Text.trimStart rest)
    | none => cs

/-- The line without the labels it starts with. -/
def stripLabels (cs : List Char) : List Char := stripLabelsFrom cs.length cs

/-- The line without the mark of completion. -/
def dropCompletion (cs : List Char) : List Char := (Text.dropTail? completion cs).getD cs

/-- A diagnostic text occurs in the line. -/
def isDiagnostic (cs : List Char) : Bool :=
  let line := Text.lower cs
  diagnostics.any fun part => Text.occursIn (Text.lower part) line

/-- A character that a kept line may start with. -/
def isNameStart (c : Char) : Bool := Text.isAlnum c || c == '$' || c == '_'

/-- A character that may follow in a kept line. -/
def isNamePart (c : Char) : Bool :=
  isNameStart c || c == '/' || c == ';' || c == '.' || c == '-' || c == ' '

/-- A line that names something. -/
def isProgress : List Char → Bool
  | [] => false
  | c :: cs => isNameStart c && cs.all isNamePart

/-- A character that ends lines. -/
def endsLine (c : Char) : Bool := c == '\r' || c == '\n'

/-- The line without the characters that end lines around it, and without blanks. -/
def bare (cs : List Char) : List Char :=
  Text.trim (Text.dropEndWhile endsLine (cs.dropWhile endsLine))

/-- What is left of a line once labels, the mark of completion and blanks are taken off. -/
def core (cs : List Char) : List Char := Text.trim (dropCompletion (stripLabels (bare cs)))

/-- The line as it is told to the user, if it is. -/
def normalizeChars (cs : List Char) : Option (List Char) :=
  let line := core cs
  -- only what would be told has to be clean
  if line.isEmpty || isDiagnostic line || !isProgress line then none else some line

/-- The line as it is told to the user, if it is. -/
def normalize (raw : String) : Option String := (normalizeChars raw.toList).map String.ofList

end Decompile.ProgressLine
