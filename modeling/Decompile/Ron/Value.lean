import Decompile.Text.Property.Identifier
import Decompile.Text.Quoted

/-!
# Object notation

The notation in which records and preferences are stored: parenthesised fields, bare words for the
cases of an enumeration, quoted texts.

- `Value`: what a text in the notation says.
- `isWordStart`, `isWordPart`, `isRawPart`: the characters of words; a word with other characters
  than a plain one can have is written raw, behind `r#`.
- `render`: the stored form, one field a line.
-/

namespace Decompile.Ron

/-- A whole number as written: its sign, magnitude and the type named behind it, if any. -/
structure Numeral where
  negative : Bool
  magnitude : Nat
  suffix : String
  deriving DecidableEq, Repr

/-- What a text in the notation says. -/
inductive Value where
  /-- `true` or `false`. -/
  | bool (b : Bool)
  /-- A whole number. -/
  | number (n : Numeral)
  /-- A number with a point or an exponent, as written. -/
  | decimal (written : String)
  /-- A text between quotes. -/
  | text (s : String)
  /-- A character or a byte, or some bytes. -/
  | raw (s : String)
  /-- A word that stands for itself, such as the case of an enumeration. -/
  | word (name : String)
  /-- `None`, or `Some` of a value. -/
  | option (v : Option Value)
  /-- Values between brackets. -/
  | list (vs : List Value)
  /-- Keys and values between braces. -/
  | map (entries : List (Value × Value))
  /-- Values between parentheses, perhaps behind a name. -/
  | tuple (name : Option String) (vs : List Value)
  /-- Named fields between parentheses, perhaps behind a name. -/
  | fields (name : Option String) (fs : List (String × Value))
  deriving Inhabited

/-- A natural number without a type behind it. -/
def Value.ofNat (n : Nat) : Value := .number ⟨false, n, ""⟩

/-! ## Words -/

/-- A character that may begin a word. -/
def isWordStart (c : Char) : Bool :=
  c == '_' || c.isAlpha
    || (128 ≤ c.toNat && Text.inRanges Text.Property.identifierStart c.toNat)

/-- A character that may stand in a word. -/
def isWordPart (c : Char) : Bool :=
  c == '_' || c.isAlphanum
    || (128 ≤ c.toNat && Text.inRanges Text.Property.identifierContinue c.toNat)

/-- A character that may stand in a raw word. -/
def isRawPart (c : Char) : Bool := c == '.' || c == '+' || c == '-' || isWordPart c

/-- A word that needs no mark. -/
def isPlainWord : List Char → Bool
  | [] => false
  | c :: cs => isWordStart c && cs.all isWordPart

/-- A word as it is written. -/
def renderWord (w : List Char) : List Char := if isPlainWord w then w else 'r' :: '#' :: w

/-! ## The stored form -/

/-- The blanks before a line at a depth. -/
def indent (depth : Nat) : List Char := List.replicate (4 * depth) ' '

/-- A number as it is written. -/
def Numeral.render (n : Numeral) : List Char :=
  (if n.negative then ['-'] else []) ++ Nat.toDigits 10 n.magnitude ++ n.suffix.toList

/-- Lines between an opening and a closing mark, each ended by a comma. -/
def renderLines (depth : Nat) (opening closing : Char) (lines : List (List Char)) : List Char :=
  if lines.isEmpty then [opening, closing]
  else
    opening :: '\n' :: (lines.flatMap fun l => indent (depth + 1) ++ l ++ [',', '\n'])
      ++ indent depth ++ [closing]

mutual

/-- A value as it is stored, inside `depth` others. Names of structures are left out. -/
def render (depth : Nat) : Value → List Char
  | .bool b => (if b then "true" else "false").toList
  | .number n => n.render
  | .decimal s => s.toList
  | .text s => Text.quoteChars .strict s.toList
  | .raw s => s.toList
  | .word w => renderWord w.toList
  | .option none => "None".toList
  | .option (some v) => "Some(".toList ++ render depth v ++ [')']
  | .list vs => renderLines depth '[' ']' (renderAll (depth + 1) vs)
  | .map es => renderLines depth '\x7b' '\x7d' (renderEntries (depth + 1) es)
  | .tuple _ vs => renderLines depth '(' ')' (renderAll (depth + 1) vs)
  | .fields _ fs => renderLines depth '(' ')' (renderFields (depth + 1) fs)

/-- Values as they are stored. -/
def renderAll (depth : Nat) : List Value → List (List Char)
  | [] => []
  | v :: vs => render depth v :: renderAll depth vs

/-- Keys and values as they are stored. -/
def renderEntries (depth : Nat) : List (Value × Value) → List (List Char)
  | [] => []
  | (k, v) :: es =>
    (render depth k ++ ':' :: ' ' :: render depth v) :: renderEntries depth es

/-- Fields as they are stored. -/
def renderFields (depth : Nat) : List (String × Value) → List (List Char)
  | [] => []
  | (n, v) :: fs =>
    (renderWord n.toList ++ ':' :: ' ' :: render depth v) :: renderFields depth fs

end

end Decompile.Ron
