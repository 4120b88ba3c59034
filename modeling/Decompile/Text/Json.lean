import Decompile.Text.Decimal
import Decompile.Text.Fraction

/-!
# JSON

Values as texts in JSON. Members of an object keep the order they are given in.

- `Json`: a value.
- `Json.compact`: on one line, without blanks.
- `Json.pretty`: every item on a line of its own, two blanks deeper than what it belongs to.
-/

namespace Decompile.Text

/-- A value. -/
inductive Json where
  | null
  | bool (b : Bool)
  | nat (n : Nat)
  | float (x : Float)
  | text (s : String)
  | list (items : List Json)
  | object (members : List (String × Json))

namespace Json

/-- A character between quotes. Control characters that have no short escape are written with
four digits of base 16. -/
def escapeChar (c : Char) : List Char :=
  if c = '"' then ['\\', '"']
  else if c = '\\' then ['\\', '\\']
  else if c = '\n' then ['\\', 'n']
  else if c = '\r' then ['\\', 'r']
  else if c = '\t' then ['\\', 't']
  else if c = '\x08' then ['\\', 'b']
  else if c = '\x0c' then ['\\', 'f']
  else if c.toNat < 0x20 then '\\' :: 'u' :: padStart 4 '0' (Nat.toDigits 16 c.toNat)
  else [c]

/-- A text between quotes. -/
def quoted (s : String) : List Char := '"' :: (s.toList.flatMap escapeChar ++ ['"'])

/-- A number; what is no finite number is null. -/
def number (x : Float) : List Char :=
  match Binary.ofFloat x with
  | none => "null".toList
  | some _ => shortest x

/-- A value without items, on one line. -/
def leaf : Json → List Char
  | null => "null".toList
  | bool true => "true".toList
  | bool false => "false".toList
  | nat n => decimal n
  | float x => number x
  | text s => quoted s
  | list _ => ['[', ']']
  | object _ => ['\x7b', '\x7d']

mutual

/-- A value on one line. -/
def compact : Json → List Char
  | list items => '[' :: compactItems items ++ [']']
  | object members => '\x7b' :: compactMembers members ++ ['\x7d']
  | v => leaf v

/-- Items with commas between them. -/
def compactItems : List Json → List Char
  | [] => []
  | [v] => compact v
  | v :: vs => compact v ++ ',' :: compactItems vs

/-- Members with commas between them. -/
def compactMembers : List (String × Json) → List Char
  | [] => []
  | [(k, v)] => quoted k ++ ':' :: compact v
  | (k, v) :: ms => quoted k ++ ':' :: compact v ++ ',' :: compactMembers ms

end

/-- A new line, `depth` levels deep. -/
def lineAt (depth : Nat) : List Char := '\n' :: List.replicate (2 * depth) ' '

mutual

/-- A value with its items on lines of their own, inside something `depth` levels deep. -/
def prettyAt (depth : Nat) : Json → List Char
  | list (v :: vs) => '[' :: prettyItems (depth + 1) (v :: vs) ++ lineAt depth ++ [']']
  | object (m :: ms) => '\x7b' :: prettyMembers (depth + 1) (m :: ms) ++ lineAt depth ++ ['\x7d']
  | v => leaf v

/-- Items on lines of their own. -/
def prettyItems (depth : Nat) : List Json → List Char
  | [] => []
  | [v] => lineAt depth ++ prettyAt depth v
  | v :: vs => lineAt depth ++ prettyAt depth v ++ ',' :: prettyItems depth vs

/-- Members on lines of their own. -/
def prettyMembers (depth : Nat) : List (String × Json) → List Char
  | [] => []
  | [(k, v)] => lineAt depth ++ quoted k ++ ':' :: ' ' :: prettyAt depth v
  | (k, v) :: ms =>
    lineAt depth ++ quoted k ++ ':' :: ' ' :: prettyAt depth v ++ ',' :: prettyMembers depth ms

end

/-- A value with its items on lines of their own. -/
def pretty (v : Json) : List Char := prettyAt 0 v

end Json

end Decompile.Text
