import Decompile.Ron.Value
import Decompile.Text.Decimal
import Decompile.Text.Utf8

/-!
# The tokens of the object notation

Each function reads one token at the front of a text and returns what follows it.

- `skip`: blanks and comments.
- `readQuoted`: a text up to its closing quote, with its escapes.
- `readRaw`: a text between quotes and hash marks, without escapes.
- `readWord`: a word, plain or raw.
- `readNumber`: a number.
-/

namespace Decompile.Ron

/-! ## Blanks and comments -/

/-- A character that separates tokens. -/
def isGap (c : Char) : Bool :=
  let n := c.toNat
  (0x09 ≤ n && n ≤ 0x0D) || n == 0x20 || n == 0x85 || n == 0x200E || n == 0x200F
    || n == 0x2028 || n == 0x2029

/-- Where in a gap the reader is. -/
inductive Gap where
  /-- Between comments. -/
  | plain
  /-- In a comment that ends with the line. -/
  | line
  /-- In a comment between marks, inside `depth` others. -/
  | block (depth : Nat)
  deriving DecidableEq, Repr

/-- What follows a gap; none where a comment is not closed. -/
def skipFrom : Gap → List Char → Option (List Char)
  | .plain, '/' :: '/' :: cs => skipFrom .line cs
  | .plain, '/' :: '*' :: cs => skipFrom (.block 0) cs
  | .plain, c :: cs => if isGap c then skipFrom .plain cs else some (c :: cs)
  | .plain, [] => some []
  | .line, c :: cs => if c = '\n' then skipFrom .plain cs else skipFrom .line cs
  | .line, [] => some []
  | .block n, '/' :: '*' :: cs => skipFrom (.block (n + 1)) cs
  | .block 0, '*' :: '/' :: cs => skipFrom .plain cs
  | .block (n + 1), '*' :: '/' :: cs => skipFrom (.block n) cs
  | .block n, _ :: cs => skipFrom (.block n) cs
  | .block _, [] => none

/-- What follows blanks and comments. -/
def skip (cs : List Char) : Option (List Char) := skipFrom .plain cs

/-! ## Quoted texts -/

/-- The value of a digit of base 16. -/
def hexValue? (c : Char) : Option Nat :=
  if c.isDigit then some (c.toNat - 48)
  else if 'a' ≤ c ∧ c ≤ 'f' then some (c.toNat - 87)
  else if 'A' ≤ c ∧ c ≤ 'F' then some (c.toNat - 55)
  else none

/-- The character of a code point. -/
def charOfCode? (n : Nat) : Option Char := if n.isValidChar then some (Char.ofNat n) else none

/-- Where in a quoted text the reader is. -/
inductive Mode where
  /-- Between escapes. -/
  | plain
  /-- After a backslash. -/
  | escape
  /-- Before the first digit of a byte, behind others of the same character. -/
  | high (before : List UInt8)
  /-- Before the second digit of a byte. -/
  | low (before : List UInt8) (high : Nat)
  /-- Before the backslash of the next byte of a character. -/
  | moreEscape (before : List UInt8)
  /-- Before the mark of the next byte of a character. -/
  | moreMark (before : List UInt8)
  /-- Before the brace of a code point. -/
  | brace
  /-- Among the digits of a code point: how many, and the number so far. -/
  | code (digits value : Nat)
  deriving DecidableEq, Repr

/-- What one character does: it is refused, it ends the text, or it adds characters to it. -/
inductive Step where
  | refuse
  | close
  | goOn (mode : Mode) (add : List Char)
  deriving DecidableEq, Repr

/-- An escape of one letter. -/
def simpleEscape? (c : Char) : Option Char :=
  if c = '\\' ∨ c = '"' ∨ c = '\x27' then some c
  else if c = 'n' then some '\n'
  else if c = 'r' then some '\r'
  else if c = 't' then some '\t'
  else if c = '0' then some '\x00'
  else none

/-- After a byte of an escaped character: it is complete, or it needs more of at most four. -/
def afterByte (binary : Bool) (bytes : List UInt8) : Step :=
  if binary then .goOn .plain (bytes.map fun b => Char.ofNat b.toNat)
  else
    match Text.scan bytes with
    | [some c] => .goOn .plain [c]
    | [none] => if bytes.length < 4 then .goOn (.moreEscape bytes) [] else .refuse
    | _ => .refuse

/-- Reads one character of a text that ends with `quote`. -/
def step (binary : Bool) (quote : Char) (mode : Mode) (c : Char) : Step :=
  match mode with
  | .plain =>
    if c = quote then .close
    else if c = '\\' then .goOn .escape []
    else .goOn .plain [c]
  | .escape =>
    match simpleEscape? c with
    | some e => .goOn .plain [e]
    | none =>
      if c = 'x' then .goOn (.high []) []
      else if c = 'u' then .goOn .brace []
      else .refuse
  | .high before =>
    match hexValue? c with
    | some h => .goOn (.low before h) []
    | none => .refuse
  | .low before h =>
    match hexValue? c with
    | some l => afterByte binary (before ++ [UInt8.ofNat (16 * h + l)])
    | none => .refuse
  | .moreEscape before => if c = '\\' then .goOn (.moreMark before) [] else .refuse
  | .moreMark before => if c = 'x' then .goOn (.high before) [] else .refuse
  | .brace => if c = '\x7b' then .goOn (.code 0 0) [] else .refuse
  | .code digits value =>
    if c = '\x7d' then
      match (if digits = 0 then none else charOfCode? value) with
      | some u => .goOn .plain [u]
      | none => .refuse
    else
      match hexValue? c with
      | some h => if digits < 6 then .goOn (.code (digits + 1) (16 * value + h)) [] else .refuse
      | none => .refuse

/-- A text up to its closing quote, and what follows it. -/
def readQuotedFrom (binary : Bool) (quote : Char) :
    Mode → List Char → Option (List Char × List Char)
  | _, [] => none
  | mode, c :: cs =>
    match step binary quote mode c with
    | .refuse => none
    | .close => some ([], cs)
    | .goOn mode add =>
      (readQuotedFrom binary quote mode cs).map fun r => (add ++ r.1, r.2)

/-- A text behind its opening quote. -/
def readQuoted (cs : List Char) : Option (List Char × List Char) :=
  readQuotedFrom false '"' .plain cs

/-- A character behind its opening quote. -/
def readCharacter (binary : Bool) : List Char → Option (List Char × List Char)
  | '\\' :: cs =>
    (readQuotedFrom binary '\x27' .escape cs).filter fun r => r.1.length == 1
  | c :: '\x27' :: cs => some ([c], cs)
  | _ => none

/-- A text up to a quote with `hashes` hash marks behind it. -/
def readRawUntil (hashes : Nat) : List Char → Option (List Char × List Char)
  | [] => none
  | c :: cs =>
    if c = '"' ∧ (List.replicate hashes '#').isPrefixOf cs then some ([], cs.drop hashes)
    else (readRawUntil hashes cs).map fun r => (c :: r.1, r.2)

/-- A text without escapes, behind the letter that marks it. -/
def readRaw (cs : List Char) : Option (List Char × List Char) :=
  let hashes := (cs.takeWhile (· == '#')).length
  match cs.drop hashes with
  | '"' :: rest => readRawUntil hashes rest
  | _ => none

/-! ## Words -/

/-- A word: its characters, whether it was marked as raw, and what follows it. A plain word that
raw characters continue is refused. -/
def readWord : List Char → Option (List Char × Bool × List Char)
  | 'r' :: '#' :: cs =>
    let w := cs.takeWhile isRawPart
    if w.isEmpty then none else some (w, true, cs.drop w.length)
  | c :: cs =>
    if isWordStart c then
      let w := c :: cs.takeWhile isWordPart
      let rest := (c :: cs).drop w.length
      match rest.head? with
      | some d => if isRawPart d then none else some (w, false, rest)
      | none => some (w, false, rest)
    else none
  | [] => none

/-! ## Numbers -/

/-- A character of a whole number in any base. -/
def isWholePart (c : Char) : Bool := (hexValue? c).isSome || c == '_'

/-- A character of a number with a point or an exponent. -/
def isDecimalPart (c : Char) : Bool :=
  c.isDigit || c == 'e' || c == 'E' || c == '.' || c == '+' || c == '-' || c == '_'

/-- The number of digits of a base; underscores between them do not count. -/
def readDigits (base : Nat) (n : Nat) : List Char → Option Nat
  | [] => some n
  | '_' :: cs => readDigits base n cs
  | c :: cs => (hexValue? c).bind fun h =>
      if h < base then readDigits base (n * base + h) cs else none

/-- The base that digits are written in, and the digits. -/
def readBase : List Char → Nat × List Char
  | '0' :: 'b' :: cs => (2, cs)
  | '0' :: 'o' :: cs => (8, cs)
  | '0' :: 'x' :: cs => (16, cs)
  | cs => (10, cs)

/-- The names of types that may stand behind a whole number. -/
def wholeTypes : List String :=
  ["i8", "i16", "i32", "i64", "i128", "u8", "u16", "u32", "u64", "u128"]

/-- The name of a type behind a number, and what follows it. -/
def readSuffix (names : List String) (cs : List Char) : String × List Char :=
  let w := cs.takeWhile isWordPart
  if names.any fun n => n.toList == w then (String.ofList w, cs.drop w.length) else ("", cs)

/-- A whole number behind its sign. -/
def readWhole (negative : Bool) (cs : List Char) : Option (Numeral × List Char) :=
  let (base, cs) := readBase cs
  let digits := cs.takeWhile isWholePart
  if digits.isEmpty ∨ digits.head? = some '_' then none
  else
    (readDigits base 0 digits).map fun n =>
      let (suffix, rest) := readSuffix wholeTypes (cs.drop digits.length)
      (⟨negative, n, suffix⟩, rest)

/-- The text is a number with an optional point and exponent. -/
def isDecimal (cs : List Char) : Bool :=
  let cs := match cs with
    | '+' :: r | '-' :: r => r
    | _ => cs
  let whole := cs.takeWhile Char.isDigit
  let rest := cs.drop whole.length
  let (part, rest) := match rest with
    | '.' :: r => (r.takeWhile Char.isDigit, r.dropWhile Char.isDigit)
    | _ => ([], rest)
  !(whole.isEmpty && part.isEmpty) &&
    match rest with
    | [] => true
    | e :: r =>
      (e == 'e' || e == 'E') &&
        (let r := match r with
          | '+' :: t | '-' :: t => t
          | _ => r
        !r.isEmpty && r.all Char.isDigit)

/-- A number with a point or an exponent. -/
def readDecimal (cs : List Char) : Option (List Char × List Char) :=
  let written := cs.takeWhile isDecimalPart
  if written.head? = some '_' ∨ !isDecimal (written.filter (· ≠ '_')) then none
  else some (written, (readSuffix ["f32", "f64"] (cs.drop written.length)).2)

/-- Text is behind its sign, if it has one. -/
def splitSign : List Char → Bool × List Char
  | '-' :: cs => (true, cs)
  | '+' :: cs => (false, cs)
  | cs => (false, cs)

/-- The word of a number that is not finite, and what follows it. -/
def readUnbounded (cs : List Char) : Option (List Char) :=
  let w := cs.takeWhile isWordPart
  if ["inf", "NaN", "inff32", "inff64", "NaNf32", "NaNf64"].any fun n => n.toList == w then
    some (cs.drop w.length)
  else none

/-- A number, and what follows it. -/
def readNumber (cs : List Char) : Option (Value × List Char) :=
  let (negative, body) := splitSign cs
  match readUnbounded body with
  | some rest => some (.decimal "inf", rest)
  | none =>
    -- a point or the sign of an exponent goes on where a whole number ends
    if (body.takeWhile isWholePart).length < (body.takeWhile isDecimalPart).length then
      (readDecimal cs).map fun r => (.decimal (String.ofList r.1), r.2)
    else (readWhole negative body).map fun r => (.number r.1, r.2)

end Decompile.Ron
