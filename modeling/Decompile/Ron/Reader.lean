import Decompile.Ron.Scan
import Decompile.Text.Ascii

/-!
# Reading the object notation

`read` turns a text into the `Value` it says, or refuses it. The values of a text form a tree that
may be at most `nestingLimit` deep.

A text may open with lines `#![enable(…)]` that name extensions; `Extensions` records those that
change how a value is understood.
-/

namespace Decompile.Ron

/-- Extensions that a text asks for. -/
structure Extensions where
  /-- A value may stand where an optional one is due, without `Some`. -/
  implicitSome : Bool
  /-- Structures must be written with their names. -/
  structNames : Bool
  deriving DecidableEq, Repr

/-- How deep values may stand inside each other. -/
def nestingLimit : Nat := 128

/-- What follows the character `c` and the gap behind it. -/
def expect (c : Char) : List Char → Option (List Char)
  | d :: cs => if c = d then skip cs else none
  | [] => none

/-- After a value in a sequence: the next one, or the end. -/
def readSeparator (close : Char) (cs : List Char) : Option (Bool × List Char) := do
  let cs ← skip cs
  match cs with
  | ',' :: rest => return (true, ← skip rest)
  | c :: _ => if c = close then return (false, cs) else none
  | [] => none

/-- The text starts with a word and a colon, so named fields follow. -/
def startsField (cs : List Char) : Bool :=
  match readWord cs with
  | some (_, _, rest) =>
    match skip rest with
    | some (':' :: _) => true
    | _ => false
  | none => false

mutual

/-- The value at the front of a text. `depth` levels may still open, and `fuel` bounds the calls. -/
def readValue : (fuel depth : Nat) → List Char → Option (Value × List Char)
  | 0, _, _ => none
  | _ + 1, _, [] => none
  | fuel + 1, depth, c :: cs =>
    if c = '"' then (readQuoted cs).map fun r => (.text (String.ofList r.1), r.2)
    else if c = '\x27' then
      (readCharacter false cs).map fun r => (.raw (String.ofList r.1), r.2)
    else if c = '[' then do
      let (vs, rest) ← readItems fuel depth ']' (← skip cs)
      return (.list vs, rest)
    else if c = '\x7b' then do
      let (es, rest) ← readEntries fuel depth (← skip cs)
      return (.map es, rest)
    else if c = '(' then readParens fuel depth none cs
    else if c.isDigit || c == '+' || c == '-' || c == '.' then readNumber (c :: cs)
    else
      match c, cs with
      -- texts without escapes
      | 'r', '"' :: _ => (readRaw cs).map fun r => (.text (String.ofList r.1), r.2)
      | 'r', '#' :: '"' :: _ => (readRaw cs).map fun r => (.text (String.ofList r.1), r.2)
      | 'r', '#' :: '#' :: _ => (readRaw cs).map fun r => (.text (String.ofList r.1), r.2)
      -- bytes, and a single byte
      | 'b', '"' :: rest =>
        (readQuotedFrom true '"' .plain rest).map fun r => (.raw (String.ofList r.1), r.2)
      | 'b', '\x27' :: rest =>
        (readCharacter true rest).map fun r =>
          (.number ⟨false, (r.1.head?.map Char.toNat).getD 0, "byte"⟩, r.2)
      | 'b', 'r' :: rest =>
        if rest.head? = some '"' ∨ rest.head? = some '#' then
          (readRaw rest).map fun r => (.raw (String.ofList r.1), r.2)
        else readNamed fuel depth (c :: cs)
      | _, _ => readNamed fuel depth (c :: cs)

/-- A value that starts with a word. -/
def readNamed : (fuel depth : Nat) → List Char → Option (Value × List Char)
  | 0, _, _ => none
  | fuel + 1, depth, cs =>
    match readUnbounded cs with
    | some rest => some (.decimal "inf", rest)
    | none => do
      let (w, isRaw, rest) ← readWord cs
      if !isRaw && w == "true".toList then return (.bool true, rest)
      else if !isRaw && w == "false".toList then return (.bool false, rest)
      else if !isRaw && w == "None".toList then return (.option none, rest)
      else if !isRaw && w == "Some".toList then
        let inner ← expect '(' (← skip rest)
        match depth with
        | 0 => none
        | depth + 1 =>
          let (v, rest) ← readValue fuel depth inner
          let rest ← skip rest
          let rest ← match rest with
            | ',' :: r => skip r
            | _ => some rest
          match rest with
          | ')' :: r => return (.option (some v), r)
          | _ => none
      else
        let name := String.ofList w
        match skip rest with
        | some ('(' :: inner) => readParens fuel depth (some name) inner
        | _ => return (.word name, rest)

/-- What stands behind an opening parenthesis. -/
def readParens : (fuel depth : Nat) → Option String → List Char → Option (Value × List Char)
  | 0, _, _, _ => none
  | fuel + 1, depth, name, cs => do
    let cs ← skip cs
    if startsField cs then
      let (fs, rest) ← readFields fuel depth cs
      return (.fields name fs, rest)
    else
      let (vs, rest) ← readItems fuel depth ')' cs
      return (.tuple name vs, rest)

/-- Values up to the closing mark, with commas between them. -/
def readItems : (fuel depth : Nat) → Char → List Char → Option (List Value × List Char)
  | 0, _, _, _ => none
  | _ + 1, 0, close, cs =>
    match cs with
    | c :: rest => if c = close then some ([], rest) else none
    | [] => none
  | fuel + 1, depth + 1, close, cs => do
    if cs.head? = some close then return ([], cs.drop 1)
    let (v, rest) ← readValue fuel depth cs
    let (more, rest) ← readSeparator close rest
    if more then
      let (vs, rest) ← readItems fuel (depth + 1) close rest
      return (v :: vs, rest)
    else return ([v], rest.drop 1)

/-- Keys and values up to the closing brace. -/
def readEntries : (fuel depth : Nat) → List Char → Option (List (Value × Value) × List Char)
  | 0, _, _ => none
  | _ + 1, 0, cs =>
    match cs with
    | '\x7d' :: rest => some ([], rest)
    | _ => none
  | fuel + 1, depth + 1, cs => do
    if cs.head? = some '\x7d' then return ([], cs.drop 1)
    let (k, rest) ← readValue fuel depth cs
    let rest ← expect ':' (← skip rest)
    let (v, rest) ← readValue fuel depth rest
    let (more, rest) ← readSeparator '\x7d' rest
    if more then
      let (es, rest) ← readEntries fuel (depth + 1) rest
      return ((k, v) :: es, rest)
    else return ([(k, v)], rest.drop 1)

/-- Named fields up to the closing parenthesis. -/
def readFields : (fuel depth : Nat) → List Char → Option (List (String × Value) × List Char)
  | 0, _, _ => none
  | _ + 1, 0, cs =>
    match cs with
    | ')' :: rest => some ([], rest)
    | _ => none
  | fuel + 1, depth + 1, cs => do
    if cs.head? = some ')' then return ([], cs.drop 1)
    let (w, _, rest) ← readWord cs
    let rest ← expect ':' (← skip rest)
    let (v, rest) ← readValue fuel depth rest
    let (more, rest) ← readSeparator ')' rest
    if more then
      let (fs, rest) ← readFields fuel (depth + 1) rest
      return ((String.ofList w, v) :: fs, rest)
    else return ([(String.ofList w, v)], rest.drop 1)

end

/-! ## Whole texts -/

/-- The names of extensions up to a closing parenthesis. -/
def readExtensions : (fuel : Nat) → Extensions → List Char → Option (Extensions × List Char)
  | 0, _, _ => none
  | fuel + 1, e, cs => do
    let (w, _, rest) ← readWord cs
    let e ←
      if w = "implicit_some".toList then some { e with implicitSome := true }
      else if w = "explicit_struct_names".toList then some { e with structNames := true }
      else if w = "unwrap_newtypes".toList ∨ w = "unwrap_variant_newtypes".toList then some e
      else none
    let (more, rest) ← readSeparator ')' rest
    if more && rest.head? ≠ some ')' then readExtensions fuel e rest
    else expect ')' rest |>.map fun r => (e, r)

/-- The lines at the start of a text that ask for extensions. -/
def readPrologue : (fuel : Nat) → Extensions → List Char → Option (Extensions × List Char)
  | 0, _, _ => none
  | fuel + 1, e, cs => do
    let cs ← skip cs
    match cs with
    | '#' :: rest =>
      let rest ← expect '!' (← skip rest)
      let rest ← expect '[' rest
      let rest ← (Text.dropLead? "enable".toList rest).bind skip
      let rest ← expect '(' rest
      let (e, rest) ← readExtensions fuel e rest
      let rest ← expect ']' rest
      readPrologue fuel e rest
    | _ => return (e, cs)

/-- What a text says, with the extensions it asks for. -/
def read (cs : List Char) : Option (Extensions × Value) := do
  let fuel := cs.length + 1
  let (e, cs) ← readPrologue fuel ⟨false, false⟩ cs
  let (v, rest) ← readValue (4 * fuel) nestingLimit cs
  let rest ← skip rest
  if rest.isEmpty then return (e, v) else none

end Decompile.Ron
