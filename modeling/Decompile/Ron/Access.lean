import Decompile.Ron.Reader

/-!
# Taking values apart

What a typed reader asks of a `Value`: the fields of a structure, a text, a truth value, the case of
an enumeration, a number of some type, a list, an optional value.
-/

namespace Decompile.Ron

/-- The name that is written, if any, is that of the type `name`. -/
def isNamed (e : Extensions) (name : String) : Option String → Bool
  | some n => n == name
  | none => !e.structNames

/-- The fields of a structure of the type `name`. -/
def Value.asFields (e : Extensions) (name : String) : Value → Option (List (String × Value))
  | .fields given fs => if isNamed e name given then some fs else none
  | .tuple given [] => if isNamed e name given then some [] else none
  | _ => none

/-- None of the names is given twice. -/
def givenOnce (names : List String) (fs : List (String × Value)) : Bool :=
  names.all fun n => (fs.filter fun f => f.1 == n).length ≤ 1

/-- The value of a field. -/
def field? (name : String) (fs : List (String × Value)) : Option Value :=
  (fs.find? fun f => f.1 == name).map Prod.snd

/-- The text that a value is. -/
def Value.asText : Value → Option String
  | .text s => some s
  | _ => none

/-- The truth value that a value is. -/
def Value.asBool : Value → Option Bool
  | .bool b => some b
  | _ => none

/-- The case of an enumeration that a value is. -/
def Value.asWord {α : Type} (read : String → Option α) : Value → Option α
  | .word w => read w
  | _ => none

/-- The natural number of the type `type`, below `bound`, that a value is. A byte between quotes
is a number of the type of bytes. -/
def Value.asNat (type : String) (bound : Nat) : Value → Option Nat
  | .number n =>
    if (n.suffix = "" ∨ n.suffix = type ∨ (n.suffix = "byte" ∧ type = "u8"))
        ∧ (!n.negative ∨ n.magnitude = 0) ∧ n.magnitude < bound then some n.magnitude
    else none
  | _ => none

/-- The list that a value is. -/
def Value.asList : Value → Option (List Value)
  | .list vs => some vs
  | _ => none

/-- The optional value that a value is. -/
def Value.asOption (e : Extensions) : Value → Option (Option Value)
  | .option v => some v
  | v => if e.implicitSome then some (some v) else none

end Decompile.Ron
