/-!
# Decimal numbers as text

- `decimal`: a natural number in base ten; `decimalPadded`: with leading zeros.
- `readDecimal?`: a text of digits as a number; `readCount?`: the same below a bound, a leading
  plus sign allowed.
- `padEnd`, `padStart`: texts in a column of given width, counted in characters.
- `tenTo`: the powers of ten.
-/

namespace Decompile.Text

/-- Ten to a power. -/
def tenTo (n : Nat) : Nat := Nat.pow 10 n

/-- A number in base ten, without leading zeros. -/
def decimal (n : Nat) : List Char := Nat.toDigits 10 n

/-- The text behind as many copies of `c` as it needs to be `width` characters long. -/
def padStart (width : Nat) (c : Char) (cs : List Char) : List Char :=
  List.replicate (width - cs.length) c ++ cs

/-- The text before as many blanks as it needs to be `width` characters long. -/
def padEnd (width : Nat) (cs : List Char) : List Char :=
  cs ++ List.replicate (width - cs.length) ' '

/-- A number in base ten with leading zeros up to `width` digits. -/
def decimalPadded (width n : Nat) : List Char := padStart width '0' (decimal n)

/-- The value of a digit of base ten. -/
def digit? (c : Char) : Option Nat := if c.isDigit then some (c.toNat - 48) else none

/-- The number that continues `n` by the given digits. -/
def readDigitsFrom (n : Nat) : List Char → Option Nat
  | [] => some n
  | c :: cs => (digit? c).bind fun d => readDigitsFrom (n * 10 + d) cs

/-- A text of one or more digits as a number. -/
def readDecimal? (cs : List Char) : Option Nat :=
  if cs.isEmpty then none else readDigitsFrom 0 cs

/-- A text of digits, after at most one plus sign, as a number below `bound`. -/
def readCount? (bound : Nat) (cs : List Char) : Option Nat :=
  let digits := match cs with
    | '+' :: rest => rest
    | _ => cs
  (readDecimal? digits).filter (· < bound)

@[simp] theorem length_padEnd (width : Nat) (cs : List Char) :
    (padEnd width cs).length = max width cs.length := by
  simp [padEnd]; omega

@[simp] theorem length_padStart (width : Nat) (c : Char) (cs : List Char) :
    (padStart width c cs).length = max width cs.length := by
  simp [padStart]; omega

end Decompile.Text
