import Decompile.Text.Decimal

/-!
# Floating-point numbers as text

A finite double is a whole number of units `2 ^ q`; both forms below work on that number exactly.

- `Binary.ofFloat`: sign, whole number and exponent of a finite double.
- `roundedQuotient`: division to the nearest whole number, ties to the even one.
- `fixed`: a number with a fixed count of places.
- `shortest`: the fewest digits that read back as the same double.
-/

namespace Decompile.Text

/-- Two to a power. -/
def twoTo (n : Nat) : Nat := Nat.pow 2 n

/-- A finite double: `(-1) ^ negative * units * 2 ^ exponent`. -/
structure Binary where
  /-- The sign is minus. -/
  negative : Bool
  /-- The magnitude in units. -/
  units : Nat
  /-- The unit is two to this power. -/
  exponent : Int
  deriving DecidableEq, Repr

/-- The parts of a double; `none` for infinities and for what is no number. -/
def Binary.ofFloat (x : Float) : Option Binary :=
  let bits := x.toBits.toNat
  let negative := decide (twoTo 63 ≤ bits)
  let raw : Nat := bits / twoTo 52 % twoTo 11
  let fraction : Nat := bits % twoTo 52
  if raw = twoTo 11 - 1 then none
  else if raw = 0 then some ⟨negative, fraction, -1074⟩
  else some ⟨negative, fraction + twoTo 52, (raw : Int) - 1075⟩

/-- `num / den` rounded to the nearest whole number; a half goes to the even neighbour. -/
def roundedQuotient (num den : Nat) : Nat :=
  let q := num / den
  let r := num % den
  if 2 * r < den then q
  else if den < 2 * r then q + 1
  else if q % 2 = 0 then q
  else q + 1

/-- Numerator and denominator of `units * 2 ^ exponent`. -/
def Binary.ratio (b : Binary) : Nat × Nat :=
  if 0 ≤ b.exponent then (b.units * twoTo b.exponent.toNat, 1)
  else (b.units, twoTo (-b.exponent).toNat)

/-- The texts of numbers that are not finite. -/
def notFinite (x : Float) : List Char :=
  if x.isNaN then "NaN".toList
  else if x < 0 then "-inf".toList
  else "inf".toList

/-- A number with `places` decimal places, at least one. The exact value is rounded once. -/
def fixed (places : Nat) (x : Float) : List Char :=
  match Binary.ofFloat x with
  | none => notFinite x
  | some b =>
    let (num, den) := b.ratio
    let scaled := roundedQuotient (num * tenTo places) den
    (if b.negative then ['-'] else []) ++ decimal (scaled / tenTo places) ++
      '.' :: decimalPadded places (scaled % tenTo places)

/-! ## Shortest digits -/

/-- The numbers that round to a double, in units of a quarter of its own unit: the double is
`4 * units`, the bounds are half way to its neighbours. -/
structure Interval where
  /-- Half way to the next smaller double. -/
  low : Nat
  /-- The double itself. -/
  mid : Nat
  /-- Half way to the next greater double. -/
  high : Nat
  /-- The bounds themselves round to the double. -/
  closed : Bool

/-- The numbers that round to `b`. The gap below a power of two is half as wide. -/
def Binary.interval (b : Binary) : Interval :=
  let narrow := b.units = twoTo 52 && b.exponent ≠ -1074
  ⟨4 * b.units - (if narrow then 1 else 2), 4 * b.units, 4 * b.units + 2, b.units % 2 = 0⟩

/-- `n * num / den` lies in the interval. -/
def Interval.contains (i : Interval) (num den n : Nat) : Bool :=
  if i.closed then i.low * den ≤ n * num && n * num ≤ i.high * den
  else i.low * den < n * num && n * num < i.high * den

/-- Steps of a decimal grid: `10 ^ k` is `num / den` quarters of a unit. -/
def gridStep (exponent k : Int) : Nat × Nat :=
  let tens := if 0 ≤ k then (tenTo k.toNat, 1) else (1, tenTo (-k).toNat)
  let twos := if 0 ≤ exponent - 2 then (1, twoTo (exponent - 2).toNat)
    else (twoTo (2 - exponent).toNat, 1)
  (tens.1 * twos.1, tens.2 * twos.2)

/-- The point of the grid `10 ^ k` nearest to the double, if one of its two neighbours there
reads back. -/
def gridPoint? (b : Binary) (k : Int) : Option Nat :=
  let i := b.interval
  let (num, den) := gridStep b.exponent k
  let below := i.mid * den / num
  let above := below + 1
  let fits := i.contains num den
  match fits below && below ≠ 0, fits above with
  | true, true =>
    let down := i.mid * den - below * num
    let up := above * num - i.mid * den
    if down < up then some below
    else if up < down then some above
    else if below % 2 = 0 then some below else some above
  | true, false => some below
  | false, true => some above
  | false, false => none

/-- The coarsest of the grids `10 ^ k`, `10 ^ (k - 1)`, … with a point that reads back. -/
def coarsestPoint (b : Binary) : Nat → Int → Nat × Int
  | 0, k => (b.units, k)
  | fuel + 1, k =>
    match gridPoint? b k with
    | some n => (n, k)
    | none => coarsestPoint b fuel (k - 1)

/-- The digits without the zeros they end with, and how many those were. -/
def dropZeros (digits : List Char) : List Char × Nat :=
  let kept := (digits.reverse.dropWhile (· == '0')).reverse
  (kept, digits.length - kept.length)

/-- The fewest digits and the power of ten of the last of them. -/
def Binary.shortestDigits (b : Binary) : List Char × Int :=
  -- every finite double is below 10 ^ 309, and 5 * 10 ^ -324 is the least above zero
  let (n, k) := coarsestPoint b 660 310
  let (digits, zeros) := dropZeros (decimal n)
  (digits, k + zeros)

/-- Digits as a number: positional from `10 ^ -5` to below `10 ^ 16`, always with a point; else
with the first digit before the point and an exponent. -/
def placeDigits (digits : List Char) (last : Int) : List Char :=
  let len : Int := digits.length
  let point := len + last
  if 0 ≤ last && point ≤ 16 then
    digits ++ List.replicate last.toNat '0' ++ ".0".toList
  else if 0 < point && point ≤ 16 then
    digits.take point.toNat ++ '.' :: digits.drop point.toNat
  else if -5 < point && point ≤ 0 then
    "0.".toList ++ List.replicate (-point).toNat '0' ++ digits
  else
    let e := point - 1
    let mantissa := match digits with
      | [] => []
      | [d] => [d]
      | d :: rest => d :: '.' :: rest
    mantissa ++ 'e' :: (if e < 0 then '-' :: decimal (-e).toNat else decimal e.toNat)

/-- The shortest text that reads back as the double. -/
def shortest (x : Float) : List Char :=
  match Binary.ofFloat x with
  | none => notFinite x
  | some b =>
    (if b.negative then ['-'] else []) ++
      if b.units = 0 then "0.0".toList
      else
        let (digits, last) := b.shortestDigits
        placeDigits digits last

end Decompile.Text
