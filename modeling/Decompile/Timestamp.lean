import Decompile.Text.Ascii
import Decompile.Text.Blank
import Decompile.Text.Decimal

/-!
# Points in time

Dates and times of day in UTC, written as in RFC 3339.

- `Date`, `Timestamp`: a day of the calendar, and a time of that day down to nanoseconds. A
  minute may have a second 60.
- `Timestamp.ofEpoch`: the time that a clock of seconds shows.
- `Timestamp.render`: the written form; the fraction has 0, 3, 6 or 9 digits.
- `Timestamp.read?`: reads the written form, and forms with another offset, which is taken off.
-/

namespace Decompile

/-- A year with a 29th of February. -/
def isLeapYear (year : Int) : Bool :=
  year % 4 == 0 && (year % 100 != 0 || year % 400 == 0)

/-- How many days a month has. -/
def daysInMonth (year : Int) (month : Nat) : Nat :=
  if month = 2 then if isLeapYear year then 29 else 28
  else if month = 4 ∨ month = 6 ∨ month = 9 ∨ month = 11 then 30
  else 31

/-- A month and a day that the year has. -/
def isDay (year : Int) (month day : Nat) : Bool :=
  1 ≤ month && month ≤ 12 && 1 ≤ day && day ≤ daysInMonth year month

/-- A day of the calendar. -/
structure Date where
  year : Int
  month : Nat
  day : Nat
  isDay : isDay year month day = true
  deriving DecidableEq, Repr

/-- The day of these numbers, if there is one. -/
def Date.ofNumbers? (year : Int) (month day : Nat) : Option Date :=
  if h : Decompile.isDay year month day = true then some ⟨year, month, day, h⟩ else none

/-- The day after. -/
def Date.next? (d : Date) : Option Date :=
  (ofNumbers? d.year d.month (d.day + 1)).or
    ((ofNumbers? d.year (d.month + 1) 1).or (ofNumbers? (d.year + 1) 1 1))

/-- The day before. -/
def Date.previous? (d : Date) : Option Date :=
  (ofNumbers? d.year d.month (d.day - 1)).or
    ((ofNumbers? d.year (d.month - 1) (daysInMonth d.year (d.month - 1))).or
      (ofNumbers? (d.year - 1) 12 31))

/-- The day so many days later. -/
def Date.later (d : Date) : Nat → Date
  | 0 => d
  | n + 1 => (d.next?.getD d).later n

/-- The day from which seconds are counted. -/
def Date.epoch : Date := ⟨1970, 1, 1, by decide⟩

/-- A point in time, in UTC. -/
structure Timestamp where
  date : Date
  hour : Fin 24
  minute : Fin 60
  second : Fin 61
  nanos : Fin 1000000000
  deriving DecidableEq, Repr

namespace Timestamp

/-- The point in time so many seconds and nanoseconds after the start of the epoch. -/
def ofEpoch (seconds nanos : Nat) : Timestamp where
  date := Date.epoch.later (seconds / 86400)
  hour := Fin.ofNat 24 (seconds / 3600)
  minute := Fin.ofNat 60 (seconds / 60)
  second := Fin.ofNat 61 (seconds % 60)
  nanos := Fin.ofNat 1000000000 nanos

/-- The years that a date may lie in. -/
def yearInRange (year : Int) : Bool := -262143 ≤ year && year ≤ 262142

/-! ## Writing -/

/-- A year: four digits, or a sign and five or more. -/
def renderYear (year : Int) : List Char :=
  if 0 ≤ year ∧ year ≤ 9999 then Text.decimalPadded 4 year.toNat
  else (if year < 0 then '-' else '+') :: Text.decimalPadded 4 year.natAbs

/-- A fraction of a second in groups of three digits, the last group that is not zero last. -/
def renderFraction (nanos : Nat) : List Char :=
  if nanos = 0 then []
  else if nanos % 1000000 = 0 then '.' :: Text.decimalPadded 3 (nanos / 1000000)
  else if nanos % 1000 = 0 then '.' :: Text.decimalPadded 6 (nanos / 1000)
  else '.' :: Text.decimalPadded 9 nanos

/-- The written form. -/
def render (t : Timestamp) : List Char :=
  renderYear t.date.year ++ '-' :: Text.decimalPadded 2 t.date.month
    ++ '-' :: Text.decimalPadded 2 t.date.day ++ 'T' :: Text.decimalPadded 2 t.hour.val
    ++ ':' :: Text.decimalPadded 2 t.minute.val ++ ':' :: Text.decimalPadded 2 t.second.val
    ++ renderFraction t.nanos.val ++ ['Z']

/-! ## Reading -/

/-- A number of at least one and at most `width` digits, after blanks. -/
def readNumber (width : Nat) (cs : List Char) : Option (Nat × List Char) :=
  let cs := Text.trimStart cs
  let digits := (cs.takeWhile Char.isDigit).take width
  (Text.readDecimal? digits).map fun n => (n, cs.drop digits.length)

/-- A year: up to four digits, or a sign and any number of digits. -/
def readYear (cs : List Char) : Option (Int × List Char) :=
  match Text.trimStart cs with
  | '-' :: rest =>
    if rest.head?.any Char.isDigit then
      (readNumber rest.length rest).map fun r => (-(r.1 : Int), r.2)
    else none
  | '+' :: rest =>
    if rest.head?.any Char.isDigit then
      (readNumber rest.length rest).map fun r => ((r.1 : Int), r.2)
    else none
  | rest => (readNumber 4 rest).map fun r => ((r.1 : Int), r.2)

/-- What follows the character `c`, blanks before it passed over. -/
def readMark (c : Char) (cs : List Char) : Option (List Char) :=
  match Text.trimStart cs with
  | d :: rest => if c = d then some rest else none
  | [] => none

/-- The nanoseconds of a fraction; digits after the ninth are dropped. -/
def readFraction : List Char → Option (Nat × List Char)
  | '.' :: cs =>
    let digits := cs.takeWhile Char.isDigit
    let kept := digits.take 9
    (Text.readDecimal? kept).map fun n => (n * Text.tenTo (9 - kept.length), cs.drop digits.length)
  | cs => some (0, cs)

/-- Two digits. -/
def readPair : List Char → Option (Nat × List Char)
  | a :: b :: rest => do
    let x ← Text.digit? a
    let y ← Text.digit? b
    return (10 * x + y, rest)
  | _ => none

/-- An offset from UTC in minutes. -/
def readOffset (cs : List Char) : Option (Int × List Char) :=
  match Text.dropLeadIgnoringCase? "UTC".toList cs with
  | some rest => some (0, rest)
  | none =>
    match cs with
    | 'Z' :: rest | 'z' :: rest => some (0, rest)
    | sign :: rest => do
      let negative ←
        if sign = '+' then some false
        else if sign = '-' ∨ sign.toNat = 0x2212 then some true
        else none
      let (hours, rest) ← readPair rest
      let rest := rest.dropWhile fun c => c == ':' || Text.isBlank c
      let (minutes, rest) ← readPair rest
      if 60 ≤ minutes ∨ 24 ≤ hours then none
      else
        let n : Int := 60 * hours + minutes
        return (if negative then -n else n, rest)
    | [] => none

/-- The point in time of a local date and time whose clock is `offset` minutes ahead of UTC. -/
def ofLocal? (date : Date) (hour minute second nanos : Nat) (offset : Int) : Option Timestamp := do
  let minutes : Int := 60 * hour + minute - offset
  -- an offset is less than a day, so at most one midnight is passed
  let date ←
    if minutes < 0 then date.previous?
    else if 1440 ≤ minutes then date.next?
    else some date
  let inDay := (minutes % 1440).toNat
  if h : inDay / 60 < 24 ∧ inDay % 60 < 60 ∧ second < 61 ∧ nanos < 1000000000 then
    return ⟨date, ⟨inDay / 60, h.1⟩, ⟨inDay % 60, h.2.1⟩, ⟨second, h.2.2.1⟩, ⟨nanos, h.2.2.2⟩⟩
  else none

/-- The point in time that a text gives. -/
def read? (cs : List Char) : Option Timestamp := do
  let (year, cs) ← readYear cs
  let cs ← readMark '-' cs
  let (month, cs) ← readNumber 2 cs
  let cs ← readMark '-' cs
  let (day, cs) ← readNumber 2 cs
  let cs ← match cs with
    | 'T' :: rest | 't' :: rest | ' ' :: rest => some rest
    | _ => none
  let (hour, cs) ← readNumber 2 cs
  let cs ← readMark ':' cs
  let (minute, cs) ← readNumber 2 cs
  let cs ← readMark ':' cs
  let (second, cs) ← readNumber 2 cs
  let (nanos, cs) ← readFraction cs
  let (offset, cs) ← readOffset (Text.trimStart cs)
  if !(Text.trimStart cs).isEmpty ∨ !yearInRange year ∨ 24 ≤ hour ∨ 60 ≤ minute then none
  else
    let date ← Date.ofNumbers? year month day
    ofLocal? date hour minute second nanos offset

end Timestamp

end Decompile
