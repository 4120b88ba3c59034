import Decompile.Text.Property.GraphemeExtend
import Decompile.Text.Property.Unprintable

/-!
# Quoted text

A text between double quotes with every character that would not show as itself written as an
escape: `\0 \t \r \n \\ \"`, and `\u` with the hexadecimal code point between braces for what is
not printable or joins the character before it. A style says whether the apostrophe is escaped too.

- `escapeChar`: the escaped form of one character.
- `quote`: a text between its quotes.
-/

namespace Decompile.Text

/-- Membership in a list of closed ranges. -/
def inRanges (ranges : List (Nat × Nat)) (n : Nat) : Bool :=
  ranges.any fun r => r.1 ≤ n && n ≤ r.2

/-- The character has a printed form of its own. -/
def isPrintable (c : Char) : Bool :=
  if c.toNat < 0x7F then 0x20 ≤ c.toNat
  else !inRanges Property.unprintable c.toNat

/-- The character joins the one before it. -/
def isGraphemeExtend (c : Char) : Bool :=
  if c.toNat < 0x300 then false else inRanges Property.graphemeExtend c.toNat

/-- The digits of a number in base 16, small letters, without leading zeros. -/
def hexDigits (n : Nat) : List Char := Nat.toDigits 16 n

/-- Which marks are escaped besides the double quote and the backslash. -/
structure QuoteStyle where
  /-- An apostrophe is written with a backslash. -/
  escapesApostrophe : Bool
  deriving DecidableEq, Repr

/-- The style of texts shown to people. -/
def QuoteStyle.plain : QuoteStyle := ⟨false⟩

/-- The style of texts in stored files. -/
def QuoteStyle.strict : QuoteStyle := ⟨true⟩

/-- The character has to be written by its code point. -/
def needsCodePoint (c : Char) : Bool := isGraphemeExtend c || !isPrintable c

/-- One character between the quotes. -/
def escapeChar (style : QuoteStyle) (c : Char) : List Char :=
  if c = '\x00' then ['\\', '0']
  else if c = '\t' then ['\\', 't']
  else if c = '\r' then ['\\', 'r']
  else if c = '\n' then ['\\', 'n']
  else if c = '\\' then ['\\', '\\']
  else if c = '"' then ['\\', '"']
  else if c = '\x27' then if style.escapesApostrophe then ['\\', c] else [c]
  else if needsCodePoint c then
    ['\\', 'u', '\x7b'] ++ hexDigits c.toNat ++ ['\x7d']
  else [c]

/-- A text between double quotes. -/
def quoteChars (style : QuoteStyle) (cs : List Char) : List Char :=
  '"' :: (cs.flatMap (escapeChar style) ++ ['"'])

/-- A text between double quotes. -/
def quote (style : QuoteStyle) (s : String) : String := String.ofList (quoteChars style s.toList)

end Decompile.Text
