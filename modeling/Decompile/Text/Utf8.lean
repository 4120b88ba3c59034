/-!
# UTF-8

Texts as bytes and back. Reading is one pass of a small machine over the bytes, so that every
statement about a stream of bytes is an induction over the stream.

- `encode`: the bytes of a text.
- `scan`: the characters of a byte stream; a malformed sequence is `none`. What counts as one
  malformed sequence is the longest start of a well-formed one, or a single byte.
- `decode?`: the text of bytes that are well formed throughout.
- `decodeLossy`: every malformed sequence becomes U+FFFD.
-/

namespace Decompile.Text

/-- The bytes of a text in UTF-8. -/
def encodeChars (cs : List Char) : List UInt8 := cs.flatMap String.utf8EncodeChar

/-- The bytes of a text in UTF-8. -/
def encode (s : String) : List UInt8 := encodeChars s.toList

/-- A character of which the first bytes are read. -/
structure Started where
  /-- The bits of the code point so far. -/
  bits : Nat
  /-- How many more bytes the character has. -/
  left : Nat
  /-- The least next byte that can continue it. -/
  least : Nat
  /-- The greatest next byte that can continue it. -/
  most : Nat
  deriving DecidableEq, Repr

/-- Reads a byte at the start of a character. Bounds on the second byte keep out overlong
forms, surrogates and numbers above U+10FFFF. -/
def scanLead (b : UInt8) : List (Option Char) × Option Started :=
  let n := b.toNat
  if n < 0x80 then ([some (Char.ofNat n)], none)
  else if 0xC2 ≤ n && n ≤ 0xDF then ([], some ⟨n - 0xC0, 1, 0x80, 0xBF⟩)
  else if n == 0xE0 then ([], some ⟨0, 2, 0xA0, 0xBF⟩)
  else if n == 0xED then ([], some ⟨0xD, 2, 0x80, 0x9F⟩)
  else if 0xE1 ≤ n && n ≤ 0xEF then ([], some ⟨n - 0xE0, 2, 0x80, 0xBF⟩)
  else if n == 0xF0 then ([], some ⟨0, 3, 0x90, 0xBF⟩)
  else if 0xF1 ≤ n && n ≤ 0xF3 then ([], some ⟨n - 0xF0, 3, 0x80, 0xBF⟩)
  else if n == 0xF4 then ([], some ⟨4, 3, 0x80, 0x8F⟩)
  else ([none], none)

/-- Reads one byte. A byte that cannot continue the started character ends that one as
malformed and is read again as a first byte. -/
def scanByte (s : Option Started) (b : UInt8) : List (Option Char) × Option Started :=
  match s with
  | none => scanLead b
  | some p =>
    let n := b.toNat
    if p.least ≤ n && n ≤ p.most then
      let bits := p.bits * 64 + (n - 0x80)
      if p.left ≤ 1 then ([some (Char.ofNat bits)], none)
      else ([], some ⟨bits, p.left - 1, 0x80, 0xBF⟩)
    else
      -- only the bytes before this one are malformed
      let r := scanLead b
      (none :: r.1, r.2)

/-- The characters of a byte stream, read from inside the character `s`. -/
def scanFrom (s : Option Started) : List UInt8 → List (Option Char)
  | [] => if s.isSome then [none] else []
  | b :: bs => (scanByte s b).1 ++ scanFrom (scanByte s b).2 bs

/-- The characters of a byte stream, with `none` for each malformed sequence. -/
def scan (bs : List UInt8) : List (Option Char) := scanFrom none bs

/-- The character that stands for a malformed sequence. -/
def replacement : Char := Char.ofNat 0xFFFD

/-- The text of a byte stream, malformed sequences replaced. -/
def decodeLossy (bs : List UInt8) : List Char := (scan bs).map (·.getD replacement)

/-- The text of a byte stream that is well formed throughout. -/
def decode? (bs : List UInt8) : Option String := ((scan bs).mapM id).map String.ofList

end Decompile.Text
