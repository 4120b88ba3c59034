import Decompile.Archive.Bits
import Std.Data.HashMap

/-!
# Compressed bytes

The deflate format in two layers: bytes are a list of tokens (literal bytes, and copies of bytes
written before), and tokens are written with prefix codes.

- `Token`, `expand?`: tokens and the bytes they stand for.
- `tokenize`: bytes as tokens.
- `deflate`: tokens written with the fixed codes, or bytes stored plainly where that is shorter.
- `inflate`: reads stored, fixed and dynamic blocks.
-/

namespace Decompile.Archive

/-- A unit of compressed bytes. -/
inductive Token where
  /-- One byte. -/
  | literal (b : UInt8)
  /-- As many bytes again, from `distance` back. -/
  | copy (length distance : Nat)
  deriving DecidableEq, Repr

/-- Writes `n` bytes again that stand `distance` back in `out`, which holds the newest first. -/
def copyBack (distance : Nat) : Nat → List UInt8 → Option (List UInt8)
  | 0, out => some out
  | n + 1, out =>
    match out[distance - 1]? with
    | none => none
    | some b => copyBack distance n (b :: out)

/-- The bytes of some tokens after `out`, newest first. -/
def expandFrom (out : List UInt8) : List Token → Option (List UInt8)
  | [] => some out
  | .literal b :: ts => expandFrom (b :: out) ts
  | .copy n d :: ts =>
    match copyBack d n out with
    | none => none
    | some out => expandFrom out ts

/-- The bytes that tokens stand for; none where a copy reaches before the start. -/
def expand? (ts : List Token) : Option (List UInt8) := (expandFrom [] ts).map List.reverse

/-! ## Choosing tokens -/

/-- The greatest length of a copy. -/
def copyLimit : Nat := 258

/-- How far back a copy may start. -/
def reach : Nat := 32768

/-- How many bytes from `i` on are the same as those from `j` on, at most `limit`. -/
def matchLength (bytes : Array UInt8) (i j : Nat) : (limit : Nat) → Nat
  | 0 => 0
  | n + 1 =>
    match bytes[i]?, bytes[j]? with
    | some a, some b => if a = b then matchLength bytes (i + 1) (j + 1) n + 1 else 0
    | _, _ => 0

/-- The three bytes from `i` on as one number. -/
def tripleAt? (bytes : Array UInt8) (i : Nat) : Option UInt32 := do
  let a ← bytes[i]?
  let b ← bytes[i + 1]?
  let c ← bytes[i + 2]?
  return a.toUInt32 + 256 * (b.toUInt32 + 256 * c.toUInt32)

/-- Where each run of three bytes has begun so far, the last place first. -/
abbrev Index := Std.HashMap UInt32 (List Nat)

/-- The places up to `i` where the three bytes from `i` on have begun. -/
def Index.candidates (index : Index) (bytes : Array UInt8) (i : Nat) : List Nat :=
  match tripleAt? bytes i with
  | some k => index.getD k []
  | none => []

/-- The index with the three bytes from `i` on. -/
def Index.add (index : Index) (bytes : Array UInt8) (i : Nat) : Index :=
  match tripleAt? bytes i with
  | some k => index.insert k (i :: index.getD k [])
  | none => index

/-- The index with the places from `i` on, `n` of them. -/
def Index.addRange (index : Index) (bytes : Array UInt8) (i : Nat) : (n : Nat) → Index
  | 0 => index
  | n + 1 => (index.add bytes i).addRange bytes (i + 1) n

/-- The longest copy for the bytes from `pos` on that starts at one of the given places; of equally
long ones the nearest. The places come nearest first. Every copy is compared byte by byte, so what
is found does not rest on where the places come from. -/
def longestCopy (bytes : Array UInt8) (pos : Nat) (best : Nat × Nat) : List Nat → Nat × Nat
  | [] => best
  | i :: rest =>
    -- further places are even farther away
    if pos ≤ i ∨ reach < pos - i ∨ copyLimit ≤ best.1 then best
    else
      let length := matchLength bytes i pos copyLimit
      longestCopy bytes pos (if best.1 < length then (length, pos - i) else best) rest

/-- The copy to take for the bytes from `pos` on, if one is long enough to be worth it. -/
def findCopy (bytes : Array UInt8) (index : Index) (pos : Nat) : Option (Nat × Nat) :=
  let c := longestCopy bytes pos (0, 0) (index.candidates bytes pos)
  if c.1 < 3 ∨ (c.1 = 3 ∧ 4096 < c.2) then none else some c

/-- The tokens for the bytes from `pos` on, newest first on top of `ts`. A copy waits for a longer
one that starts a byte later. -/
def tokenizeFrom (bytes : Array UInt8) :
    (fuel : Nat) → Index → (pos : Nat) → List Token → List Token
  | 0, _, _, ts => ts
  | fuel + 1, index, pos, ts =>
    match bytes[pos]? with
    | none => ts
    | some b =>
      let here := findCopy bytes index pos
      let index := index.add bytes pos
      let literal (_ : Unit) := tokenizeFrom bytes fuel index (pos + 1) (.literal b :: ts)
      match here with
      | none => literal ()
      | some (length, distance) =>
        -- a longer copy from the next byte on is worth one literal
        if length < ((findCopy bytes index (pos + 1)).map Prod.fst).getD 0 then literal ()
        else
          tokenizeFrom bytes fuel (index.addRange bytes (pos + 1) (length - 1)) (pos + length)
            (.copy length distance :: ts)

/-- Tokens for some bytes. -/
def tokenize (bs : List UInt8) : List Token :=
  (tokenizeFrom bs.toArray bs.length ∅ 0 []).reverse

/-! ## Codes -/

/-- The least length of each length code and how many further bits it has, from code 257 on. -/
def lengthCodes : List (Nat × Nat) :=
  [(3, 0), (4, 0), (5, 0), (6, 0), (7, 0), (8, 0), (9, 0), (10, 0), (11, 1), (13, 1), (15, 1),
   (17, 1), (19, 2), (23, 2), (27, 2), (31, 2), (35, 3), (43, 3), (51, 3), (59, 3), (67, 4),
   (83, 4), (99, 4), (115, 4), (131, 5), (163, 5), (195, 5), (227, 5), (258, 0)]

/-- The least distance of each distance code and how many further bits it has. -/
def distanceCodes : List (Nat × Nat) :=
  [(1, 0), (2, 0), (3, 0), (4, 0), (5, 1), (7, 1), (9, 2), (13, 2), (17, 3), (25, 3), (33, 4),
   (49, 4), (65, 5), (97, 5), (129, 6), (193, 6), (257, 7), (385, 7), (513, 8), (769, 8),
   (1025, 9), (1537, 9), (2049, 10), (3073, 10), (4097, 11), (6145, 11), (8193, 12), (12289, 12),
   (16385, 13), (24577, 13)]

/-- The last code whose least value is not above `v`: its number, that value and its bits. -/
def codeFor (v : Nat) (codes : List (Nat × Nat)) : Nat × Nat × Nat :=
  (codes.zipIdx.foldl (fun best c => if c.1.1 ≤ v then (c.2, c.1.1, c.1.2) else best) (0, 0, 0))

/-- The `n` lowest bits of a code word, the greatest first. -/
def codeWord (n v : Nat) : List Bool := (bitsOfNat n v).reverse

/-- The fixed code of a literal, length or end symbol. -/
def fixedWord (symbol : Nat) : List Bool :=
  if symbol < 144 then codeWord 8 (0x30 + symbol)
  else if symbol < 256 then codeWord 9 (0x190 + (symbol - 144))
  else if symbol < 280 then codeWord 7 (symbol - 256)
  else codeWord 8 (0xC0 + (symbol - 280))

/-- A token in the fixed codes. -/
def fixedBits : Token → List Bool
  | .literal b => fixedWord b.toNat
  | .copy length distance =>
    let (l, least, extra) := codeFor length lengthCodes
    let (d, near, more) := codeFor distance distanceCodes
    fixedWord (257 + l) ++ bitsOfNat extra (length - least) ++ codeWord 5 d
      ++ bitsOfNat more (distance - near)

/-- The greatest number of bytes in one stored block. -/
def storedLimit : Nat := 65535

/-- Bytes in blocks without compression; the last block is marked. -/
def storedBlocks : (fuel : Nat) → List UInt8 → List UInt8
  | 0, _ => []
  | fuel + 1, bs =>
    let block := bs.take storedLimit
    let rest := bs.drop storedLimit
    let n := block.length
    UInt8.ofNat (if rest.isEmpty then 1 else 0)
      :: littleEndian 2 n ++ littleEndian 2 (65535 - n) ++ block
      ++ (if rest.isEmpty then [] else storedBlocks fuel rest)

/-- One block in the fixed codes. -/
def fixedBlock (ts : List Token) : List UInt8 :=
  bytesOfBits ([true, true, false] ++ ts.flatMap fixedBits ++ fixedWord 256)

/-- Bytes in the deflate format. -/
def deflate (bs : List UInt8) : List UInt8 :=
  let coded := fixedBlock (tokenize bs)
  if bs.length + 4 ≤ coded.length then storedBlocks (bs.length + 1) bs else coded

/-! ## Reading -/

/-- A prefix code: how many words of each length there are, from length 1 on, and the symbols in
the order of their words. -/
structure PrefixCode where
  counts : List Nat
  symbols : List Nat

/-- The prefix code in which symbol `i` has a word of the length `lengths[i]`, none for zero. -/
def PrefixCode.ofLengths (lengths : List Nat) : PrefixCode :=
  let ls := List.range' 1 15
  ⟨ls.map fun l => lengths.count l,
    ls.flatMap fun l => (lengths.zipIdx.filter fun x => x.1 = l).map Prod.snd⟩

/-- Reads one word: `code` is the word so far, `first` the first word of this length and `index`
the number of shorter words. -/
def readWord (symbols : List Nat) (code first index : Nat) :
    List Nat → List Bool → Option (Nat × List Bool)
  | [], _ => none
  | _, [] => none
  | count :: counts, b :: bits =>
    let code := code + if b then 1 else 0
    if code < first + count then (symbols[index + (code - first)]?).map fun s => (s, bits)
    else readWord symbols (2 * code) (2 * (first + count)) (index + count) counts bits

/-- The symbol whose word the bits start with. -/
def PrefixCode.read (c : PrefixCode) (bits : List Bool) : Option (Nat × List Bool) :=
  readWord c.symbols 0 0 0 c.counts bits

/-- A value given by its code and the further bits after it. -/
def readValue (codes : List (Nat × Nat)) (code : Nat) (bits : List Bool) :
    Option (Nat × List Bool) := do
  let (least, extra) ← codes[code]?
  let (more, bits) ← takeNumber extra bits
  return (least + more, bits)

/-- The tokens up to the end symbol, newest first on top of `ts`. Each takes at least a bit. -/
def readTokens (literals distances : PrefixCode) :
    (fuel : Nat) → List Token → List Bool → Option (List Token × List Bool)
  | 0, _, _ => none
  | fuel + 1, ts, bits => do
    let (s, bits) ← literals.read bits
    if s < 256 then readTokens literals distances fuel (.literal (UInt8.ofNat s) :: ts) bits
    else if s = 256 then return (ts, bits)
    else
      let (length, bits) ← readValue lengthCodes (s - 257) bits
      let (d, bits) ← distances.read bits
      let (distance, bits) ← readValue distanceCodes d bits
      readTokens literals distances fuel (.copy length distance :: ts) bits

/-- The code lengths of a dynamic block, newest first, with their run-length symbols. -/
def readLengths (c : PrefixCode) (total : Nat) :
    (fuel : Nat) → List Nat → List Bool → Option (List Nat × List Bool)
  | 0, _, _ => none
  | fuel + 1, ls, bits =>
    if total ≤ ls.length then some (ls, bits)
    else do
      let (s, bits) ← c.read bits
      if s < 16 then readLengths c total fuel (s :: ls) bits
      else if s = 16 then
        let last ← ls.head?
        let (n, bits) ← takeNumber 2 bits
        readLengths c total fuel (List.replicate (n + 3) last ++ ls) bits
      else
        let (n, bits) ← takeNumber (if s = 17 then 3 else 7) bits
        readLengths c total fuel
          (List.replicate (n + if s = 17 then 3 else 11) 0 ++ ls) bits

/-- The order in which a dynamic block lists the lengths of its length code. -/
def lengthOrder : List Nat := [16, 17, 18, 0, 8, 7, 9, 6, 10, 5, 11, 4, 12, 3, 13, 2, 14, 1, 15]

/-- Numbers of three bits each. -/
def readTriples : Nat → List Bool → Option (List Nat × List Bool)
  | 0, bits => some ([], bits)
  | n + 1, bits => do
    let (v, bits) ← takeNumber 3 bits
    let (vs, bits) ← readTriples n bits
    return (v :: vs, bits)

/-- The two codes at the start of a dynamic block. -/
def readCodes (bits : List Bool) : Option (PrefixCode × PrefixCode × List Bool) := do
  let (literals, bits) ← takeNumber 5 bits
  let (distances, bits) ← takeNumber 5 bits
  let (given, bits) ← takeNumber 4 bits
  let (triples, bits) ← readTriples (given + 4) bits
  let named := lengthOrder.zip triples
  let lengths := (List.range 19).map fun i => (named.lookup i).getD 0
  let total := literals + 257 + distances + 1
  let (ls, bits) ← readLengths (.ofLengths lengths) total (total + 1) [] bits
  let all := ls.reverse
  return (.ofLengths (all.take (literals + 257)), .ofLengths (all.drop (literals + 257)), bits)

/-- The fixed code of literals and lengths. -/
def fixedLiterals : PrefixCode :=
  .ofLengths (List.replicate 144 8 ++ List.replicate 112 9 ++ List.replicate 24 7
    ++ List.replicate 8 8)

/-- The fixed code of distances. -/
def fixedDistances : PrefixCode := .ofLengths (List.replicate 30 5)

/-- A stored block; its length stands at the next full byte. -/
def readStored (ts : List Token) (bits : List Bool) : Option (List Token × List Bool) := do
  let bits := bits.drop (bits.length % 8)
  let (n, bits) ← takeNumber 16 bits
  let (check, bits) ← takeNumber 16 bits
  if n + check ≠ 65535 ∨ bits.length < 8 * n then none
  else
    let block := bytesOfBits (bits.take (8 * n))
    return (block.foldl (fun ts b => .literal b :: ts) ts, bits.drop (8 * n))

/-- The tokens of all blocks, newest first. -/
def readBlocks : (fuel : Nat) → List Token → List Bool → Option (List Token)
  | 0, _, _ => none
  | fuel + 1, ts, bits => do
    let (final, bits) ← takeNumber 1 bits
    let (kind, bits) ← takeNumber 2 bits
    let (ts, bits) ←
      match kind with
      | 0 => readStored ts bits
      | 1 => readTokens fixedLiterals fixedDistances bits.length ts bits
      | 2 => do
        let (literals, distances, bits) ← readCodes bits
        readTokens literals distances bits.length ts bits
      | _ => none
    if final = 1 then return ts else readBlocks fuel ts bits

/-- The bytes behind a text in the deflate format, if it is one. -/
def inflate (bs : List UInt8) : Option (List UInt8) :=
  (readBlocks (8 * bs.length) [] (bitsOfBytes bs)).bind fun ts => expand? ts.reverse

end Decompile.Archive
