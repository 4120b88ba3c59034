/-!
# Bits and little-endian numbers

- `bitsOfByte`, `bytesOfBits`: bytes as eight bits, the least first, and back.
- `takeNumber`: a number of given width at the front of some bits.
- `littleEndian`: a number as so many bytes, the least first; `readLe` reads it.
-/

namespace Decompile.Archive

/-- The lowest `n` bits of a number, the least first. -/
def bitsOfNat : Nat → Nat → List Bool
  | 0, _ => []
  | n + 1, v => (v % 2 == 1) :: bitsOfNat n (v / 2)

/-- The number of some bits, the least first. -/
def natOfBits : List Bool → Nat
  | [] => 0
  | b :: bs => (if b then 1 else 0) + 2 * natOfBits bs

/-- The bits of a byte, the least first. -/
def bitsOfByte (b : UInt8) : List Bool := bitsOfNat 8 b.toNat

/-- The bits of some bytes. -/
def bitsOfBytes (bs : List UInt8) : List Bool := bs.flatMap bitsOfByte

/-- Bits in groups of eight as bytes; the last group is filled with zeros. -/
def bytesOfBits : List Bool → List UInt8
  | a :: b :: c :: d :: e :: f :: g :: h :: rest =>
    UInt8.ofNat (natOfBits [a, b, c, d, e, f, g, h]) :: bytesOfBits rest
  | [] => []
  | rest => [UInt8.ofNat (natOfBits rest)]

/-- The number made of the first `n` bits, and the bits after it. -/
def takeNumber (n : Nat) (bits : List Bool) : Option (Nat × List Bool) :=
  let front := bits.take n
  if front.length < n then none else some (natOfBits front, bits.drop n)

/-- A number as `n` bytes, the least first. -/
def littleEndian : Nat → Nat → List UInt8
  | 0, _ => []
  | n + 1, v => UInt8.ofNat (v % 256) :: littleEndian n (v / 256)

/-- The number of some bytes, the least first. -/
def readLe : List UInt8 → Nat
  | [] => 0
  | b :: bs => b.toNat + 256 * readLe bs

@[simp] theorem length_littleEndian (n v : Nat) : (littleEndian n v).length = n := by
  induction n generalizing v with
  | zero => rfl
  | succ n ih => simp [littleEndian, ih]

end Decompile.Archive
