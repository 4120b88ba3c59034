import Mathlib
import Decompile.Archive.Bits

/-!
# Numbers read back

Bits and bytes hold a number up to their width: reading gives back what was written, modulo the
first power that does not fit.

- `natOfBits_bitsOfNat`: for bits.
- `readLe_littleEndian`: for bytes.
-/

namespace Decompile.Archive

theorem natOfBits_bitsOfNat (n v : Nat) : natOfBits (bitsOfNat n v) = v % 2 ^ n := by
  induction n generalizing v with
  | zero => simp [bitsOfNat, natOfBits, Nat.mod_one]
  | succ n ih =>
    simp only [bitsOfNat, natOfBits, ih, Nat.pow_succ, Nat.mul_comm _ 2, Nat.mod_mul]
    rcases Nat.mod_two_eq_zero_or_one v with h | h <;> simp [h]

theorem readLe_littleEndian (n v : Nat) : readLe (littleEndian n v) = v % 256 ^ n := by
  induction n generalizing v with
  | zero => simp [littleEndian, readLe, Nat.mod_one]
  | succ n ih =>
    simp only [littleEndian, readLe, ih, Nat.pow_succ, Nat.mul_comm _ 256, Nat.mod_mul]
    simp

end Decompile.Archive
