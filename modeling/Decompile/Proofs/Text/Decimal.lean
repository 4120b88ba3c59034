import Decompile.Text.Decimal
import Mathlib.Algebra.Group.Nat.Defs

/-!
# Decimal numbers are read as they were written

- `isDigit_of_mem_decimal`, `isDigit_of_mem_decimalPadded`: only digits are written.
- `readDecimal?_decimal`, `readDecimal?_decimalPadded`: what was written is read.
-/

namespace Decompile.Text

/-- A start of elements that satisfy `p`, and then none. -/
theorem takeWhile_append_stop {α : Type} {p : α → Bool} {l rest : List α} (hl : ∀ a ∈ l, p a = true)
    (hrest : ∀ a ∈ rest.head?, p a = false) : (l ++ rest).takeWhile p = l := by
  rw [List.takeWhile_append_of_pos hl]
  cases rest with
  | nil => simp
  | cons a rest => rw [List.takeWhile_cons_of_neg (by simp [hrest a rfl]), List.append_nil]

theorem isDigit_bounds {c : Char} (hc : c.isDigit = true) : 48 ≤ c.toNat ∧ c.toNat ≤ 57 := by
  simp only [Char.isDigit, Bool.and_eq_true, decide_eq_true_eq] at hc
  exact ⟨UInt32.le_iff_toNat_le.mp hc.1, UInt32.le_iff_toNat_le.mp hc.2⟩

theorem isDigit_of_mem_decimal {n : Nat} {c : Char} (hc : c ∈ decimal n) : c.isDigit = true :=
  Nat.isDigit_of_mem_toDigits (by decide) (Nat.le_refl _) hc

theorem isDigit_of_mem_decimalPadded {width n : Nat} {c : Char} (hc : c ∈ decimalPadded width n) :
    c.isDigit = true := by
  rcases List.mem_append.mp hc with hc | hc
  · rw [List.eq_of_mem_replicate hc]
    rfl
  · exact isDigit_of_mem_decimal hc

theorem decimal_ne_nil (n : Nat) : decimal n ≠ [] := Nat.toDigits_ne_nil

theorem decimalPadded_ne_nil (width n : Nat) : decimalPadded width n ≠ [] :=
  List.append_ne_nil_of_right_ne_nil _ (decimal_ne_nil n)

theorem length_decimalPadded {width n : Nat} (hwidth : 0 < width) (hn : n < 10 ^ width) :
    (decimalPadded width n).length = width := by
  have hlength : (decimal n).length ≤ width :=
    (Nat.length_toDigits_le_iff (by decide) hwidth).mpr hn
  rw [decimalPadded, length_padStart]
  omega

/-- Digits are read one after another. -/
theorem readDigitsFrom_of_isDigit {cs : List Char} (hcs : ∀ c ∈ cs, c.isDigit = true) (n : Nat) :
    readDigitsFrom n cs = some (Nat.ofDigitChars 10 cs n) := by
  induction cs generalizing n with
  | nil => rfl
  | cons c cs ih =>
    obtain ⟨hc, hcs⟩ := List.forall_mem_cons.mp hcs
    rw [readDigitsFrom, digit?, if_pos hc, Option.bind_some, ih hcs, Nat.ofDigitChars_cons,
      Nat.mul_comm]
    rfl

theorem readDecimal?_of_isDigit {cs : List Char} (hne : cs ≠ [])
    (hcs : ∀ c ∈ cs, c.isDigit = true) : readDecimal? cs = some (Nat.ofDigitChars 10 cs 0) := by
  rw [readDecimal?, if_neg (by simpa using hne), readDigitsFrom_of_isDigit hcs]

theorem readDecimal?_decimal (n : Nat) : readDecimal? (decimal n) = some n := by
  rw [readDecimal?_of_isDigit (decimal_ne_nil n) fun c => isDigit_of_mem_decimal, decimal,
    Nat.ofDigitChars_ten_toDigits]

theorem readDecimal?_decimalPadded (width n : Nat) :
    readDecimal? (decimalPadded width n) = some n := by
  rw [readDecimal?_of_isDigit (decimalPadded_ne_nil width n) fun c => isDigit_of_mem_decimalPadded,
    decimalPadded, padStart, Nat.ofDigitChars_append, Nat.ofDigitChars_replicate_zero,
    Nat.mul_zero, decimal, Nat.ofDigitChars_ten_toDigits]

end Decompile.Text
