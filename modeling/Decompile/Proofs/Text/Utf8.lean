import Decompile.Text.Utf8
import Mathlib.Tactic.IntervalCases

/-!
# Texts are read as they were encoded

- `scan_utf8EncodeChar`: the bytes of a character are read as that character, whatever follows.
- `scan_encodeChars`, `decode?_encode`: the same of whole texts.
-/

namespace Decompile.Text

variable {b : UInt8} {bs : List UInt8} {p : Started}

/-- A byte that begins a character of several bytes. -/
theorem scanFrom_lead (h : scanLead b = ([], some p)) : scanFrom none (b :: bs) = scanFrom (some p) bs := by
  rw [scanFrom, scanByte, h, List.nil_append]

/-- A byte that continues a character and does not end it. -/
theorem scanFrom_more (least : p.least ≤ b.toNat) (most : b.toNat ≤ p.most) (left : 1 < p.left) :
    scanFrom (some p) (b :: bs) =
      scanFrom (some ⟨p.bits * 64 + (b.toNat - 0x80), p.left - 1, 0x80, 0xBF⟩) bs := by
  have hbyte : scanByte (some p) b =
      ([], some ⟨p.bits * 64 + (b.toNat - 0x80), p.left - 1, 0x80, 0xBF⟩) := by
    simp only [scanByte, decide_eq_true least, decide_eq_true most, Bool.and_self, if_true,
      if_neg (Nat.not_le.mpr left)]
  rw [scanFrom, hbyte, List.nil_append]

/-- The last byte of a character. -/
theorem scanFrom_last (least : p.least ≤ b.toNat) (most : b.toNat ≤ p.most) (left : p.left ≤ 1) :
    scanFrom (some p) (b :: bs) =
      some (Char.ofNat (p.bits * 64 + (b.toNat - 0x80))) :: scanFrom none bs := by
  have hbyte : scanByte (some p) b =
      ([some (Char.ofNat (p.bits * 64 + (b.toNat - 0x80)))], none) := by
    simp only [scanByte, decide_eq_true least, decide_eq_true most, Bool.and_self, if_true,
      if_pos left]
  rw [scanFrom, hbyte, List.singleton_append]

/-! ## First bytes -/

theorem scanLead_one (h : b.toNat < 0x80) : scanLead b = ([some (Char.ofNat b.toNat)], none) := by
  rw [scanLead]
  exact if_pos h

theorem scanLead_two (h : 0xC2 ≤ b.toNat) (h' : b.toNat ≤ 0xDF) :
    scanLead b = ([], some ⟨b.toNat - 0xC0, 1, 0x80, 0xBF⟩) := by
  simp only [scanLead, if_neg (show ¬ b.toNat < 0x80 by omega), decide_eq_true h,
    decide_eq_true h', Bool.and_self, if_true]

/-- The second byte of three keeps out overlong forms and surrogates. -/
theorem scanLead_three (h : 0xE0 ≤ b.toNat) (h' : b.toNat ≤ 0xEF) :
    scanLead b = ([], some ⟨b.toNat - 0xE0, 2, if b.toNat = 0xE0 then 0xA0 else 0x80,
      if b.toNat = 0xED then 0x9F else 0xBF⟩) := by
  unfold scanLead
  generalize b.toNat = n at h h'
  interval_cases n <;> rfl

/-- The second byte of four keeps out overlong forms and what is too large. -/
theorem scanLead_four (h : 0xF0 ≤ b.toNat) (h' : b.toNat ≤ 0xF4) :
    scanLead b = ([], some ⟨b.toNat - 0xF0, 3, if b.toNat = 0xF0 then 0x90 else 0x80,
      if b.toNat = 0xF4 then 0x8F else 0xBF⟩) := by
  unfold scanLead
  generalize b.toNat = n at h h'
  interval_cases n <;> rfl

/-! ## Characters -/

theorem toNat_valid (c : Char) : c.toNat < 0xD800 ∨ 0xDFFF < c.toNat ∧ c.toNat < 0x110000 := c.valid

/-- **The bytes of a character are read as that character**, whatever follows. -/
theorem scan_utf8EncodeChar (c : Char) (bs : List UInt8) :
    scan (String.utf8EncodeChar c ++ bs) = some c :: scan bs := by
  have hvalid := toNat_valid c
  have hc : Char.ofNat c.toNat = c := Char.ofNat_toNat c
  have hbyte : ∀ {k : Nat}, k < 256 → (UInt8.ofNat k).toNat = k := fun hk => by simpa using hk
  unfold scan String.utf8EncodeChar
  simp only [show c.val.toNat = c.toNat from rfl]
  generalize c.toNat = n at hvalid hc
  split
  case isTrue h =>
    have hfirst : (UInt8.ofNat n).toNat = n := hbyte (by omega)
    rw [List.singleton_append, scanFrom, scanByte, scanLead_one (by omega), hfirst, hc]
    rfl
  case isFalse h =>
    have hlast : (UInt8.ofNat (n % 64 + 128)).toNat = n % 64 + 128 := hbyte (by omega)
    split
    case isTrue h2 =>
      have hfirst : (UInt8.ofNat (n / 64 % 32 + 192)).toNat = n / 64 % 32 + 192 := hbyte (by omega)
      have hsum : (n / 64 % 32 + 192 - 0xC0) * 64 + (n % 64 + 128 - 0x80) = n := by omega
      simp only [List.cons_append, List.nil_append]
      rw [scanFrom_lead (scanLead_two (by omega) (by omega)),
        scanFrom_last (by simp only [hlast]; omega) (by simp only [hlast]; omega) (Nat.le_refl _),
        hlast, hfirst, hsum, hc]
    case isFalse h2 =>
      have hmiddle : (UInt8.ofNat (n / 64 % 64 + 128)).toNat = n / 64 % 64 + 128 := hbyte (by omega)
      split
      case isTrue h3 =>
        have hfirst : (UInt8.ofNat (n / 4096 % 16 + 224)).toNat = n / 4096 % 16 + 224 :=
          hbyte (by omega)
        have hsum : ((n / 4096 % 16 + 224 - 0xE0) * 64 + (n / 64 % 64 + 128 - 0x80)) * 64
            + (n % 64 + 128 - 0x80) = n := by omega
        simp only [List.cons_append, List.nil_append]
        rw [scanFrom_lead (scanLead_three (by omega) (by omega)),
          scanFrom_more (by simp only [hmiddle, hfirst]; split <;> omega)
            (by simp only [hmiddle, hfirst]; split <;> omega) (Nat.lt_succ_self 1),
          scanFrom_last (by simp only [hlast]; omega) (by simp only [hlast]; omega) (Nat.le_refl _),
          hlast, hmiddle, hfirst, hsum, hc]
      case isFalse h3 =>
        have hsecond : (UInt8.ofNat (n / 4096 % 64 + 128)).toNat = n / 4096 % 64 + 128 :=
          hbyte (by omega)
        have hfirst : (UInt8.ofNat (n / 262144 % 8 + 240)).toNat = n / 262144 % 8 + 240 :=
          hbyte (by omega)
        have hsum : (((n / 262144 % 8 + 240 - 0xF0) * 64 + (n / 4096 % 64 + 128 - 0x80)) * 64
            + (n / 64 % 64 + 128 - 0x80)) * 64 + (n % 64 + 128 - 0x80) = n := by omega
        simp only [List.cons_append, List.nil_append]
        rw [scanFrom_lead (scanLead_four (by omega) (by omega)),
          scanFrom_more (by simp only [hsecond, hfirst]; split <;> omega)
            (by simp only [hsecond, hfirst]; split <;> omega) (show 1 < 3 by decide),
          scanFrom_more (by simp only [hmiddle]; omega) (by simp only [hmiddle]; omega)
            (Nat.lt_succ_self 1),
          scanFrom_last (by simp only [hlast]; omega) (by simp only [hlast]; omega) (Nat.le_refl _),
          hlast, hmiddle, hsecond, hfirst, hsum, hc]

theorem scan_encodeChars (cs : List Char) : scan (encodeChars cs) = cs.map some := by
  induction cs with
  | nil => rfl
  | cons c cs ih =>
    rw [encodeChars, List.flatMap_cons, scan_utf8EncodeChar, List.map_cons]
    exact congrArg (some c :: ·) ih

/-- **A text is read as it was encoded.** -/
theorem decode?_encode (s : String) : decode? (encode s) = some s := by
  have hmap : ∀ cs : List Char, (cs.map some).mapM id = some cs := fun cs => by
    induction cs with
    | nil => rfl
    | cons c cs ih => rw [List.map_cons, List.mapM_cons, ih]; rfl
  rw [decode?, encode, scan_encodeChars, hmap, Option.map_some, String.ofList_toList]

end Decompile.Text
