import Decompile.Proofs.Text.Utf8
import Mathlib.Data.List.Infix

/-!
# ASCII in byte streams

A byte below 0x80 is a character by itself, whatever stands around it: no malformed sequence swallows
one, and no character of several bytes is one. So a stream may be cut at such bytes before it is read,
and a text of such characters is found in the bytes just if it is found in what they are read as.

- `Started.Far`, `Sound`: what a character that is begun can come to; it is never below 0x80.
- `scanByte_ascii`, `scanByte_foreign`: the two kinds of bytes.
- `decodeLossy_append`: reading commutes with cutting at a byte below 0x80.
- `infix_decodeLossy_iff`: the same text is found before and after reading.
-/

namespace Decompile.Text

variable {s : Option Started} {p : Started} {b : UInt8} {bs rest : List UInt8} {c : Char} {cs : List Char}

/-! ## Characters that are begun -/

/-- The least that the character can come to is not below 0x80, and no byte below 0x80 continues it. -/
structure Started.Far (p : Started) : Prop where
  least : 0x80 ≤ p.least
  value : 0x80 ≤ (p.bits * 64 + (p.least - 0x80)) * 64 ^ (p.left - 1)

/-- Between two bytes of a stream nothing is begun, or a character of several bytes. -/
def Sound (s : Option Started) : Prop := ∀ p, s = some p → p.Far

theorem Sound.none : Sound none := nofun

theorem sound_some (hp : p.Far) : Sound (some p) := fun _ hq => Option.some.inj hq ▸ hp

/-- What is not the character of a byte below 0x80, or cannot be written down. -/
def Foreign (c : Char) : Prop := c = Char.ofNat 0 ∨ 0x80 ≤ c.toNat

theorem foreign_replacement : Foreign replacement := .inr (by decide)

theorem toNat_ofNat {n : Nat} (hn : n.isValidChar) : (Char.ofNat n).toNat = n := by
  unfold Char.ofNat
  rw [dif_pos hn]
  rfl

/-- A number that is no character counts as zero. -/
theorem foreign_ofNat {n : Nat} (hn : 0x80 ≤ n) : Foreign (Char.ofNat n) := by
  by_cases hvalid : n.isValidChar
  · right
    rwa [toNat_ofNat hvalid]
  · left
    unfold Char.ofNat
    rw [dif_neg hvalid, dif_pos (by decide)]
    rfl

/-- A first byte that is no character by itself begins one of several bytes, or is malformed. -/
theorem scanLead_foreign (hb : 0x80 ≤ b.toNat) :
    (∃ p, p.Far ∧ scanLead b = ([], some p)) ∨ scanLead b = ([none], none) := by
  have hlt : b.toNat < 256 := b.toNat_lt
  by_cases htwo : 0xC2 ≤ b.toNat ∧ b.toNat ≤ 0xDF
  · refine .inl ⟨_, ⟨Nat.le_refl _, ?_⟩, scanLead_two htwo.1 htwo.2⟩
    show 0x80 ≤ ((b.toNat - 0xC0) * 64 + (0x80 - 0x80)) * 64 ^ (1 - 1)
    omega
  by_cases hthree : 0xE0 ≤ b.toNat ∧ b.toNat ≤ 0xEF
  · refine .inl ⟨_, ⟨?_, ?_⟩, scanLead_three hthree.1 hthree.2⟩
    · show 0x80 ≤ if b.toNat = 0xE0 then 0xA0 else 0x80
      split <;> omega
    · show 0x80 ≤ ((b.toNat - 0xE0) * 64 + ((if b.toNat = 0xE0 then 0xA0 else 0x80) - 0x80)) * 64 ^ (2 - 1)
      split <;> omega
  by_cases hfour : 0xF0 ≤ b.toNat ∧ b.toNat ≤ 0xF4
  · refine .inl ⟨_, ⟨?_, ?_⟩, scanLead_four hfour.1 hfour.2⟩
    · show 0x80 ≤ if b.toNat = 0xF0 then 0x90 else 0x80
      split <;> omega
    · show 0x80 ≤ ((b.toNat - 0xF0) * 64 + ((if b.toNat = 0xF0 then 0x90 else 0x80) - 0x80)) * 64 ^ (3 - 1)
      split <;> omega
  · right
    unfold scanLead
    simp only
    split
    · omega
    · repeat' split
      all_goals first
        | rfl
        | (simp only [Bool.and_eq_true, decide_eq_true_eq, beq_iff_eq] at *; omega)

/-! ## Bytes -/

/-- What a byte below 0x80 is read as: itself. Whatever was begun before it is malformed. -/
theorem scanByte_ascii (hs : Sound s) (hb : b.toNat < 0x80) :
    scanByte s b = ((if s.isSome then [none] else []) ++ [some (Char.ofNat b.toNat)], none) := by
  cases s with
  | none => exact scanLead_one hb
  | some p =>
    have hout : ¬ p.least ≤ b.toNat := fun hle => absurd ((hs p rfl).least.trans hle) (Nat.not_le.mpr hb)
    simp [scanByte, hout, scanLead_one hb]

/-- What another byte is read as: nothing yet, or characters that are foreign. -/
theorem scanByte_foreign (hs : Sound s) (hb : 0x80 ≤ b.toNat) :
    Sound (scanByte s b).2 ∧ ∀ o ∈ (scanByte s b).1, Foreign (o.getD replacement) := by
  have hlead : Sound (scanLead b).2 ∧ ∀ o ∈ (scanLead b).1, Foreign (o.getD replacement) := by
    rcases scanLead_foreign hb with ⟨p, hp, heq⟩ | heq
    · rw [heq]
      exact ⟨sound_some hp, nofun⟩
    · rw [heq]
      exact ⟨.none, fun o ho => List.mem_singleton.mp ho ▸ foreign_replacement⟩
  cases s with
  | none => exact hlead
  | some p =>
    obtain ⟨hleast, hvalue⟩ := hs p rfl
    unfold scanByte
    simp only [Bool.and_eq_true, decide_eq_true_eq]
    split
    · next hin =>
      -- the byte continues the character, which comes to no less than with the least byte
      have hmore : (p.bits * 64 + (p.least - 0x80)) * 64 ^ (p.left - 1) ≤
          (p.bits * 64 + (b.toNat - 0x80)) * 64 ^ (p.left - 1) :=
        Nat.mul_le_mul_right _ (by omega)
      split
      · next hleft =>
        have hone : p.left - 1 = 0 := by omega
        rw [hone, Nat.pow_zero, Nat.mul_one, Nat.mul_one] at hmore
        rw [hone, Nat.pow_zero, Nat.mul_one] at hvalue
        refine ⟨.none, fun o ho => ?_⟩
        have hlarge : 0x80 ≤ p.bits * 64 + (b.toNat - 0x80) := Nat.le_trans hvalue hmore
        rw [List.mem_singleton.mp ho, Option.getD_some]
        exact foreign_ofNat hlarge
      · next hleft =>
        refine ⟨sound_some ⟨Nat.le_refl _, ?_⟩, nofun⟩
        show 0x80 ≤ ((p.bits * 64 + (b.toNat - 0x80)) * 64 + (0x80 - 0x80)) * 64 ^ (p.left - 1 - 1)
        have hpow : 64 ^ (p.left - 1) = 64 * 64 ^ (p.left - 1 - 1) := by
          rw [← Nat.pow_succ']
          congr 1
          omega
        rw [Nat.sub_self, Nat.add_zero, Nat.mul_assoc, ← hpow]
        exact hvalue.trans hmore
    · exact ⟨hlead.1, List.forall_mem_cons.mpr ⟨foreign_replacement, hlead.2⟩⟩

/-- Only a byte that begins or continues a character gives nothing. -/
theorem begun_of_scanByte (h : (scanByte s b).1 = []) : ∃ q, (scanByte s b).2 = some q := by
  have hlead : (scanLead b).1 = [] → ∃ q, (scanLead b).2 = some q := by
    intro hnone
    by_cases hb : b.toNat < 0x80
    · rw [scanLead_one hb] at hnone
      cases hnone
    · rcases scanLead_foreign (Nat.not_lt.mp hb) with ⟨p, -, heq⟩ | heq
      · exact ⟨p, by rw [heq]⟩
      · rw [heq] at hnone
        cases hnone
  cases s with
  | none => exact hlead h
  | some p =>
    unfold scanByte at h ⊢
    simp only at h ⊢
    split at h
    · next hin =>
      rw [if_pos hin]
      split at h
      · cases h
      · next hleft =>
        rw [if_neg hleft]
        exact ⟨_, rfl⟩
    · cases h

/-- After any byte something sound is begun. -/
theorem sound_scanByte (hs : Sound s) (b : UInt8) : Sound (scanByte s b).2 := by
  by_cases hb : b.toNat < 0x80
  · rw [scanByte_ascii hs hb]
    exact .none
  · exact (scanByte_foreign hs (Nat.not_lt.mp hb)).1

/-! ## Streams -/

/-- A stream may be cut at a byte below 0x80. -/
theorem scanFrom_append (hs : Sound s) (hb : b.toNat < 0x80) :
    scanFrom s (bs ++ b :: rest) = scanFrom s bs ++ some (Char.ofNat b.toNat) :: scanFrom none rest := by
  induction bs generalizing s with
  | nil =>
    have hnil : scanFrom s [] = if s.isSome then [none] else [] := rfl
    have hcons : scanFrom s (b :: rest) = (scanByte s b).1 ++ scanFrom (scanByte s b).2 rest := rfl
    rw [List.nil_append, hcons, hnil, scanByte_ascii hs hb, List.append_assoc, List.singleton_append]
  | cons a bs ih => rw [List.cons_append, scanFrom, ih (sound_scanByte hs a), scanFrom, List.append_assoc]

theorem decodeLossy_append (hb : b.toNat < 0x80) :
    decodeLossy (bs ++ b :: rest) = decodeLossy bs ++ Char.ofNat b.toNat :: decodeLossy rest := by
  unfold decodeLossy scan
  rw [scanFrom_append .none hb, List.map_append]
  rfl

theorem decodeLossy_encodeChars_append (cs : List Char) (bs : List UInt8) :
    decodeLossy (encodeChars cs ++ bs) = cs ++ decodeLossy bs := by
  induction cs with
  | nil => rfl
  | cons c cs ih =>
    unfold decodeLossy at ih ⊢
    rw [encodeChars, List.flatMap_cons, List.append_assoc, scan_utf8EncodeChar, List.map_cons]
    exact congrArg (c :: ·) ih

/-! ## Texts that are found -/

/-- The characters of bytes below 0x80, but for the one with number zero. -/
def Plain (cs : List Char) : Prop := ∀ c ∈ cs, ¬ Foreign c

theorem Plain.toNat_lt (hcs : Plain cs) (hc : c ∈ cs) : c.toNat < 0x80 :=
  Nat.not_le.mp fun hle => hcs c hc (.inr hle)

theorem utf8EncodeChar_of_lt (hc : c.toNat < 0x80) : String.utf8EncodeChar c = [UInt8.ofNat c.toNat] := by
  unfold String.utf8EncodeChar
  exact if_pos (Nat.le_of_lt_succ hc)

theorem utf8EncodeChar_ofNat (hb : b.toNat < 0x80) : String.utf8EncodeChar (Char.ofNat b.toNat) = [b] := by
  have hvalid : b.toNat.isValidChar := .inl (by omega)
  have hsame : (Char.ofNat b.toNat).toNat = b.toNat := toNat_ofNat hvalid
  rw [utf8EncodeChar_of_lt (hsame.trans_lt hb), hsame, UInt8.ofNat_toNat]

/-- What comes of a character that is begun is foreign. -/
theorem foreign_of_begun (hp : p.Far) (bs : List UInt8) :
    ∃ o os, scanFrom (some p) bs = o :: os ∧ Foreign (o.getD replacement) := by
  induction bs generalizing p with
  | nil => exact ⟨none, [], rfl, foreign_replacement⟩
  | cons b bs ih =>
    rw [scanFrom]
    by_cases hb : b.toNat < 0x80
    · rw [scanByte_ascii (sound_some hp) hb]
      exact ⟨none, _, rfl, foreign_replacement⟩
    obtain ⟨hsound, hforeign⟩ := scanByte_foreign (sound_some hp) (Nat.not_lt.mp hb)
    cases houts : (scanByte (some p) b).1 with
    | cons o os =>
      rw [houts] at hforeign
      exact ⟨o, _, rfl, hforeign o List.mem_cons_self⟩
    | nil =>
      obtain ⟨q, hq⟩ := begun_of_scanByte houts
      rw [hq]
      exact ih (hsound q hq)

/-- Bytes are read as something. -/
theorem decodeLossy_ne_nil (hne : bs ≠ []) : decodeLossy bs ≠ [] := by
  have hscan : ∀ {bs : List UInt8} {s : Option Started}, s.isSome ∨ bs ≠ [] → scanFrom s bs ≠ [] := by
    intro bs
    induction bs with
    | nil => rintro s (hs | hnil) <;> simp_all [scanFrom]
    | cons b bs ih =>
      intro s _ hempty
      rw [scanFrom, List.append_eq_nil_iff] at hempty
      obtain ⟨q, hq⟩ := begun_of_scanByte hempty.1
      exact ih (.inl (by rw [hq]; rfl)) hempty.2
  exact fun hempty => hscan (.inr hne) (List.map_eq_nil_iff.mp hempty)

/-- A text at the start of what is read stands at the start of the bytes. -/
theorem isPrefix_of_decoded (hcs : Plain cs) (h : cs <+: decodeLossy bs) : encodeChars cs <+: bs := by
  induction cs generalizing bs with
  | nil => exact List.nil_prefix
  | cons c cs ih =>
    obtain ⟨hc, hcs⟩ := List.forall_mem_cons.mp hcs
    unfold decodeLossy scan at h
    cases bs with
    | nil => exact absurd h (by simp [scanFrom])
    | cons b bs =>
      rw [scanFrom] at h
      by_cases hb : b.toNat < 0x80
      · rw [scanByte_ascii .none hb] at h
        obtain ⟨hsame, hrest⟩ := List.cons_prefix_cons.mp h
        have hbyte : String.utf8EncodeChar c = [b] := by
          rw [hsame]
          exact utf8EncodeChar_ofNat hb
        rw [encodeChars, List.flatMap_cons, hbyte]
        exact List.cons_prefix_cons.mpr ⟨rfl, ih hcs hrest⟩
      · -- the first character that is read is foreign
        exfalso
        rcases scanLead_foreign (Nat.not_lt.mp hb) with ⟨p, hp, heq⟩ | heq
        · rw [show scanByte none b = ([], some p) from heq] at h
          obtain ⟨o, os, hfirst, hforeign⟩ := foreign_of_begun hp bs
          rw [List.nil_append, hfirst] at h
          exact hc ((List.cons_prefix_cons.mp h).1 ▸ hforeign)
        · rw [show scanByte none b = ([none], none) from heq] at h
          exact hc ((List.cons_prefix_cons.mp h).1 ▸ foreign_replacement)

/-- A text that does not begin in the first part of a list is found in the second. -/
theorem infix_of_not_mem {α : Type} {a : α} {l m n : List α} (ha : a ∉ m) (h : a :: l <:+: m ++ n) :
    a :: l <:+: n := by
  induction m with
  | nil => exact h
  | cons x m ih =>
    rw [List.mem_cons, not_or] at ha
    obtain ⟨hne, hm⟩ := ha
    rcases List.infix_cons_iff.mp h with hlead | hinfix
    · exact absurd (List.cons_prefix_cons.mp hlead).1 hne
    · exact ih hm hinfix

theorem infix_of_decoded (hcs : Plain (c :: cs)) (hs : Sound s)
    (h : c :: cs <:+: (scanFrom s bs).map (·.getD replacement)) : encodeChars (c :: cs) <:+: bs := by
  have hc := hcs c List.mem_cons_self
  induction bs generalizing s with
  | nil =>
    have hmem := h.subset List.mem_cons_self
    rw [scanFrom] at hmem
    split at hmem
    · exact absurd (List.mem_singleton.mp hmem ▸ foreign_replacement) hc
    · cases hmem
  | cons b bs ih =>
    rw [scanFrom, List.map_append] at h
    by_cases hb : b.toNat < 0x80
    · rw [scanByte_ascii hs hb, List.map_append, List.append_assoc] at h
      have hout : c ∉ (if s.isSome then [none] else []).map (·.getD replacement) := by
        split
        · exact fun hmem => hc (List.mem_singleton.mp hmem ▸ foreign_replacement)
        · exact List.not_mem_nil
      rcases List.infix_cons_iff.mp (infix_of_not_mem hout h) with hlead | hinfix
      · -- the text begins with this byte
        refine List.IsPrefix.isInfix (isPrefix_of_decoded hcs ?_)
        unfold decodeLossy scan
        rw [scanFrom, scanByte_ascii .none hb]
        exact hlead
      · exact (ih .none hinfix).trans (List.suffix_cons b bs).isInfix
    · obtain ⟨hsound, hforeign⟩ := scanByte_foreign hs (Nat.not_lt.mp hb)
      have hout : c ∉ (scanByte s b).1.map (·.getD replacement) := fun hmem => by
        obtain ⟨o, ho, rfl⟩ := List.mem_map.mp hmem
        exact hc (hforeign o ho)
      exact (ih hsound (infix_of_not_mem hout h)).trans (List.suffix_cons b bs).isInfix

/-- **A plain text is found in what is read just if its bytes are found in the stream.** -/
theorem infix_decodeLossy_iff (hcs : Plain cs) : cs <:+: decodeLossy bs ↔ encodeChars cs <:+: bs := by
  cases cs with
  | nil => exact iff_of_true (List.nil_infix) (List.nil_infix)
  | cons c cs =>
    refine ⟨infix_of_decoded hcs .none, ?_⟩
    rintro ⟨before, after, rfl⟩
    have hlt := hcs.toNat_lt List.mem_cons_self
    have hbyte : (UInt8.ofNat c.toNat).toNat = c.toNat := by
      rw [UInt8.toNat_ofNat']
      omega
    refine ⟨decodeLossy before, decodeLossy after, ?_⟩
    have hbytes : encodeChars (c :: cs) = UInt8.ofNat c.toNat :: encodeChars cs := by
      rw [encodeChars, List.flatMap_cons, utf8EncodeChar_of_lt hlt, List.singleton_append, encodeChars]
    rw [hbytes, List.append_assoc, List.append_assoc, List.cons_append, List.cons_append,
      decodeLossy_append (hbyte.trans_lt hlt), hbyte, Char.ofNat_toNat, decodeLossy_encodeChars_append]

end Decompile.Text
