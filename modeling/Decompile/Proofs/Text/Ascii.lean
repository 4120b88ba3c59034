import Decompile.Text.Ascii
import Mathlib.Data.List.Infix
import Decompile.Text.Blank
import Mathlib.Data.List.DropRight
import Mathlib.Data.List.TakeWhile

/-!
# Parts of a text, and trimmed texts

- `dropLeadIgnoringCase?_eq_some_iff`, `dropTail?_eq_some_iff`: what stands in front of the rest, and
  behind it.
- `occursIn_iff`: a part that occurs is a contiguous one.
- `lower_append`, `length_lower`: small letters are as many, in the same order.
- `toNat_toLower`, `toLower_of_not_capital`: which characters letter case changes, and to what.
- `IsTrimmed`: no blank stands at an end of a text.
- `isTrimmed_trim`, `trim_of_isTrimmed`: these are the texts that trimming gives, and leaves alone.
- `trim_blanks_append`, `trim_append_blanks`: blanks around a text are not seen.
- `trimStart_trimEnd`: which end is trimmed first does not matter.
-/

namespace Decompile.Text

/-! ## Parts of a text -/

section

variable {lead part tail cs rest : List Char}

@[simp] theorem length_lower (cs : List Char) : (lower cs).length = cs.length := List.length_map _

theorem lower_append (cs rest : List Char) : lower (cs ++ rest) = lower cs ++ lower rest :=
  List.map_append

/-- The capitals from `A` to `Z` become small. -/
theorem toNat_toLower {c : Char} (hc : 0x41 ≤ c.toNat ∧ c.toNat ≤ 0x5A) :
    c.toLower.toNat = c.toNat + 32 := by
  have hcapital : c.val ≥ 'A'.val ∧ c.val ≤ 'Z'.val :=
    ⟨UInt32.le_iff_toNat_le.mpr hc.1, UInt32.le_iff_toNat_le.mpr hc.2⟩
  rw [show c.toLower = ⟨c.val + ('a'.val - 'A'.val), _⟩ from dif_pos hcapital, Char.toNat]
  show (c.val + 32).toNat = _
  rw [UInt32.toNat_add]
  show (c.toNat + 32) % 2 ^ 32 = _
  omega

/-- All other characters stay. -/
theorem toLower_of_not_capital {c : Char} (hc : ¬ (0x41 ≤ c.toNat ∧ c.toNat ≤ 0x5A)) :
    c.toLower = c := by
  have hother : ¬ (c.val ≥ 'A'.val ∧ c.val ≤ 'Z'.val) := fun hcapital =>
    hc ⟨UInt32.le_iff_toNat_le.mp hcapital.1, UInt32.le_iff_toNat_le.mp hcapital.2⟩
  exact dif_neg hother

/-- A text starts with `lead` in some letter case. -/
theorem dropLeadIgnoringCase?_eq_some_iff :
    dropLeadIgnoringCase? lead cs = some rest ↔ ∃ t, cs = t ++ rest ∧ lower t = lower lead := by
  induction lead generalizing cs with
  | nil => simp [dropLeadIgnoringCase?, dropLeadBy, lower, eq_comm]
  | cons p ps ih =>
    cases cs with
    | nil =>
      refine iff_of_false (fun h => by cases h) ?_
      rintro ⟨t, ht, hlower⟩
      rw [(List.append_eq_nil_iff.mp ht.symm).1] at hlower
      cases hlower
    | cons c cs =>
      simp only [dropLeadIgnoringCase?] at ih
      simp only [dropLeadIgnoringCase?, dropLeadBy, beq_iff_eq]
      constructor
      · intro h
        split at h
        · next hc =>
          obtain ⟨t, rfl, hlower⟩ := ih.mp h
          exact ⟨c :: t, rfl, by rw [lower, List.map_cons, ← hc, ← lower, hlower, lower, lower, List.map_cons]⟩
        · cases h
      · rintro ⟨t, ht, hlower⟩
        cases t with
        | nil => cases hlower
        | cons b t =>
          obtain ⟨rfl, rfl⟩ := List.cons.inj ht
          obtain ⟨hc, hlower⟩ := List.cons.inj hlower
          rw [if_pos hc.symm]
          exact ih.mpr ⟨t, rfl, hlower⟩

/-- A text ends with `tail`. -/
theorem dropTail?_eq_some_iff : dropTail? tail cs = some rest ↔ cs = rest ++ tail := by
  rw [dropTail?, Option.map_eq_some_iff]
  constructor
  · rintro ⟨r, hr, rfl⟩
    rw [← List.reverse_inj, eq_append_of_dropLead? hr, List.reverse_append, List.reverse_reverse]
  · rintro rfl
    exact ⟨rest.reverse, by rw [List.reverse_append, dropLead?_append], List.reverse_reverse rest⟩

theorem dropTail?_eq_none_iff : dropTail? tail cs = none ↔ ¬ tail <:+ cs := by
  rw [Option.eq_none_iff_forall_ne_some, ← not_exists]
  refine not_congr (exists_congr fun rest => ?_)
  rw [dropTail?_eq_some_iff, eq_comm]

/-- What is found stands in the text without interruption. -/
theorem occursIn_iff : occursIn part cs = true ↔ part <:+: cs := by
  induction cs with
  | nil => simp [occursIn]
  | cons c cs ih =>
    rw [occursIn, Bool.or_eq_true, List.isPrefixOf_iff_prefix, ih, List.infix_cons_iff]

end

/-! ## Trimmed texts -/

variable {cs ws lead rest : List Char}

/-- No blank stands at an end of the text. -/
structure IsTrimmed (cs : List Char) : Prop where
  head : ∀ c ∈ cs.head?, isBlank c = false
  last : ∀ c ∈ cs.getLast?, isBlank c = false

/-! ## Letters -/

/-- Letters are no blanks. -/
theorem isBlank_of_letter {c : Char} (hlow : 0x41 ≤ c.toNat) (hhigh : c.toNat ≤ 0x7A) :
    isBlank c = false := by
  simp [isBlank]
  omega

/-- Letter case does not make blanks. -/
theorem isBlank_toLower (c : Char) : isBlank c.toLower = isBlank c := by
  by_cases hc : 0x41 ≤ c.toNat ∧ c.toNat ≤ 0x5A
  · have hsmall := toNat_toLower hc
    rw [isBlank_of_letter hc.1 (by omega), isBlank_of_letter (by omega) (by omega)]
  · rw [toLower_of_not_capital hc]

/-! ## One end -/

theorem trimStart_suffix (cs : List Char) : trimStart cs <:+ cs := List.dropWhile_suffix _

theorem trimEnd_isPrefix (cs : List Char) : trimEnd cs <+: cs := List.rdropWhile_prefix _ _

theorem trimStart_of_head (hhead : ∀ c ∈ cs.head?, isBlank c = false) : trimStart cs = cs := by
  cases cs with
  | nil => rfl
  | cons c cs => rw [trimStart_cons, hhead c rfl, if_neg Bool.false_ne_true]

theorem head_trimStart : ∀ c ∈ (trimStart cs).head?, isBlank c = false := by
  intro c hc
  have hstop := List.head?_dropWhile_not isBlank cs
  rw [show cs.dropWhile isBlank = trimStart cs from rfl, Option.mem_def.mp hc] at hstop
  simpa using hstop

theorem trimStart_blanks_append (hws : ∀ c ∈ ws, isBlank c = true) (cs : List Char) :
    trimStart (ws ++ cs) = trimStart cs := List.dropWhile_append_of_pos hws

theorem trimEnd_of_last (hlast : ∀ c ∈ cs.getLast?, isBlank c = false) : trimEnd cs = cs := by
  refine List.rdropWhile_eq_self_iff.mpr fun hne => ?_
  rw [hlast _ (List.getLast?_eq_some_getLast hne)]
  exact Bool.false_ne_true

theorem last_trimEnd : ∀ c ∈ (trimEnd cs).getLast?, isBlank c = false := by
  intro c hc
  have hne : trimEnd cs ≠ [] := List.ne_nil_of_mem (List.mem_of_getLast? hc)
  have hstop := List.rdropWhile_last_not isBlank cs hne
  rw [List.getLast?_eq_some_getLast hne, Option.mem_some] at hc
  simpa [← hc, trimEnd, dropEndWhile, List.rdropWhile] using hstop

/-- Only the end behind the last character that is not blank is dropped. -/
theorem trimEnd_append (hrest : ∃ c ∈ rest, isBlank c = false) :
    trimEnd (lead ++ rest) = lead ++ trimEnd rest := by
  obtain ⟨c, hc, hblank⟩ := hrest
  have hne : rest.reverse.dropWhile isBlank ≠ [] := by
    rw [Ne, List.dropWhile_eq_nil_iff]
    intro hall
    rw [hall c (List.mem_reverse.mpr hc)] at hblank
    cases hblank
  rw [trimEnd, trimEnd, dropEndWhile, dropEndWhile, List.reverse_append, List.dropWhile_append,
    if_neg (by simpa using hne), List.reverse_append, List.reverse_reverse]

/-- A start of a text has the head of the text, if it has one. -/
theorem head_of_isPrefix (hlead : rest <+: cs) (hhead : ∀ c ∈ cs.head?, isBlank c = false) :
    ∀ c ∈ rest.head?, isBlank c = false := by
  intro c hc
  obtain ⟨t, rfl⟩ := hlead
  refine hhead c ?_
  rw [List.head?_append, Option.mem_def.mp hc]
  rfl

/-- An end of a text has the last character of the text, if it has one. -/
theorem last_of_suffix (hsuffix : rest <:+ cs) (hlast : ∀ c ∈ cs.getLast?, isBlank c = false) :
    ∀ c ∈ rest.getLast?, isBlank c = false := by
  intro c hc
  obtain ⟨t, rfl⟩ := hsuffix
  refine hlast c ?_
  rw [List.getLast?_append, Option.mem_def.mp hc]
  rfl

/-! ## Both ends -/

theorem isTrimmed_trim (cs : List Char) : IsTrimmed (trim cs) :=
  ⟨head_of_isPrefix (trimEnd_isPrefix _) head_trimStart, last_trimEnd⟩

theorem trim_of_isTrimmed (h : IsTrimmed cs) : trim cs = cs := by
  rw [trim, trimStart_of_head h.head, trimEnd_of_last h.last]

/-- What is trimmed is a part of the text. -/
theorem trim_isInfix (cs : List Char) : trim cs <:+: cs :=
  (trimEnd_isPrefix _).isInfix.trans (trimStart_suffix cs).isInfix

theorem trim_of_head (hhead : ∀ c ∈ cs.head?, isBlank c = false) : trim cs = trimEnd cs := by
  rw [trim, trimStart_of_head hhead]

/-- Blanks in front are not seen. -/
theorem trim_blanks_append (hws : ∀ c ∈ ws, isBlank c = true) (cs : List Char) :
    trim (ws ++ cs) = trim cs := by
  rw [trim, trimStart_blanks_append hws, trim]

/-- Blanks behind are not seen either. -/
theorem trim_append_blanks (hws : ∀ c ∈ ws, isBlank c = true) (cs : List Char) :
    trim (cs ++ ws) = trim cs := by
  have hend : ∀ l : List Char, trimEnd (l ++ ws) = trimEnd l := fun l => by
    rw [trimEnd, trimEnd, dropEndWhile, dropEndWhile, List.reverse_append,
      List.dropWhile_append_of_pos fun c hc => hws c (List.mem_reverse.mp hc)]
  by_cases hcs : ∀ c ∈ cs, isBlank c = true
  · have hnil : ∀ l : List Char, (∀ c ∈ l, isBlank c = true) → trim l = [] := fun l hl => by
      rw [trim, trimStart, List.dropWhile_eq_nil_iff.mpr hl, trimEnd_nil]
    rw [hnil cs hcs, hnil _ fun c hc => (List.mem_append.mp hc).elim (hcs c) (hws c)]
  · rw [trim, trim, trimStart, List.dropWhile_append, if_neg, hend, trimStart]
    rw [List.isEmpty_iff, List.dropWhile_eq_nil_iff]
    exact hcs

/-- Which end is trimmed first does not matter. -/
theorem trimStart_trimEnd (cs : List Char) : trimStart (trimEnd cs) = trim cs := by
  obtain ⟨ws, hcs, hws⟩ := exists_append_dropEndWhile isBlank cs
  have htrim : trim cs = trim (trimEnd cs) := by
    conv_lhs => rw [← hcs]
    exact trim_append_blanks hws _
  rw [htrim, trim, trimEnd_of_last (last_of_suffix (trimStart_suffix _) last_trimEnd)]

end Decompile.Text
