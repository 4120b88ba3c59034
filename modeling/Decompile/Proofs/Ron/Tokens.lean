import Decompile.Ron.Scan
import Decompile.Proofs.Text.Decimal
import Mathlib.Tactic.IntervalCases

/-!
# Tokens are read as they were written

Each token of the object notation is read back from the text that stores it, whatever comes behind
the mark that ends it.

- `skip_cons`, `skip_gap`, `skip_indent`: where a gap ends.
- `readQuoted_quoteChars`: quoted texts, with every character that is escaped in them.
- `IsMark`, `Ended`: what may follow a word or a number.
- `readWord_renderWord`: words, plain and raw.
- `readNumber_toDigits`: natural numbers.
-/

namespace Decompile.Ron

/-! ## Gaps -/

/-- A character that begins a token. -/
def beginsToken (c : Char) : Bool := !isGap c && c != '/'

theorem skip_cons {c : Char} (hc : beginsToken c = true) (cs : List Char) :
    skip (c :: cs) = some (c :: cs) := by
  simp only [beginsToken, Bool.and_eq_true, Bool.not_eq_true', bne_iff_ne] at hc
  unfold skip
  rw [skipFrom, hc.1]
  · rfl
  · rintro t rfl
    exact absurd rfl hc.2
  · rintro t rfl
    exact absurd rfl hc.2

theorem skip_gap {c : Char} (hc : isGap c = true) (cs : List Char) : skip (c :: cs) = skip cs := by
  have hne : c ≠ '/' := by
    rintro rfl
    cases hc
  unfold skip
  rw [skipFrom, hc]
  · rfl
  · rintro t rfl
    exact absurd rfl hne
  · rintro t rfl
    exact absurd rfl hne

theorem skip_replicate (n : Nat) (cs : List Char) : skip (List.replicate n ' ' ++ cs) = skip cs := by
  induction n with
  | zero => rfl
  | succ n ih => rw [List.replicate_succ, List.cons_append, skip_gap rfl, ih]

/-- The blanks before a line are a gap. -/
theorem skip_indent (depth : Nat) (cs : List Char) : skip (indent depth ++ cs) = skip cs :=
  skip_replicate _ cs

/-! ## Quoted texts -/

theorem hexValue?_digitChar {d : Nat} (hd : d < 16) : hexValue? d.digitChar = some d := by
  interval_cases d <;> decide

/-- A digit of a code point is read. -/
theorem step_code {k v d : Nat} (hk : k < 6) (hd : d < 16) :
    step false '"' (.code k v) d.digitChar = .goOn (.code (k + 1) (16 * v + d)) [] := by
  have hne : d.digitChar ≠ '\x7d' := by interval_cases d <;> decide
  simp only [step, if_neg hne, hexValue?_digitChar hd, if_pos hk]

/-- A step that adds nothing. -/
theorem readQuotedFrom_goOn {mode mode' : Mode} {c : Char} {add : List Char} (cs : List Char)
    (h : step false '"' mode c = .goOn mode' add) :
    readQuotedFrom false '"' mode (c :: cs) =
      (readQuotedFrom false '"' mode' cs).map fun r => (add ++ r.1, r.2) := by
  rw [readQuotedFrom, h]

/-- The digits of a code point are read. -/
theorem readQuotedFrom_hexDigits (n : Nat) (hn : (Text.hexDigits n).length ≤ 6) (rest : List Char) :
    readQuotedFrom false '"' (.code 0 0) (Text.hexDigits n ++ rest) =
      readQuotedFrom false '"' (.code (Text.hexDigits n).length n) rest := by
  unfold Text.hexDigits at hn ⊢
  induction n using Nat.strongRecOn generalizing rest with
  | ind n ih =>
    by_cases hsmall : n < 16
    · rw [Nat.toDigits_of_lt_base hsmall, List.singleton_append,
        readQuotedFrom_goOn rest (step_code (by decide) hsmall)]
      simp
    · have hsplit := Nat.toDigits_of_base_le (b := 16) (n := n) (by decide) (by omega)
      rw [hsplit, List.length_append, List.length_singleton] at hn
      rw [hsplit, List.append_assoc, ih (n / 16) (by omega) (by omega), List.singleton_append,
        readQuotedFrom_goOn rest (step_code (by omega) (Nat.mod_lt n (by decide))),
        Nat.div_add_mod]
      simp

theorem length_hexDigits (c : Char) : (Text.hexDigits c.toNat).length ≤ 6 := by
  have hvalid : c.toNat < 0xD800 ∨ 0xDFFF < c.toNat ∧ c.toNat < 0x110000 := c.valid
  exact (Nat.length_toDigits_le_iff (by decide) (by decide)).mpr (by omega)

theorem charOfCode?_toNat (c : Char) : charOfCode? c.toNat = some c := by
  have hvalid : c.toNat.isValidChar := c.valid
  rw [charOfCode?, if_pos hvalid, Char.ofNat_toNat]

theorem readQuotedFrom_simple {letter c : Char} (h : simpleEscape? letter = some c)
    (rest : List Char) :
    readQuotedFrom false '"' .plain ('\\' :: letter :: rest) =
      (readQuotedFrom false '"' .plain rest).map fun r => (c :: r.1, r.2) := by
  have hletter : step false '"' .escape letter = .goOn .plain [c] := by simp only [step, h]
  rw [readQuotedFrom_goOn _ (by decide : step false '"' .plain '\\' = .goOn .escape []),
    readQuotedFrom_goOn _ hletter, Option.map_map]
  rfl

/-- A code point is read, digit by digit. -/
theorem readQuotedFrom_codePoint (c : Char) (rest : List Char) :
    readQuotedFrom false '"' .plain
        (['\\', 'u', '\x7b'] ++ Text.hexDigits c.toNat ++ ['\x7d'] ++ rest) =
      (readQuotedFrom false '"' .plain rest).map fun r => (c :: r.1, r.2) := by
  have hsome : ∀ {k : Nat}, k ≠ 0 →
      step false '"' (.code k c.toNat) '\x7d' = .goOn .plain [c] := fun hk => by
    simp only [step, if_true, if_neg hk, charOfCode?_toNat]
  have hne : (Text.hexDigits c.toNat).length ≠ 0 := Nat.ne_of_gt Nat.length_toDigits_pos
  simp only [List.append_assoc, List.cons_append, List.nil_append]
  rw [readQuotedFrom_goOn _ (by decide : step false '"' .plain '\\' = .goOn .escape []),
    readQuotedFrom_goOn _ (by decide : step false '"' .escape 'u' = .goOn .brace []),
    readQuotedFrom_goOn _ (by decide : step false '"' .brace '\x7b' = .goOn (.code 0 0) []),
    readQuotedFrom_hexDigits _ (length_hexDigits c), readQuotedFrom_goOn _ (hsome hne)]
  simp only [Option.map_map]
  rfl

/-- A character is read from its escaped form. -/
theorem readQuotedFrom_escapeChar (c : Char) (rest : List Char) :
    readQuotedFrom false '"' .plain (Text.escapeChar .strict c ++ rest) =
      (readQuotedFrom false '"' .plain rest).map fun r => (c :: r.1, r.2) := by
  unfold Text.escapeChar
  split
  · subst c; exact readQuotedFrom_simple (by decide) rest
  split
  · subst c; exact readQuotedFrom_simple (by decide) rest
  split
  · subst c; exact readQuotedFrom_simple (by decide) rest
  split
  · subst c; exact readQuotedFrom_simple (by decide) rest
  split
  · subst c; exact readQuotedFrom_simple (by decide) rest
  split
  · subst c; exact readQuotedFrom_simple (by decide) rest
  split
  · subst c; exact readQuotedFrom_simple (by decide) rest
  split
  · exact readQuotedFrom_codePoint c rest
  · -- the character stands for itself
    rename_i hbackslash hquote _ _
    have hplain : step false '"' .plain c = .goOn .plain [c] := by
      rw [step, if_neg hquote, if_neg hbackslash]
    rw [List.singleton_append, readQuotedFrom_goOn rest hplain]
    rfl

/-- **A quoted text is read as it was.** -/
theorem readQuoted_quoteChars (cs rest : List Char) :
    readQuoted (cs.flatMap (Text.escapeChar .strict) ++ '"' :: rest) = some (cs, rest) := by
  unfold readQuoted
  induction cs with
  | nil => rfl
  | cons c cs ih =>
    rw [List.flatMap_cons, List.append_assoc, readQuotedFrom_escapeChar, ih, Option.map_some]

/-! ## Words -/

/-- A mark that may follow a word or a number in a stored text. -/
def isMark (c : Char) : Bool := c == ',' || c == ')' || c == ':'

/-- The text is over, or a mark follows. -/
def Ended (cs : List Char) : Prop := ∀ c ∈ cs.head?, isMark c = true

theorem Ended.cons {c : Char} (hc : isMark c = true) (cs : List Char) : Ended (c :: cs) := by
  intro d hd
  obtain rfl : c = d := Option.some.inj hd
  exact hc

theorem isMark_cases {c : Char} (hc : isMark c = true) : c = ',' ∨ c = ')' ∨ c = ':' := by
  simpa [isMark, or_assoc] using hc

/-- What marks do not satisfy ends where a mark follows. -/
theorem takeWhile_ended {p : Char → Bool} (hp : ∀ c, isMark c = true → p c = false)
    {w : List Char} (hw : ∀ c ∈ w, p c = true) {rest : List Char} (hrest : Ended rest) :
    (w ++ rest).takeWhile p = w :=
  Text.takeWhile_append_stop hw fun c hc => hp c (hrest c hc)

theorem isRawPart_of_isMark {c : Char} (hc : isMark c = true) : isRawPart c = false := by
  obtain rfl | rfl | rfl := isMark_cases hc <;> decide

theorem isWordPart_of_isMark {c : Char} (hc : isMark c = true) : isWordPart c = false := by
  obtain rfl | rfl | rfl := isMark_cases hc <;> decide

/-- A word that can be written: it is not empty, and its characters may stand in raw words. -/
def IsWord (w : List Char) : Prop := w ≠ [] ∧ ∀ c ∈ w, isRawPart c = true

instance (w : List Char) : Decidable (IsWord w) :=
  decidable_of_iff (w ≠ [] ∧ w.all isRawPart = true) (and_congr_right' List.all_eq_true)

theorem readWord_plain {c : Char} {cs : List Char} (hc : isWordStart c = true)
    (hcs : ∀ d ∈ cs, isWordPart d = true) {rest : List Char} (hrest : Ended rest) :
    readWord (c :: cs ++ rest) = some (c :: cs, false, rest) := by
  have hpart : (cs ++ rest).takeWhile isWordPart = cs :=
    takeWhile_ended (fun _ => isWordPart_of_isMark) hcs hrest
  have hhash : ∀ t, cs ++ rest ≠ '#' :: t := by
    intro t heq
    cases cs with
    | nil => exact absurd (hrest '#' (by rw [List.nil_append] at heq; rw [heq]; rfl)) (by decide)
    | cons d cs =>
      obtain rfl : d = '#' := (List.cons.inj heq).1
      exact absurd (hcs '#' List.mem_cons_self) (by decide)
  rw [List.cons_append, readWord.eq_def]
  split
  next t heq => exact absurd (List.cons.inj heq).2 (hhash t)
  next d ds _ heq =>
    obtain ⟨rfl, rfl⟩ := List.cons.inj heq
    rw [if_pos hc, hpart]
    simp only [List.length_cons, List.drop_succ_cons, List.drop_left]
    cases hhead : rest.head? with
    | none => rfl
    | some d => simp only [isRawPart_of_isMark (hrest d hhead), Bool.false_eq_true, if_false]
  next heq => cases heq

theorem readWord_raw {w : List Char} (hw : IsWord w) {rest : List Char} (hrest : Ended rest) :
    readWord ('r' :: '#' :: w ++ rest) = some (w, true, rest) := by
  have hpart : (w ++ rest).takeWhile isRawPart = w :=
    takeWhile_ended (fun _ => isRawPart_of_isMark) hw.2 hrest
  rw [List.cons_append, List.cons_append, readWord, hpart]
  simp only [List.isEmpty_eq_false_iff.mpr hw.1, Bool.false_eq_true, if_false, List.drop_left]

/-- **A word is read as it was written**, with the news whether it is raw. -/
theorem readWord_renderWord {w : List Char} (hw : IsWord w) {rest : List Char} (hrest : Ended rest) :
    readWord (renderWord w ++ rest) = some (w, !isPlainWord w, rest) := by
  rw [renderWord]
  cases hplain : isPlainWord w with
  | false => exact readWord_raw hw hrest
  | true =>
    cases w with
    | nil => cases hplain
    | cons c cs =>
      obtain ⟨hc, hcs⟩ : isWordStart c = true ∧ ∀ d ∈ cs, isWordPart d = true := by
        simpa [isPlainWord] using hplain
      exact readWord_plain hc hcs hrest

/-! ## Numbers -/

theorem ne_of_isDigit {c d : Char} (hc : c.isDigit = true) (hd : d.isDigit = false) : c ≠ d := by
  rintro rfl
  rw [hc] at hd
  cases hd

theorem hexValue?_of_isDigit {c : Char} (hc : c.isDigit = true) :
    hexValue? c = some (c.toNat - 48) := by
  rw [hexValue?, if_pos hc]

theorem isWordPart_of_isDigit {c : Char} (hc : c.isDigit = true) : isWordPart c = true := by
  simp [isWordPart, Char.isAlphanum, hc]

theorem isWholePart_of_isDigit {c : Char} (hc : c.isDigit = true) : isWholePart c = true := by
  simp [isWholePart, hexValue?_of_isDigit hc]

theorem isDecimalPart_of_isDigit {c : Char} (hc : c.isDigit = true) : isDecimalPart c = true := by
  simp [isDecimalPart, hc]

theorem readDigits_of_isDigit {cs : List Char} (hcs : ∀ c ∈ cs, c.isDigit = true) (n : Nat) :
    readDigits 10 n cs = some (Nat.ofDigitChars 10 cs n) := by
  induction cs generalizing n with
  | nil => rfl
  | cons c cs ih =>
    obtain ⟨hc, hcs⟩ := List.forall_mem_cons.mp hcs
    have hsmall : c.toNat - 48 < 10 := by
      have hbounds := Text.isDigit_bounds hc
      omega
    rw [readDigits.eq_def]
    split
    next heq => cases heq
    next heq => exact absurd (List.cons.inj heq).1 (ne_of_isDigit hc (by decide))
    next heq =>
      obtain ⟨rfl, rfl⟩ := List.cons.inj heq
      rw [hexValue?_of_isDigit hc, Option.bind_some, if_pos hsmall, ih hcs, Nat.ofDigitChars_cons,
        Nat.mul_comm]
      rfl

section

variable {ds rest : List Char} (hds : ∀ c ∈ ds, c.isDigit = true) (hne : ds ≠ [])
  (hrest : Ended rest)
include hds hne hrest

theorem readUnbounded_digits : readUnbounded (ds ++ rest) = none := by
  have hword : (ds ++ rest).takeWhile isWordPart = ds :=
    takeWhile_ended (fun _ => isWordPart_of_isMark) (fun c hc => isWordPart_of_isDigit (hds c hc))
      hrest
  rw [readUnbounded, hword]
  refine if_neg ?_
  -- the words begin with letters
  obtain ⟨d, ds, rfl⟩ := List.exists_cons_of_ne_nil hne
  have hd := hds d List.mem_cons_self
  have hi := ne_of_isDigit hd (show 'i'.isDigit = false by decide)
  have hN := ne_of_isDigit hd (show 'N'.isDigit = false by decide)
  simp [hi.symm, hN.symm]

theorem readBase_digits : readBase (ds ++ rest) = (10, ds ++ rest) := by
  have hsecond : ∀ {c : Char} {t : List Char}, c.isDigit = false → isMark c = false →
      ds ++ rest ≠ '0' :: c :: t := by
    intro c t hc hc' heq
    obtain ⟨d, ds, rfl⟩ := List.exists_cons_of_ne_nil hne
    have htail : ds ++ rest = c :: t := (List.cons.inj heq).2
    cases ds with
    | nil =>
      rw [List.nil_append] at htail
      have hmark := hrest c (by rw [htail]; rfl)
      rw [hc'] at hmark
      cases hmark
    | cons e ds =>
      obtain rfl : e = c := (List.cons.inj htail).1
      exact ne_of_isDigit (hds e (by simp)) hc rfl
  rw [readBase.eq_def]
  split
  next heq => exact absurd heq (hsecond (by decide) (by decide))
  next heq => exact absurd heq (hsecond (by decide) (by decide))
  next heq => exact absurd heq (hsecond (by decide) (by decide))
  next => rfl

theorem readWhole_digits :
    readWhole false (ds ++ rest) = some (⟨false, Nat.ofDigitChars 10 ds 0, ""⟩, rest) := by
  have hwhole : (ds ++ rest).takeWhile isWholePart = ds :=
    takeWhile_ended (fun c hc => by obtain rfl | rfl | rfl := isMark_cases hc <;> decide)
      (fun c hc => isWholePart_of_isDigit (hds c hc)) hrest
  have hsuffix : readSuffix wholeTypes rest = ("", rest) := by
    have hnone : rest.takeWhile isWordPart = [] :=
      takeWhile_ended (w := []) (fun _ => isWordPart_of_isMark) (fun _ h => by cases h) hrest
    rw [readSuffix, hnone]
    rfl
  have hfirst : ¬(ds.isEmpty = true ∨ ds.head? = some '_') := by
    obtain ⟨d, ds, rfl⟩ := List.exists_cons_of_ne_nil hne
    simpa using ne_of_isDigit (hds d List.mem_cons_self) (show '_'.isDigit = false by decide)
  rw [readWhole, readBase_digits hds hne hrest]
  simp only [hwhole, if_neg hfirst, readDigits_of_isDigit hds, List.drop_left, hsuffix,
    Option.map_some]

end

/-- **A natural number is read as it was written.** -/
theorem readNumber_toDigits (n : Nat) {rest : List Char} (hrest : Ended rest) :
    readNumber (Nat.toDigits 10 n ++ rest) = some (.number ⟨false, n, ""⟩, rest) := by
  have hds : ∀ c ∈ Nat.toDigits 10 n, c.isDigit = true :=
    fun c => Nat.isDigit_of_mem_toDigits (by decide) (Nat.le_refl _)
  have hne : Nat.toDigits 10 n ≠ [] := Nat.toDigits_ne_nil
  have hsign : splitSign (Nat.toDigits 10 n ++ rest) = (false, Nat.toDigits 10 n ++ rest) := by
    obtain ⟨d, ds, hcons⟩ := List.exists_cons_of_ne_nil hne
    have hd := hds d (hcons ▸ List.mem_cons_self)
    rw [hcons, List.cons_append, splitSign.eq_def]
    split
    next heq => exact absurd (List.cons.inj heq).1 (ne_of_isDigit hd (by decide))
    next heq => exact absurd (List.cons.inj heq).1 (ne_of_isDigit hd (by decide))
    next => rfl
  have hlengths : ((Nat.toDigits 10 n ++ rest).takeWhile isWholePart).length =
      ((Nat.toDigits 10 n ++ rest).takeWhile isDecimalPart).length := by
    rw [takeWhile_ended (fun c hc => by obtain rfl | rfl | rfl := isMark_cases hc <;> decide)
        (fun c hc => isWholePart_of_isDigit (hds c hc)) hrest,
      takeWhile_ended (fun c hc => by obtain rfl | rfl | rfl := isMark_cases hc <;> decide)
        (fun c hc => isDecimalPart_of_isDigit (hds c hc)) hrest]
  rw [readNumber, hsign]
  simp only [readUnbounded_digits hds hne hrest, hlengths, Nat.lt_irrefl, if_false,
    readWhole_digits hds hne hrest, Option.map_some, Nat.ofDigitChars_ten_toDigits]

end Decompile.Ron
