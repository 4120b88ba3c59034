import Decompile.ProgressLine
import Decompile.Proofs.Text.Ascii

/-!
# What is told of a line

- `dropLabel?_append`, `dropLabel?_eq_none_iff`: which label is taken off, and when there is none.
- `stripLabels_of_some`, `stripLabels_of_none`: labels are taken off one by one, and then
  `dropLabel?_stripLabels`: none is left.
- `Clean`: what a line that is told looks like, said without the rule that makes it.
- `normalize_clean`: every line that is told is a clean part of the line that was printed.
- `normalize_again`: a line that is told is told again as it is, unless another mark of completion
  stands at its end.
- `normalize_labelled`: labels in front of a line make no difference.
-/

namespace Decompile.ProgressLine

open Text (isBlank trim trimStart trimEnd lower IsTrimmed)

variable {cs rest l m p ws : List Char} {c : Char} {raw s : String}

/-! ## Labels -/

/-- The text is a label in some letter case. -/
def IsLabel (p : List Char) : Prop := ∃ l ∈ labels, lower p = lower l

/-- No label starts with another one. -/
theorem eq_of_lower_isPrefix (hl : l ∈ labels) (hm : m ∈ labels) (h : lower l <+: lower m) : l = m := by
  have hall : ∀ l ∈ labels, ∀ m ∈ labels, (lower l).isPrefixOf (lower m) → l = m := by decide
  exact hall l hl m hm (List.isPrefixOf_iff_prefix.mpr h)

/-- A label starts with a character that is not blank, in whatever letter case. -/
theorem IsLabel.head (hp : IsLabel p) : ∃ c t, p = c :: t ∧ isBlank c = false := by
  obtain ⟨l, hl, hlower⟩ := hp
  have hall : ∀ l ∈ labels, ((lower l).head?.any fun c => !isBlank c) = true := by decide
  have hhead := hall l hl
  rw [← hlower] at hhead
  cases p with
  | nil => cases hhead
  | cons c t =>
    rw [lower, List.map_cons, List.head?_cons, Option.any_some, Bool.not_eq_true'] at hhead
    exact ⟨c, t, rfl, Text.isBlank_toLower c ▸ hhead⟩

/-- **The label in front is taken off**, and no other one. -/
theorem dropLabel?_append (hp : IsLabel p) (rest : List Char) : dropLabel? (p ++ rest) = some rest := by
  obtain ⟨l, hl, hlower⟩ := hp
  have hmatch : Text.dropLeadIgnoringCase? l (p ++ rest) = some rest :=
    Text.dropLeadIgnoringCase?_eq_some_iff.mpr ⟨p, rfl, hlower⟩
  cases hdrop : dropLabel? (p ++ rest) with
  | none => rw [List.findSome?_eq_none_iff.mp hdrop l hl] at hmatch; cases hmatch
  | some r =>
    obtain ⟨m, hm, hr⟩ := List.exists_of_findSome?_eq_some hdrop
    obtain ⟨t, ht, hlower'⟩ := Text.dropLeadIgnoringCase?_eq_some_iff.mp hr
    -- of two labels at the same start one starts with the other
    have hboth : lower p ++ lower rest = lower t ++ lower r := by
      rw [← Text.lower_append, ht, Text.lower_append]
    have hlm : l = m := by
      rcases List.prefix_or_prefix_of_prefix (List.prefix_append _ _)
        (hboth ▸ List.prefix_append (lower t) (lower r)) with h | h
      · exact eq_of_lower_isPrefix hl hm (by rwa [← hlower, ← hlower'])
      · exact (eq_of_lower_isPrefix hm hl (by rwa [← hlower, ← hlower'])).symm
    have hlength : p.length = t.length := by
      rw [← Text.length_lower p, ← Text.length_lower t, hlower, hlower', hlm]
    rw [(List.append_inj ht hlength).2]

theorem dropLabel?_eq_none_iff : dropLabel? cs = none ↔ ∀ p, IsLabel p → ¬ p <+: cs := by
  constructor
  · rintro hnone p hp ⟨t, rfl⟩
    rw [dropLabel?_append hp] at hnone
    cases hnone
  · intro h
    refine List.findSome?_eq_none_iff.mpr fun l hl => ?_
    rw [Option.eq_none_iff_forall_ne_some]
    intro r hr
    obtain ⟨t, rfl, ht⟩ := Text.dropLeadIgnoringCase?_eq_some_iff.mp hr
    exact h t ⟨l, hl, ht⟩ (List.prefix_append t r)

/-- What is taken off is a label. -/
theorem isLabel_of_dropLabel? (h : dropLabel? cs = some rest) : ∃ p, IsLabel p ∧ cs = p ++ rest := by
  obtain ⟨l, hl, hr⟩ := List.exists_of_findSome?_eq_some h
  obtain ⟨t, rfl, ht⟩ := Text.dropLeadIgnoringCase?_eq_some_iff.mp hr
  exact ⟨t, ⟨l, hl, ht⟩, rfl⟩

theorem length_of_dropLabel? (h : dropLabel? cs = some rest) : (trimStart rest).length < cs.length := by
  obtain ⟨p, hp, rfl⟩ := isLabel_of_dropLabel? h
  obtain ⟨c, t, rfl, -⟩ := hp.head
  have hle := (Text.trimStart_suffix rest).length_le
  simp only [List.cons_append, List.length_cons, List.length_append]
  omega

/-- More steps than characters change nothing. -/
theorem stripLabelsFrom_eq {n k : Nat} (hn : cs.length ≤ n) (hk : cs.length ≤ k) :
    stripLabelsFrom n cs = stripLabelsFrom k cs := by
  have hnil : ∀ k, stripLabelsFrom k [] = [] := fun k => by cases k <;> rfl
  induction n generalizing k cs with
  | zero => rw [List.length_eq_zero_iff.mp (Nat.le_zero.mp hn), hnil, hnil]
  | succ n ih =>
    cases k with
    | zero => rw [List.length_eq_zero_iff.mp (Nat.le_zero.mp hk), hnil, hnil]
    | succ k =>
      rw [stripLabelsFrom, stripLabelsFrom]
      split
      · next rest hrest =>
        have hshort := length_of_dropLabel? hrest
        exact ih (by omega) (by omega)
      · rfl

theorem stripLabels_of_some (h : dropLabel? cs = some rest) :
    stripLabels cs = stripLabels (trimStart rest) := by
  have hshort := length_of_dropLabel? h
  obtain ⟨n, hn⟩ := Nat.exists_eq_add_of_lt hshort
  rw [stripLabels, stripLabels, hn, stripLabelsFrom, h]
  exact stripLabelsFrom_eq (Nat.le_add_right _ _) (Nat.le_refl _)

theorem stripLabels_of_none (h : dropLabel? cs = none) : stripLabels cs = cs := by
  unfold stripLabels
  cases cs.length with
  | zero => rfl
  | succ n => rw [stripLabelsFrom, h]

/-- What holds of a text without a label in front, and passes from what is left of a line to the
line, holds of every line. -/
theorem stripLabels_induction {motive : List Char → Prop}
    (none : ∀ cs, dropLabel? cs = none → motive cs)
    (some : ∀ cs rest, dropLabel? cs = some rest → motive (trimStart rest) → motive cs)
    (cs : List Char) : motive cs := by
  induction hlength : cs.length using Nat.strong_induction_on generalizing cs with
  | _ n ih =>
    cases h : dropLabel? cs with
    | none => exact none cs h
    | some rest =>
      exact some cs rest h (ih _ (hlength ▸ length_of_dropLabel? h) (trimStart rest) rfl)

/-- **No label is left** in front. -/
theorem dropLabel?_stripLabels (cs : List Char) : dropLabel? (stripLabels cs) = none := by
  induction cs using stripLabels_induction with
  | none cs h => rwa [stripLabels_of_none h]
  | some cs rest h ih => rwa [stripLabels_of_some h]

/-- Nothing is taken off but a start. -/
theorem stripLabels_suffix (cs : List Char) : stripLabels cs <:+ cs := by
  induction cs using stripLabels_induction with
  | none cs h => rw [stripLabels_of_none h]
  | some cs rest h ih =>
    rw [stripLabels_of_some h]
    obtain ⟨p, -, rfl⟩ := isLabel_of_dropLabel? h
    exact (ih.trans (Text.trimStart_suffix rest)).trans (List.suffix_append p rest)

/-- What is left of a trimmed line is trimmed. -/
theorem isTrimmed_stripLabels (hcs : IsTrimmed cs) : IsTrimmed (stripLabels cs) := by
  refine ⟨?_, Text.last_of_suffix (stripLabels_suffix cs) hcs.last⟩
  have hhead := hcs.head
  clear hcs
  induction cs using stripLabels_induction with
  | none cs h => rwa [stripLabels_of_none h]
  | some cs rest h ih =>
    rw [stripLabels_of_some h]
    exact ih Text.head_trimStart

/-! ## What is left of a line -/

/-- Characters that end lines are blank. -/
theorem bare_eq_trim (cs : List Char) : bare cs = trim cs := by
  have hblank : ∀ c, endsLine c = true → isBlank c = true := by
    intro c hc
    simp only [endsLine, Bool.or_eq_true, beq_iff_eq] at hc
    rcases hc with rfl | rfl <;> decide
  obtain ⟨t, hsplit, ht⟩ := Text.exists_append_dropEndWhile endsLine (cs.dropWhile endsLine)
  calc bare cs
      = trim (Text.dropEndWhile endsLine (cs.dropWhile endsLine) ++ t) :=
        (Text.trim_append_blanks (fun c hc => hblank c (ht c hc)) _).symm
    _ = trim (cs.takeWhile endsLine ++ cs.dropWhile endsLine) := by
        rw [hsplit, Text.trim_blanks_append fun c hc => hblank c (List.mem_takeWhile_imp hc)]
    _ = trim cs := by rw [List.takeWhile_append_dropWhile]

theorem dropCompletion_of_suffix (h : cs = rest ++ completion) : dropCompletion cs = rest := by
  rw [dropCompletion, Text.dropTail?_eq_some_iff.mpr h, Option.getD_some]

theorem dropCompletion_of_not_suffix (h : ¬ completion <:+ cs) : dropCompletion cs = cs := by
  rw [dropCompletion, Text.dropTail?_eq_none_iff.mpr h, Option.getD_none]

theorem dropCompletion_isPrefix (cs : List Char) : dropCompletion cs <+: cs := by
  by_cases h : completion <:+ cs
  · obtain ⟨rest, rfl⟩ := h
    rw [dropCompletion_of_suffix rfl]
    exact List.prefix_append rest completion
  · rw [dropCompletion_of_not_suffix h]

/-- Nothing has to be trimmed any more but the end in front of the mark of completion. -/
theorem core_eq (cs : List Char) : core cs = trimEnd (dropCompletion (stripLabels (trim cs))) := by
  rw [core, bare_eq_trim]
  exact Text.trim_of_head (Text.head_of_isPrefix (dropCompletion_isPrefix _)
    (isTrimmed_stripLabels (Text.isTrimmed_trim cs)).head)

theorem core_isPrefix (cs : List Char) : core cs <+: stripLabels (trim cs) := by
  rw [core_eq]
  exact (Text.trimEnd_isPrefix _).trans (dropCompletion_isPrefix _)

theorem core_isInfix (cs : List Char) : core cs <:+: cs :=
  ((core_isPrefix cs).isInfix.trans (stripLabels_suffix _).isInfix).trans (Text.trim_isInfix cs)

/-- What is left starts with no label: none came about by taking off the end. -/
theorem dropLabel?_core (cs : List Char) : dropLabel? (core cs) = none := by
  rw [dropLabel?_eq_none_iff]
  intro p hp hlead
  exact dropLabel?_eq_none_iff.mp (dropLabel?_stripLabels _) p hp (hlead.trans (core_isPrefix cs))

/-- Of a trimmed line without a label only the mark of completion can be taken off. -/
theorem core_of_isTrimmed (hcs : IsTrimmed cs) (hlabel : dropLabel? cs = none) :
    core cs = trimEnd (dropCompletion cs) := by
  rw [core_eq, Text.trim_of_isTrimmed hcs, stripLabels_of_none hlabel]

theorem normalizeChars_eq_some_iff : normalizeChars cs = some rest ↔
    core cs = rest ∧ rest ≠ [] ∧ isDiagnostic rest = false ∧ isProgress rest = true := by
  simp only [normalizeChars, Bool.or_eq_true, List.isEmpty_iff, Bool.not_eq_true']
  constructor
  · intro h
    split at h
    · cases h
    · next hclean =>
      obtain rfl := Option.some.inj h
      simpa only [not_or, Bool.not_eq_true, Bool.not_eq_false, and_assoc, true_and] using hclean
  · rintro ⟨rfl, hne, hdiagnostic, hprogress⟩
    rw [if_neg]
    simp [hne, hdiagnostic, hprogress]

/-! ## Lines that are told -/

/-- A line as it may be told. -/
structure Clean (s : List Char) : Prop where
  nonempty : s ≠ []
  trimmed : IsTrimmed s
  /-- It starts with a letter, a digit, a dollar or an underscore, -/
  first : ∀ c ∈ s.head?, c.isAlphanum = true ∨ c ∈ ['$', '_']
  /-- and only few other ASCII characters follow. -/
  named : ∀ c ∈ s, c.toNat < 0x80 ∧ (c.isAlphanum = true ∨ c ∈ ['$', '_', '/', ';', '.', '-', ' '])
  /-- It holds no diagnostic text in any letter case, -/
  harmless : ∀ part ∈ diagnostics, ∀ t, lower t = lower part → ¬ t <:+: s
  /-- and starts with no label in any letter case. -/
  unlabelled : ∀ p, IsLabel p → ¬ p <+: s

theorem isNameStart_iff : isNameStart c = true ↔ c.isAlphanum = true ∨ c ∈ ['$', '_'] := by
  simp [isNameStart, Text.isAlnum, or_assoc]

theorem isNamePart_iff :
    isNamePart c = true ↔ c.isAlphanum = true ∨ c ∈ ['$', '_', '/', ';', '.', '-', ' '] := by
  simp [isNamePart, isNameStart, Text.isAlnum, or_assoc]

/-- These are ASCII characters. -/
theorem toNat_lt_of_isNamePart (hc : isNamePart c = true) : c.toNat < 0x80 := by
  have hle : ∀ {b : Char}, c ≤ b → c.toNat ≤ b.toNat := fun h => UInt32.le_iff_toNat_le.mp h
  rcases isNamePart_iff.mp hc with hc | hc
  · rcases Bool.or_eq_true_iff.mp (show (c.isAlpha || c.isDigit) = true from hc) with hc | hc
    · rcases Bool.or_eq_true_iff.mp (show (c.isUpper || c.isLower) = true from hc) with hc | hc
      · obtain ⟨-, hupper⟩ : 'A' ≤ c ∧ c ≤ 'Z' := of_decide_eq_true hc
        exact Nat.lt_of_le_of_lt (hle hupper) (by decide)
      · have hlower := (Bool.and_eq_true_iff.mp hc).2
        exact Nat.lt_of_le_of_lt (hle (b := 'z') (of_decide_eq_true hlower)) (by decide)
    · have hdigit := (Bool.and_eq_true_iff.mp hc).2
      exact Nat.lt_of_le_of_lt (hle (b := '9') (of_decide_eq_true hdigit)) (by decide)
  · simp only [List.mem_cons, List.not_mem_nil, or_false] at hc
    rcases hc with rfl | rfl | rfl | rfl | rfl | rfl | rfl
    all_goals decide

theorem isDiagnostic_eq_false_iff :
    isDiagnostic cs = false ↔ ∀ part ∈ diagnostics, ∀ t, lower t = lower part → ¬ t <:+: cs := by
  rw [isDiagnostic, List.any_eq_false]
  refine forall_congr' fun part => forall_congr' fun _ => ?_
  rw [Text.occursIn_iff]
  constructor
  · rintro hpart t ht ⟨before, after, rfl⟩
    refine hpart ⟨lower before, lower after, ?_⟩
    rw [Text.lower_append, Text.lower_append, ht]
  · rintro hpart ⟨before, after, heq⟩
    obtain ⟨front, back, rfl, hfront, -⟩ := List.map_eq_append_iff.mp heq.symm
    obtain ⟨start, middle, rfl, -, hmiddle⟩ := List.map_eq_append_iff.mp hfront
    exact hpart middle hmiddle ⟨start, back, rfl⟩

/-- What starts a line that is progress starts every part of it that is not empty. -/
theorem isProgress_of_isPrefix (hcs : isProgress cs = true) (hlead : rest <+: cs) (hne : rest ≠ []) :
    isProgress rest = true := by
  obtain ⟨t, rfl⟩ := hlead
  cases rest with
  | nil => exact absurd rfl hne
  | cons c rest =>
    simp only [isProgress, List.cons_append, List.all_append, Bool.and_eq_true] at hcs ⊢
    exact ⟨hcs.1, hcs.2.1⟩

/-- A line is told in a clean form. -/
theorem clean_of_normalizeChars (h : normalizeChars cs = some rest) : Clean rest := by
  obtain ⟨rfl, hne, hdiagnostic, hprogress⟩ := normalizeChars_eq_some_iff.mp h
  obtain ⟨c, t, hcons⟩ := List.exists_cons_of_ne_nil hne
  have hparts := hprogress
  rw [hcons, isProgress, Bool.and_eq_true, List.all_eq_true] at hparts
  have hstart : isNameStart c = true := hparts.1
  have hpart : ∀ b ∈ core cs, isNamePart b = true := by
    rw [hcons, List.forall_mem_cons]
    exact ⟨by simp [isNamePart, hstart], hparts.2⟩
  exact {
    nonempty := hne
    trimmed := by
      rw [core_eq, ← Text.trim_of_head]
      · exact Text.isTrimmed_trim _
      · exact Text.head_of_isPrefix (dropCompletion_isPrefix _)
          (isTrimmed_stripLabels (Text.isTrimmed_trim cs)).head
    first := by
      rw [hcons]
      rintro b ⟨⟩
      exact isNameStart_iff.mp hstart
    named := fun b hb => ⟨toNat_lt_of_isNamePart (hpart b hb), isNamePart_iff.mp (hpart b hb)⟩
    harmless := isDiagnostic_eq_false_iff.mp hdiagnostic
    unlabelled := dropLabel?_eq_none_iff.mp (dropLabel?_core cs) }

theorem normalize_eq_some_iff : normalize raw = some s ↔ normalizeChars raw.toList = some s.toList := by
  rw [normalize, Option.map_eq_some_iff]
  constructor
  · rintro ⟨line, hline, rfl⟩
    rw [hline, String.toList_ofList]
  · exact fun h => ⟨_, h, String.ofList_toList⟩

/-- **Every line that is told** is clean, and stands in the line that was printed without
interruption. -/
theorem normalize_clean (h : normalize raw = some s) : Clean s.toList ∧ s.toList <:+: raw.toList := by
  have hchars := normalize_eq_some_iff.mp h
  refine ⟨clean_of_normalizeChars hchars, ?_⟩
  rw [← (normalizeChars_eq_some_iff.mp hchars).1]
  exact core_isInfix _

/-- A line with labels in different letter cases, blanks and line ends, and something to be told. -/
theorem normalize_clean_labelled :
    normalize "
 [STDERR] warn:processing com/foo/Bar$1.class... done
" = some "com/foo/Bar$1.class" ∧
      Clean "com/foo/Bar$1.class".toList ∧
      "com/foo/Bar$1.class".toList <:+: "
 [STDERR] warn:processing com/foo/Bar$1.class... done
".toList := by
  have htold : normalize "
 [STDERR] warn:processing com/foo/Bar$1.class... done
" =
      some "com/foo/Bar$1.class" := by decide +kernel
  exact ⟨htold, normalize_clean htold⟩

/-! ## Lines that are told again -/

/-- The mark of completion does not start a line that is told. -/
theorem dropCompletion_ne_nil (hcs : Clean cs) : dropCompletion cs ≠ [] := by
  by_cases h : completion <:+ cs
  · obtain ⟨rest, rfl⟩ := h
    rw [dropCompletion_of_suffix rfl]
    rintro rfl
    have hdot := hcs.first '.' rfl
    revert hdot
    decide
  · rw [dropCompletion_of_not_suffix h]
    exact hcs.nonempty

/-- **A line that is told is told again** without the mark of completion that may stand at its end, so as
it is exactly if none stands there. -/
theorem normalize_again (h : normalize raw = some s) :
    normalize s = some (String.ofList (trimEnd (dropCompletion s.toList))) ∧
      (normalize s = some s ↔ ¬ completion <:+ s.toList) := by
  have hchars := normalize_eq_some_iff.mp h
  have hclean := clean_of_normalizeChars hchars
  obtain ⟨-, -, hdiagnostic, hprogress⟩ := normalizeChars_eq_some_iff.mp hchars
  have hcore : core s.toList = trimEnd (dropCompletion s.toList) :=
    core_of_isTrimmed hclean.trimmed (dropLabel?_eq_none_iff.mpr hclean.unlabelled)
  have hlead : core s.toList <+: s.toList :=
    hcore ▸ (Text.trimEnd_isPrefix _).trans (dropCompletion_isPrefix _)
  have hne : core s.toList ≠ [] := by
    -- the start of the line is no blank, so trimming leaves something
    obtain ⟨c, t, hcons⟩ := List.exists_cons_of_ne_nil (dropCompletion_ne_nil hclean)
    have hblank : isBlank c = false :=
      Text.head_of_isPrefix (dropCompletion_isPrefix _) hclean.trimmed.head c (hcons ▸ rfl)
    rw [hcore, Text.trimEnd, Text.dropEndWhile, Ne, List.reverse_eq_nil_iff, List.dropWhile_eq_nil_iff]
    intro hall
    have hc := hall c (List.mem_reverse.mpr (hcons ▸ List.mem_cons_self))
    rw [hblank] at hc
    cases hc
  have hharmless : isDiagnostic (core s.toList) = false :=
    isDiagnostic_eq_false_iff.mpr fun part hpart t ht hwithin =>
      hclean.harmless part hpart t ht (hwithin.trans hlead.isInfix)
  have hagain : normalize s = some (String.ofList (trimEnd (dropCompletion s.toList))) := by
    rw [normalize_eq_some_iff, String.toList_ofList, ← hcore]
    exact normalizeChars_eq_some_iff.mpr ⟨rfl, hne, hharmless, isProgress_of_isPrefix hprogress hlead hne⟩
  refine ⟨hagain, ?_⟩
  rw [hagain, Option.some_inj]
  constructor
  · rintro heq ⟨rest, hrest⟩
    have hlength := (Text.trimEnd_isPrefix (dropCompletion s.toList)).length_le
    rw [← String.toList_ofList (l := trimEnd _), heq, dropCompletion_of_suffix hrest.symm, ← hrest,
      List.length_append] at hlength
    have hlong : 0 < completion.length := by decide
    omega
  · intro hnone
    rw [dropCompletion_of_not_suffix hnone, Text.trimEnd_of_last hclean.trimmed.last, String.ofList_toList]

/-- Two marks of completion: the second is told, and then taken off. -/
theorem normalize_again_completed :
    normalize "Processing com/foo/Bar... done... done" = some "com/foo/Bar... done" ∧
      normalize "com/foo/Bar... done" = some "com/foo/Bar" := by
  have htold : normalize "Processing com/foo/Bar... done... done" = some "com/foo/Bar... done" := by
    decide +kernel
  refine ⟨htold, (normalize_again htold).1.trans ?_⟩
  decide +kernel

/-- **A line that is told may be told otherwise again.** -/
theorem normalize_not_stable :
    ¬ ∀ raw s : String, normalize raw = some s → normalize s = some s := by
  intro hstable
  have htold : normalize "Bar... done... done" = some "Bar... done" := by decide +kernel
  have hagain : normalize "Bar... done" = some "Bar" := by decide +kernel
  have hsame := hstable _ _ htold
  rw [hagain] at hsame
  exact absurd hsame (by decide)

/-! ## Labels in front -/

/-- Labels one after another, each with the blanks behind it. -/
def labelRow : List (List Char × List Char) → List Char
  | [] => []
  | (p, ws) :: row => p ++ ws ++ labelRow row

/-- Labels in front of a text that is not blank are taken off. -/
theorem stripLabels_labelRow {row : List (List Char × List Char)}
    (hrow : ∀ x ∈ row, IsLabel x.1 ∧ ∀ c ∈ x.2, isBlank c = true) (hcs : ∃ c ∈ cs, isBlank c = false) :
    stripLabels (trim (labelRow row ++ cs)) = stripLabels (trim cs) := by
  induction row with
  | nil => rfl
  | cons x row ih =>
    obtain ⟨p, ws⟩ := x
    obtain ⟨⟨hp, hws⟩, hrow⟩ := List.forall_mem_cons.mp hrow
    obtain ⟨b, hb, hblank⟩ := hcs
    have hrest : ∃ c ∈ labelRow row ++ cs, isBlank c = false :=
      ⟨b, List.mem_append_right _ hb, hblank⟩
    have htrim : trim (labelRow ((p, ws) :: row) ++ cs) = p ++ (ws ++ trimEnd (labelRow row ++ cs)) := by
      obtain ⟨c, t, rfl, hc⟩ := hp.head
      rw [Text.trim_of_head (by rintro a ⟨⟩; exact hc), labelRow, List.append_assoc,
        Text.trimEnd_append hrest, List.append_assoc]
    rw [htrim, stripLabels_of_some (dropLabel?_append hp _), Text.trimStart_blanks_append hws,
      Text.trimStart_trimEnd]
    exact ih hrow

/-- **Labels in front of a line make no difference**, however many, in whatever letter case and with
whatever blanks around them. -/
theorem normalize_labelled {row : List (List Char × List Char)} (hws : ∀ c ∈ ws, isBlank c = true)
    (hrow : ∀ x ∈ row, IsLabel x.1 ∧ ∀ c ∈ x.2, isBlank c = true)
    (hraw : ∃ c ∈ raw.toList, isBlank c = false) :
    normalize (String.ofList (ws ++ labelRow row) ++ raw) = normalize raw := by
  have hcore : core (ws ++ labelRow row ++ raw.toList) = core raw.toList := by
    rw [core_eq, core_eq, List.append_assoc, Text.trim_blanks_append hws, stripLabels_labelRow hrow hraw]
  rw [normalize, normalize, String.toList_append, String.toList_ofList, normalizeChars, normalizeChars,
    hcore]

/-- Two labels in front of one that the line starts with itself. -/
theorem normalize_labelled_twice :
    normalize (String.ofList ("\n".toList ++ labelRow [("[stdOUT]".toList, "\t ".toList),
      ("Decompiling ".toList, [])]) ++ "info:ÿ Bar") = normalize "info:ÿ Bar" := by
  refine normalize_labelled (List.all_eq_true.mp (by decide)) (fun x hx => ?_) ⟨'B', by decide, by decide⟩
  rcases List.mem_cons.mp hx with rfl | hx
  · exact ⟨⟨"[stdout]".toList, by decide, by decide⟩, List.all_eq_true.mp (by decide)⟩
  · obtain rfl := List.mem_singleton.mp hx
    exact ⟨⟨"Decompiling ".toList, by decide, by decide⟩, List.all_eq_true.mp (by decide)⟩

end Decompile.ProgressLine
