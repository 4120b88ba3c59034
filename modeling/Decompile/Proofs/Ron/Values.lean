import Decompile.Ron.Reader
import Decompile.Proofs.Ron.Tokens

/-!
# Values are read as they were stored

The stored form of a value is read as that value, except that the names of structures, which are
not stored, are not found again.

- `Value.Storable`: the values that have a stored form.
- `Value.unnamed`, `Value.height`: a value without the names of its structures, and how deep its
  parts stand inside each other.
- `readValue_render`: one value, whatever comes behind the mark that ends it.
- `read_render`: a whole text.
-/

namespace Decompile.Ron

/-! ## Values with a stored form -/

/-- The words of numbers that are not finite. -/
def unboundedWords : List String := ["inf", "NaN", "inff32", "inff64", "NaNf32", "NaNf64"]

/-- Words that are not read as the case of an enumeration. -/
def reservedWords : List String := ["true", "false", "None", "Some"] ++ unboundedWords

/-- A word that stands for the case of an enumeration. -/
def IsCase (w : String) : Prop := IsWord w.toList ∧ w ∉ reservedWords

instance (w : String) : Decidable (IsCase w) := inferInstanceAs (Decidable (_ ∧ _))

mutual

/-- The value has a stored form. -/
def Value.Storable : Value → Prop
  | .bool _ => True
  | .number n => n.negative = false ∧ n.suffix = ""
  | .decimal _ => False
  | .text _ => True
  | .raw _ => False
  | .word w => IsCase w
  | .option none => True
  | .option (some v) => v.Storable
  | .list vs => AllStorable vs
  | .map _ => False
  | .tuple _ _ => False
  | .fields _ fs => fs ≠ [] ∧ FieldsStorable fs

/-- All values have a stored form. -/
def AllStorable : List Value → Prop
  | [] => True
  | v :: vs => v.Storable ∧ AllStorable vs

/-- All fields have a stored form. -/
def FieldsStorable : List (String × Value) → Prop
  | [] => True
  | (n, v) :: fs => IsWord n.toList ∧ v.Storable ∧ FieldsStorable fs

end

mutual

/-- The value without the names of its structures. -/
def Value.unnamed : Value → Value
  | .option (some v) => .option (some v.unnamed)
  | .list vs => .list (unnamedAll vs)
  | .fields _ fs => .fields none (unnamedFields fs)
  | v => v

/-- Values without the names of their structures. -/
def unnamedAll : List Value → List Value
  | [] => []
  | v :: vs => v.unnamed :: unnamedAll vs

/-- Fields without the names of the structures in them. -/
def unnamedFields : List (String × Value) → List (String × Value)
  | [] => []
  | (n, v) :: fs => (n, v.unnamed) :: unnamedFields fs

end

mutual

/-- How deep the parts of a value stand inside each other. -/
def Value.height : Value → Nat
  | .option (some v) => v.height + 1
  | .list vs => heightAll vs + 1
  | .fields _ fs => heightFields fs + 1
  | _ => 0

/-- How deep the parts of values stand inside each other. -/
def heightAll : List Value → Nat
  | [] => 0
  | v :: vs => max v.height (heightAll vs)

/-- How deep the parts of fields stand inside each other. -/
def heightFields : List (String × Value) → Nat
  | [] => 0
  | (_, v) :: fs => max v.height (heightFields fs)

end

/-! ## How stored forms begin -/

/-- A character that begins a value or a field, closes nothing and asks for no extension. -/
def opens (c : Char) : Bool := beginsToken c && c != ']' && c != ')' && c != '#'

/-- The text begins a value or a field. -/
def Opens (cs : List Char) : Prop := ∃ c t, cs = c :: t ∧ opens c = true

theorem isGap_cases {c : Char} (hc : isGap c = true) :
    c ∈ [9, 10, 11, 12, 13, 0x20, 0x85, 0x200E, 0x200F, 0x2028, 0x2029].map Char.ofNat := by
  have hn : c.toNat ∈ [9, 10, 11, 12, 13, 0x20, 0x85, 0x200E, 0x200F, 0x2028, 0x2029] := by
    simp only [isGap, Bool.or_eq_true, Bool.and_eq_true, decide_eq_true_eq, beq_iff_eq] at hc
    simp only [List.mem_cons, List.not_mem_nil, or_false]
    omega
  exact List.mem_map.mpr ⟨_, hn, Char.ofNat_toNat c⟩

theorem isGap_of_isWordStart {c : Char} (hc : isWordStart c = true) : isGap c = false := by
  refine Bool.eq_false_iff.mpr fun hgap => ?_
  have hnone : ([9, 10, 11, 12, 13, 0x20, 0x85, 0x200E, 0x200F, 0x2028, 0x2029].map Char.ofNat).any
      isWordStart = false := by decide +kernel
  exact List.any_eq_false.mp hnone c (isGap_cases hgap) hc

theorem opens_of_isWordStart {c : Char} (hc : isWordStart c = true) : opens c = true := by
  have hne : ∀ {d : Char}, isWordStart d = false → c ≠ d := fun hd => by
    rintro rfl
    rw [hc] at hd
    cases hd
  simp [opens, beginsToken, isGap_of_isWordStart hc, hne (show isWordStart '/' = false by decide),
    hne (show isWordStart ']' = false by decide), hne (show isWordStart ')' = false by decide),
    hne (show isWordStart '#' = false by decide)]

theorem opens_renderWord (w : List Char) : Opens (renderWord w) := by
  rw [renderWord]
  cases hplain : isPlainWord w with
  | false => exact ⟨'r', _, rfl, by decide⟩
  | true =>
    cases w with
    | nil => cases hplain
    | cons c cs =>
      have hc : isWordStart c = true := by
        rw [isPlainWord, Bool.and_eq_true] at hplain
        exact hplain.1
      exact ⟨c, cs, rfl, opens_of_isWordStart hc⟩

theorem opens_of_isDigit {c : Char} (hc : c.isDigit = true) : opens c = true := by
  have hbounds := Text.isDigit_bounds hc
  have hgap : isGap c = false := by
    simp [isGap]
    omega
  simp [opens, beginsToken, hgap, ne_of_isDigit hc (show '/'.isDigit = false by decide),
    ne_of_isDigit hc (show ']'.isDigit = false by decide),
    ne_of_isDigit hc (show ')'.isDigit = false by decide),
    ne_of_isDigit hc (show '#'.isDigit = false by decide)]

theorem opens_renderLines (depth : Nat) {opening closing : Char} (hopening : opens opening = true)
    (lines : List (List Char)) : Opens (renderLines depth opening closing lines) := by
  rw [renderLines]
  split
  · exact ⟨opening, _, rfl, hopening⟩
  · exact ⟨opening, _, rfl, hopening⟩

theorem opens_render {v : Value} (hv : v.Storable) (depth : Nat) : Opens (render depth v) := by
  cases v with
  | bool b => cases b <;> exact ⟨_, _, rfl, by decide⟩
  | number n =>
    obtain ⟨hsign, -⟩ := hv
    obtain ⟨d, ds, hcons⟩ := List.exists_cons_of_ne_nil (Nat.toDigits_ne_nil (b := 10) (n := n.magnitude))
    have hd : d.isDigit = true :=
      Nat.isDigit_of_mem_toDigits (by decide) (Nat.le_refl _) (hcons ▸ List.mem_cons_self)
    rw [render, Numeral.render, hsign, hcons]
    exact ⟨d, _, rfl, opens_of_isDigit hd⟩
  | text s => exact ⟨'"', _, rfl, by decide⟩
  | word w => exact opens_renderWord _
  | option o => cases o <;> exact ⟨_, _, rfl, by decide⟩
  | list vs => exact opens_renderLines depth (by decide) _
  | fields n fs => exact opens_renderLines depth (by decide) _
  | decimal | raw | map | tuple => cases hv

/-! ## Lines -/

/-- Lines, the closing mark and what follows it, with the blanks that stand before each. -/
def linesText (depth : Nat) (close : Char) (lines : List (List Char)) (rest : List Char) : List Char :=
  (lines.flatMap fun l => indent (depth + 1) ++ l ++ [',', '\n']) ++ (indent depth ++ close :: rest)

/-- The same from the first character that is not blank. -/
def linesFrom (depth : Nat) (close : Char) (lines : List (List Char)) (rest : List Char) : List Char :=
  match lines with
  | [] => close :: rest
  | l :: ls => l ++ ',' :: '\n' :: linesText depth close ls rest

theorem skip_opens {cs : List Char} (h : Opens cs) (rest : List Char) :
    skip (cs ++ rest) = some (cs ++ rest) := by
  obtain ⟨c, t, rfl, hc⟩ := h
  simp only [opens, Bool.and_eq_true] at hc
  exact skip_cons hc.1.1.1 _

theorem skip_linesText (depth : Nat) {close : Char} (hclose : beginsToken close = true)
    {lines : List (List Char)} (hlines : ∀ l ∈ lines, Opens l) (rest : List Char) :
    skip ('\n' :: linesText depth close lines rest) = some (linesFrom depth close lines rest) := by
  rw [skip_gap rfl]
  cases lines with
  | nil => rw [linesText, List.flatMap_nil, List.nil_append, skip_indent, skip_cons hclose]; rfl
  | cons l ls =>
    have hl := skip_opens (hlines l List.mem_cons_self) (',' :: '\n' :: linesText depth close ls rest)
    simp only [linesText, linesFrom, List.flatMap_cons, List.append_assoc, skip_indent,
      List.cons_append, List.nil_append] at hl ⊢
    exact hl

/-- After a value comes a comma, and then the next line. -/
theorem readSeparator_linesText (depth : Nat) {close : Char} (hclose : beginsToken close = true)
    {lines : List (List Char)} (hlines : ∀ l ∈ lines, Opens l) (rest : List Char) :
    readSeparator close (',' :: '\n' :: linesText depth close lines rest) =
      some (true, linesFrom depth close lines rest) := by
  rw [readSeparator, skip_cons (by decide)]
  simp only [Option.bind_eq_bind, Option.bind_some]
  rw [skip_linesText depth hclose hlines]
  rfl

theorem renderLines_append {lines : List (List Char)} (hne : lines ≠ []) (depth : Nat)
    (opening close : Char) (rest : List Char) :
    renderLines depth opening close lines ++ rest =
      opening :: '\n' :: linesText depth close lines rest := by
  rw [renderLines, if_neg (by simpa using hne), linesText]
  simp only [List.cons_append, List.append_assoc, List.nil_append]

theorem length_lt_renderLines {lines : List (List Char)} (hne : lines ≠ []) (depth : Nat)
    (opening close : Char) :
    (lines.map List.length).sum + 2 < (renderLines depth opening close lines).length := by
  have hsum : (lines.map List.length).sum ≤
      (lines.flatMap fun l => indent (depth + 1) ++ l ++ [',', '\n']).length := by
    clear hne
    induction lines with
    | nil => exact Nat.le_refl _
    | cons l ls ih =>
      simp only [List.map_cons, List.sum_cons, List.flatMap_cons, List.length_append] at ih ⊢
      omega
  rw [renderLines, if_neg (by simpa using hne)]
  simp only [List.length_cons, List.length_append, List.length_nil]
  omega

theorem opens_renderAll {vs : List Value} (hvs : AllStorable vs) (depth : Nat) :
    ∀ l ∈ renderAll depth vs, Opens l := by
  induction vs with
  | nil => nofun
  | cons v vs ih =>
    rw [renderAll]
    exact List.forall_mem_cons.mpr ⟨opens_render hvs.1 depth, ih hvs.2⟩

theorem opens_renderFields (fs : List (String × Value)) (depth : Nat) :
    ∀ l ∈ renderFields depth fs, Opens l := by
  induction fs with
  | nil => nofun
  | cons f fs ih =>
    obtain ⟨n, v⟩ := f
    rw [renderFields]
    obtain ⟨c, t, hword, hc⟩ := opens_renderWord n.toList
    exact List.forall_mem_cons.mpr ⟨⟨c, _, by rw [hword]; rfl, hc⟩, ih⟩

/-! ## Words that stand for themselves -/

theorem readUnbounded_of_word {w rest : List Char} (hw : String.ofList w ∉ unboundedWords)
    (htake : (w ++ rest).takeWhile isWordPart = w) : readUnbounded (w ++ rest) = none := by
  rw [readUnbounded, htake]
  refine if_neg fun hany => hw ?_
  obtain ⟨n, hn, heq⟩ := List.any_eq_true.mp hany
  obtain rfl : n = String.ofList w := by rw [← eq_of_beq heq, String.ofList_toList]
  exact hn

theorem readUnbounded_renderWord {w : String} (hw : IsCase w) {rest : List Char}
    (hrest : Ended rest) : readUnbounded (renderWord w.toList ++ rest) = none := by
  obtain ⟨⟨hne, -⟩, hreserved⟩ := hw
  rw [renderWord]
  cases hplain : isPlainWord w.toList with
  | false => rfl
  | true =>
    rw [if_pos rfl]
    rw [← String.ofList_toList (s := w)] at hreserved
    obtain ⟨c, cs, hcons⟩ := List.exists_cons_of_ne_nil hne
    rw [hcons] at hplain hreserved ⊢
    rw [isPlainWord, Bool.and_eq_true] at hplain
    cases hc : isWordPart c with
    | false =>
      rw [readUnbounded, List.cons_append, List.takeWhile_cons_of_neg (by simp [hc])]
      rfl
    | true =>
      refine readUnbounded_of_word (fun h => hreserved (List.mem_append_right _ h))
        (takeWhile_ended (fun _ => isWordPart_of_isMark) ?_ hrest)
      exact List.forall_mem_cons.mpr ⟨hc, List.all_eq_true.mp hplain.2⟩

/-- A word that is not reserved stands for itself. -/
theorem readNamed_renderWord {w : String} (hw : IsCase w) {rest : List Char} (hrest : Ended rest)
    (fuel depth : Nat) :
    readNamed (fuel + 1) depth (renderWord w.toList ++ rest) = some (.word w, rest) := by
  have hne : ∀ n ∈ reservedWords, (w.toList == n.toList) = false := by
    intro n hn
    refine beq_eq_false_iff_ne.mpr fun heq => hw.2 ?_
    rwa [String.toList_inj.mp heq]
  -- no parenthesis follows, so the word names no structure
  have hskip : ∀ inner, skip rest ≠ some ('(' :: inner) := by
    intro inner
    cases rest with
    | nil => nofun
    | cons c t =>
      have hc := hrest c rfl
      rw [skip_cons (by obtain rfl | rfl | rfl := isMark_cases hc <;> decide)]
      rintro heq
      obtain rfl : c = '(' := (List.cons.inj (Option.some.inj heq)).1
      cases hc
  rw [readNamed, readUnbounded_renderWord hw hrest]
  simp only [readWord_renderWord hw.1 hrest, Option.bind_eq_bind, Option.bind_some]
  rw [hne "true" (by decide), hne "false" (by decide), hne "None" (by decide),
    hne "Some" (by decide)]
  simp only [Bool.and_false, Bool.false_eq_true, if_false, String.ofList_toList]
  rfl

/-! ## Reading -/

/-- What stands behind a word's first character is no mark of quoted characters. -/
structure Bare (t : List Char) : Prop where
  quote : t.head? ≠ some '"'
  apostrophe : t.head? ≠ some '\x27'
  /-- Nor does one come after a hash mark or another letter. -/
  later : ∀ d u, t = d :: u → d = '#' ∨ d = 'r' → u.head? ≠ some '"' ∧ u.head? ≠ some '#'

/-- A text that begins with a word. -/
theorem readValue_named {c : Char} {t : List Char} (hc : isWordStart c = true) (ht : Bare t)
    (fuel depth : Nat) : readValue (fuel + 1) depth (c :: t) = readNamed fuel depth (c :: t) := by
  have hne : ∀ {d : Char}, isWordStart d = false → c ≠ d := fun hd => by
    rintro rfl
    rw [hc] at hd
    cases hd
  have hdigit : c.isDigit = false := by
    refine Bool.eq_false_iff.mpr fun hd => ?_
    have hnone : ∀ n : Nat, n < 10 → isWordStart (Char.ofNat (48 + n)) = false := by decide
    have hbounds := Text.isDigit_bounds hd
    have hn := hnone (c.toNat - 48) (by omega)
    rw [Nat.add_sub_cancel' hbounds.1, Char.ofNat_toNat, hc] at hn
    cases hn
  have hnumber : (c.isDigit || c == '+' || c == '-' || c == '.') = false := by
    simp [hdigit, hne (show isWordStart '+' = false by decide),
      hne (show isWordStart '-' = false by decide), hne (show isWordStart '.' = false by decide)]
  by_cases hbytes : c = 'b' ∧ ∃ u, t = 'r' :: u
  · -- a word that begins as a text of bytes does
    obtain ⟨rfl, u, rfl⟩ := hbytes
    obtain ⟨hquote, hhash⟩ := ht.later 'r' u rfl (.inr rfl)
    rw [readValue]
    simp [hquote, hhash]
  · rw [readValue, if_neg (hne (by decide)), if_neg (hne (by decide)), if_neg (hne (by decide)),
      if_neg (hne (by decide)), if_neg (hne (by decide)), hnumber]
    · rfl
    · rintro u - rfl
      exact ht.quote rfl
    · rintro u - rfl
      exact (ht.later '#' _ rfl (.inl rfl)).1 rfl
    · rintro u - rfl
      exact (ht.later '#' _ rfl (.inl rfl)).2 rfl
    · rintro u - rfl
      exact ht.quote rfl
    · rintro u - rfl
      exact ht.apostrophe rfl
    · exact fun u hb hr => hbytes ⟨hb, u, hr⟩

theorem head?_word {w rest : List Char} (hw : ∀ c ∈ w, isRawPart c = true) (hrest : Ended rest)
    {d : Char} (hd : isRawPart d = false) (hd' : isMark d = false) : (w ++ rest).head? ≠ some d := by
  intro hhead
  cases w with
  | nil =>
    rw [hrest d hhead] at hd'
    cases hd'
  | cons c w =>
    obtain rfl : c = d := Option.some.inj hhead
    rw [hw c List.mem_cons_self] at hd
    cases hd

theorem bare_renderWord {w : List Char} (hw : IsWord w) {rest : List Char} (hrest : Ended rest) :
    ∃ c t, renderWord w ++ rest = c :: t ∧ isWordStart c = true ∧ Bare t := by
  have hmarks : ∀ {u : List Char}, (∀ c ∈ u, isRawPart c = true) →
      (u ++ rest).head? ≠ some '"' ∧ (u ++ rest).head? ≠ some '#' := fun hu =>
    ⟨head?_word hu hrest (by decide) (by decide), head?_word hu hrest (by decide) (by decide)⟩
  rw [renderWord]
  cases hplain : isPlainWord w with
  | false =>
    refine ⟨'r', '#' :: (w ++ rest), rfl, by decide, by simp, by simp, ?_⟩
    intro d u heq hd
    obtain ⟨-, rfl⟩ := List.cons.inj heq
    exact hmarks hw.2
  | true =>
    obtain ⟨c, cs, rfl⟩ := List.exists_cons_of_ne_nil hw.1
    rw [isPlainWord, Bool.and_eq_true] at hplain
    have hcs : ∀ d ∈ cs, isRawPart d = true := fun d hd => hw.2 d (List.mem_cons_of_mem c hd)
    refine ⟨c, cs ++ rest, rfl, hplain.1, (hmarks hcs).1,
      head?_word hcs hrest (by decide) (by decide), ?_⟩
    rintro d u heq (rfl | rfl)
    · exact absurd (by rw [heq]; rfl) (hmarks hcs).2
    · cases cs with
      | nil => exact absurd (hrest 'r' (by rw [← List.nil_append rest, heq]; rfl)) (by decide)
      | cons e es =>
        obtain ⟨-, rfl⟩ := List.cons.inj heq
        exact hmarks fun d hd => hcs d (List.mem_cons_of_mem e hd)

theorem readValue_word {w : String} (hw : IsCase w) {rest : List Char} (hrest : Ended rest)
    {fuel : Nat} (hfuel : 2 ≤ fuel) (depth : Nat) :
    readValue fuel depth (renderWord w.toList ++ rest) = some (.word w, rest) := by
  obtain ⟨fuel, rfl⟩ := Nat.exists_eq_add_of_le' hfuel
  obtain ⟨c, t, heq, hc, ht⟩ := bare_renderWord hw.1 hrest
  rw [heq, readValue_named hc ht, ← heq, readNamed_renderWord hw hrest]

/-- The words of truth values, and the word for no value. -/
theorem readValue_constant {w : List Char} {v : Value}
    (hw : (w, v) ∈ [("true".toList, .bool true), ("false".toList, .bool false),
      ("None".toList, Value.option none)]) {fuel : Nat} (hfuel : 2 ≤ fuel) (depth : Nat)
    {rest : List Char} (hrest : Ended rest) : readValue fuel depth (w ++ rest) = some (v, rest) := by
  obtain ⟨fuel, rfl⟩ := Nat.exists_eq_add_of_le' hfuel
  have hkind : IsWord w ∧ isPlainWord w = true ∧ String.ofList w ∉ unboundedWords ∧
      w.all isWordPart = true := by
    simp only [List.mem_cons, Prod.mk.injEq, List.not_mem_nil, or_false] at hw
    obtain ⟨rfl, -⟩ | ⟨rfl, -⟩ | ⟨rfl, -⟩ := hw <;> decide
  obtain ⟨hword, hplain, hunbounded, hparts⟩ := hkind
  have hfinite : readUnbounded (w ++ rest) = none :=
    readUnbounded_of_word hunbounded (takeWhile_ended (fun _ => isWordPart_of_isMark)
      (List.all_eq_true.mp hparts) hrest)
  have hread := readWord_renderWord hword hrest
  obtain ⟨c, t, heq, hc, ht⟩ := bare_renderWord hword hrest
  rw [renderWord, if_pos hplain] at heq hread
  rw [heq, readValue_named hc ht, ← heq, readNamed, hfinite]
  simp only [hread, hplain, Option.bind_eq_bind, Option.bind_some]
  simp only [List.mem_cons, Prod.mk.injEq, List.not_mem_nil, or_false] at hw
  obtain ⟨rfl, rfl⟩ | ⟨rfl, rfl⟩ | ⟨rfl, rfl⟩ := hw <;> rfl

/-- The word that stands before a value that is there. -/
theorem readValue_some {v : Value} {cs rest : List Char} {fuel depth : Nat} (hcs : Opens cs)
    (hvalue : readValue fuel depth (cs ++ ')' :: rest) = some (v, ')' :: rest)) :
    readValue (fuel + 2) (depth + 1) ("Some(".toList ++ (cs ++ ')' :: rest)) =
      some (.option (some v), rest) := by
  have hbare : Bare ("ome(".toList ++ (cs ++ ')' :: rest)) :=
    ⟨nofun, nofun, fun d u heq hd => by
      obtain rfl : 'o' = d := (List.cons.inj heq).1
      exact absurd hd (by decide)⟩
  have hnamed : readValue (fuel + 2) (depth + 1) ("Some(".toList ++ (cs ++ ')' :: rest)) =
      readNamed (fuel + 1) (depth + 1) ("Some(".toList ++ (cs ++ ')' :: rest)) :=
    readValue_named (show isWordStart 'S' = true by decide) hbare (fuel + 1) (depth + 1)
  have hfinite : readUnbounded ("Some(".toList ++ (cs ++ ')' :: rest)) = none := rfl
  have hword : readWord ("Some(".toList ++ (cs ++ ')' :: rest)) =
      some ("Some".toList, false, '(' :: (cs ++ ')' :: rest)) := rfl
  have hclosed : skip (')' :: rest) = some (')' :: rest) := skip_cons (by decide) rest
  have hopened : expect '(' ('(' :: (cs ++ ')' :: rest)) = some (cs ++ ')' :: rest) := by
    rw [expect, if_pos rfl, skip_opens hcs]
  have hgap : skip ('(' :: (cs ++ ')' :: rest)) = some ('(' :: (cs ++ ')' :: rest)) :=
    skip_cons (by decide) _
  rw [hnamed, readNamed, hfinite]
  simp only [hword, Option.bind_eq_bind, Option.bind_some]
  rw [if_neg (by decide), if_neg (by decide), if_neg (by decide), if_pos (by decide)]
  simp only [hgap, hopened, hvalue, hclosed, Option.bind_some]
  rfl

theorem readValue_digits (n : Nat) {fuel : Nat} (hfuel : 1 ≤ fuel) (depth : Nat) {rest : List Char}
    (hrest : Ended rest) :
    readValue fuel depth (Nat.toDigits 10 n ++ rest) = some (.number ⟨false, n, ""⟩, rest) := by
  obtain ⟨fuel, rfl⟩ := Nat.exists_eq_add_of_le' hfuel
  have hread := readNumber_toDigits n hrest
  obtain ⟨c, t, hcons⟩ := List.exists_cons_of_ne_nil (Nat.toDigits_ne_nil (b := 10) (n := n))
  have hc : c.isDigit = true :=
    Nat.isDigit_of_mem_toDigits (by decide) (Nat.le_refl _) (hcons ▸ List.mem_cons_self)
  rw [hcons, List.cons_append] at hread ⊢
  rw [readValue, if_neg (ne_of_isDigit hc (by decide)), if_neg (ne_of_isDigit hc (by decide)),
    if_neg (ne_of_isDigit hc (by decide)), if_neg (ne_of_isDigit hc (by decide)),
    if_neg (ne_of_isDigit hc (by decide)), hc]
  · exact hread
  -- a digit is no letter of a mark
  all_goals
    rintro _ rfl
    cases hc

theorem readValue_quoteChars (s : String) {fuel : Nat} (hfuel : 1 ≤ fuel) (depth : Nat)
    (rest : List Char) :
    readValue fuel depth (Text.quoteChars .strict s.toList ++ rest) = some (.text s, rest) := by
  obtain ⟨fuel, rfl⟩ := Nat.exists_eq_add_of_le' hfuel
  have hread := readQuoted_quoteChars s.toList rest
  rw [Text.quoteChars, List.cons_append, List.append_assoc, List.singleton_append, readValue,
    if_pos rfl, hread, Option.map_some, String.ofList_toList]
  all_goals exact fun _ heq => absurd heq (by decide)

/-- Values between brackets. -/
theorem readValue_brackets {vs : List Value} {lines : List (List Char)} (hne : lines ≠ [])
    (hlines : ∀ l ∈ lines, Opens l) {fuel depth d : Nat} {rest : List Char}
    (hitems : readItems fuel depth ']' (linesFrom d ']' lines rest) = some (vs, rest)) :
    readValue (fuel + 1) depth (renderLines d '[' ']' lines ++ rest) = some (.list vs, rest) := by
  rw [renderLines_append hne, readValue, if_neg (by decide), if_neg (by decide), if_pos rfl]
  simp only [Option.bind_eq_bind, skip_linesText d (show beginsToken ']' = true by decide) hlines,
    Option.bind_some, hitems]
  · rfl
  all_goals exact fun _ heq => absurd heq (by decide)

/-- A field begins with a word and a colon. -/
theorem startsField_renderWord {n : List Char} (hn : IsWord n) (rest : List Char) :
    startsField (renderWord n ++ ':' :: rest) = true := by
  rw [startsField, readWord_renderWord hn (.cons rfl rest)]
  simp only [skip_cons (show beginsToken ':' = true by decide)]

/-- Fields between parentheses. -/
theorem readValue_parens {fs : List (String × Value)} {n : List Char} (hn : IsWord n)
    {value : List Char} {lines : List (List Char)}
    (hlines : ∀ l ∈ (renderWord n ++ ':' :: value) :: lines, Opens l) {fuel depth d : Nat}
    {rest : List Char}
    (hfields : readFields fuel depth (linesFrom d ')' ((renderWord n ++ ':' :: value) :: lines) rest) =
      some (fs, rest)) :
    readValue (fuel + 2) depth
      (renderLines d '(' ')' ((renderWord n ++ ':' :: value) :: lines) ++ rest) =
        some (.fields none fs, rest) := by
  have hstarts : startsField (linesFrom d ')' ((renderWord n ++ ':' :: value) :: lines) rest) = true := by
    rw [linesFrom, List.append_assoc]
    exact startsField_renderWord hn _
  rw [renderLines_append (List.cons_ne_nil _ _), readValue, if_neg (by decide), if_neg (by decide),
    if_neg (by decide), if_neg (by decide), if_pos rfl, readParens]
  simp only [Option.bind_eq_bind, skip_linesText d (show beginsToken ')' = true by decide) hlines,
    Option.bind_some, hstarts, if_true, hfields]
  · rfl
  all_goals exact fun _ heq => absurd heq (by decide)

mutual

/-- **A value is read as it was stored**, whatever comes behind the mark that ends it. -/
theorem readValue_render (v : Value) (d : Nat) {fuel depth : Nat} {rest : List Char}
    (hv : v.Storable) (hdepth : v.height ≤ depth) (hfuel : 2 * (render d v).length ≤ fuel)
    (hrest : Ended rest) : readValue fuel depth (render d v ++ rest) = some (v.unnamed, rest) := by
  obtain ⟨c, t, hcons, -⟩ := opens_render hv d
  have hlength : 0 < (render d v).length := by rw [hcons]; exact Nat.succ_pos _
  cases v with
  | bool b =>
    cases b with
    | true => exact readValue_constant List.mem_cons_self (by omega) depth hrest
    | false =>
      exact readValue_constant (List.mem_cons_of_mem _ List.mem_cons_self) (by omega) depth hrest
  | number n =>
    obtain ⟨negative, magnitude, suffix⟩ := n
    obtain ⟨rfl, rfl⟩ : negative = false ∧ suffix = "" := hv
    rw [render, Numeral.render, if_neg Bool.false_ne_true, List.nil_append, String.toList_empty,
      List.append_nil]
    exact readValue_digits magnitude (by omega) depth hrest
  | text s => exact readValue_quoteChars s (by omega) depth rest
  | word w => exact readValue_word hv hrest (by omega) depth
  | option o =>
    cases o with
    | none =>
      exact readValue_constant (List.mem_cons_of_mem _ (List.mem_cons_of_mem _ List.mem_cons_self))
        (by omega) depth hrest
    | some v =>
      obtain ⟨fuel, rfl⟩ := Nat.exists_eq_add_of_le' (show 2 ≤ fuel by omega)
      obtain ⟨depth, rfl⟩ := Nat.exists_eq_add_of_le' (Nat.le_trans (Nat.le_add_left 1 _) hdepth)
      have hshort : 2 * (render d v).length ≤ fuel := by
        have hfour : "Some(".toList.length = 5 := rfl
        rw [render, List.length_append, List.length_append, hfour, List.length_singleton] at hfuel
        omega
      have hinner := readValue_render v d hv (Nat.le_of_succ_le_succ hdepth) hshort
        (.cons (show isMark ')' = true by decide) rest)
      rw [render, List.append_assoc, List.append_assoc, List.singleton_append]
      exact readValue_some (opens_render (v := v) hv d) hinner
  | list vs =>
    obtain ⟨fuel, rfl⟩ := Nat.exists_eq_add_of_le' (show 1 ≤ fuel by omega)
    obtain ⟨depth, rfl⟩ := Nat.exists_eq_add_of_le' (Nat.le_trans (Nat.le_add_left 1 _) hdepth)
    cases vs with
    | nil =>
      have hopened : render d (.list []) ++ rest = '[' :: ']' :: rest := by
        rw [render, renderAll, renderLines]
        rfl
      obtain ⟨fuel, rfl⟩ := Nat.exists_eq_add_of_le' (show 1 ≤ fuel by
        rw [render, renderAll, renderLines] at hfuel
        simp at hfuel
        omega)
      rw [hopened, readValue, if_neg (by decide), if_neg (by decide), if_pos rfl,
        skip_cons (by decide), Option.bind_eq_bind, Option.bind_some, readItems]
      · rfl
      all_goals exact fun _ heq => absurd heq (by decide)
    | cons v vs =>
      have hne : renderAll (d + 1) (v :: vs) ≠ [] := by
        rw [renderAll]
        exact List.cons_ne_nil _ _
      have hlong := length_lt_renderLines hne d '[' ']'
      rw [render] at hfuel ⊢
      exact readValue_brackets hne (opens_renderAll hv (d + 1))
        (readItems_render (v :: vs) d hv (Nat.le_of_succ_le_succ hdepth) (by omega))
  | fields name fs =>
    obtain ⟨hne, hfs⟩ := hv
    obtain ⟨fuel, rfl⟩ := Nat.exists_eq_add_of_le' (show 2 ≤ fuel by omega)
    obtain ⟨depth, rfl⟩ := Nat.exists_eq_add_of_le' (Nat.le_trans (Nat.le_add_left 1 _) hdepth)
    obtain ⟨⟨n, v⟩, fs, rfl⟩ := List.exists_cons_of_ne_nil hne
    have hsome : renderFields (d + 1) ((n, v) :: fs) ≠ [] := by
      rw [renderFields]
      exact List.cons_ne_nil _ _
    have hlong := length_lt_renderLines hsome d '(' ')'
    have hlines := opens_renderFields ((n, v) :: fs) (d + 1)
    rw [render] at hfuel ⊢
    have hfields : readFields fuel (depth + 1) (linesFrom d ')' _ rest) = _ :=
      readFields_render ((n, v) :: fs) d hfs (Nat.le_of_succ_le_succ hdepth) (by omega)
    rw [renderFields] at hlines hfields ⊢
    exact readValue_parens hfs.1 hlines hfields
  | decimal | raw | map | tuple => cases hv

theorem readItems_render (vs : List Value) (d : Nat) {fuel depth : Nat} {rest : List Char}
    (hvs : AllStorable vs) (hdepth : heightAll vs ≤ depth)
    (hfuel : 2 * ((renderAll (d + 1) vs).map List.length).sum + 1 ≤ fuel) :
    readItems fuel (depth + 1) ']' (linesFrom d ']' (renderAll (d + 1) vs) rest) =
      some (unnamedAll vs, rest) := by
  obtain ⟨fuel, rfl⟩ := Nat.exists_eq_add_of_le' (Nat.le_trans (Nat.le_add_left 1 _) hfuel)
  cases vs with
  | nil => rw [readItems, renderAll, linesFrom]; rfl
  | cons v vs =>
    obtain ⟨hv, hvs⟩ := hvs
    obtain ⟨hheight, hheights⟩ := Nat.max_le.mp hdepth
    simp only [renderAll, List.map_cons, List.sum_cons] at hfuel
    obtain ⟨c, t, hcons, hc⟩ := opens_render hv (d + 1)
    have hlength : 0 < (render (d + 1) v).length := by rw [hcons]; exact Nat.succ_pos _
    have hopen : (linesFrom d ']' (renderAll (d + 1) (v :: vs)) rest).head? ≠ some ']' := by
      rw [renderAll, linesFrom, hcons]
      rintro heq
      obtain rfl : c = ']' := Option.some.inj heq
      cases hc
    rw [readItems, if_neg hopen, renderAll, linesFrom,
      readValue_render v (d + 1) hv hheight (by omega) (.cons rfl _)]
    simp only [Option.bind_eq_bind, Option.bind_some]
    rw [readSeparator_linesText d rfl (opens_renderAll hvs (d + 1))]
    simp only [Option.bind_some, if_true]
    rw [readItems_render vs d hvs hheights (by omega)]
    rfl

theorem readFields_render (fs : List (String × Value)) (d : Nat) {fuel depth : Nat}
    {rest : List Char} (hfs : FieldsStorable fs) (hdepth : heightFields fs ≤ depth)
    (hfuel : 2 * ((renderFields (d + 1) fs).map List.length).sum + 1 ≤ fuel) :
    readFields fuel (depth + 1) (linesFrom d ')' (renderFields (d + 1) fs) rest) =
      some (unnamedFields fs, rest) := by
  obtain ⟨fuel, rfl⟩ := Nat.exists_eq_add_of_le' (Nat.le_trans (Nat.le_add_left 1 _) hfuel)
  cases fs with
  | nil => rw [readFields, renderFields, linesFrom]; rfl
  | cons f fs =>
    obtain ⟨n, v⟩ := f
    obtain ⟨hn, hv, hfs⟩ := hfs
    obtain ⟨hheight, hheights⟩ := Nat.max_le.mp hdepth
    simp only [renderFields, List.map_cons, List.sum_cons, List.length_append,
      List.length_cons] at hfuel
    have hopen : (linesFrom d ')' (renderFields (d + 1) ((n, v) :: fs)) rest).head? ≠ some ')' := by
      obtain ⟨c, t, hcons, hc⟩ := opens_renderWord n.toList
      rw [renderFields, linesFrom, hcons]
      rintro heq
      obtain rfl : c = ')' := Option.some.inj heq
      cases hc
    have hcolon : ∀ cs, expect ':' (':' :: ' ' :: (render (d + 1) v ++ cs)) =
        some (render (d + 1) v ++ cs) := by
      intro cs
      rw [expect, if_pos rfl, skip_gap rfl, skip_opens (opens_render hv (d + 1))]
    have hword := readWord_renderWord hn (.cons (show isMark ':' = true by decide)
      (' ' :: (render (d + 1) v ++ ',' :: '\n' :: linesText d ')' (renderFields (d + 1) fs) rest)))
    rw [readFields, if_neg hopen, renderFields, linesFrom, List.append_assoc]
    simp only [List.cons_append, hword, Option.bind_eq_bind, Option.bind_some,
      skip_cons (show beginsToken ':' = true by decide), hcolon]
    rw [readValue_render v (d + 1) hv hheight (by omega) (.cons rfl _)]
    simp only [Option.bind_some,
      readSeparator_linesText d (show beginsToken ')' = true by decide)
        (opens_renderFields fs (d + 1)), if_true]
    rw [readFields_render fs d hfs hheights (by omega), String.ofList_toList]
    rfl

end

/-- **A stored text is read as the value it was made from**, without the names of structures. -/
theorem read_render {v : Value} (hv : v.Storable) (hdepth : v.height ≤ nestingLimit) :
    read (render 0 v) = some (⟨false, false⟩, v.unnamed) := by
  have hopens := opens_render hv 0
  have hskip := skip_opens hopens []
  have hvalue : readValue (4 * ((render 0 v).length + 1)) nestingLimit (render 0 v ++ []) = _ :=
    readValue_render v 0 hv hdepth (by omega) nofun
  rw [List.append_nil] at hskip hvalue
  have hprologue : readPrologue ((render 0 v).length + 1) ⟨false, false⟩ (render 0 v) =
      some (⟨false, false⟩, render 0 v) := by
    obtain ⟨c, t, hcons, hc⟩ := hopens
    rw [readPrologue, hskip, hcons]
    simp only [Option.bind_eq_bind, Option.bind_some]
    split
    next heq =>
      obtain rfl := (List.cons.inj heq).1
      cases hc
    next => rfl
  rw [read]
  simp only [hprologue, Option.bind_eq_bind, Option.bind_some, hvalue]
  rfl

end Decompile.Ron
