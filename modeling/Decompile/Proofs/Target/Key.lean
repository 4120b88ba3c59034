import Decompile.Job.Submission
import Decompile.Proofs.Disk.Paths
import Decompile.Proofs.Text.Ascii
import Decompile.Target.Key

/-!
# Keys for archives

The key of an archive is its slug with a short hash behind it. The hash is taken of the slug alone,
so it says nothing new: which archives share a target is decided by the words of their names.

- `Sha256.length_sha256`: how long a digest is, whatever it is taken of.
- `words`: the words of a name, read off its pieces between other characters.
- `slug_eq`, `words_slug`: the slug joins the words, and they are read off the slug again.
- `IsDigest`, `isDigest_shortHash`: what stands behind the last dash.
- `KeyLaw`, `keys_identify_slugs`: keys are well formed, are accepted for a target, and are equal for equal
  words only; this holds whatever the hash is.
-/

namespace Decompile.Sha256

/-! ## The length of a digest -/

theorem length_round (s : List UInt32) (kw : UInt32 × UInt32) : (round s kw).length = s.length := by
  unfold round
  split <;> rfl

theorem length_foldl_round (kws : List (UInt32 × UInt32)) (s : List UInt32) :
    (kws.foldl round s).length = s.length := by
  induction kws generalizing s with
  | nil => rfl
  | cons kw kws ih => rw [List.foldl_cons, ih, length_round]

theorem length_compress (s block : List UInt32) : (compress s block).length = s.length := by
  rw [compress, List.length_zipWith, length_foldl_round, min_self]

theorem length_digestWords (n : Nat) (s ws : List UInt32) :
    (digestWords n s ws).length = s.length := by
  induction n generalizing s ws with
  | zero => rfl
  | succ n ih => rw [digestWords, ih, length_compress]

theorem length_bigEndian (n v : Nat) : (bigEndian n v).length = n := by
  induction n generalizing v with
  | zero => rfl
  | succ n ih => rw [bigEndian, List.length_append, ih, List.length_singleton]

/-- A digest has 32 bytes. -/
theorem length_sha256 (bs : List UInt8) : (sha256 bs).length = 32 := by
  rw [sha256, List.length_flatMap]
  simp only [length_bigEndian, List.map_const', List.sum_replicate_nat, length_digestWords]
  rfl

end Decompile.Sha256

namespace Decompile.Target

/-! ## Words -/

/-- A small letter or a digit, in ASCII. -/
def isSmall (c : Char) : Bool := c.isLower || c.isDigit

/-- Some small letters and digits. -/
structure IsWord (w : List Char) : Prop where
  ne_nil : w ≠ []
  small : ∀ c ∈ w, isSmall c

/-- The pieces of a text between characters that are neither letters nor digits. -/
def pieces (name : List Char) : List (List Char) := name.splitOnP (!Text.isAlnum ·)

/-- The words of a name, in small letters; a name without any has the word for archives. -/
def words (name : List Char) : List (List Char) :=
  match (pieces name).filter (· ≠ []) with
  | [] => [emptySlug]
  | ps => ps.map Text.lower

/-- What goes into the key of a file name: the last component. -/
def baseOf (fileName : String) : List Char := ((FilePath.mk fileName).fileName?.getD "").toList

variable {c : Char} {w : List Char} {ws : List (List Char)} {name : List Char}

/-- A text starts with the letters and digits of its first piece. -/
theorem head_pieces (name : List Char) :
    ∃ ps, pieces name = name.takeWhile Text.isAlnum :: ps := by
  induction name with
  | nil => exact ⟨[], List.splitOnP_nil⟩
  | cons c cs ih =>
    rw [pieces, List.splitOnP_cons_eq_if_modifyHead, List.takeWhile_cons]
    cases Text.isAlnum c with
    | false => exact ⟨_, rfl⟩
    | true =>
      obtain ⟨ps, hps⟩ := ih
      rw [pieces] at hps
      exact ⟨ps, by simp [hps]⟩

/-- The runs of a name are its pieces, empty ones aside. -/
theorem runs_eq (name : List Char) : runs name = (pieces name).filter (· ≠ []) := by
  induction name with
  | nil => rfl
  | cons c cs ih =>
    obtain ⟨ps, hps⟩ := head_pieces cs
    rw [runs, pieces, List.splitOnP_cons_eq_if_modifyHead, ← pieces, ih, hps]
    by_cases hc : Text.isAlnum c
    · -- the first piece goes on in `cs` if a letter or digit comes next, and is complete otherwise
      cases cs with
      | nil => simp [hc]
      | cons d ds =>
        by_cases hd : Text.isAlnum d <;> simp [hc, hd]
    · simp [hc]

/-! ## Small letters -/

theorem isSmall_iff : isSmall c = true ↔
    0x61 ≤ c.toNat ∧ c.toNat ≤ 0x7A ∨ 0x30 ≤ c.toNat ∧ c.toNat ≤ 0x39 := by
  have hlower : c.isLower = (decide (c.val ≥ 'a'.val) && decide (c.val ≤ 'z'.val)) := rfl
  have hdigit : c.isDigit = (decide (c.val ≥ '0'.val) && decide (c.val ≤ '9'.val)) := rfl
  simp only [isSmall, hlower, hdigit, Bool.or_eq_true, Bool.and_eq_true,
    decide_eq_true_eq, UInt32.le_iff_toNat_le, ge_iff_le]
  rfl

theorem isAlnum_iff : Text.isAlnum c = true ↔
    (0x41 ≤ c.toNat ∧ c.toNat ≤ 0x5A) ∨ isSmall c = true := by
  have halnum : Text.isAlnum c = ((c.isUpper || c.isLower) || c.isDigit) := rfl
  have hupper : c.isUpper = decide (c.val ≥ 'A'.val ∧ c.val ≤ 'Z'.val) := rfl
  simp only [halnum, hupper, isSmall, Bool.or_eq_true,
    decide_eq_true_eq, UInt32.le_iff_toNat_le, ge_iff_le, or_assoc]
  rfl

theorem isAlnum_of_isSmall (hc : isSmall c = true) : Text.isAlnum c = true :=
  isAlnum_iff.mpr (.inr hc)

theorem toLower_of_isSmall (hc : isSmall c = true) : c.toLower = c := by
  refine Text.toLower_of_not_capital fun hcapital => ?_
  have := isSmall_iff.mp hc
  omega

theorem isSmall_toLower (hc : Text.isAlnum c = true) : isSmall c.toLower = true := by
  rcases isAlnum_iff.mp hc with hcapital | hsmall
  · have hlower := Text.toNat_toLower hcapital
    exact isSmall_iff.mpr (by omega)
  · rwa [toLower_of_isSmall hsmall]

/-! ## The words and the slug -/

theorem IsWord.isAlnum (hw : IsWord w) : ∀ c ∈ w, Text.isAlnum c = true :=
  fun c hc => isAlnum_of_isSmall (hw.small c hc)

theorem IsWord.lower (hw : IsWord w) : Text.lower w = w :=
  (List.map_congr_left fun c hc => toLower_of_isSmall (hw.small c hc)).trans (List.map_id' w)

theorem isWord_emptySlug : IsWord emptySlug := ⟨by decide, List.all_eq_true.mp (by decide)⟩

/-- A word holds the letters and digits of a piece, and nothing else. -/
theorem isAlnum_of_mem_pieces {p : List Char} (hp : p ∈ pieces name) :
    ∀ c ∈ p, Text.isAlnum c = true := by
  induction name generalizing p with
  | nil =>
    rw [pieces, List.splitOnP_nil, List.mem_singleton] at hp
    simp [hp]
  | cons c cs ih =>
    obtain ⟨ps, hps⟩ := head_pieces cs
    rw [pieces, List.splitOnP_cons_eq_if_modifyHead, ← pieces] at hp
    cases hc : Text.isAlnum c with
    | false =>
      rw [hc] at hp
      rcases List.mem_cons.mp hp with rfl | hp
      · simp
      · exact ih hp
    | true =>
      simp only [hc, hps, Bool.not_true, Bool.false_eq_true, if_false, List.modifyHead_cons] at hp
      rcases List.mem_cons.mp hp with rfl | hp
      · rintro d (_ | ⟨_, hd⟩)
        · exact hc
        · exact ih (hps ▸ List.mem_cons_self) d hd
      · exact ih (hps ▸ List.mem_cons_of_mem _ hp)

theorem isWord_of_mem_words (hw : w ∈ words name) : IsWord w := by
  rw [words] at hw
  split at hw
  · rw [List.mem_singleton.mp hw]
    exact isWord_emptySlug
  · obtain ⟨p, hp, rfl⟩ := List.mem_map.mp hw
    obtain ⟨hp, hne⟩ := List.mem_filter.mp hp
    refine ⟨by simpa [Text.lower] using hne, fun c hc => ?_⟩
    obtain ⟨d, hd, rfl⟩ := List.mem_map.mp hc
    exact isSmall_toLower (isAlnum_of_mem_pieces hp d hd)

theorem words_ne_nil (name : List Char) : words name ≠ [] := by
  rw [words]
  cases (pieces name).filter (· ≠ []) with
  | nil => nofun
  | cons p ps => nofun

/-- The slug is the words with dashes between them. -/
theorem slug_eq (name : List Char) : slug name = Text.joinWith ['-'] (words name) := by
  rw [slug, words, runs_eq]
  cases (pieces name).filter (· ≠ []) with
  | nil => rfl
  | cons p ps => rfl

/-- Words with dashes between them are found again. -/
theorem pieces_joinWith (hne : ws ≠ []) (hws : ∀ w ∈ ws, IsWord w) :
    pieces (Text.joinWith ['-'] ws) = ws := by
  have halone : ∀ w, IsWord w → pieces w = [w] := fun w hw =>
    List.splitOnP_eq_singleton fun c hc => by simp [hw.isAlnum c hc]
  induction ws with
  | nil => exact absurd rfl hne
  | cons w ws ih =>
    have hw := halone w (hws w List.mem_cons_self)
    cases ws with
    | nil => exact hw
    | cons v vs =>
      have hrest := ih nofun fun u hu => hws u (List.mem_cons_of_mem _ hu)
      rw [Text.joinWith, List.append_assoc, List.singleton_append, pieces,
        List.splitOnP_append_cons _ _ (by decide), ← pieces, ← pieces, hw, hrest]
      · rfl
      · nofun

/-- The words of a name are read off its slug. -/
theorem words_slug (name : List Char) : words (slug name) = words name := by
  have hws : ∀ w ∈ words name, IsWord w := fun w => isWord_of_mem_words
  have hkept : (words name).filter (· ≠ []) = words name :=
    List.filter_eq_self.mpr fun w hw => by simpa using (hws w hw).ne_nil
  have hlower : (words name).map Text.lower = words name :=
    List.map_congr_left (fun w hw => (hws w hw).lower) |>.trans (List.map_id' _)
  rw [slug_eq, words, pieces_joinWith (words_ne_nil name) hws, hkept]
  split
  · exact absurd ‹_› (words_ne_nil name)
  · exact hlower

theorem slug_inj {a b : List Char} : slug a = slug b ↔ words a = words b := by
  constructor
  · intro h
    rw [← words_slug a, h, words_slug]
  · intro h
    rw [slug_eq, slug_eq, h]

/-- A slug is its own slug. -/
theorem slug_slug (name : List Char) : slug (slug name) = slug name :=
  slug_inj.mpr (words_slug name)

/-- What a slug is made of. -/
theorem mem_slug (hc : c ∈ slug name) : isSmall c = true ∨ c = '-' := by
  rw [slug_eq] at hc
  have hws : ∀ w ∈ words name, IsWord w := fun w => isWord_of_mem_words
  generalize words name = ws at hc hws
  induction ws with
  | nil => cases hc
  | cons w ws ih =>
    have hw := (hws w List.mem_cons_self).small c
    cases ws with
    | nil => exact .inl (hw hc)
    | cons v vs =>
      rw [Text.joinWith, List.mem_append, List.mem_append, List.mem_singleton] at hc
      · rcases hc with (hc | hc) | hc
        · exact .inl (hw hc)
        · exact .inr hc
        · exact ih hc fun u hu => hws u (List.mem_cons_of_mem _ hu)
      · exact List.cons_ne_nil _ _

/-! ## The hash -/

/-- Eight digits of base 16, the letters small. -/
structure IsDigest (digits : List Char) : Prop where
  length_eq : digits.length = 8
  digit : ∀ c ∈ digits, c ∈ "0123456789abcdef".toList

theorem isSmall_of_digit (hc : c ∈ "0123456789abcdef".toList) : isSmall c = true :=
  List.all_eq_true.mp (by decide : "0123456789abcdef".toList.all isSmall = true) c hc

theorem digit_of_mem_hexPair {b : UInt8} (hc : c ∈ hexPair b) :
    c ∈ "0123456789abcdef".toList := by
  have hdigit : ∀ n < 16, Nat.digitChar n ∈ "0123456789abcdef".toList := by decide
  have hb := b.toNat_lt
  rcases List.mem_cons.mp hc with rfl | hc
  · exact hdigit _ (by omega)
  · rw [List.mem_singleton.mp hc]
    exact hdigit _ (by omega)

theorem isDigest_shortHash (cs : List Char) : IsDigest (shortHash cs) := by
  refine ⟨?_, fun c hc => ?_⟩
  · rw [shortHash, List.length_flatMap]
    simp only [hexPair, List.length_cons, List.length_nil, List.map_const', List.sum_replicate_nat,
      List.length_take, Sha256.length_sha256]
    rfl
  · obtain ⟨b, -, hb⟩ := List.mem_flatMap.mp hc
    exact digit_of_mem_hexPair hb

/-! ## Keys -/

/-- What holds of the keys that file names get. -/
structure KeyLaw (key : String → String) : Prop where
  /-- A key is some words and a digest, with single dashes between them. -/
  shape : ∀ fileName, ∃ ws digest, (key fileName).toList = Text.joinWith ['-'] ws ++ '-' :: digest ∧
    ws ≠ [] ∧ (∀ w ∈ ws, IsWord w) ∧ IsDigest digest
  /-- A request that names the key is not refused for it. -/
  valid : ∀ fileName, isTargetKey (key fileName) = true
  /-- Only the last component of the name counts. -/
  last : ∀ a b, (FilePath.mk a).fileName? = (FilePath.mk b).fileName? → key a = key b
  /-- Only its words count, and they all do. -/
  identifies : ∀ a b, key a = key b ↔ words (baseOf a) = words (baseOf b)
  /-- Names with one slug have one key. -/
  of_slug : ∀ a b, slug (baseOf a) = slug (baseOf b) → key a = key b

variable {hash : List Char → List Char}

theorem toList_keyWith (fileName : String) : (keyWith hash fileName).toList =
    slug (baseOf fileName) ++ '-' :: hash (slug (baseOf fileName)) :=
  String.toList_ofList

theorem keyWith_congr {a b : String} (h : slug (baseOf a) = slug (baseOf b)) :
    keyWith hash a = keyWith hash b := by
  rw [keyWith, keyWith, ← baseOf, ← baseOf, h]

/-- The slug is what stands before the last nine characters of the key. -/
theorem slug_of_keyWith (hhash : ∀ cs, IsDigest (hash cs)) {a b : String}
    (h : keyWith hash a = keyWith hash b) : slug (baseOf a) = slug (baseOf b) := by
  have htext := congrArg String.toList h
  rw [toList_keyWith, toList_keyWith] at htext
  refine (List.append_inj' htext ?_).1
  rw [List.length_cons, List.length_cons, (hhash _).length_eq, (hhash _).length_eq]

/-- The characters of a key are no separators of paths, and there are more than two of them. -/
theorem isTargetKey_keyWith (hhash : ∀ cs, IsDigest (hash cs)) (fileName : String) :
    isTargetKey (keyWith hash fileName) = true := by
  have htext : (keyWith hash fileName).toList = _ := toList_keyWith fileName
  have hlong : 9 ≤ (keyWith hash fileName).toList.length := by
    rw [htext, List.length_append, List.length_cons, (hhash _).length_eq]
    omega
  have hplain : ∀ c ∈ (keyWith hash fileName).toList, isSmall c = true ∨ c = '-' := by
    intro c hc
    rw [htext, List.mem_append, List.mem_cons] at hc
    rcases hc with hc | rfl | hc
    · exact mem_slug hc
    · exact .inr rfl
    · exact .inl (isSmall_of_digit ((hhash _).digit c hc))
  have hsafe : (keyWith hash fileName).toList.any
      (fun c => c == '/' || c == '\\' || c == '\x00') = false := by
    refine List.any_eq_false.mpr fun c hc hseparator => ?_
    rw [Bool.or_eq_true, Bool.or_eq_true, beq_iff_eq, beq_iff_eq, beq_iff_eq] at hseparator
    rcases hseparator with (rfl | rfl) | rfl <;> exact absurd (hplain _ hc) (by decide)
  have hne : ∀ s : String, s.toList.length < 9 → keyWith hash fileName ≠ s := by
    rintro s hs rfl
    omega
  rw [isTargetKey, hsafe, decide_eq_true (hne "" (by decide)), decide_eq_true (hne "." (by decide)),
    decide_eq_true (hne ".." (by decide))]
  rfl

/-- Whatever the hash is, keys tell names apart by their words. -/
theorem keyLaw_keyWith (hhash : ∀ cs, IsDigest (hash cs)) : KeyLaw (keyWith hash) where
  shape fileName := ⟨words (baseOf fileName), hash (slug (baseOf fileName)),
    by rw [toList_keyWith, slug_eq], words_ne_nil _, fun w => isWord_of_mem_words, hhash _⟩
  valid := isTargetKey_keyWith hhash
  last a b h := keyWith_congr (by rw [baseOf, baseOf, h])
  identifies a b := by
    constructor
    · exact fun h => slug_inj.mp (slug_of_keyWith hhash h)
    · exact fun h => keyWith_congr (slug_inj.mpr h)
  of_slug a b := keyWith_congr

/-- The keys of archives are usable, and they identify the slug of the name, whatever hash stands
behind it. -/
theorem keys_identify_slugs :
    (∀ name, slug (slug name) = slug name) ∧ KeyLaw keyOf ∧
      ∀ hash, (∀ cs, IsDigest (hash cs)) → KeyLaw (keyWith hash) :=
  ⟨slug_slug, keyLaw_keyWith isDigest_shortHash, fun _ => keyLaw_keyWith⟩

/-- Two spellings of one name share a target, with a hash that knows them all alike. -/
theorem keys_identify_slugs_spellings :
    (∀ cs, IsDigest ((fun _ : List Char => "0123abcd".toList) cs)) ∧
      keyWith (fun _ => "0123abcd".toList) "/downloads/My Library-1.2.jar" =
        keyWith (fun _ => "0123abcd".toList) "MY_LIBRARY__1 2.JAR" :=
  have hdigest : IsDigest "0123abcd".toList := ⟨by decide, by simp⟩
  ⟨fun _ => hdigest, ((keys_identify_slugs.2.2 _ fun _ => hdigest).identifies _ _).mpr (by decide)⟩

end Decompile.Target
