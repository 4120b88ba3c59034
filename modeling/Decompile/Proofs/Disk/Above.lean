import Decompile.Proofs.Disk.Ways

/-!
# Paths above a path

Directories are made from the lowest one that is missing upwards, so with a path all those above it
come into play: the first steps of it.

- `FilePath.steps_parent?`, `isAbsolute_parent?`: what the path above another one is.
- `Place.stays_of_prefix`: the first of some steps that stay.
- `FilePath.Leads.ne_nil_of_plain`: a path that ends with a name leads to something below.
-/

namespace Decompile

theorem Place.stays_of_prefix {a b : List String} (h : a <+: b) {depth : Nat}
    (hb : stays depth b = true) : stays depth a = true := by
  obtain ⟨rest, rfl⟩ := h
  induction a generalizing depth with
  | nil => rfl
  | cons n a ih =>
    rw [List.cons_append] at hb
    unfold stays at hb ⊢
    split at hb
    · next hup =>
      rw [if_pos hup]
      cases depth with
      | zero => cases hb
      | succ depth => exact ih hb
    · next hup =>
      rw [if_neg hup]
      exact ih hb

namespace FilePath

/-- A path starts at the root if something follows its first piece, which is empty. -/
theorem isAbsolute_iff_pieces {p : FilePath} :
    p.isAbsolute = true ↔ ∃ ps, ps ≠ [] ∧ p.pieces = [] :: ps := by
  unfold isAbsolute pieces
  rw [beq_iff_eq]
  cases p.text.toList with
  | nil =>
    constructor
    · intro h
      cases h
    · rintro ⟨ps, hne, h⟩
      exact absurd (List.cons.inj h).2.symm hne
  | cons c cs =>
    rw [List.head?_cons, Option.some_inj]
    constructor
    · rintro rfl
      refine ⟨Text.pieces '/' cs, Text.pieces_ne_nil cs, ?_⟩
      rw [Text.pieces, if_pos rfl]
    · rintro ⟨ps, -, h⟩
      refine Decidable.byContradiction fun hc => ?_
      rw [Text.pieces, if_neg hc] at h
      split at h
      · cases (List.cons.inj h).1
      · cases (List.cons.inj h).1

theorem isIdlePiece_iff {piece : List Char} :
    isIdlePiece piece = true ↔ piece = [] ∨ piece = ['.'] := by
  simp [isIdlePiece]

/-- The text of the pieces up to one that counts is a path of the first steps. -/
theorem steps_of_pieces {p : FilePath} {front : List (List Char)} (hfront : front <+: p.pieces)
    (hlast : ∀ x, front.getLast? = some x → isIdlePiece x = false) (hne : front ≠ []) :
    (⟨String.ofList (Text.joinWith ['/'] front)⟩ : FilePath).isAbsolute = p.isAbsolute ∧
      (⟨String.ofList (Text.joinWith ['/'] front)⟩ : FilePath).steps <+: p.steps := by
  obtain ⟨rest, hpieces⟩ := hfront
  have hslash : ∀ x ∈ front, '/' ∉ x := by
    intro x hx
    have hmem : x ∈ p.pieces := hpieces ▸ List.mem_append_left _ hx
    exact Text.not_mem_of_mem_pieces hmem
  have hq : (⟨String.ofList (Text.joinWith ['/'] front)⟩ : FilePath).pieces = front := by
    unfold pieces
    rw [String.toList_ofList]
    exact Text.pieces_joinWith hne hslash
  constructor
  · rw [Bool.eq_iff_iff, isAbsolute_iff_pieces, isAbsolute_iff_pieces, hq, ← hpieces]
    constructor
    · rintro ⟨ps, hps, rfl⟩
      exact ⟨ps ++ rest, List.append_ne_nil_of_left_ne_nil hps _, rfl⟩
    · rintro ⟨ps, -, hall⟩
      cases front with
      | nil => exact absurd rfl hne
      | cons x front =>
        obtain ⟨rfl, -⟩ := List.cons.inj hall
        refine ⟨front, fun hnil => ?_, rfl⟩
        subst hnil
        cases hlast [] rfl
  · rw [steps, steps, hq, ← hpieces, List.filter_append, List.map_append]
    exact List.prefix_append _ _

/-- The path above another one is of its first steps. -/
theorem steps_parent? {p q : FilePath} (hq : p.parent? = some q) :
    q.isAbsolute = p.isAbsolute ∧ q.steps <+: p.steps := by
  unfold parent? at hq
  split at hq
  · cases hq
  · cases hq
  · generalize hkept :
      ((p.pieces.reverse.dropWhile isIdlePiece).drop 1).dropWhile isIdlePiece = kept at hq
    have hsuffix : kept <:+ p.pieces.reverse := by
      rw [← hkept]
      exact (List.dropWhile_suffix _).trans ((List.drop_suffix _ _).trans (List.dropWhile_suffix _))
    have hfront : kept.reverse <+: p.pieces := by
      rw [← List.reverse_suffix, List.reverse_reverse]
      exact hsuffix
    by_cases hnil : kept = []
    · subst hnil
      simp only [List.isEmpty_nil, Bool.true_and] at hq
      split at hq
      · next habsolute =>
        obtain rfl := Option.some.inj hq
        rw [habsolute]
        exact ⟨rfl, List.nil_prefix⟩
      · next hrelative =>
        rw [Bool.not_eq_true] at hrelative
        rw [hrelative]
        split at hq
        · obtain rfl := Option.some.inj hq
          exact ⟨by decide, List.nil_prefix⟩
        · obtain rfl := Option.some.inj hq
          exact ⟨by decide, List.nil_prefix⟩
    · have hempty : kept.isEmpty = false := by simpa using hnil
      simp only [hempty, Bool.false_and, Bool.false_eq_true, if_false, Option.some_inj] at hq
      subst hq
      refine steps_of_pieces hfront (fun x hx => ?_) (by simpa using hnil)
      rw [List.getLast?_reverse, ← hkept] at hx
      have hnot := List.head?_dropWhile_not isIdlePiece
        ((p.pieces.reverse.dropWhile isIdlePiece).drop 1)
      rw [hx] at hnot
      simpa using hnot

/-- A path that ends with a name has it as its last piece. -/
theorem getLast?_pieces {p : FilePath} (hp : p.ending = .plain) :
    ∃ last, p.pieces.getLast? = some last ∧ isIdlePiece last = false ∧ last ≠ ['.', '.'] := by
  unfold ending at hp
  split at hp
  · cases hp
  · next last hfind =>
    split at hp
    · cases hp
    · next hdots =>
      split at hp
      · cases hp
      · next hslash =>
        rw [not_or] at hdots
        have hmem := List.find?_some hfind
        -- the last piece of all is the one found, as the path does not end with a slash
        have hpieces : p.pieces.getLast? = some last := by
          cases hrev : p.pieces.reverse with
          | nil => exact absurd (List.reverse_eq_nil_iff.mp hrev) (Text.pieces_ne_nil _)
          | cons x xs =>
            have hlast : p.pieces.getLast? = some x := by
              rw [← List.head?_reverse, hrev, List.head?_cons]
            rw [hrev] at hfind
            by_cases hx : x = []
            · rw [hx] at hlast
              exact absurd hlast hslash
            · rw [List.find?_cons_of_pos (by simpa using hx)] at hfind
              rw [hlast, hfind]
        refine ⟨last, hpieces, ?_, hdots.2⟩
        rw [← Bool.not_eq_true, isIdlePiece_iff, not_or]
        exact ⟨by simpa using hmem, hdots.1⟩

/-- A path that ends with a name has a last step, which is not a parent step. -/
theorem getLast?_steps {p : FilePath} (hp : p.ending = .plain) :
    ∃ n, p.steps.getLast? = some n ∧ n ≠ ".." := by
  obtain ⟨last, hpieces, hidle, hup⟩ := getLast?_pieces hp
  obtain ⟨front, hfront⟩ := List.getLast?_eq_some_iff.mp hpieces
  refine ⟨String.ofList last, ?_, fun heq => hup ?_⟩
  · rw [steps, hfront, List.filter_append, List.map_append]
    simp [hidle]
  · rw [← String.toList_ofList (l := last), heq]
    rfl

/-- A path below a directory that ends with a name has a step of its own. -/
theorem steps_ne_nil_of_join {p q : FilePath} (hq : q.isAbsolute = false)
    (hplain : (p.join q).ending = .plain) : q.steps ≠ [] := by
  obtain ⟨last, hpieces, hidle, -⟩ := getLast?_pieces hplain
  have hmem : last ∈ q.pieces := by
    by_cases hp : p.text = ""
    · rw [join_of_empty hp] at hpieces
      exact List.mem_of_getLast? hpieces
    · obtain ⟨lead, -, hjoin, -⟩ := pieces_join hq hp
      have hne : q.pieces ≠ [] := Text.pieces_ne_nil _
      have hsome : q.pieces.getLast?.isSome = true := by simpa using hne
      rw [hjoin, List.getLast?_append, Option.or_of_isSome hsome] at hpieces
      exact List.mem_of_getLast? hpieces
  have hkept : String.ofList last ∈ q.steps :=
    List.mem_map.mpr ⟨last, List.mem_filter.mpr ⟨hmem, by rw [hidle]; rfl⟩, rfl⟩
  exact List.ne_nil_of_mem hkept

/-- A path that ends with a name leads to something below where it starts. -/
theorem Leads.ne_nil_of_plain {root p : FilePath} {rest : Place} (hp : root.Leads rest p)
    (hplain : p.ending = .plain) : rest ≠ [] := by
  obtain ⟨more, hmore, hsteps, -, rfl⟩ := hp.behind
  obtain ⟨n, hlast, hn⟩ := getLast?_steps hplain
  have hsome : more.getLast?.isSome = true := by simpa using hmore
  rw [hsteps, List.getLast?_append, Option.or_of_isSome hsome] at hlast
  obtain ⟨front, rfl⟩ := List.getLast?_eq_some_iff.mp hlast
  rw [Place.walk_append]
  unfold Place.walk
  rw [if_neg hn]
  unfold Place.walk
  exact List.append_ne_nil_of_right_ne_nil _ (List.cons_ne_nil _ _)

end FilePath

end Decompile
