import Decompile.Proofs.Disk.Above

/-!
# The path above a path

A path is one step longer than the one above it. So the paths above a path are as many as it has
steps, and each but the last ends as its last step says.

- `FilePath.steps_of_parent?`: the path above has all steps but the last.
- `FilePath.ending_of_parent?`: how it ends.
- `FilePath.length_steps_le`: a path is at least as long as it has steps.
-/

namespace Decompile

namespace Text

variable {sep c : Char} {cs : List Char}

/-- What stands in a text stands between its separators, if it is none. -/
theorem mem_iff_mem_pieces (hc : c ≠ sep) : c ∈ cs ↔ ∃ x ∈ pieces sep cs, c ∈ x := by
  induction cs with
  | nil => simp [pieces]
  | cons d cs ih =>
    rw [List.mem_cons, ih, pieces]
    split
    · next hsep => simp [hsep, hc]
    · cases hrest : pieces sep cs with
      | nil => exact absurd hrest (pieces_ne_nil cs)
      | cons p ps => simp [or_assoc]

end Text

namespace FilePath

variable {p q : FilePath}

/-! ## Pieces that count -/

/-- The steps are the pieces that count, from wherever on these begin. -/
theorem filter_dropWhile_isIdlePiece (ps : List (List Char)) :
    (ps.dropWhile isIdlePiece).filter (fun x => !isIdlePiece x) =
      ps.filter fun x => !isIdlePiece x := by
  induction ps with
  | nil => rfl
  | cons x ps ih =>
    cases hx : isIdlePiece x with
    | true => simp [hx, ih]
    | false => simp [hx]

/-- A path is at least as long as it has steps. -/
theorem length_steps_le (p : FilePath) : p.steps.length ≤ p.text.length := by
  have hcount : ∀ cs : List Char,
      ((Text.pieces '/' cs).filter fun x => !isIdlePiece x).length ≤ cs.length := by
    intro cs
    induction cs with
    | nil => decide
    | cons c cs ih =>
      rw [Text.pieces, List.length_cons]
      split
      · exact Nat.le_succ_of_le ih
      · cases hcs : Text.pieces '/' cs with
        | nil => exact absurd hcs (Text.pieces_ne_nil cs)
        | cons x xs =>
          rw [hcs] at ih
          have hone : ((((c :: x) :: xs).filter fun x => !isIdlePiece x)).length ≤
              ((xs.filter fun x => !isIdlePiece x)).length + 1 := by
            rw [List.filter_cons]
            split
            · exact Nat.le_refl _
            · exact Nat.le_succ _
          have hrest : ((xs.filter fun x => !isIdlePiece x)).length ≤
              (((x :: xs).filter fun x => !isIdlePiece x)).length := by
            rw [List.filter_cons]
            split
            · exact Nat.le_succ _
            · exact Nat.le_refl _
          exact Nat.le_trans hone (Nat.succ_le_succ (Nat.le_trans hrest ih))
  rw [steps, List.length_map, ← String.length_toList]
  exact hcount _

theorem steps_empty (hp : p.text = "") : p.steps = [] := by
  rw [steps, pieces, hp]
  rfl

theorem text_ne_of_steps (hp : p.steps ≠ []) : p.text ≠ "" := fun heq => hp (steps_empty heq)

/-! ## Names of a directory -/

/-- A path below another one is written with the letters of both. -/
theorem mem_text_join {c : Char} (hc : c ∈ (p.join q).text.toList) :
    c = '/' ∨ c ∈ p.text.toList ∨ c ∈ q.text.toList := by
  unfold join at hc
  split at hc
  · exact .inr (.inr hc)
  · split at hc
    · rw [String.toList_append] at hc
      exact .inr (List.mem_append.mp hc)
    · rw [String.toList_append, String.toList_append, List.append_assoc] at hc
      rcases List.mem_append.mp hc with hmem | hmem
      · exact .inr (.inl hmem)
      · rcases List.mem_append.mp hmem with hslash | hmem
        · exact .inl (List.mem_singleton.mp hslash)
        · exact .inr (.inr hmem)

/-- A path below another one ends with its last name. -/
theorem ending_join {n : String} (hq : q.isAbsolute = false) (hn : IsEntryName n)
    (hlast : q.pieces.getLast? = some n.toList) : (p.join q).ending = .plain := by
  obtain ⟨front, hpieces⟩ := List.getLast?_eq_some_iff.mp hlast
  obtain ⟨lead, hlead⟩ : ∃ lead, (p.join q).pieces = lead ++ [n.toList] := by
    by_cases hp : p.text = ""
    · exact ⟨front, by rw [join_of_empty hp, hpieces]⟩
    · obtain ⟨lead, -, hjoin, -⟩ := pieces_join hq hp
      exact ⟨lead ++ front, by rw [hjoin, hpieces, List.append_assoc]⟩
  have hname : ∀ cs, String.ofList cs ≠ n → n.toList ≠ cs :=
    fun cs hne heq => hne (by rw [← heq, String.ofList_toList])
  unfold ending
  rw [hlead, List.reverse_append, List.reverse_singleton, List.singleton_append,
    List.find?_cons_of_pos (by simpa using hname [] hn.1.symm), List.getLast?_concat]
  simp only [hname ['.'] hn.2.1.symm, hname ['.', '.'] hn.2.2.1.symm, or_self, if_false,
    Option.some_inj, hname [] hn.1.symm]

/-- The path of a name ends with the name. -/
theorem ending_child {n : String} (hn : IsEntryName n) : (p.join ⟨n⟩).ending = .plain :=
  ending_join (isAbsolute_of_isEntryName hn) hn (congrArg List.getLast? (Text.pieces_of_not_mem hn.2.2.2))

/-! ## The path above -/

/-- The path above another one is the root, the directory itself, or written with the first pieces of
it, the last of which counts. -/
theorem pieces_of_parent? (hq : p.parent? = some q) :
    q.steps = p.steps.dropLast ∧
      ((q.text = "/" ∨ q.text = "." ∨ q.text = "") ∧ q.steps = [] ∨
        q.pieces <+: p.pieces ∧ ∃ x, q.pieces.getLast? = some x ∧ isIdlePiece x = false) := by
  unfold parent? at hq
  split at hq
  · cases hq
  · cases hq
  · generalize hbehind : p.pieces.reverse.dropWhile isIdlePiece = behind at hq
    generalize hkept : (behind.drop 1).dropWhile isIdlePiece = kept at hq
    have hsteps : p.steps.dropLast =
        (kept.reverse.filter fun x => !isIdlePiece x).map String.ofList := by
      -- seen from behind the first piece that counts is the last step
      have hcounted : p.steps.reverse = (behind.filter fun x => !isIdlePiece x).map String.ofList := by
        rw [steps, ← hbehind, filter_dropWhile_isIdlePiece, List.filter_reverse, List.map_reverse]
      have hdrop : (behind.filter fun x => !isIdlePiece x).tail =
          (behind.drop 1).filter fun x => !isIdlePiece x := by
        cases hcase : behind with
        | nil => rfl
        | cons x rest =>
          have hx : isIdlePiece x = false := by
            have hnot := List.head?_dropWhile_not isIdlePiece p.pieces.reverse
            rw [hbehind, hcase] at hnot
            simpa using hnot
          simp [hx]
      rw [← List.reverse_inj, ← List.tail_reverse, hcounted, ← List.map_tail, hdrop, ← List.map_reverse,
        ← List.filter_reverse, List.reverse_reverse, ← hkept, filter_dropWhile_isIdlePiece]
    by_cases hnil : kept = []
    · subst hnil
      have hnone : p.steps.dropLast = [] := hsteps
      rw [hnone]
      simp only [List.isEmpty_nil, Bool.true_and] at hq
      split at hq
      · obtain rfl := Option.some.inj hq
        exact ⟨by decide, .inl ⟨.inl rfl, by decide⟩⟩
      · split at hq
        · obtain rfl := Option.some.inj hq
          exact ⟨by decide, .inl ⟨.inr (.inl rfl), by decide⟩⟩
        · obtain rfl := Option.some.inj hq
          exact ⟨by decide, .inl ⟨.inr (.inr rfl), by decide⟩⟩
    · have hempty : kept.isEmpty = false := by simpa using hnil
      simp only [hempty, Bool.false_and, Bool.false_eq_true, if_false, Option.some_inj] at hq
      have hfront : kept.reverse <+: p.pieces := by
        rw [← List.reverse_suffix, List.reverse_reverse, ← hkept, ← hbehind]
        exact (List.dropWhile_suffix _).trans ((List.drop_suffix _ _).trans (List.dropWhile_suffix _))
      have hpieces : q.pieces = kept.reverse := by
        rw [← hq, pieces, String.toList_ofList]
        exact Text.pieces_joinWith (by simpa using hnil) fun x hx =>
          Text.not_mem_of_mem_pieces (hfront.subset hx)
      refine ⟨?_, .inr ⟨hpieces ▸ hfront, ?_⟩⟩
      · rw [steps, hpieces, hsteps]
      · obtain ⟨x, rest, hcase⟩ := List.exists_cons_of_ne_nil hnil
        refine ⟨x, by rw [hpieces, List.getLast?_reverse, hcase, List.head?_cons], ?_⟩
        have hnot := List.head?_dropWhile_not isIdlePiece (behind.drop 1)
        rw [hkept, hcase] at hnot
        simpa using hnot

theorem steps_of_parent? (hq : p.parent? = some q) : q.steps = p.steps.dropLast :=
  (pieces_of_parent? hq).1

/-- The path above another one ends with its last step. -/
theorem ending_of_parent? (hq : p.parent? = some q) {front : List String} {n : String}
    (hsteps : q.steps = front ++ [n]) : q.ending = if n = ".." then .dots else .plain := by
  obtain ⟨-, ⟨-, hnone⟩ | ⟨-, x, hlast, hidle⟩⟩ := pieces_of_parent? hq
  · rw [hnone] at hsteps
    exact absurd hsteps.symm (List.append_ne_nil_of_right_ne_nil _ (List.cons_ne_nil _ _))
  · obtain ⟨first, hpieces⟩ := List.getLast?_eq_some_iff.mp hlast
    have hx : x ≠ [] ∧ x ≠ ['.'] := by
      rw [← not_or, ← isIdlePiece_iff, hidle]
      exact Bool.false_ne_true
    have hn : n = String.ofList x := by
      have hcount : q.steps = (first.filter fun x => !isIdlePiece x).map String.ofList ++ [String.ofList x] := by
        rw [steps, hpieces, List.filter_append, List.map_append]
        simp [hidle]
      rw [hsteps] at hcount
      exact List.singleton_inj.mp (List.append_inj_right' hcount rfl)
    have hup : n = ".." ↔ x = ['.', '.'] := by
      rw [hn]
      exact ⟨fun heq => by rw [← String.toList_ofList (l := x), heq]; rfl, fun heq => by rw [heq]⟩
    unfold ending
    rw [hpieces, List.reverse_append, List.reverse_singleton, List.singleton_append,
      List.find?_cons_of_pos (by simpa using hx.1), ← hpieces, hlast]
    simp only [hx.2, false_or, ← hup, Option.some_inj, hx.1, if_false]

/-- The path above another one is written with the letters of it. -/
theorem mem_text_of_parent? (hq : p.parent? = some q) {c : Char} (hc : c ∈ q.text.toList) :
    c = '/' ∨ c = '.' ∨ c ∈ p.text.toList := by
  by_cases hslash : c = '/'
  · exact .inl hslash
  obtain ⟨-, ⟨htext, -⟩ | ⟨hfront, -⟩⟩ := pieces_of_parent? hq
  · rcases htext with htext | htext | htext <;> rw [htext] at hc
    · exact .inl (List.mem_singleton.mp hc)
    · exact .inr (.inl (List.mem_singleton.mp hc))
    · exact absurd hc List.not_mem_nil
  · obtain ⟨x, hx, hcx⟩ := (Text.mem_iff_mem_pieces hslash).mp hc
    exact .inr (.inr ((Text.mem_iff_mem_pieces hslash).mpr ⟨x, hfront.subset hx, hcx⟩))

/-- There is a path above one that has steps. -/
theorem exists_parent? (hp : p.steps ≠ []) : ∃ q, p.parent? = some q := by
  have hlast : ∃ c, p.components.getLast? = some c ∧ c ≠ .root := by
    rw [← filterMap_step?_components] at hp
    cases hcase : p.components.getLast? with
    | none =>
      rw [List.getLast?_eq_none_iff.mp hcase] at hp
      exact absurd rfl hp
    | some c =>
      refine ⟨c, rfl, ?_⟩
      rintro rfl
      -- the root stands at the start only
      obtain ⟨front, hfront⟩ := List.getLast?_eq_some_iff.mp hcase
      have hnot : .root ∉ p.pieces.filterMap componentOfPiece := by
        intro hmem
        obtain ⟨x, -, hx⟩ := List.mem_filterMap.mp hmem
        unfold componentOfPiece at hx
        split at hx
        · cases hx
        · split at hx <;> cases hx
      have hall : ∀ front, front ++ [.root] = p.pieces.filterMap componentOfPiece → False := by
        intro front heq
        exact hnot (heq ▸ List.mem_append_right _ List.mem_cons_self)
      rw [hfront] at hp
      unfold components at hfront
      split at hfront
      · cases front with
        | nil => exact hp rfl
        | cons d front => exact hall front (List.cons.inj hfront).2.symm
      · split at hfront
        · cases front with
          | nil => cases (List.cons.inj hfront).1
          | cons d front => exact hall front (List.cons.inj hfront).2.symm
        · exact hall front hfront.symm
  obtain ⟨c, hc, hroot⟩ := hlast
  unfold parent?
  rw [hc]
  cases c with
  | root => exact absurd rfl hroot
  | here | up | name =>
    simp only
    split
    · exact ⟨_, rfl⟩
    · split <;> exact ⟨_, rfl⟩

end FilePath

end Decompile
