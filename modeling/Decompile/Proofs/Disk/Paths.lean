import Decompile.Archive.Zip
import Decompile.Disk.Lookup

/-!
# Paths and the places they name

On a disk without links a path says by itself which place it names.

- `IsEntryName`: a name that an entry of a directory can have.
- `Place.walk`, `FilePath.place`: where names and paths lead if there are no links.
- `FilePath.place_join`, `place_child`, `place_childPath`: the place of a longer path.
- `FilePath.names_place`: the places of paths have names that entries can have.
- `Zip.place_enclosed`: an enclosed name of a member stays below the directory it is unpacked into.
-/

namespace Decompile

/-- A name that an entry of a directory can have. -/
def IsEntryName (n : String) : Prop := n ≠ "" ∧ n ≠ "." ∧ n ≠ ".." ∧ '/' ∉ n.toList

instance (n : String) : Decidable (IsEntryName n) := by
  unfold IsEntryName
  exact inferInstance

/-! ## Texts between separators -/

namespace Text

variable {sep : Char}

theorem pieces_ne_nil (cs : List Char) : pieces sep cs ≠ [] := by
  cases cs with
  | nil => nofun
  | cons c cs =>
    unfold pieces
    split
    · nofun
    · split <;> nofun

theorem pieces_append (a b : List Char) :
    pieces sep (a ++ sep :: b) = pieces sep a ++ pieces sep b := by
  induction a with
  | nil => simp [pieces]
  | cons c a ih =>
    rw [List.cons_append, pieces, pieces, ih]
    split
    · rfl
    · cases ha : pieces sep a with
      | nil => exact absurd ha (pieces_ne_nil a)
      | cons p ps => rfl

theorem pieces_of_not_mem {cs : List Char} (h : sep ∉ cs) : pieces sep cs = [cs] := by
  induction cs with
  | nil => rfl
  | cons c cs ih =>
    obtain ⟨hc, hcs⟩ := not_or.mp fun hor => h (List.mem_cons.mpr hor)
    rw [pieces, if_neg fun heq => hc heq.symm, ih hcs]

theorem not_mem_of_mem_pieces {cs x : List Char} (hx : x ∈ pieces sep cs) : sep ∉ x := by
  induction cs generalizing x with
  | nil =>
    obtain rfl := List.mem_singleton.mp hx
    exact List.not_mem_nil
  | cons c cs ih =>
    unfold pieces at hx
    split at hx
    · rcases List.mem_cons.mp hx with rfl | hx
      · exact List.not_mem_nil
      · exact ih hx
    · next hc =>
      cases hcs : pieces sep cs with
      | nil => exact absurd hcs (pieces_ne_nil cs)
      | cons p ps =>
        rw [hcs] at hx ih
        rcases List.mem_cons.mp hx with rfl | hx
        · intro hmem
          rcases List.mem_cons.mp hmem with heq | hmem
          · exact hc heq.symm
          · exact ih List.mem_cons_self hmem
        · exact ih (List.mem_cons_of_mem _ hx)

/-- Texts without the separator are found again between separators. -/
theorem pieces_joinWith {ps : List (List Char)} (hne : ps ≠ []) (hps : ∀ p ∈ ps, sep ∉ p) :
    pieces sep (joinWith [sep] ps) = ps := by
  induction ps with
  | nil => exact absurd rfl hne
  | cons p ps ih =>
    cases ps with
    | nil => exact pieces_of_not_mem (hps p List.mem_cons_self)
    | cons q ps =>
      rw [joinWith, List.append_assoc, List.singleton_append, pieces_append,
        pieces_of_not_mem (hps p List.mem_cons_self),
        ih nofun fun x hx => hps x (List.mem_cons_of_mem _ hx)]
      · rfl
      · nofun

end Text

/-! ## Steps -/

namespace FilePath

theorem mem_steps {p : FilePath} {n : String} (hn : n ∈ p.steps) :
    n ≠ "" ∧ n ≠ "." ∧ '/' ∉ n.toList := by
  obtain ⟨x, hx, rfl⟩ := List.mem_map.mp hn
  obtain ⟨hx, hidle⟩ := List.mem_filter.mp hx
  have hslash : '/' ∉ x := Text.not_mem_of_mem_pieces hx
  simp only [isIdlePiece, Bool.not_eq_true', Bool.or_eq_false_iff, beq_eq_false_iff_ne] at hidle
  refine ⟨fun heq => hidle.1 ?_, fun heq => hidle.2 ?_, by rwa [String.toList_ofList]⟩
  · rw [← String.toList_ofList (l := x), heq]
    rfl
  · rw [← String.toList_ofList (l := x), heq]
    rfl

theorem steps_of_isEntryName {n : String} (hn : IsEntryName n) : (⟨n⟩ : FilePath).steps = [n] := by
  obtain ⟨hempty, hdot, -, hslash⟩ := hn
  have hkeep : isIdlePiece n.toList = false := by
    simp only [isIdlePiece, Bool.or_eq_false_iff, beq_eq_false_iff_ne]
    refine ⟨fun heq => hempty ?_, fun heq => hdot ?_⟩
    · rw [← String.ofList_toList (s := n), heq]
    · rw [← String.ofList_toList (s := n), heq]
  rw [steps, pieces, Text.pieces_of_not_mem hslash]
  simp [hkeep]

theorem isAbsolute_of_isEntryName {n : String} (hn : IsEntryName n) :
    (⟨n⟩ : FilePath).isAbsolute = false := by
  obtain ⟨-, -, -, hslash⟩ := hn
  rw [isAbsolute, beq_eq_false_iff_ne]
  intro hhead
  exact hslash (List.mem_of_mem_head? hhead)

/-- A path below another one is written behind a slash. -/
theorem join_text {p q : FilePath} (hq : q.isAbsolute = false) (hp : p.text ≠ "") :
    ∃ a, (p.join q).text.toList = a ++ '/' :: q.text.toList ∧
      (p.text.toList = a ∨ p.text.toList = a ++ ['/']) := by
  have hempty : p.text.isEmpty = false := by simpa using hp
  unfold join
  rw [hq, hempty]
  by_cases hlast : p.text.toList.getLast? = some '/'
  · obtain ⟨a, ha⟩ := List.getLast?_eq_some_iff.mp hlast
    exact ⟨a, by simp [ha], .inr ha⟩
  · exact ⟨p.text.toList, by simp [hlast], .inl rfl⟩

theorem join_of_empty {p q : FilePath} (hp : p.text = "") : p.join q = q := by
  simp [join, hp]

/-- The pieces of a path below another one are those of both, empty ones aside. -/
theorem pieces_join {p q : FilePath} (hq : q.isAbsolute = false) (hp : p.text ≠ "") :
    ∃ lead, lead ≠ [] ∧ (p.join q).pieces = lead ++ q.pieces ∧
      (p.pieces = lead ∨ p.pieces = lead ++ [[]]) := by
  obtain ⟨a, hjoin, ha⟩ := join_text hq hp
  refine ⟨Text.pieces '/' a, Text.pieces_ne_nil a, ?_, ?_⟩
  · rw [pieces, hjoin, Text.pieces_append]
    rfl
  · rcases ha with ha | ha
    · exact .inl (by rw [pieces, ha])
    · exact .inr (by rw [pieces, ha, Text.pieces_append]; rfl)

theorem head?_append_of_ne_nil {α : Type} {a b : List α} (ha : a ≠ []) :
    (a ++ b).head? = a.head? := by
  cases a with
  | nil => exact absurd rfl ha
  | cons x a => rfl

theorem isAbsolute_join {p q : FilePath} (hq : q.isAbsolute = false) :
    (p.join q).isAbsolute = p.isAbsolute := by
  by_cases hp : p.text = ""
  · rw [join_of_empty hp, hq, isAbsolute, hp]
    rfl
  · obtain ⟨a, hjoin, ha⟩ := join_text hq hp
    have hne : p.text.toList ≠ [] := by simpa using hp
    rw [isAbsolute, isAbsolute, hjoin]
    rcases ha with ha | ha
    · rw [ha] at hne ⊢
      rw [head?_append_of_ne_nil hne]
    · rw [ha]
      cases a <;> rfl

theorem steps_join {p q : FilePath} (hq : q.isAbsolute = false) :
    (p.join q).steps = p.steps ++ q.steps := by
  by_cases hp : p.text = ""
  · have hnone : p.steps = [] := by
      rw [steps, pieces, hp]
      rfl
    rw [join_of_empty hp, hnone, List.nil_append]
  · obtain ⟨lead, -, hjoin, hlead⟩ := pieces_join hq hp
    have hkept : p.pieces.filter (fun x => !isIdlePiece x) =
        lead.filter fun x => !isIdlePiece x := by
      rcases hlead with hlead | hlead
      · rw [hlead]
      · rw [hlead, List.filter_append]
        simp [isIdlePiece]
    rw [steps, steps, hkept, hjoin, List.filter_append, List.map_append]
    rfl

/-! ## Components -/

theorem components_empty {p : FilePath} (hp : p.text = "") : p.components = [] := by
  simp [components, pieces, isAbsolute, hp, Text.pieces, componentOfPiece]

theorem componentOfPiece_of_isEntryName {n : String} (hn : IsEntryName n) :
    componentOfPiece n.toList = some (.name n) := by
  have hback : ∀ {cs : List Char}, n.toList = cs → n = String.ofList cs := by
    rintro cs rfl
    exact String.ofList_toList.symm
  unfold componentOfPiece
  rw [if_neg, if_neg, String.ofList_toList]
  · exact fun heq => hn.2.2.1 (hback heq)
  · rintro (heq | heq)
    · exact hn.1 (hback heq)
    · exact hn.2.1 (hback heq)

theorem components_child {p : FilePath} {n : String} (hn : IsEntryName n) :
    (p.child n).components = p.components ++ [.name n] := by
  have hpieces : (⟨n⟩ : FilePath).pieces = [n.toList] := Text.pieces_of_not_mem hn.2.2.2
  have hrelative := isAbsolute_of_isEntryName hn
  have hname := componentOfPiece_of_isEntryName hn
  by_cases hp : p.text = ""
  · rw [child, join_of_empty hp, components_empty hp, components, hrelative, hpieces]
    have hdot : n.toList ≠ ['.'] := fun heq => hn.2.1 (by
      rw [← String.ofList_toList (s := n), heq])
    simp [hname, hdot]
  · obtain ⟨lead, hne, hjoin, hlead⟩ := pieces_join hrelative hp
    have hhead : (lead ++ [n.toList]).head? = p.pieces.head? := by
      rcases hlead with hlead | hlead
      · rw [hlead, head?_append_of_ne_nil hne]
      · rw [hlead, head?_append_of_ne_nil hne, head?_append_of_ne_nil hne]
    have hsteps : (lead ++ [n.toList]).filterMap componentOfPiece =
        p.pieces.filterMap componentOfPiece ++ [.name n] := by
      rw [List.filterMap_append]
      rcases hlead with hlead | hlead
      · rw [hlead]
        simp [hname]
      · have hlast : [n.toList].filterMap componentOfPiece = [.name n] := by simp [hname]
        have hnone : [([] : List Char)].filterMap componentOfPiece = [] := rfl
        rw [hlead, List.filterMap_append, hlast, hnone, List.append_nil]
    rw [child, components, components, isAbsolute_join hrelative, hjoin, hpieces, hhead, hsteps]
    split
    · rfl
    · split <;> rfl

theorem components_childPath {root : FilePath} {names : List String}
    (hnames : ∀ n ∈ names, IsEntryName n) :
    (Disk.childPath root names).components = root.components ++ names.map .name := by
  unfold Disk.childPath
  induction names generalizing root with
  | nil => simp
  | cons n names ih =>
    rw [List.foldl_cons, ih fun m hm => hnames m (List.mem_cons_of_mem _ hm),
      components_child (hnames n List.mem_cons_self), List.append_assoc, List.map_cons]
    rfl

theorem fileName?_childPath {root : FilePath} {q : Place} (hq : ∀ n ∈ q, IsEntryName n)
    (hne : q ≠ []) : (Disk.childPath root q).fileName? = q.getLast? := by
  unfold fileName?
  rw [components_childPath hq, List.getLast?_append, List.getLast?_map]
  cases hlast : q.getLast? with
  | none => exact absurd (List.getLast?_eq_none_iff.mp hlast) hne
  | some n => rfl

theorem afterLead_append (lead cs : List Component) : afterLead lead (lead ++ cs) = some cs := by
  induction lead with
  | nil => rfl
  | cons c lead ih => rw [List.cons_append, afterLead, if_pos rfl, ih]

/-- What a walk has found below a directory is known by the names it came through. -/
theorem relativeTo?_childPath {root : FilePath} {names : List String}
    (hnames : ∀ n ∈ names, IsEntryName n) :
    (Disk.childPath root names).relativeTo? root = some (names.map .name) := by
  rw [relativeTo?, components_childPath hnames, afterLead_append]

/-- Names written one behind the other are the steps of a path. -/
theorem steps_textOfComponents {names : List String} (hnames : ∀ n ∈ names, IsEntryName n) :
    (⟨textOfComponents (names.map .name)⟩ : FilePath).steps = names := by
  have htexts : (names.map Component.name).map (fun c => c.text.toList) = names.map String.toList := by
    rw [List.map_map]
    rfl
  rw [steps, pieces, textOfComponents, String.toList_ofList, htexts]
  cases hcase : names with
  | nil => rfl
  | cons n rest =>
    rw [← hcase, Text.pieces_joinWith]
    · have hkept : (names.map String.toList).filter (fun x => !isIdlePiece x) =
          names.map String.toList := by
        refine List.filter_eq_self.mpr fun x hx => ?_
        obtain ⟨m, hm, rfl⟩ := List.mem_map.mp hx
        obtain ⟨hempty, hdot, -, -⟩ := hnames m hm
        have hback : ∀ {cs : List Char}, m.toList = cs → m = String.ofList cs := by
          rintro cs rfl
          exact String.ofList_toList.symm
        simp only [isIdlePiece, Bool.not_eq_true', Bool.or_eq_false_iff, beq_eq_false_iff_ne]
        exact ⟨fun heq => hempty (hback heq), fun heq => hdot (hback heq)⟩
      rw [hkept, List.map_map]
      exact List.map_id'' (fun m => String.ofList_toList) names
    · rw [hcase]
      nofun
    · intro x hx
      obtain ⟨m, hm, rfl⟩ := List.mem_map.mp hx
      exact (hnames m hm).2.2.2

/-- Names written one behind the other lead on from where they are read. -/
theorem isAbsolute_textOfComponents {names : List String} (hnames : ∀ n ∈ names, IsEntryName n) :
    (⟨textOfComponents (names.map .name)⟩ : FilePath).isAbsolute = false := by
  rw [isAbsolute, textOfComponents, String.toList_ofList]
  cases names with
  | nil => rfl
  | cons n rest =>
    obtain ⟨hempty, -, -, hslash⟩ := hnames n List.mem_cons_self
    have hlead : ∀ tail : List Char, (n.toList ++ tail).head? ≠ some '/' := by
      intro tail hhead
      cases hn : n.toList with
      | nil => exact hempty (String.toList_eq_nil_iff.mp hn)
      | cons ch cs =>
        rw [hn] at hhead hslash
        exact hslash (Option.some.inj hhead ▸ List.mem_cons_self)
    refine beq_eq_false_iff_ne.mpr ?_
    cases rest with
    | nil => exact fun hhead => hlead [] (by rwa [List.append_nil])
    | cons m rest =>
      intro hhead
      rw [List.map_cons, List.map_cons, List.map_cons, List.map_cons, Text.joinWith,
        List.append_assoc] at hhead
      · exact hlead _ hhead
      · nofun

/-- The step that a component is, if it leads anywhere. -/
def Component.step? : Component → Option String
  | .root | .here => none
  | .up => some ".."
  | .name n => some n

theorem filterMap_step?_components (p : FilePath) : p.components.filterMap Component.step? = p.steps := by
  have hpieces : ∀ ps : List (List Char), (ps.filterMap componentOfPiece).filterMap Component.step? =
      (ps.filter fun x => !isIdlePiece x).map String.ofList := by
    intro ps
    induction ps with
    | nil => rfl
    | cons x ps ih =>
      rw [List.filter_cons]
      by_cases hidle : x = [] ∨ x = ['.']
      · have hnone : componentOfPiece x = none := by simp [componentOfPiece, hidle]
        have hskip : isIdlePiece x = true := by simpa [isIdlePiece] using hidle
        rw [List.filterMap_cons_none hnone, ih, hskip]
        rfl
      · have hkeep : isIdlePiece x = false := by simpa [isIdlePiece, not_or] using hidle
        by_cases hup : x = ['.', '.']
        · subst hup
          have hname : componentOfPiece ['.', '.'] = some .up := rfl
          rw [List.filterMap_cons_some hname, hkeep]
          show ".." :: (ps.filterMap componentOfPiece).filterMap Component.step? = _
          rw [ih]
          rfl
        · have hname : componentOfPiece x = some (.name (String.ofList x)) := by
            simp [componentOfPiece, hidle, hup]
          rw [List.filterMap_cons_some hname, hkeep]
          show String.ofList x :: (ps.filterMap componentOfPiece).filterMap Component.step? = _
          rw [ih]
          rfl
  unfold components
  split
  · exact hpieces _
  · split
    · exact hpieces _
    · exact hpieces _

/-- The names among the components of a path are names that entries can have. -/
theorem isEntryName_of_mem_components {p : FilePath} {n : String}
    (hn : .name n ∈ p.components) : IsEntryName n := by
  have hpiece : Component.name n ∈ p.pieces.filterMap componentOfPiece := by
    unfold components at hn
    split at hn
    · exact (List.mem_cons.mp hn).resolve_left nofun
    · split at hn
      · exact (List.mem_cons.mp hn).resolve_left nofun
      · exact hn
  obtain ⟨x, hx, hname⟩ := List.mem_filterMap.mp hpiece
  have hslash : '/' ∉ x := Text.not_mem_of_mem_pieces hx
  unfold componentOfPiece at hname
  split at hname
  · cases hname
  · next hidle =>
    split at hname
    · cases hname
    · next hup =>
      obtain rfl := Component.name.inj (Option.some.inj hname)
      obtain ⟨hempty, hdot⟩ := not_or.mp hidle
      have hback : ∀ {t : String}, String.ofList x = t → x = t.toList := by
        rintro t rfl
        exact String.toList_ofList.symm
      exact ⟨fun heq => hempty (hback heq), fun heq => hdot (hback heq),
        fun heq => hup (hback heq), by rwa [String.toList_ofList]⟩

theorem isEntryName_of_fileName? {p : FilePath} {n : String} (hn : p.fileName? = some n) :
    IsEntryName n := by
  unfold fileName? at hn
  cases hlast : p.components.getLast? with
  | none =>
    rw [hlast] at hn
    cases hn
  | some c =>
    rw [hlast] at hn
    cases c with
    | name m =>
      obtain rfl : m = n := Option.some.inj hn
      exact isEntryName_of_mem_components (List.mem_of_getLast? hlast)
    | _ => cases hn

end FilePath

/-! ## Places -/

/-- Where names lead from a directory if there are no links. A parent step goes back. -/
def Place.walk (here : Place) : List String → Place
  | [] => here
  | n :: ns => Place.walk (if n = ".." then here.dropLast else here ++ [n]) ns

/-- The place a path names on a disk without links. -/
def FilePath.place (cwd : Place) (p : FilePath) : Place :=
  Place.walk (if p.isAbsolute then [] else cwd) p.steps

namespace Place

theorem walk_append (here : Place) (a b : List String) :
    walk here (a ++ b) = walk (walk here a) b := by
  induction a generalizing here with
  | nil => rfl
  | cons n a ih => exact ih _

theorem walk_names (here : Place) {ns : List String} (hns : ∀ n ∈ ns, IsEntryName n) :
    walk here ns = here ++ ns := by
  induction ns generalizing here with
  | nil => exact (List.append_nil here).symm
  | cons n ns ih =>
    rw [walk, if_neg (hns n List.mem_cons_self).2.2.1, ih _ fun m hm =>
      hns m (List.mem_cons_of_mem _ hm), List.append_assoc]
    rfl

theorem names_walk {here : Place} (hhere : ∀ n ∈ here, IsEntryName n) {ns : List String}
    (hns : ∀ n ∈ ns, n ≠ "" ∧ n ≠ "." ∧ '/' ∉ n.toList) : ∀ n ∈ walk here ns, IsEntryName n := by
  induction ns generalizing here with
  | nil => exact hhere
  | cons m ns ih =>
    refine ih ?_ fun n hn => hns n (List.mem_cons_of_mem _ hn)
    split
    · exact fun n hn => hhere n (List.dropLast_subset here hn)
    · next hup =>
      intro n hn
      rcases List.mem_append.mp hn with hn | hn
      · exact hhere n hn
      · obtain rfl := List.mem_singleton.mp hn
        obtain ⟨hempty, hdot, hslash⟩ := hns n List.mem_cons_self
        exact ⟨hempty, hdot, hup, hslash⟩

end Place

namespace FilePath

variable {cwd : Place}

theorem place_join {p q : FilePath} (hq : q.isAbsolute = false) :
    (p.join q).place cwd = Place.walk (p.place cwd) q.steps := by
  rw [place, place, isAbsolute_join hq, steps_join hq, Place.walk_append]

theorem place_child {p : FilePath} {n : String} (hn : IsEntryName n) :
    (p.join ⟨n⟩).place cwd = p.place cwd ++ [n] := by
  rw [place_join (isAbsolute_of_isEntryName hn), steps_of_isEntryName hn,
    Place.walk_names _ fun m hm => by rwa [List.mem_singleton.mp hm]]

theorem place_childPath {root : FilePath} {names : List String}
    (hnames : ∀ n ∈ names, IsEntryName n) :
    (Disk.childPath root names).place cwd = root.place cwd ++ names := by
  unfold Disk.childPath
  induction names generalizing root with
  | nil => exact (List.append_nil _).symm
  | cons n names ih =>
    rw [List.foldl_cons, ih fun m hm => hnames m (List.mem_cons_of_mem _ hm), child,
      place_child (hnames n List.mem_cons_self), List.append_assoc]
    rfl

/-- Names written one behind the other below a directory. -/
theorem place_textOfComponents {dir : FilePath} {names : List String}
    (hnames : ∀ n ∈ names, IsEntryName n) :
    (dir.join ⟨textOfComponents (names.map .name)⟩).place cwd = dir.place cwd ++ names := by
  rw [place_join (isAbsolute_textOfComponents hnames), steps_textOfComponents hnames,
    Place.walk_names _ hnames]

/-- The places of paths have names that entries can have. -/
theorem names_place (hcwd : ∀ n ∈ cwd, IsEntryName n) (p : FilePath) :
    ∀ n ∈ p.place cwd, IsEntryName n := by
  refine Place.names_walk ?_ fun n hn => mem_steps hn
  split
  · exact fun n hn => absurd hn List.not_mem_nil
  · exact hcwd

end FilePath

/-! ## Names of members -/

namespace Zip

theorem walk_staysBelow {cs : List FilePath.Component} {depth : Nat}
    (hcs : staysBelow depth cs = true) (hnames : ∀ n, .name n ∈ cs → IsEntryName n)
    (here rest : Place) (hrest : rest.length = depth) :
    ∃ more, Place.walk (here ++ rest) (cs.filterMap FilePath.Component.step?) = here ++ more := by
  induction cs generalizing depth rest with
  | nil => exact ⟨rest, rfl⟩
  | cons c cs ih =>
    replace ih := fun {depth} hcs => @ih depth hcs fun n hn => hnames n (List.mem_cons_of_mem _ hn)
    unfold staysBelow at hcs
    cases c with
    | root => cases hcs
    | here => exact ih hcs rest hrest
    | name n =>
      have hup : n ≠ ".." := (hnames n List.mem_cons_self).2.2.1
      obtain ⟨more, hmore⟩ := ih hcs (rest ++ [n]) (by rw [List.length_append, hrest]; rfl)
      refine ⟨more, ?_⟩
      rw [← hmore, ← List.append_assoc]
      show Place.walk (if n = ".." then _ else here ++ rest ++ [n]) _ = _
      rw [if_neg hup]
    | up =>
      cases depth with
      | zero => cases hcs
      | succ depth =>
        have hback : (here ++ rest).dropLast = here ++ rest.dropLast := by
          rw [List.dropLast_append_of_ne_nil]
          rintro rfl
          cases hrest
        obtain ⟨more, hmore⟩ := ih hcs rest.dropLast (by rw [List.length_dropLast, hrest]; rfl)
        refine ⟨more, ?_⟩
        rw [← hmore, ← hback]
        rfl

theorem isAbsolute_of_isEnclosed {name : String} (hname : isEnclosed name = true) :
    (⟨name⟩ : FilePath).isAbsolute = false := by
  rw [isEnclosed, Bool.and_eq_true] at hname
  cases habsolute : (⟨name⟩ : FilePath).isAbsolute with
  | false => rfl
  | true =>
    have hstays := hname.2
    rw [FilePath.components, habsolute] at hstays
    unfold staysBelow at hstays
    cases hstays

/-- An enclosed name of a member stays below the directory it is unpacked into. -/
theorem place_enclosed {name : String} (hname : isEnclosed name = true) (dir : FilePath)
    (cwd : Place) : ∃ more, (dir.join ⟨name⟩).place cwd = dir.place cwd ++ more := by
  have hstays : staysBelow 0 (FilePath.components ⟨name⟩) = true := by
    rw [isEnclosed, Bool.and_eq_true] at hname
    exact hname.2
  obtain ⟨more, hmore⟩ := walk_staysBelow hstays
    (fun n => FilePath.isEntryName_of_mem_components) (dir.place cwd) [] rfl
  refine ⟨more, ?_⟩
  rw [FilePath.place_join (isAbsolute_of_isEnclosed hname), ← hmore,
    FilePath.filterMap_step?_components, List.append_nil]

end Zip

end Decompile
