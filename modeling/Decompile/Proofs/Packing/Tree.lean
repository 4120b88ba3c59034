import Decompile.Proofs.Packing.Sources
import Decompile.Proofs.Unpacking.Members
import Mathlib.Data.List.Pairwise

/-!
# Laying files into an empty directory

Files of which none stands below another one are laid into an empty directory in any order. After each
of them the directory holds exactly those that were laid, and the directories they stand in.

- `Source.Separate`: files of which none stands below another one.
- `Source.tree`: what a directory holds that has exactly these files; `tree_concat`: one file more.
- `Disk.dig_names`: digging where nothing is in the way.
- `Disk.Holds`: the directory has exactly these files, and nothing else has changed.
- `Holds.ground`, `Holds.lay`: one file more can be laid.
-/

namespace Decompile

open FilePath (Continues)

namespace Source

/-! ## What a directory holds -/

/-- Files of which none stands below another one. -/
structure Separate (sources : List Source) : Prop where
  below : ∀ s ∈ sources, s.names ≠ []
  names : ∀ s ∈ sources, ∀ n ∈ s.names, IsFileName n
  apart : sources.Pairwise fun s t => ¬ s.names <+: t.names ∧ ¬ t.names <+: s.names

/-- What stands under the names in a directory that holds exactly these files: a file, a directory that
leads to one, or nothing. -/
def tree (sources : List Source) (rest : Place) : Option Entry :=
  match sources.find? fun s => s.names = rest with
  | some s => some (.file s.contents false)
  | none =>
    if rest = [] ∨ ∃ s ∈ sources, rest <+: s.names then some .directory else none

theorem Separate.of_append {done more : List Source} (h : Separate (done ++ more)) : Separate done where
  below s hs := h.below s (List.mem_append_left _ hs)
  names s hs := h.names s (List.mem_append_left _ hs)
  apart := (List.pairwise_append.mp h.apart).1

theorem Separate.eq_of_above {sources : List Source} {s t : Source} (h : Separate sources)
    (hs : s ∈ sources) (ht : t ∈ sources) (hlead : s.names <+: t.names) : s = t := by
  have : Std.Symm fun s t : Source => ¬ s.names <+: t.names ∧ ¬ t.names <+: s.names :=
    ⟨fun _ _ hand => hand.symm⟩
  exact Decidable.byContradiction fun hne => (h.apart.forall hs ht hne).1 hlead

/-- Class files of different names stand apart. -/
theorem Stands.separate {sources : List Source} {d : Disk} {cwd base : Place} {root : FilePath}
    (hstands : ∀ s ∈ sources, s.Stands d cwd root base) (hdistinct : (sources.map Source.names).Nodup) :
    Separate sources where
  below s hs := (hstands s hs).below
  names s hs _ hn := (hstands s hs).isFileName hn
  apart := by
    refine (List.pairwise_map.mp hdistinct).imp_of_mem fun {s t} hs ht hne => ?_
    exact ⟨(hstands s hs).not_above (hstands t ht) hne,
      (hstands t ht).not_above (hstands s hs) fun heq => hne heq.symm⟩

variable {sources done : List Source} {s : Source} {rest : Place} {e : Entry}

theorem of_find? (hfind : (sources.find? fun s => s.names = rest) = some s) :
    s ∈ sources ∧ s.names = rest :=
  ⟨List.mem_of_find?_eq_some hfind, by simpa using List.find?_some hfind⟩

theorem tree_nil (rest : Place) : tree [] rest = if rest = [] then some .directory else none := by
  simp [tree]

/-- What stands in the directory is a file, or leads to one. -/
theorem tree_cases (he : tree sources rest = some e) :
    (∃ s ∈ sources, rest = s.names ∧ e = .file s.contents false) ∨
      e = .directory ∧ (rest = [] ∨ ∃ s ∈ sources, rest <+: s.names) := by
  unfold tree at he
  split at he
  · next s hfind =>
    obtain ⟨hs, hnames⟩ := of_find? hfind
    exact .inl ⟨s, hs, hnames.symm, (Option.some.inj he).symm⟩
  · split at he
    · next hlead => exact .inr ⟨(Option.some.inj he).symm, hlead⟩
    · cases he

namespace Separate

variable (h : Separate sources)

include h

theorem tree_file (hs : s ∈ sources) : tree sources s.names = some (.file s.contents false) := by
  unfold tree
  cases hfind : sources.find? fun t => t.names = s.names with
  | none => simpa using List.find?_eq_none.mp hfind s hs
  | some t =>
    obtain ⟨ht, hnames⟩ := of_find? hfind
    obtain rfl := h.eq_of_above ht hs (hnames ▸ List.prefix_refl _)
    rfl

/-- No file is in the way to another one. -/
theorem tree_directory (hs : s ∈ sources) (hlead : rest <+: s.names) (hne : rest ≠ s.names) :
    tree sources rest = some .directory := by
  unfold tree
  cases hfind : sources.find? fun t => t.names = rest with
  | none => simp only [if_pos (show rest = [] ∨ ∃ s ∈ sources, rest <+: s.names from .inr ⟨s, hs, hlead⟩)]
  | some t =>
    obtain ⟨ht, hnames⟩ := of_find? hfind
    obtain rfl := h.eq_of_above ht hs (hnames ▸ hlead)
    exact absurd hnames.symm hne

theorem tree_root : tree sources [] = some .directory := by
  unfold tree
  cases hfind : sources.find? fun t => t.names = [] with
  | none => simp
  | some t =>
    obtain ⟨ht, hnames⟩ := of_find? hfind
    exact absurd hnames (h.below t ht)

end Separate

/-- A file that is added stands where it belongs, and makes directories of what leads to it. -/
theorem tree_concat (h : Separate (done ++ [s])) (rest : Place) :
    tree (done ++ [s]) rest =
      if rest = s.names then some (.file s.contents false)
      else if rest <+: s.names then some .directory
      else tree done rest := by
  have hs : s ∈ done ++ [s] := List.mem_append_right _ List.mem_cons_self
  split
  · next heq => rw [heq, h.tree_file hs]
  · next hne =>
    split
    · next hlead => exact h.tree_directory hs hlead hne
    · next hlead =>
      unfold tree
      have hnot : ([s].find? fun t => t.names = rest) = none := by simpa using fun heq => hne heq.symm
      rw [List.find?_append, hnot, Option.or_none]
      simp [hlead]

/-- Nothing stands where a file is added. -/
theorem tree_fresh (h : Separate (done ++ [s])) : tree done s.names = none := by
  have hs : s ∈ done ++ [s] := List.mem_append_right _ List.mem_cons_self
  have hnot : ∀ t ∈ done, ¬ s.names <+: t.names := fun t ht =>
    ((List.pairwise_append.mp h.apart).2.2 t ht s List.mem_cons_self).2
  cases hentry : tree done s.names with
  | none => rfl
  | some e =>
    obtain ⟨t, ht, hnames, -⟩ | ⟨-, hnil | ⟨t, ht, hlead⟩⟩ := tree_cases hentry
    · exact absurd (hnames ▸ List.prefix_refl _) (hnot t ht)
    · exact absurd hnil (h.below s hs)
    · exact absurd hlead (hnot t ht)

end Source

namespace Disk

variable {d d₀ : Disk} {cwd base : Place} {dest : FilePath} {names : List String} {done : List Source}
  {s : Source}

/-! ## Digging where nothing is in the way -/

/-- Where nothing but directories is in the way, all directories that are missing are made, and nothing
else happens. -/
theorem dig_names (hnames : ∀ n ∈ names, IsFileName n)
    (hfree : ∀ front, front ≠ [] → front <+: names →
      d.find? (base ++ front) = none ∨ d.find? (base ++ front) = some .directory) (made : Bool) :
    ∃ d', d.dig made base names = (.ok (), d') ∧
      (∀ front, front ≠ [] → front <+: names → d'.find? (base ++ front) = some .directory) ∧
      ∀ q, (∀ front, front ≠ [] → front <+: names → q ≠ base ++ front) → d'.find? q = d.find? q := by
  induction names generalizing base d made with
  | nil =>
    refine ⟨d, rfl, fun front hne hlead => ?_, fun _ _ => rfl⟩
    exact absurd (List.prefix_nil.mp hlead) hne
  | cons n names ih =>
    obtain ⟨hn, hrest⟩ := List.forall_mem_cons.mp hnames
    have hfirst : [n] <+: n :: names := List.cons_prefix_cons.mpr ⟨rfl, List.nil_prefix⟩
    have hlater : ∀ {front}, front <+: names → n :: front <+: n :: names := fun h =>
      List.cons_prefix_cons.mpr ⟨rfl, h⟩
    -- with the first directory there, the others are below it
    have hgo : ∀ x : Disk, x.find? (base ++ [n]) = some .directory →
        (∀ q, q ≠ base ++ [n] → x.find? q = d.find? q) → ∀ made, ∃ d',
          x.dig made (base ++ [n]) names = (.ok (), d') ∧
            (∀ front, front ≠ [] → front <+: n :: names → d'.find? (base ++ front) = some .directory) ∧
            ∀ q, (∀ front, front ≠ [] → front <+: n :: names → q ≠ base ++ front) →
              d'.find? q = d.find? q := by
      intro x hx hothers made
      have hbelow : ∀ front : List String, base ++ [n] ++ front = base ++ n :: front := fun front => by
        rw [List.append_assoc, List.singleton_append]
      obtain ⟨d', hdig, hdirs, hsame⟩ := @ih x (base ++ [n]) hrest (fun front hne hlead => by
        rw [hbelow, hothers _ fun heq => hne (List.cons.inj (List.append_cancel_left heq)).2]
        exact hfree _ (List.cons_ne_nil _ _) (hlater hlead)) made
      refine ⟨d', hdig, fun front hne hlead => ?_, fun q hq => ?_⟩
      · obtain ⟨m, front, rfl⟩ := List.exists_cons_of_ne_nil hne
        obtain ⟨rfl, hfront⟩ := List.cons_prefix_cons.mp hlead
        by_cases hnil : front = []
        · rw [hnil, hsame _ fun front hne _ heq => ?_, hx]
          exact hne (List.append_right_eq_self.mp heq.symm)
        · rw [← hbelow]
          exact hdirs front hnil hfront
      · rw [hsame q fun front _ hlead heq => ?_, hothers q ?_]
        · exact hq [n] (List.cons_ne_nil _ _) hfirst
        · exact hq (n :: front) (List.cons_ne_nil _ _) (hlater hlead) (heq.trans (hbelow front))
    unfold dig
    rw [if_neg hn.entry.2.2.1, if_neg hn.short]
    rcases hfree [n] (List.cons_ne_nil _ _) hfirst with hnone | hdir
    · simp only [hnone]
      refine hgo _ ?_ (fun q hq => ?_) true
      · rw [find?_put, if_pos rfl]
      · rw [find?_put, if_neg hq]
    · simp only [hdir]
      exact hgo d hdir (fun _ _ => rfl) made

/-! ## Files one after another -/

/-- The directory at `base` holds exactly these files, and elsewhere the disk is as it was. -/
structure Holds (d₀ d : Disk) (base : Place) (done : List Source) : Prop where
  tree : ∀ rest, d.find? (base ++ rest) = Source.tree done rest
  others : ∀ q, ¬ base <+: q → d.find? q = d₀.find? q

namespace Holds

section

variable (hd : Holds d₀ d base done) (hseparate : Source.Separate done) (hempty : Holds d₀ d₀ base [])

include hd hseparate

theorem there : d.find? base = some .directory := by
  have hroot := hd.tree []
  rwa [List.append_nil, hseparate.tree_root] at hroot

include hempty

/-- Directories and links stand as before. -/
theorem keeps : d₀.Keeps d := by
  intro q e hq _
  by_cases hbelow : base <+: q
  · obtain ⟨rest, rfl⟩ := hbelow
    rw [hempty.tree, Source.tree_nil] at hq
    split at hq
    · next hnil => rw [hnil, List.append_nil, hd.there hseparate, ← hq]
    · cases hq
  · rw [hd.others q hbelow, hq]

/-- The directory can be written to. -/
theorem ground (hdest : d₀.entryAt cwd true dest = .ok (base, .directory)) : d.Ground cwd dest base := by
  have hleads := entryAt_of_keeps (hd.keeps hseparate hempty) hdest (hd.there hseparate)
  refine ⟨⟨hleads, fun rest t hlink => ?_⟩, fun rest n e he => ?_⟩
  · rw [hd.tree] at hlink
    obtain ⟨_, -, -, heq⟩ | ⟨heq, -⟩ := Source.tree_cases hlink <;> cases heq
  · rw [List.append_assoc, hd.tree] at he
    rw [hd.tree]
    obtain ⟨s, hs, hlead⟩ : ∃ s ∈ done, rest ++ [n] <+: s.names := by
      obtain ⟨s, hs, hnames, -⟩ | ⟨-, hnil | hlead⟩ := Source.tree_cases he
      · exact ⟨s, hs, hnames ▸ List.prefix_refl _⟩
      · exact absurd hnil (List.append_ne_nil_of_right_ne_nil _ (List.cons_ne_nil _ _))
      · exact hlead
    refine hseparate.tree_directory hs ((List.prefix_append rest [n]).trans hlead) ?_
    rintro rfl
    have hlength := hlead.length_le
    rw [List.length_append, List.length_singleton] at hlength
    omega

end

end Holds

/-- A file can be made in a directory on the way, under a name that nothing has. -/
theorem Ground.planCreate_new {target : FilePath} (hd : d.Ground cwd dest base)
    (hp : Continues dest names target) (hending : target.ending = .plain) (hne : names ≠ [])
    (hnames : ∀ n ∈ names, IsFileName n) (hfront : d.enters base names.dropLast = true)
    (hnone : d.find? (base ++ names) = none) (executable : Bool) :
    d.planCreate cwd target executable = .ok (.create (base ++ names) executable) := by
  obtain ⟨front, n, rfl⟩ := (List.eq_nil_or_concat' names).resolve_left hne
  rw [List.dropLast_concat] at hfront
  have hentries : ∀ m ∈ front ++ [n], IsEntryName m := fun m hm => (hnames m hm).entry
  have hn := hnames n (List.mem_append_right _ List.mem_cons_self)
  have hwalk : Place.walk base front ++ [n] = base ++ (front ++ [n]) := by
    rw [Place.walk_names _ fun m hm => hentries m (List.mem_append_left _ hm), List.append_assoc]
  have hfollow : d.follow true true base (front ++ [n]) = .ok (.arrived (base ++ (front ++ [n]))) := by
    rw [follow_behind hfront]
    unfold follow
    rw [if_neg hn.entry.2.2.1, if_neg hn.short]
    simp only [hwalk, hnone]
    rfl
  unfold Disk.planCreate
  rw [hd.locate_down hne (Place.stays_names hentries 0) hp, hending, Place.walk_names _ hentries]
  simp only [ne_eq, reduceCtorEq, not_false_eq_true, decide_true, Bool.true_or, hfollow,
    List.nil_append, hnone, if_true]

/-- The directories that lead to a file can be made beside files that stand apart from it. -/
theorem Holds.dig {front : List String} {n : String} (hseparate : Source.Separate (done ++ [s]))
    (hnames : s.names = front ++ [n]) (hd : d.Ground cwd dest base) (hholds : Holds d₀ d base done) :
    ∃ x, d.dig false base front = (.ok (), x) ∧ x.Ground cwd dest base ∧
      x.enters base front = true ∧
      (∀ rest, x.find? (base ++ rest) =
        if rest <+: front then some .directory else Source.tree done rest) ∧
      ∀ q, ¬ base <+: q → x.find? q = d₀.find? q := by
  have hs : s ∈ done ++ [s] := List.mem_append_right _ List.mem_cons_self
  have hlead : ∀ {pre : List String}, pre <+: front → pre <+: s.names ∧ pre ≠ s.names := by
    intro pre hpre
    refine ⟨hpre.trans (hnames ▸ List.prefix_append front [n]), ?_⟩
    rintro rfl
    have hlength := hpre.length_le
    rw [hnames, List.length_append, List.length_singleton] at hlength
    omega
  -- what leads to the file is not a file of another name
  have hfree : ∀ pre, pre ≠ [] → pre <+: front →
      d.find? (base ++ pre) = none ∨ d.find? (base ++ pre) = some .directory := by
    intro pre _ hpre
    rw [hholds.tree]
    cases hentry : Source.tree done pre with
    | none => exact .inl rfl
    | some e =>
      rcases Source.tree_cases hentry with ⟨t, ht, rfl, -⟩ | ⟨rfl, -⟩
      · have heq := hseparate.eq_of_above (List.mem_append_left _ ht) hs (hlead hpre).1
        exact absurd (congrArg Source.names heq) (hlead hpre).2
      · exact .inr rfl
  have hfront : ∀ m ∈ front, IsFileName m := fun m hm =>
    hseparate.names s hs m (hnames ▸ List.mem_append_left _ hm)
  have hground : (d.dig false base front).2.Ground cwd dest base :=
    hd.dig (Place.stays_names (fun m hm => (hfront m hm).entry) 0)
  have henters : (d.dig false base front).1 = .ok () →
      (d.dig false base front).2.enters base front = true := enters_dig
  obtain ⟨x, hdig, hdirs, hsame⟩ := dig_names hfront hfree false
  rw [hdig] at hground henters
  refine ⟨x, hdig, hground, henters rfl, fun rest => ?_, fun q hq => ?_⟩
  · split
    · next hrest =>
      by_cases hnil : rest = []
      · rw [hnil, List.append_nil]
        exact hground.there
      · exact hdirs rest hnil hrest
    · next hrest =>
      rw [hsame _ fun pre _ hpre heq => ?_, hholds.tree]
      exact hrest (List.append_cancel_left heq ▸ hpre)
  · rw [hsame q, hholds.others q hq]
    rintro pre - - rfl
    exact hq (List.prefix_append _ _)

/-- A file can be laid beside files that stand apart from it. -/
theorem Holds.lay (hseparate : Source.Separate (done ++ [s])) (hd : d.Ground cwd dest base)
    (hholds : Holds d₀ d base done) :
    ∃ d', d.layAt cwd dest base (Zip.memberName s.names) ⟨s.contents, none⟩ = (.ok (), d') ∧
      Holds d₀ d' base (done ++ [s]) := by
  have hs : s ∈ done ++ [s] := List.mem_append_right _ List.mem_cons_self
  have hbelow := hseparate.below s hs
  have hfiles := hseparate.names s hs
  have hentries : ∀ n ∈ s.names, IsEntryName n := fun n hn => (hfiles n hn).entry
  have hclean : ∀ n ∈ s.names, '\x00' ∉ n.toList := fun n hn => (hfiles n hn).clean
  have hp := hd.continues (Zip.isEnclosed_memberName hentries hclean hbelow)
  obtain ⟨front, n, hnames⟩ := (List.eq_nil_or_concat' s.names).resolve_left hbelow
  have hending : (dest.join ⟨Zip.memberName s.names⟩).ending = .plain := by
    refine FilePath.ending_join (FilePath.isAbsolute_textOfComponents hentries)
      (hentries n (hnames ▸ List.mem_append_right _ List.mem_cons_self)) ?_
    rw [Zip.pieces_memberName hentries hbelow, hnames, List.map_append, List.map_singleton,
      List.getLast?_concat]
  obtain ⟨x, hdig, hground, henters, htree, hothers⟩ := hholds.dig hseparate hnames hd
  have hnot : ¬ s.names <+: front := fun hlead => by
    have hlength := hlead.length_le
    rw [hnames, List.length_append, List.length_singleton] at hlength
    omega
  have hnone : x.find? (base ++ s.names) = none := by
    rw [htree, if_neg hnot, Source.tree_fresh hseparate]
  have hdrop : s.names.dropLast = front := by rw [hnames, List.dropLast_concat]
  rw [Zip.steps_memberName hentries] at hp
  have hcreate := hground.planCreate_new hp hending hbelow hfiles (by rwa [hdrop]) hnone false
  refine ⟨x.put (base ++ s.names) (.file s.contents false), ?_, fun rest => ?_, fun q hq => ?_⟩
  · unfold layAt
    rw [Zip.steps_memberName hentries, hdrop, hdig]
    simp only [fill, hcreate, Change.place, apply_create_append]
  · rw [find?_put, Source.tree_concat hseparate]
    by_cases heq : rest = s.names
    · rw [if_pos heq, if_pos (congrArg (base ++ ·) heq)]
    · have hlead : rest <+: s.names ↔ rest <+: front := by
        rw [hnames, List.prefix_concat_iff, ← hnames]
        exact or_iff_right heq
      rw [if_neg heq, if_neg (fun h => heq (List.append_cancel_left h)), htree]
      simp only [hlead]
  · rw [find?_put, if_neg, hothers q hq]
    rintro rfl
    exact hq (List.prefix_append _ _)

end Disk

end Decompile
