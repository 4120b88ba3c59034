import Decompile.Proofs.Disk.Stairs
import Mathlib.Data.List.Infix

/-!
# Class files and the names of their members

A class file is packed under its path below the root, written with slashes. The name says all of that
path: read again as a path it goes the same way, and it never leaves the directory it is read in.

- `IsFileName`: a name under which a file can be made.
- `FilePath.components_of_relativeTo?`: what is known of a path below another one.
- `Zip.memberName`: the name of a member; `components_memberName`, `isEnclosed_memberName` and
  `namesDirectory_memberName`: what unpacking makes of it.
- `Source`, `Source.Stands`: a class file below a root.
- `Source.Stands.not_above`: no class file stands below another one.
-/

namespace Decompile

/-- A name under which a file can be made. -/
structure IsFileName (n : String) : Prop where
  entry : IsEntryName n
  short : ¬ nameLimit < (Text.encode n).length
  clean : '\x00' ∉ n.toList

/-! ## Texts with separators -/

/-- Joined texts end as the last of them does. -/
theorem Text.getLast?_joinWith {sep last : List Char} {ps : List (List Char)} (hlast : last ≠ []) :
    (joinWith sep (ps ++ [last])).getLast? = last.getLast? := by
  induction ps with
  | nil => rfl
  | cons p ps ih =>
    have hne : ps ++ [last] ≠ [] := List.append_ne_nil_of_right_ne_nil _ (List.cons_ne_nil _ _)
    rw [List.cons_append, joinWith.eq_3 _ _ _ hne, List.getLast?_append, ih]
    cases hend : last.getLast? with
    | none => exact absurd (List.getLast?_eq_none_iff.mp hend) hlast
    | some c => rfl

/-! ## Paths below others -/

namespace FilePath

variable {p root : FilePath} {cs lead all : List Component} {names : List String} {n : String}

theorem eq_append_of_afterLead (h : afterLead lead all = some cs) : all = lead ++ cs := by
  induction lead generalizing all with
  | nil => exact Option.some.inj h
  | cons c lead ih =>
    cases all with
    | nil => cases h
    | cons d all =>
      unfold afterLead at h
      split at h
      · next heq => rw [heq, List.cons_append, ← ih h]
      · cases h

/-- The path below a root is what its components have behind those of the root. -/
theorem components_of_relativeTo? (h : p.relativeTo? root = some cs) :
    p.components = root.components ++ cs :=
  eq_append_of_afterLead h

/-- The last dot of a name stands before the extension. -/
theorem eq_append_of_splitName {cs e : List Char} (h : (splitName cs).2 = some e) :
    ∃ lead, cs = lead ++ '.' :: e := by
  have hback : cs.reverse.takeWhile (· ≠ '.') ++ cs.reverse.dropWhile (· ≠ '.') = cs.reverse :=
    List.takeWhile_append_dropWhile
  unfold splitName at h
  rw [List.span_eq_takeWhile_dropWhile] at h
  generalize cs.reverse.takeWhile (· ≠ '.') = tail at h hback
  have hdot : ∀ c, (cs.reverse.dropWhile (· ≠ '.')).head? = some c → c = '.' := fun c hc => by
    have hnot := List.head?_dropWhile_not (fun c : Char => decide (c ≠ '.')) cs.reverse
    rw [hc] at hnot
    simpa using hnot
  generalize cs.reverse.dropWhile (· ≠ '.') = rest at h hback hdot
  match rest, h with
  | c :: d :: lead, h =>
    obtain rfl : tail.reverse = e := Option.some.inj h
    obtain rfl := hdot c rfl
    refine ⟨(d :: lead).reverse, ?_⟩
    rw [← List.reverse_reverse cs, ← hback, List.reverse_append, List.reverse_cons,
      List.append_assoc, List.singleton_append]

/-- The name of a class file ends with an `s`, be it a small one or a capital. -/
theorem toLower_last_of_isClass (hn : p.fileName? = some n) (hclass : p.hasExtension "class" = true) :
    ∃ c, n.toList.getLast? = some c ∧ c.toLower = 's' := by
  unfold hasExtension extension? at hclass
  rw [hn, Option.bind_some] at hclass
  cases hsplit : (splitName n.toList).2 with
  | none =>
    rw [hsplit] at hclass
    cases hclass
  | some e =>
    obtain ⟨lead, hlead⟩ := eq_append_of_splitName hsplit
    rw [hsplit] at hclass
    simp only [Option.map_some, String.toList_ofList] at hclass
    have hsame : Text.lower e = "class".toList := (beq_iff_eq.mp hclass).trans (by decide)
    have hlast : e.getLast?.map Char.toLower = some 's' := by
      rw [← List.getLast?_map]
      exact (congrArg List.getLast? hsame).trans rfl
    obtain ⟨c, hc, hlower⟩ := Option.map_eq_some_iff.mp hlast
    refine ⟨c, ?_, hlower⟩
    rw [hlead, List.getLast?_append, List.getLast?_cons, hc]
    rfl

end FilePath

/-! ## Names of members -/

namespace Zip

variable {names more : List String}

/-- The name of the member that a file is packed as. -/
def memberName (names : List String) : String := FilePath.textOfComponents (names.map .name)

/-- Names that go down only stay below where they start. -/
theorem staysBelow_names (names : List String) (depth : Nat) :
    staysBelow depth (names.map .name) = true := by
  induction names generalizing depth with
  | nil => cases depth <;> rfl
  | cons n names ih => cases depth <;> exact ih _

/-- The name of a member ends as the last of its names does. -/
theorem getLast?_memberName {front : List String} {n : String} (hn : n ≠ "") :
    (memberName (front ++ [n])).toList.getLast? = n.toList.getLast? := by
  rw [memberName, FilePath.textOfComponents, String.toList_ofList, List.map_append, List.map_append]
  have hne : n.toList ≠ [] := fun heq => hn (String.toList_eq_nil_iff.mp heq)
  exact Text.getLast?_joinWith hne

section

variable (hnames : ∀ n ∈ names, IsEntryName n)

include hnames

theorem pieces_memberName (hne : names ≠ []) :
    (⟨memberName names⟩ : FilePath).pieces = names.map String.toList := by
  have htexts : (names.map FilePath.Component.name).map (fun c => c.text.toList) =
      names.map String.toList := by
    rw [List.map_map]
    rfl
  rw [FilePath.pieces, memberName, FilePath.textOfComponents, String.toList_ofList, htexts,
    Text.pieces_joinWith]
  · exact fun heq => hne (List.map_eq_nil_iff.mp heq)
  · intro x hx
    obtain ⟨n, hn, rfl⟩ := List.mem_map.mp hx
    exact (hnames n hn).2.2.2

/-- Read as a path, the name goes through the names it was made of. -/
theorem components_memberName (hne : names ≠ []) :
    (⟨memberName names⟩ : FilePath).components = names.map .name := by
  have hpieces := pieces_memberName hnames hne
  have hcomponents : (names.map String.toList).filterMap FilePath.componentOfPiece =
      names.map .name := by
    rw [List.filterMap_map, ← List.filterMap_eq_map]
    exact List.filterMap_congr fun n hn => FilePath.componentOfPiece_of_isEntryName (hnames n hn)
  have hdot : (names.map String.toList).head? ≠ some ['.'] := by
    intro hhead
    rw [List.head?_map] at hhead
    obtain ⟨n, hn, heq⟩ := Option.map_eq_some_iff.mp hhead
    refine (hnames n (List.mem_of_head? hn)).2.1 ?_
    rw [← String.ofList_toList (s := n), heq]
  have hrelative : (⟨memberName names⟩ : FilePath).isAbsolute = false :=
    FilePath.isAbsolute_textOfComponents hnames
  rw [FilePath.components, hpieces, hcomponents, hrelative, if_neg hdot]
  rfl

theorem steps_memberName : (⟨memberName names⟩ : FilePath).steps = names :=
  FilePath.steps_textOfComponents hnames

/-- Different names are written differently. -/
theorem memberName_inj (hmore : ∀ n ∈ more, IsEntryName n)
    (heq : memberName names = memberName more) : names = more := by
  rw [← steps_memberName hnames, heq, steps_memberName hmore]

theorem clean_memberName (hclean : ∀ n ∈ names, '\x00' ∉ n.toList) (hne : names ≠ []) :
    '\x00' ∉ (memberName names).toList := by
  intro hnul
  have hother : '\x00' ≠ '/' := by decide
  obtain ⟨x, hx, hmem⟩ := (Text.mem_iff_mem_pieces hother).mp hnul
  have hpieces : Text.pieces '/' (memberName names).toList = names.map String.toList :=
    pieces_memberName hnames hne
  rw [hpieces] at hx
  obtain ⟨n, hn, rfl⟩ := List.mem_map.mp hx
  exact hclean n hn hmem

/-- The name of a member stays below the directory it is unpacked into. -/
theorem isEnclosed_memberName (hclean : ∀ n ∈ names, '\x00' ∉ n.toList) (hne : names ≠ []) :
    isEnclosed (memberName names) = true := by
  have hnul := clean_memberName hnames hclean hne
  rw [isEnclosed, components_memberName hnames hne, staysBelow_names, Bool.and_true,
    Bool.not_eq_true']
  simpa using hnul

end

end Zip

/-! ## Names that can be looked up -/

namespace Disk

variable {d : Disk} {cwd here : Place} {free through : Bool} {names : List String} {n : String}

/-- Names that were taken are short, but for those that a link has put off. -/
theorem short_of_follow {f : Followed} (hf : d.follow free through here names = .ok f)
    (hn : n ∈ names) (hup : n ≠ "..") :
    ¬ nameLimit < (Text.encode n).length ∨
      ∃ base target rest, f = .redirected base target rest ∧ n ∈ rest := by
  induction names generalizing here with
  | nil => cases hn
  | cons m rest ih =>
    unfold follow at hf
    rcases List.mem_cons.mp hn with rfl | hn
    · rw [if_neg hup] at hf
      split at hf
      · cases hf
      · next hshort => exact .inl hshort
    · split at hf
      · exact ih hf hn
      · split at hf
        · cases hf
        · -- more names follow, so this one leads to a directory or a link
          have hmore : (free && rest.isEmpty) = false := by
            rw [List.isEmpty_eq_false_iff.mpr (List.ne_nil_of_mem hn), Bool.and_false]
          simp only [hmore, Bool.false_and, Bool.false_eq_true, if_false] at hf
          split at hf
          · exact ih hf hn
          · exact .inr ⟨_, _, _, (Except.ok.inj hf).symm, hn⟩
          · cases hf
          · cases hf

theorem short_of_locateFrom {links : Nat} {ending : PathEnd} {r : Place × PathEnd}
    (hr : d.locateFrom through links ending here names = .ok r) (hn : n ∈ names) (hup : n ≠ "..") :
    ¬ nameLimit < (Text.encode n).length := by
  induction links generalizing ending here names with
  | zero =>
    unfold locateFrom at hr
    split at hr
    · cases hr
    · next q hf =>
      exact (short_of_follow hf hn hup).resolve_right fun ⟨_, _, _, heq, _⟩ => by cases heq
    · cases hr
  | succ links ih =>
    unfold locateFrom at hr
    split at hr
    · cases hr
    · next q hf =>
      exact (short_of_follow hf hn hup).resolve_right fun ⟨_, _, _, heq, _⟩ => by cases heq
    · next base target rest hf =>
      refine (short_of_follow hf hn hup).elim id fun ⟨_, _, _, heq, hrest⟩ => ?_
      obtain ⟨-, -, rfl⟩ := Followed.redirected.inj heq
      exact ih hr (List.mem_append_right _ hrest)

/-- The names of a path that leads to an entry are names under which files can be made. -/
theorem isFileName_of_entryAt {p : FilePath} {r : Place × Entry}
    (hr : d.entryAt cwd through p = .ok r) (hn : .name n ∈ p.components) : IsFileName n := by
  have hentry := FilePath.isEntryName_of_mem_components hn
  have hstep : n ∈ p.steps := by
    rw [← FilePath.filterMap_step?_components]
    exact List.mem_filterMap.mpr ⟨_, hn, rfl⟩
  refine ⟨hentry, ?_, fun hnul => ?_⟩
  · obtain ⟨ending, hlocate, -, -⟩ := entryAt_of_locate hr
    unfold locate at hlocate
    split at hlocate
    · cases hlocate
    · split at hlocate
      · cases hlocate
      · exact short_of_locateFrom hlocate hstep hentry.2.2.1
  · obtain ⟨x, hx, rfl⟩ := List.mem_map.mp hstep
    rw [String.toList_ofList] at hnul
    exact clean_of_entryAt hr ((Text.mem_iff_mem_pieces (by decide)).mpr
      ⟨x, (List.mem_filter.mp hx).1, hnul⟩)

end Disk

/-! ## Class files -/

/-- A class file: its path, the names that lead to it below the root, and what it holds. -/
structure Source where
  path : FilePath
  names : List String
  contents : Bytes
  deriving DecidableEq, Repr

/-- The class file stands on the disk, below the root, which is at `base`. -/
structure Source.Stands (s : Source) (d : Disk) (cwd : Place) (root : FilePath) (base : Place) :
    Prop where
  relative : s.path.relativeTo? root = some (s.names.map .name)
  below : s.names ≠ []
  isClass : s.path.hasExtension "class" = true
  leads : ∃ x, d.entryAt cwd true s.path = .ok (base ++ s.names, .file s.contents x)
  within : ∀ front, front <+: s.names → front ≠ s.names → d.find? (base ++ front) = some .directory

/-- The member that a class file is packed as. -/
def Source.member (s : Source) : Zip.Member := ⟨Zip.memberName s.names, s.contents, true⟩

namespace Source.Stands

variable {s t : Source} {d d' : Disk} {cwd base place : Place} {root : FilePath}
  (hs : s.Stands d cwd root base)

include hs

theorem isFileName {n : String} (hn : n ∈ s.names) : IsFileName n := by
  obtain ⟨x, hx⟩ := hs.leads
  refine Disk.isFileName_of_entryAt hx ?_
  rw [FilePath.components_of_relativeTo? hs.relative]
  exact List.mem_append_right _ (List.mem_map.mpr ⟨n, hn, rfl⟩)

theorem names : ∀ n ∈ s.names, IsEntryName n := fun _ hn => (hs.isFileName hn).entry

/-- The last name is that of a class file. -/
theorem exists_last : ∃ front n, s.names = front ++ [n] ∧ s.path.fileName? = some n := by
  obtain ⟨front, n, hlast⟩ := (List.eq_nil_or_concat' s.names).resolve_left hs.below
  refine ⟨front, n, hlast, ?_⟩
  rw [FilePath.fileName?, FilePath.components_of_relativeTo? hs.relative, hlast, List.map_append,
    ← List.append_assoc, List.map_singleton, List.getLast?_concat]

/-- The name of the member ends with a letter. -/
theorem last_memberName : ∃ c, (Zip.memberName s.names).toList.getLast? = some c ∧ c.toLower = 's' := by
  obtain ⟨front, n, hlast, hn⟩ := hs.exists_last
  obtain ⟨c, hc, hlower⟩ := FilePath.toLower_last_of_isClass hn hs.isClass
  have hne : n ≠ "" := (FilePath.isEntryName_of_fileName? hn).1
  exact ⟨c, by rw [hlast, Zip.getLast?_memberName hne, hc], hlower⟩

/-- The member is listed: its name is none of a directory's. -/
theorem memberName_listed : (Zip.memberName s.names).toList.getLast? ≠ some '/' := by
  obtain ⟨c, hc, hlower⟩ := hs.last_memberName
  rw [hc]
  rintro heq
  obtain rfl := Option.some.inj heq
  exact absurd hlower (by decide)

/-- The member is unpacked: its name is none of a directory's, whichever slash it is written with. -/
theorem namesDirectory_memberName : Zip.namesDirectory (Zip.memberName s.names) = false := by
  obtain ⟨c, hc, hlower⟩ := hs.last_memberName
  rw [Zip.namesDirectory, hc]
  simp only [Bool.or_eq_false_iff, beq_eq_false_iff_ne]
  constructor <;> rintro rfl <;> exact absurd hlower (by decide)

theorem isEnclosed_memberName : Zip.isEnclosed (Zip.memberName s.names) = true :=
  Zip.isEnclosed_memberName hs.names (fun _ hn => (hs.isFileName hn).clean) hs.below

/-- No class file stands below another one: what leads to it are directories. -/
theorem not_above (ht : t.Stands d cwd root base) (hne : s.names ≠ t.names) :
    ¬ s.names <+: t.names := by
  intro hlead
  obtain ⟨x, hx⟩ := hs.leads
  obtain ⟨-, -, hfile, -⟩ := Disk.entryAt_of_locate hx
  have hdirectory := ht.within _ hlead hne
  rw [hfile] at hdirectory
  cases hdirectory

/-- A file that is written elsewhere leaves a class file as it is. -/
theorem of_fileAt (h : d.FileAt d' place) (hplace : base ++ s.names ≠ place) :
    s.Stands d' cwd root base := by
  obtain ⟨x, hx⟩ := hs.leads
  obtain ⟨-, -, hfile, -⟩ := Disk.entryAt_of_locate hx
  refine { hs with
    leads := ⟨x, Disk.entryAt_of_keeps h.keeps hx ((h.others _ hplace).trans hfile)⟩
    within := fun front hfront hne => h.keeps _ _ (hs.within front hfront hne) rfl }

end Source.Stands

end Decompile
