import Decompile.Proofs.Disk.Digging
import Decompile.Proofs.Disk.Agreeing

/-!
# Trees

On a real disk every entry stands in a directory, under a name that fits. Changes that are planned for
paths keep it so.

- `Disk.Tree`: such disks.
- `Tree.follow_arrived`, `follow_front`: where steps lead.
- `SameAt.above`: paths above a directory mean the same on all disks that keep the way to it.
- `FilePath.Spells`: a path with more names than another one.
- `Anchored.arrives`: where paths below a directory lead; `Anchored.locate_names` says which lead there.
- `Change.Fits`, `Tree.apply`: changes that keep a tree.
- `find?_replay_removes`, `find?_removeTree`: what is left when entries are removed.
-/

namespace Decompile

namespace Disk

variable {d d' d₀ : Disk} {cwd here base : Place} {free through : Bool} {names more : List String}
  {p root : FilePath}

/-- The name can be that of an entry: it is not too long, and no character in it ends a text. -/
def NameFits (n : String) : Prop := (Text.encode n).length ≤ nameLimit ∧ '\x00' ∉ n.toList

instance (n : String) : Decidable (NameFits n) := inferInstanceAs (Decidable (_ ∧ _))

/-- The disk is a tree: every entry but the root stands in a directory, under a name that fits. -/
structure Tree (d : Disk) : Prop where
  root : d.find? [] = some .directory
  inner : ∀ q n e, d.find? (q ++ [n]) = some e → d.find? q = some .directory ∧ NameFits n

theorem tree_iff : d.Tree ↔ d.find? [] = some .directory ∧ ∀ x ∈ d.entries,
    x.1 = [] ∨ d.find? x.1.dropLast = some .directory ∧ x.1.getLast?.all fun n => NameFits n := by
  constructor
  · refine fun hd => ⟨hd.root, fun x hx => ?_⟩
    have hfound : d.find? x.1 = some x.2 := findEntry_of_mem d.ascending hx
    rcases List.eq_nil_or_concat x.1 with hnil | ⟨q, n, hq⟩
    · exact .inl hnil
    · rw [List.concat_eq_append] at hq
      rw [hq] at hfound ⊢
      obtain ⟨hdir, hfits⟩ := hd.inner q n x.2 hfound
      refine .inr ⟨by rwa [List.dropLast_concat], ?_⟩
      rw [List.getLast?_concat]
      exact decide_eq_true hfits
  · refine fun ⟨hroot, hall⟩ => ⟨hroot, fun q n e hfound => ?_⟩
    rcases hall _ (mem_of_findEntry hfound) with hnil | ⟨hdir, hfits⟩
    · exact absurd hnil (List.append_ne_nil_of_right_ne_nil _ (List.cons_ne_nil _ _))
    · rw [List.dropLast_concat] at hdir
      rw [List.getLast?_concat] at hfits
      exact ⟨hdir, of_decide_eq_true hfits⟩

instance : Decidable d.Tree := decidable_of_iff _ tree_iff.symm

namespace Tree

variable (hd : d.Tree)
include hd

theorem rooted : d.Rooted [] := fun rest n e hfound => by
  rw [List.nil_append] at hfound ⊢
  exact (hd.inner rest n e hfound).1

/-- What something stands below is a directory. -/
theorem directory {q rest : Place} {e : Entry} (hfound : d.find? (q ++ rest) = some e)
    (hrest : rest ≠ []) : d.find? q = some .directory := by
  induction rest using List.reverseRecOn generalizing e with
  | nil => exact absurd rfl hrest
  | append_singleton rest n ih =>
    rw [← List.append_assoc] at hfound
    have hparent := (hd.inner _ _ _ hfound).1
    by_cases hnil : rest = []
    · rwa [hnil, List.append_nil] at hparent
    · exact ih hparent hnil

theorem dropLast {q : Place} (hq : d.find? q = some .directory) :
    d.find? q.dropLast = some .directory := by
  rcases List.eq_nil_or_concat q with rfl | ⟨r, n, rfl⟩
  · exact hq
  · rw [List.concat_eq_append] at hq ⊢
    rw [List.dropLast_concat]
    exact (hd.inner _ _ _ hq).1

/-- Steps that arrive lead to a directory, or to a name in one. -/
theorem follow_arrived (hhere : d.find? here = some .directory) {q : Place}
    (hf : d.follow free through here names = .ok (.arrived q)) :
    d.find? q = some .directory ∨ ∃ r n, q = r ++ [n] ∧ d.find? r = some .directory ∧
      (Text.encode n).length ≤ nameLimit ∧ n ∈ names := by
  induction names generalizing here with
  | nil =>
    obtain rfl := Followed.arrived.inj (Except.ok.inj hf)
    exact .inl hhere
  | cons n rest ih =>
    have hlater : ∀ {next : Place}, d.find? next = some .directory →
        d.follow free through next rest = .ok (.arrived q) → d.find? q = some .directory ∨
          ∃ r m, q = r ++ [m] ∧ d.find? r = some .directory ∧
            (Text.encode m).length ≤ nameLimit ∧ m ∈ n :: rest := by
      intro next hnext hrest
      rcases ih hnext hrest with hdir | ⟨r, m, hq, hr, hshort, hm⟩
      · exact .inl hdir
      · exact .inr ⟨r, m, hq, hr, hshort, List.mem_cons_of_mem _ hm⟩
    unfold follow at hf
    split at hf
    · exact hlater (hd.dropLast hhere) hf
    split at hf
    · cases hf
    next hlong =>
    have hthere : (q = here ++ [n]) → d.find? q = some .directory ∨
        ∃ r m, q = r ++ [m] ∧ d.find? r = some .directory ∧
          (Text.encode m).length ≤ nameLimit ∧ m ∈ n :: rest := fun hq =>
      .inr ⟨here, n, hq, hhere, Nat.le_of_not_lt hlong, List.mem_cons_self⟩
    simp only at hf
    split at hf
    · next hnext => exact hlater hnext hf
    · split at hf
      · exact hthere (Followed.arrived.inj (Except.ok.inj hf)).symm
      · cases hf
    · split at hf
      · exact hthere (Followed.arrived.inj (Except.ok.inj hf)).symm
      · cases hf
    · split at hf
      · exact hthere (Followed.arrived.inj (Except.ok.inj hf)).symm
      · cases hf

/-- A link that is met stands in a directory. -/
theorem follow_redirected (hhere : d.find? here = some .directory) {q : Place} {t : String}
    {rest : List String} (hf : d.follow free through here names = .ok (.redirected q t rest)) :
    d.find? q = some .directory := by
  induction names generalizing here with
  | nil => cases hf
  | cons n names ih =>
    unfold follow at hf
    split at hf
    · exact ih (hd.dropLast hhere) hf
    split at hf
    · cases hf
    simp only at hf
    split at hf
    · next hnext => exact ih hnext hf
    · split at hf
      · cases hf
      · obtain ⟨rfl, -⟩ := Followed.redirected.inj (Except.ok.inj hf)
        exact hhere
    · split at hf <;> cases hf
    · split at hf <;> cases hf

/-- Steps that can be taken on to a directory lead to a directory or a link before that, or meet the
same link. -/
theorem follow_front {a b : List String} (hhere : d.find? here = some .directory) {f : Followed}
    (hf : d.follow free true here (a ++ b) = .ok f)
    (hend : ∀ q, f = .arrived q → d.find? q = some .directory) (free' through' : Bool) :
    (∃ q e, d.follow free' through' here a = .ok (.arrived q) ∧ d.find? q = some e ∧
      e.isFile = false) ∨
    ∃ q t rest, d.follow free' through' here a = .ok (.redirected q t rest) ∧
      f = .redirected q t (rest ++ b) := by
  induction a generalizing here with
  | nil => exact .inl ⟨here, .directory, rfl, hhere, rfl⟩
  | cons n a ih =>
    rw [List.cons_append] at hf
    unfold follow at hf ⊢
    by_cases hup : n = ".."
    · rw [if_pos hup] at hf ⊢
      exact ih (hd.dropLast hhere) hf
    rw [if_neg hup] at hf ⊢
    by_cases hlong : nameLimit < (Text.encode n).length
    · rw [if_pos hlong] at hf
      cases hf
    rw [if_neg hlong] at hf ⊢
    have hnot : ∀ {x : Except IoError Followed}, d.find? (here ++ [n]) ≠ some .directory →
        (if (free && (a ++ b).isEmpty) = true then .ok (.arrived (here ++ [n])) else x) = .ok f →
          (∀ g, x ≠ .ok g) → False := by
      intro x hne hx hnone
      split at hx
      · exact hne (hend _ (Except.ok.inj hx).symm)
      · exact hnone f hx
    cases hnext : d.find? (here ++ [n]) with
    | none =>
      simp only [hnext] at hf
      exact (hnot (by simp [hnext]) hf fun _ hok => by cases hok).elim
    | some e =>
      cases e with
      | directory =>
        simp only [hnext] at hf ⊢
        exact ih hnext hf
      | link t =>
        simp only [hnext, Bool.not_true, Bool.and_false, Bool.false_eq_true, if_false] at hf
        obtain rfl := Except.ok.inj hf
        simp only [hnext]
        by_cases hstop : (free' && a.isEmpty && !through') = true
        · rw [if_pos hstop]
          exact .inl ⟨_, _, rfl, hnext, rfl⟩
        · rw [if_neg hstop]
          exact .inr ⟨_, _, _, rfl, rfl⟩
      | file c x =>
        simp only [hnext] at hf
        exact (hnot (by simp [hnext]) hf fun _ hok => by cases hok).elim

/-- The first steps of a path that leads to a directory lead to a directory or a link. -/
theorem locateFrom_front {a b : List String} {links : Nat} {ending e : PathEnd}
    (hhere : d.find? here = some .directory)
    (hq : d.locateFrom true links ending here (a ++ b) = .ok (base, e))
    (hbase : d.find? base = some .directory) (through' : Bool) (ending' : PathEnd) :
    ∃ q e' x, d.locateFrom through' links ending' here a = .ok (q, e') ∧ d.find? q = some x ∧
      x.isFile = false := by
  induction links generalizing ending ending' here a with
  | zero =>
    unfold locateFrom at hq ⊢
    rw [Bool.true_or] at hq
    split at hq
    · cases hq
    · next r hf =>
      obtain rfl := (Prod.mk.inj (Except.ok.inj hq)).1
      rcases hd.follow_front hhere hf (fun s hs => Followed.arrived.inj hs ▸ hbase)
        (ending' ≠ .dots) (through' || ending' ≠ .plain)
        with ⟨q, x, ha, hx, hfile⟩ | ⟨_, _, _, -, hcross⟩
      · rw [ha]
        exact ⟨q, ending', x, rfl, hx, hfile⟩
      · cases hcross
    · cases hq
  | succ links ih =>
    unfold locateFrom at hq ⊢
    rw [Bool.true_or] at hq
    split at hq
    · cases hq
    · next r hf =>
      obtain rfl := (Prod.mk.inj (Except.ok.inj hq)).1
      rcases hd.follow_front hhere hf (fun s hs => Followed.arrived.inj hs ▸ hbase)
        (ending' ≠ .dots) (through' || ending' ≠ .plain)
        with ⟨q, x, ha, hx, hfile⟩ | ⟨_, _, _, -, hcross⟩
      · rw [ha]
        exact ⟨q, ending', x, rfl, hx, hfile⟩
      · cases hcross
    · next start target rest hf =>
      rcases hd.follow_front hhere hf nofun
        (ending' ≠ .dots) (through' || ending' ≠ .plain)
        with ⟨q, x, ha, hx, hfile⟩ | ⟨q, t, rest', ha, hcross⟩
      · rw [ha]
        exact ⟨q, ending', x, rfl, hx, hfile⟩
      · obtain ⟨rfl, rfl, rfl⟩ := Followed.redirected.inj hcross
        simp only [← List.append_assoc] at hq
        simp only [ha]
        refine ih ?_ hq _
        split
        · exact hd.root
        · exact hd.follow_redirected hhere hf

end Tree

/-- A path above a directory means the same on all disks that keep what is on the way, and no
directory can be made there. -/
theorem SameAt.above (htree : d₀.Tree) (hcwd : d₀.find? cwd = some .directory)
    (hroot : d₀.entryAt cwd true root = .ok (base, .directory)) (hk : d₀.Keeps d) (hk' : d₀.Keeps d')
    (habsolute : p.isAbsolute = root.isAbsolute) (hsteps : p.steps <+: root.steps) :
    SameAt d d' cwd p ∧ ∀ c, d.planMakeDirectory cwd p ≠ .ok c := by
  obtain ⟨ending, hlocate, hbase, -⟩ := entryAt_of_locate hroot
  obtain ⟨b, hb⟩ := hsteps
  unfold Disk.locate at hlocate
  split at hlocate
  · cases hlocate
  split at hlocate
  · cases hlocate
  rw [← hb] at hlocate
  have hstart : d₀.find? (if root.isAbsolute then [] else cwd) = some .directory := by
    split
    · exact htree.root
    · exact hcwd
  -- either no disk is asked, or all answer alike
  have hall : ∀ through, (∃ e, ∀ d, d₀.Keeps d → d.locate cwd through p = .error e) ∨
      ∃ q e x, x.isFile = false ∧ ∀ d, d₀.Keeps d →
        d.locate cwd through p = .ok (q, e) ∧ d.find? q = some x := by
    intro through
    by_cases hnul : '\x00' ∈ p.text.toList
    · exact .inl ⟨_, fun d _ => locate_of_nul hnul d cwd through⟩
    by_cases hempty : p.text = ""
    · refine .inl ⟨.fault .notFound, fun d _ => ?_⟩
      unfold Disk.locate
      rw [if_neg (by simpa using hnul), if_pos hempty]
    obtain ⟨q, e, x, hq, hx, hfile⟩ :=
      htree.locateFrom_front hstart hlocate hbase through p.ending
    refine .inr ⟨q, e, x, hfile, fun d hk => ⟨?_, hk q x hx hfile⟩⟩
    unfold Disk.locate
    rw [if_neg (by simpa using hnul), if_neg hempty, habsolute]
    exact locateFrom_of_keeps hk hq ⟨x, hx, hk q x hx hfile⟩
  refine ⟨⟨fun through => ?_, fun through q e hq => ?_⟩, fun c hc => ?_⟩
  · rcases hall through with ⟨e, he⟩ | ⟨q, e, x, -, hq⟩
    · rw [he d hk, he d' hk']
    · rw [(hq d hk).1, (hq d' hk').1]
  · rcases hall through with ⟨f, hf⟩ | ⟨r, f, x, -, hr⟩
    · rw [hf d hk] at hq
      cases hq
    · rw [(hr d hk).1] at hq
      obtain ⟨rfl, rfl⟩ := Prod.mk.inj (Except.ok.inj hq)
      rw [(hr d hk).2, (hr d' hk').2]
  · unfold Disk.planMakeDirectory at hc
    rcases hall (p.ending = .dots) with ⟨e, he⟩ | ⟨q, e, x, -, hq⟩
    · rw [he d hk] at hc
      cases hc
    · rw [(hq d hk).1] at hc
      simp only [(hq d hk).2, Option.isSome_some, Bool.or_true, if_true] at hc
      cases hc

end Disk

/-! ## Paths below a directory -/

/-- The path is another one with more names. -/
structure FilePath.Spells (root : FilePath) (rest : Place) (p : FilePath) : Prop where
  absolute : p.isAbsolute = root.isAbsolute
  steps : p.steps = root.steps ++ rest
  clean : '\x00' ∈ p.text.toList → '\x00' ∈ root.text.toList ∨ ∃ n ∈ rest, '\x00' ∈ n.toList

namespace FilePath.Spells

variable {root p : FilePath} {rest : Place} {n : String}

theorem refl (root : FilePath) : root.Spells [] root := ⟨rfl, (List.append_nil _).symm, .inl⟩

theorem child (hp : root.Spells rest p) (hn : IsEntryName n) : root.Spells (rest ++ [n]) (p.join ⟨n⟩) where
  absolute := (isAbsolute_join (isAbsolute_of_isEntryName hn)).trans hp.absolute
  steps := by
    rw [steps_join (isAbsolute_of_isEntryName hn), steps_of_isEntryName hn, hp.steps, List.append_assoc]
  clean hnul := by
    rcases mem_text_join hnul with hslash | hold | hnew
    · exact absurd hslash (by decide)
    · rcases hp.clean hold with hroot | ⟨m, hm, hnul⟩
      · exact .inl hroot
      · exact .inr ⟨m, List.mem_append_left _ hm, hnul⟩
    · exact .inr ⟨n, List.mem_append_right _ List.mem_cons_self, hnew⟩

theorem childPath {names : List String} (hp : root.Spells rest p) (hnames : ∀ n ∈ names, IsEntryName n) :
    root.Spells (rest ++ names) (Disk.childPath p names) := by
  unfold Disk.childPath
  induction names generalizing p rest with
  | nil =>
    rw [List.append_nil]
    exact hp
  | cons n names ih =>
    obtain ⟨hn, hnames⟩ := List.forall_mem_cons.mp hnames
    rw [List.append_cons]
    exact ih (hp.child hn) hnames

end FilePath.Spells

namespace Disk

variable {d d' d₀ : Disk} {cwd here base : Place} {free through : Bool} {names more : List String}
  {p root : FilePath}

theorem nul_of_locate {r : Place × PathEnd} (hr : d.locate cwd through p = .ok r) :
    '\x00' ∉ p.text.toList := by
  intro hnul
  rw [locate_of_nul hnul] at hr
  cases hr

/-- The characters of a step are in the text. -/
theorem mem_text_of_mem_steps {n : String} (hn : n ∈ p.steps) {c : Char} (hc : c ∈ n.toList)
    (hslash : c ≠ '/') : c ∈ p.text.toList := by
  obtain ⟨piece, hpiece, rfl⟩ := List.mem_map.mp hn
  rw [String.toList_ofList] at hc
  exact (Text.mem_iff_mem_pieces hslash).mpr ⟨piece, (List.mem_filter.mp hpiece).1, hc⟩

/-- The place has a name that fits, in a directory. -/
def Admits (d : Disk) (q : Place) : Prop := ∃ r n, q = r ++ [n] ∧ d.find? r = some .directory ∧ NameFits n

theorem Tree.admits (hd : d.Tree) {q : Place} {e : Entry} (hq : d.find? q = some e)
    (hne : e ≠ .directory) : d.Admits q := by
  rcases List.eq_nil_or_concat q with rfl | ⟨r, n, rfl⟩
  · rw [hd.root] at hq
    exact absurd (Option.some.inj hq).symm hne
  · rw [List.concat_eq_append] at hq ⊢
    obtain ⟨hdir, hfits⟩ := hd.inner _ _ _ hq
    exact ⟨r, n, rfl, hdir, hfits⟩

/-- A path below a directory leads to a directory, or to a name that fits in one. -/
theorem Anchored.arrives {rest : Place} (ha : d.Anchored cwd root base) (hd : d.Tree)
    (hp : root.Leads rest p) {q : Place} {e : PathEnd} (hq : d.locate cwd through p = .ok (q, e)) :
    d.find? q = some .directory ∨ d.Admits q := by
  obtain ⟨more, hmore, hsteps, hstays, -⟩ := hp.behind
  obtain ⟨k, hk⟩ := locate_append ha.leads hmore hp.absolute hsteps hq
  obtain ⟨-, -, hbase, -⟩ := entryAt_of_locate ha.leads
  have hnul := nul_of_locate hq
  unfold locateFrom at hk
  split at hk
  · cases hk
  · next r hf =>
    obtain rfl := (Prod.mk.inj (Except.ok.inj hk)).1
    rcases hd.follow_arrived hbase hf with hdir | ⟨s, n, hr, hs, hshort, hn⟩
    · exact .inl hdir
    · have hstep : n ∈ p.steps := hsteps ▸ List.mem_append_right _ hn
      exact .inr ⟨s, n, hr, hs, hshort, fun hc =>
        hnul (mem_text_of_mem_steps hstep hc (by decide))⟩
  · next start target rest' hf =>
    cases follow_of_linkless_nil ha.linkless hstays hf

/-- Names of directories lead there. -/
theorem Tree.follow_names (hd : d.Tree) (hnames : ∀ n ∈ names, IsEntryName n)
    (hdir : d.find? (here ++ names) = some .directory) :
    d.follow free through here names = .ok (.arrived (here ++ names)) := by
  induction names generalizing here with
  | nil => rw [List.append_nil, follow]
  | cons n rest ih =>
    obtain ⟨hn, hrest⟩ := List.forall_mem_cons.mp hnames
    rw [List.append_cons] at hdir
    have hnext : d.find? (here ++ [n]) = some .directory := by
      by_cases hnil : rest = []
      · rwa [hnil, List.append_nil] at hdir
      · exact hd.directory hdir hnil
    obtain ⟨-, hshort, -⟩ := hd.inner _ _ _ hnext
    unfold follow
    rw [if_neg hn.2.2.1, if_neg (Nat.not_lt.mpr hshort)]
    simp only [hnext]
    rw [ih hrest hdir, ← List.append_cons]

/-- The names on the way to an entry fit. -/
theorem Tree.fits_of_mem (hd : d.Tree) {rest : Place} {e : Entry} (hfound : d.find? (base ++ rest) = some e)
    {n : String} (hn : n ∈ rest) : NameFits n := by
  obtain ⟨a, b, rfl⟩ := List.append_of_mem hn
  rw [← List.append_assoc, List.append_cons] at hfound
  by_cases hb : b = []
  · rw [hb, List.append_nil] at hfound
    exact (hd.inner _ _ _ hfound).2
  · exact (hd.inner _ _ _ (hd.directory hfound hb)).2

/-- The path of a name that fits in a directory leads there, whether it stands for a file or for
nothing. -/
theorem Anchored.locate_names (names : List String) {n : String} (ha : d.Anchored cwd root base) (hd : d.Tree)
    (hp : root.Spells (names ++ [n]) p) (hplain : p.ending = .plain)
    (hnames : ∀ m ∈ names ++ [n], IsEntryName m) (hfits : NameFits n)
    (hdir : d.find? (base ++ names) = some .directory) (through : Bool) :
    d.locate cwd through p = .ok (base ++ (names ++ [n]), .plain) := by
  have hnul : '\x00' ∉ p.text.toList := by
    intro hnul
    obtain ⟨_, hlocate, -, -⟩ := entryAt_of_locate ha.leads
    rcases hp.clean hnul with hroot | ⟨m, hm, hnul⟩
    · exact nul_of_locate hlocate hroot
    · rcases List.mem_append.mp hm with hm | hm
      · exact (hd.fits_of_mem hdir hm).2 hnul
      · exact hfits.2 (List.mem_singleton.mp hm ▸ hnul)
  have hn : IsEntryName n := hnames n (List.mem_append_right _ List.mem_cons_self)
  have hne : names ++ [n] ≠ [] := List.append_ne_nil_of_right_ne_nil _ (List.cons_ne_nil _ _)
  obtain ⟨k, hk⟩ := locate_append_of_keeps ha.leads hne hp.absolute hp.steps hnul
  rw [hk d (.refl d), hplain]
  have hfront : d.follow true true base names = .ok (.arrived (base ++ names)) :=
    hd.follow_names (fun m hm => hnames m (List.mem_append_left _ hm)) hdir
  have hall : d.follow true through base (names ++ [n]) = .ok (.arrived (base ++ (names ++ [n]))) := by
    rw [follow_append (List.cons_ne_nil _ _) hfront fun q hq => Followed.arrived.inj hq ▸ hdir,
      followOn, ← List.append_assoc]
    unfold follow
    rw [if_neg hn.2.2.1, if_neg (Nat.not_lt.mpr hfits.1)]
    cases hlast : d.find? (base ++ names ++ [n]) with
    | none => simp only [hlast, List.isEmpty_nil, Bool.and_self, if_true]
    | some e =>
      cases e with
      | directory => simp only [hlast, follow]
      | file b x => simp only [hlast, List.isEmpty_nil, Bool.and_self, if_true]
      | link t =>
        rw [List.append_assoc] at hlast
        exact absurd hlast (ha.linkless _ _)
  unfold locateFrom
  simp [hall]

end Disk

/-! ## Changes that keep a tree -/

/-- The change makes entries only where they can stand, and takes no directory away. -/
def Change.Fits (d : Disk) : Change → Prop
  | .makeDirectory q => d.Admits q
  | .create q _ | .replace q _ => d.Admits q ∧ d.find? q ≠ some .directory
  | .append _ _ => True
  | .remove q => d.find? q ≠ some .directory
  | .link _ _ => False

namespace Disk

variable {d d' : Disk} {q : Place} {c : Change}

theorem Tree.put (hd : d.Tree) (hq : d.Admits q) {e : Entry}
    (he : d.find? q = some .directory → e = .directory) : (d.put q e).Tree := by
  obtain ⟨r, n, rfl, hdir, hfits⟩ := hq
  have hstays : ∀ p, d.find? p = some .directory → (d.put (r ++ [n]) e).find? p = some .directory := by
    intro p hp
    rw [find?_put]
    split
    · next heq => rw [he (heq ▸ hp)]
    · exact hp
  refine ⟨hstays [] hd.root, fun p m f hf => ?_⟩
  rw [find?_put] at hf
  split at hf
  · next heq =>
    obtain ⟨rfl, hm⟩ := List.append_inj' heq rfl
    exact ⟨hstays p hdir, (List.cons.inj hm).1 ▸ hfits⟩
  · obtain ⟨hp, hm⟩ := hd.inner p m f hf
    exact ⟨hstays p hp, hm⟩

theorem Tree.apply (hd : d.Tree) (hc : c.Fits d) : (d.apply c).Tree := by
  cases c with
  | makeDirectory q => exact hd.put hc fun _ => rfl
  | create q x | replace q b => exact hd.put hc.1 fun hdir => absurd hdir hc.2
  | append q more =>
    simp only [Disk.apply]
    split
    · next b x hfile =>
      exact hd.put (hd.admits hfile fun hdir => by cases hdir) fun hdir => by
        rw [hfile] at hdir
        cases hdir
    · exact hd
  | remove q =>
    have hstays : ∀ p, d.find? p = some .directory → (d.erase q).find? p = some .directory := by
      intro p hp
      rw [find?_erase, if_neg fun heq : p = q => hc (heq ▸ hp), hp]
    refine ⟨hstays [] hd.root, fun p m f hf => ?_⟩
    rw [Disk.apply, find?_erase] at hf
    split at hf
    · cases hf
    · obtain ⟨hp, hm⟩ := hd.inner p m f hf
      exact ⟨hstays p hp, hm⟩
  | link q t => exact hc.elim

/-! ## Removing -/

theorem find?_replay_removes (d : Disk) (ps : List Place) (q : Place) :
    (d.replay (ps.map .remove)).find? q = if q ∈ ps then none else d.find? q := by
  induction ps generalizing d with
  | nil => rfl
  | cons p ps ih =>
    rw [List.map_cons, replay, List.foldl_cons]
    refine (ih (d.apply (.remove p))).trans ?_
    rw [apply, find?_erase]
    by_cases hq : q = p <;> by_cases hmem : q ∈ ps <;> simp [hq, hmem]

/-- A directory that is removed is gone with everything below it. -/
theorem find?_removeTree {cwd : Place} {p : FilePath} {cs : List Change}
    (hentry : d.entryAt cwd false p = .ok (q, .directory)) (hcs : d.planRemoveTree cwd p = .ok cs)
    (r : Place) : (d.replay cs).find? r = if q <+: r then none else d.find? r := by
  unfold planRemoveTree at hcs
  rw [hentry] at hcs
  obtain rfl := Except.ok.inj hcs
  have hall : (((d.below q).reverse.map fun x => Change.remove (q ++ x.1)) ++ [.remove q]) =
      (((d.below q).reverse.map fun x => q ++ x.1) ++ [q]).map .remove := by
    rw [List.map_append, List.map_map]
    rfl
  rw [hall, find?_replay_removes]
  by_cases hprefix : q <+: r
  · obtain ⟨rest, rfl⟩ := hprefix
    rw [if_pos (List.prefix_append _ _)]
    split
    · rfl
    · next hnot =>
      rw [List.mem_append, not_or] at hnot
      cases hfound : d.find? (q ++ rest) with
      | none => rfl
      | some e =>
        refine absurd ?_ hnot.1
        have hrest : rest ≠ [] := fun hnil => hnot.2 (by simp [hnil])
        exact List.mem_map.mpr ⟨(rest, e), List.mem_reverse.mpr (mem_below_iff.mpr ⟨hrest, hfound⟩), rfl⟩
  · rw [if_neg hprefix, if_neg]
    intro hmem
    rcases List.mem_append.mp hmem with hmem | hmem
    · obtain ⟨x, -, rfl⟩ := List.mem_map.mp hmem
      exact hprefix (List.prefix_append _ _)
    · exact hprefix (List.mem_singleton.mp hmem ▸ List.prefix_refl _)

end Disk

end Decompile
