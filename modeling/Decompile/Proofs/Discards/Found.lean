import Decompile.Proofs.Discards.Loss

/-!
# What stages find

A stage finds the files in the directory of an earlier one, by name. On the two disks these are the same
files.

- `Stable.locate_found`, `entryAt_found`: the paths of what is in the directory of a stage.
- `Stable.filesBelow`: what is found in such a directory, whether it stands or not.
- `Items.collect_finds`: the items of a stage.
- `During.looks_alike`, `During.filesIn_eq`: they are the same on both disks.
-/

namespace Decompile

open Site (Hosts)

namespace Site

variable {s : Site} {h : Host} {c : StageContext} {kind : StageKind} {d d' : Disk} {q : Place} {e : Entry}
  {n : String}

/-! ## Paths in the directory of a stage -/

section

variable (hs : s.Grounded) (hc : s.Serves h c)
include hc

theorem Serves.spells_output (kind : StageKind) :
    s.sources.Spells [s.key, areaOf kind] (outputOf c.layout kind) := by
  have houtput : outputOf c.layout kind = c.layout.root.join ⟨areaOf kind⟩ := by cases kind <;> rfl
  rw [houtput, hc.layout, hc.sources, hc.key]
  exact ((FilePath.Spells.refl _).child (isEntryName_of_isTargetKey hc.clean)).child
    (isEntryName_areaOf kind)

omit hc in
theorem nameFits_areaOf (kind : StageKind) : Disk.NameFits (areaOf kind) := by
  cases kind <;> decide +kernel

include hs

/-- The path of the directory of a stage leads there, whether it stands or not. -/
theorem Stable.locate_output (hd : s.Stable d) (through : Bool) :
    d.locate s.cwd through (outputOf c.layout kind) = .ok (s.area kind, .plain) := by
  have hplain : (outputOf c.layout kind).ending = .plain := by
    cases kind <;> exact FilePath.ending_child (by decide)
  exact Disk.Anchored.locate_names [s.key] (hs.fresh.anchoredOn hd.sited) hd.tree
    (hc.spells_output kind) hplain hc.names (nameFits_areaOf kind)
    (hd.sited.keeps _ _ hs.fresh.there rfl) through

/-- The path of an entry in the directory of a stage leads to it. -/
theorem Stable.locate_found (hd : s.Stable d) (hfound : d.find? (s.area kind ++ q) = some e)
    (through : Bool) :
    d.locate s.cwd through (Disk.childPath (outputOf c.layout kind) q) = .ok (s.area kind ++ q, .plain) := by
  have hnames := hd.sited.names_area hfound
  rcases List.eq_nil_or_concat q with rfl | ⟨r, n, rfl⟩
  · rw [List.append_nil]
    exact hd.locate_output hs hc through
  rw [List.concat_eq_append] at hfound hnames ⊢
  have hspells := (hc.spells_output kind).childPath hnames
  have hplain : (Disk.childPath (outputOf c.layout kind) (r ++ [n])).ending = .plain := by
    rw [Disk.childPath, List.foldl_append]
    exact FilePath.ending_child (hnames n (List.mem_append_right _ List.mem_cons_self))
  rw [← List.append_assoc] at hfound hspells
  obtain ⟨hdir, hfits⟩ := hd.tree.inner _ _ _ hfound
  rw [← Serves.area_append kind] at hdir
  rw [← Serves.area_append kind, ← List.append_assoc [s.key, areaOf kind]]
  refine Disk.Anchored.locate_names _ (hs.fresh.anchoredOn hd.sited) hd.tree hspells hplain
    (fun m hm => ?_) hfits hdir through
  rw [List.append_assoc] at hm
  exact (List.mem_append.mp hm).elim (hc.names m) (hnames m)

/-- What is found at the path of an entry in the directory of a stage. -/
theorem Stable.entryAt_found (hd : s.Stable d) (hfound : d.find? (s.area kind ++ q) = some e)
    (through : Bool) :
    d.entryAt s.cwd through (Disk.childPath (outputOf c.layout kind) q) = .ok (s.area kind ++ q, e) :=
  Disk.entryAt_eq (hd.locate_found hs hc hfound through) hfound fun _ => rfl

/-- The directory of a stage stands, or there is nothing. -/
theorem Stable.stands (hd : s.Stable d) (hdir : d.find? (s.area kind) = some .directory) :
    s.Stands c.layout kind d :=
  ⟨hdir, d, true, _, _, hd.sited, hd.locate_output hs hc true⟩

/-- Nothing is found where the directory of a stage is missing. -/
theorem Stable.entryAt_missing (hd : s.Stable d) (hmissing : d.find? (s.area kind) = none) (through : Bool) :
    d.entryAt s.cwd through (outputOf c.layout kind) = .error (.fault .notFound) := by
  unfold Disk.entryAt
  rw [hd.locate_output hs hc through]
  simp only [hmissing]

/-- **What is found** in the directory of a stage, whether it stands or not. -/
theorem Stable.filesBelow {w : World} (hw : s.Hosts w) (hd : s.Stable w.disk) {keep : FilePath → Bool}
    {named : String → Bool} (hkeep : ∀ p n, p.fileName? = some n → keep p = named n) :
    ((Items.filesBelow (outputOf c.layout kind) keep).run w).1 =
      (s.filesIn w.disk kind named).map (Disk.childPath (outputOf c.layout kind)) := by
  cases harea : w.disk.find? (s.area kind) with
  | some e =>
    obtain rfl := hd.areas kind e harea
    exact Items.filesBelow_stands hs.fresh hc hw (hd.stands hs hc harea) hkeep
  | none =>
    -- what is not there has nothing in it
    have hnone : s.filesIn w.disk kind named = [] := by
      refine List.eq_nil_iff_forall_not_mem.mpr fun q hq => ?_
      obtain ⟨hne, ⟨b, x, hfile⟩, -⟩ := mem_filesIn.mp hq
      have hdir := hd.tree.directory hfile hne
      rw [harea] at hdir
      cases hdir
    show ((w.disk.walk w.cwd _).map Disk.Found.path).filter keep = _
    rw [hw.cwd, Disk.walk, hd.entryAt_missing hs hc harea, hnone]
    rfl

end

/-! ## What is looked for -/

variable {source : StageKind} {named : String → Bool} {d₀ d₀' : Disk} {p : FilePath}

/-- In the directory of a stage the second disk has the same files of these names as the first, and the
directories they are in. -/
def AgreeOn (s : Site) (source : StageKind) (named : String → Bool) (d d' : Disk) : Prop :=
  ∀ rest, d.find? (s.area source ++ rest) = some .directory ∨ rest.getLast?.any named = true →
    d.find? (s.area source ++ rest) = d'.find? (s.area source ++ rest)

namespace AgreeOn

theorem filesIn_eq (ha : s.AgreeOn source named d d') :
    s.filesIn d source named = s.filesIn d' source named :=
  filesIn_congr fun q hq => by rw [ha q (.inr hq)]

/-- The path of a file that is looked for means the same on both disks. -/
theorem sameAt (ha : s.AgreeOn source named d d') (hs : s.Grounded) (hc : s.Serves h c)
    (hd : s.Stable d) (hd' : s.Stable d') (hq : q ∈ s.filesIn d source named) :
    Disk.SameAt d d' s.cwd (Disk.childPath (outputOf c.layout source) q) := by
  obtain ⟨hne, ⟨b, x, hfile⟩, hname⟩ := mem_filesIn.mp hq
  have hnames := hd.sited.names_area hfile
  have hspells := (hc.spells_output source).childPath hnames
  refine hd.sameAt hs hc hd' hspells.absolute hspells.steps (List.prefix_refl _)
    (Place.stays_names hnames 0) (List.cons_ne_nil _ _) fun r hr => ?_
  rw [Place.walk_names _ fun n hn => hnames n (hr.subset hn), List.nil_append]
  -- on the way to the file there are directories
  obtain ⟨more, rfl⟩ := hr
  by_cases hmore : more = []
  · rw [hmore, List.append_nil] at hname
    exact ha r (.inr hname)
  · rw [← List.append_assoc] at hfile
    exact ha r (.inl (hd.tree.directory hfile hmore))

end AgreeOn

theorem Lacks.agreeOn {j : Job} {done : List StageKind} (hl : s.Lacks j done d d')
    (h : Precede j.backend done kind) (hsource : sourceOf j kind = some (source, named)) :
    s.AgreeOn source named d d' :=
  fun _ => hl.sought h hsource

namespace During

variable (hd : s.During kind d₀ d₀' d d') (hne : source ≠ kind)
include hd hne

/-- In the directories of other stages nothing changes. -/
theorem others (rest : Place) : d.find? (s.area source ++ rest) = d₀.find? (s.area source ++ rest) ∧
    d'.find? (s.area source ++ rest) = d₀'.find? (s.area source ++ rest) :=
  hd.outside _ fun hprefix => hne (eq_of_isPrefix_area (List.prefix_append _ rest) hprefix)

theorem agreeOn (ha : s.AgreeOn source named d₀ d₀') : s.AgreeOn source named d d' := by
  intro rest
  rw [(hd.others hne rest).1, (hd.others hne rest).2]
  exact ha rest

theorem filesIn_left : s.filesIn d source named = s.filesIn d₀ source named :=
  filesIn_congr fun q _ => by rw [(hd.others hne q).1]

theorem filesIn_right (ha : s.AgreeOn source named d₀ d₀') :
    s.filesIn d' source named = s.filesIn d₀ source named := by
  rw [← (hd.agreeOn hne ha).filesIn_eq, hd.filesIn_left hne]

end During

end Site

/-! ## Items -/

namespace Items

variable {h k : Host} {c : StageContext} {s : Site} {kind source : StageKind} {named : String → Bool}

/-- Files of a directory, of which there must be some. -/
def someBelow (root : FilePath) (keep : FilePath → Bool) (e : StageError) : Try StageError Items := do
  let files ← filesBelow root keep
  if files.isEmpty then throw e
  return .files files

/-- Files of a directory. -/
def allBelow (root : FilePath) (keep : FilePath → Bool) : Try StageError Items := do
  return .files (← filesBelow root keep)

/-- What becomes of the items later does not count. -/
theorem collect_keeping (keep : Option Bool) : collect h (c.keeping keep) kind = collect h c kind := by
  cases kind <;> rfl

/-- A stage looks for the files of some names in the directory of an earlier stage. -/
theorem collect_source (hsource : Site.sourceOf c.job kind = some (source, named)) :
    ∃ keep : FilePath → Bool, (∀ p n, p.fileName? = some n → keep p = named n) ∧
      ((∃ e, ∀ h, collect h c kind = someBelow (outputOf c.layout source) keep e) ∨
        ∀ h, collect h c kind = allBelow (outputOf c.layout source) keep) := by
  have hextension : ∀ (ext : String) (p : FilePath) n, p.fileName? = some n →
      p.hasExtension ext = nameHasExtension ext n := fun ext p n hn => by
    rw [FilePath.hasExtension_eq, hn, Option.any_some]
  cases kind with
  | unpack => cases hsource
  | intermediateConvert =>
    cases hsource
    exact ⟨_, hextension _, .inl ⟨_, fun _ => rfl⟩⟩
  | convert =>
    have hcollect : ∀ h, collect h c .convert = if c.job.backend.isDirect then
        code c.layout c.job.submission.inputType else jars c.layout := fun _ => rfl
    rw [Site.sourceOf_convert] at hsource
    split at hsource
    · next hdirect =>
      cases hsource
      exact ⟨_, hextension _, .inl ⟨_, fun h => (hcollect h).trans (if_pos hdirect)⟩⟩
    · next hdirect =>
      cases hsource
      exact ⟨_, hextension _, .inl ⟨_, fun h => (hcollect h).trans (if_neg hdirect)⟩⟩
  | resources =>
    cases hsource
    exact ⟨_, fun _ _ => FilePath.isResource_eq, .inr fun _ => rfl⟩

/-- The items that a stage finds. -/
theorem collect_finds (hs : s.Grounded) (hc : s.Serves h c) {w v : World} (hw : s.Hosts w)
    (hd : s.Stable w.disk) (hsource : Site.sourceOf c.job kind = some (source, named)) {items : Items}
    (hrun : (collect k c kind).Succeeds w items v) :
    items = .files ((s.filesIn w.disk source named).map (Disk.childPath (outputOf c.layout source))) := by
  obtain ⟨keep, hkeep, ⟨e, hcollect⟩ | hcollect⟩ := collect_source hsource
  · rw [hcollect] at hrun
    rw [← hd.filesBelow hs hc hw hkeep]
    exact (someBelow_run hrun).2
  · rw [hcollect] at hrun
    obtain ⟨hitems, -⟩ := Prod.mk.inj hrun
    rw [← hd.filesBelow hs hc hw hkeep]
    exact (Except.ok.inj hitems).symm

/-- The same items are found on both disks. -/
theorem collect_pairs (hs : s.Grounded) (hc : s.Serves h c)
    (hsource : Site.sourceOf c.job kind = some (source, named)) {a a' : Nat} {F : Disk → Disk → Prop}
    (hF : ∀ d d', F d d' → s.Stable d ∧ s.Stable d' ∧ s.AgreeOn source named d d') :
    Try.Pairs (Beside a a' s.cwd F) (collect k c kind) (collect h c kind) := by
  obtain ⟨keep, hkeep, hcollect⟩ := collect_source hsource
  have hfound : Act.Pairs (Beside a a' s.cwd F) (Beside a a' s.cwd F)
      (filesBelow (outputOf c.layout source) keep) (filesBelow (outputOf c.layout source) keep) := by
    intro u v huv
    obtain ⟨hd, hd', ha⟩ := hF _ _ huv.disks
    refine ⟨?_, huv⟩
    rw [hd.filesBelow hs hc ⟨huv.home, hd.sited⟩ hkeep,
      hd'.filesBelow hs hc ⟨huv.home', hd'.sited⟩ hkeep,
      ha.filesIn_eq]
  rcases hcollect with ⟨e, hcollect⟩ | hcollect
  · rw [hcollect, hcollect]
    exact Twins.someBelow hfound
  · rw [hcollect, hcollect]
    exact .bind (.lift hfound) fun _ => .pure _

end Items

end Decompile
