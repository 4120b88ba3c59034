import Decompile.Proofs.Confinement.Links
import Decompile.Proofs.Disk.Above
import Decompile.Proofs.Disk.Areas
import Decompile.Proofs.Twins.Alone

/-!
# What may be changed

An engine changes the disk below the directory of a target, and makes the directories that are missing
on the way there. Where it makes them depends on the disk; what is below the storage is found by the
names in the paths alone.

- `Stored`: a storage without links, which need not be there yet.
- `Confined`: what an engine may change on behalf of a target.
- `OwnStep`, `Confines`: steps that change nothing else.
- `Realm.below`, `twins_below`: actions on paths below a directory are such steps.
-/

namespace Decompile

/-! ## Disks -/

namespace Disk

variable {d : Disk} {cwd : Place} {p : FilePath} {c : Change}

/-- All entries have names that entries can have. -/
def Named (d : Disk) : Prop := ∀ q e, d.find? q = some e → ∀ n ∈ q, IsEntryName n

theorem Named.apply (hd : d.Named) (hc : ∀ n ∈ c.place, IsEntryName n) : (d.apply c).Named := by
  intro q e hq
  by_cases hplace : q = c.place
  · rw [hplace]
    exact hc
  · rw [find?_apply_of_ne d c hplace] at hq
    exact hd q e hq

/-- The files that a walk finds are below its root, under names that entries can have. -/
theorem Named.walk (hd : d.Named) {f : Found} (hf : f ∈ d.walk cwd p) :
    ∃ names, f.path = childPath p names ∧ ∀ n ∈ names, IsEntryName n := by
  unfold Disk.walk at hf
  split at hf
  · obtain rfl := List.mem_singleton.mp hf
    exact ⟨[], rfl, fun n hn => absurd hn List.not_mem_nil⟩
  · split at hf
    · obtain ⟨x, hmem, hsome⟩ := List.mem_filterMap.mp hf
      split at hsome
      · obtain rfl := Option.some.inj hsome
        exact ⟨x.1, rfl, fun n hn =>
          hd _ _ (find?_of_mem_below hmem) n (List.mem_append_right _ hn)⟩
      · cases hsome
    · cases hf
  · cases hf

theorem Named.list (hd : d.Named) {entries : List (String × Entry)}
    (hlist : d.list cwd p = .ok entries) : ∀ n ∈ entries.map Prod.fst, IsEntryName n := by
  unfold Disk.list at hlist
  split at hlist
  · cases hlist
  · obtain rfl := Except.ok.inj hlist
    intro n hn
    obtain ⟨x, hx, rfl⟩ := List.mem_map.mp hn
    exact hd _ _ (find?_of_mem_children hx) x.1 (List.mem_append_right _ List.mem_cons_self)
  · cases hlist

theorem locate_of_planMakeDirectory (hc : d.planMakeDirectory cwd p = .ok c) :
    ∃ through q e, d.locate cwd through p = .ok (q, e) ∧ c = .makeDirectory q ∧ d.find? q = none := by
  unfold planMakeDirectory at hc
  split at hc
  · cases hc
  · next q e hlocate =>
    split at hc
    · cases hc
    · next hfree =>
      rw [Bool.or_eq_true, not_or] at hfree
      exact ⟨_, q, e, hlocate, (Except.ok.inj hc).symm, Option.not_isSome_iff_eq_none.mp hfree.2⟩

theorem locate_of_planCreate {x : Bool} (hc : d.planCreate cwd p x = .ok c) :
    ∃ q, d.locate cwd true p = .ok (q, .plain) ∧ (∃ y, c = .create q y) ∧
      ∀ t, d.find? q ≠ some (.link t) := by
  unfold planCreate at hc
  split at hc
  · cases hc
  · next q e hlocate =>
    split at hc
    · cases hc
    · next hfile =>
      split at hc
      · next hplain =>
        refine ⟨q, hplain ▸ hlocate, ⟨_, (Except.ok.inj hc).symm⟩, fun t hlink => ?_⟩
        rw [hfile] at hlink
        cases hlink
      · cases hc
    · cases hc
    · next hnone =>
      split at hc
      · next hplain =>
        refine ⟨q, hplain ▸ hlocate, ⟨_, (Except.ok.inj hc).symm⟩, fun t hlink => ?_⟩
        rw [hnone] at hlink
        cases hlink
      · cases hc

/-- A change where there is no link leaves all links as they are. -/
theorem sameLinks_apply (hplace : ∀ t, d.find? c.place ≠ some (.link t)) (hc : ∀ q t, c ≠ .link q t) :
    d.SameLinks (d.apply c) := by
  intro q t
  by_cases hq : q = c.place
  · refine ⟨fun hlink => absurd hlink ?_, fun hlink => absurd (hq ▸ hlink) (hplace t)⟩
    rw [hq]
    cases c with
    | link q t => exact absurd rfl (hc q t)
    | append q more =>
      simp only [apply, Change.place] at hplace ⊢
      split
      · simp [find?_put]
      · exact hplace t
    | remove q => simp [apply, find?_erase, Change.place]
    | makeDirectory q | create q x | replace q b => simp [apply, find?_put, Change.place]
  · rw [find?_apply_of_ne d c hq]

theorem sameLinks_append (d : Disk) (q : Place) (more : Bytes) :
    d.SameLinks (d.apply (.append q more)) := by
  by_cases hlink : ∃ t, d.find? q = some (.link t)
  · obtain ⟨t, ht⟩ := hlink
    simp only [apply, ht]
    exact .refl d
  · exact sameLinks_apply (fun t ht => hlink ⟨t, ht⟩) fun _ _ heq => (by cases heq)

end Disk

/-! ## A storage without links -/

/-- The path of the storage leads to `store`, where there are no links, whether or not it is there. -/
structure Stored (storage : FilePath) (store : Place) (w : World) : Prop where
  cwd : ∀ n ∈ w.cwd, IsEntryName n
  named : w.disk.Named
  addressed : w.disk.Addressed w.cwd storage store

/-- The entries of a disk tell whether a storage is without links; `full` is a disk on which it is there,
with the same links. -/
theorem Stored.of_entries {storage : FilePath} {store : Place} {w : World} (full : Disk)
    (hcwd : ∀ n ∈ w.cwd, IsEntryName n) (hnamed : ∀ x ∈ w.disk.entries, ∀ n ∈ x.1, IsEntryName n)
    (hlinks : (full.entries.filter fun x => x.2.isLink) = w.disk.entries.filter fun x => x.2.isLink)
    (hleads : full.entryAt w.cwd true storage = .ok (store, .directory))
    (hlinkless : ∀ x ∈ w.disk.entries, x.2.isLink = true → ¬ store <+: x.1) :
    Stored storage store w where
  cwd := hcwd
  named q e hq := hnamed (q, e) (mem_of_findEntry hq)
  addressed := by
    refine ⟨⟨full, Disk.sameLinks_of_entries hlinks, hleads⟩, fun rest t hlink => ?_⟩
    exact hlinkless _ (mem_of_findEntry hlink) rfl (List.prefix_append _ _)

variable {storage root : FilePath} {store area : Place} {names rest : List String} {u v w : World}
  {p : FilePath} {c : Change}

theorem Stored.sameDisk (hw : Stored storage store w) (hv : SameDisk w v) : Stored storage store v := by
  obtain ⟨hcwd, hnamed, haddressed⟩ := hw
  constructor
  · rw [hv.cwd]
    exact hcwd
  · rw [hv.disk]
    exact hnamed
  · rw [hv.disk, hv.cwd]
    exact haddressed

theorem Stored.change (hw : Stored storage store w) (hlinks : w.disk.SameLinks (w.disk.apply c))
    (hnames : ∀ n ∈ c.place, IsEntryName n) : Stored storage store ((World.change c).run w).2 where
  cwd := hw.cwd
  named := hw.named.apply hnames
  addressed := hw.addressed.of_sameLinks hlinks

/-- The path is written as that of the storage with names behind it. -/
structure FilePath.Behind (storage : FilePath) (names : List String) (root : FilePath) : Prop where
  absolute : root.isAbsolute = storage.isAbsolute
  steps : root.steps = storage.steps ++ names
  ne_nil : names ≠ []
  named : ∀ n ∈ names, IsEntryName n

namespace FilePath.Behind

theorem child (hroot : Behind storage names root) {n : String} (hn : IsEntryName n) :
    Behind storage (names ++ [n]) (root.join ⟨n⟩) where
  absolute := (isAbsolute_join (isAbsolute_of_isEntryName hn)).trans hroot.absolute
  steps := by
    rw [steps_join (isAbsolute_of_isEntryName hn), steps_of_isEntryName hn, hroot.steps,
      List.append_assoc]
  ne_nil := List.append_ne_nil_of_right_ne_nil _ (List.cons_ne_nil _ _)
  named m hm := (List.mem_append.mp hm).elim (hroot.named m) fun hm => List.mem_singleton.mp hm ▸ hn

theorem sources (storage : FilePath) : Behind storage ["sources"] (sourcesIn storage) where
  absolute := isAbsolute_join (by decide)
  steps := steps_join (by decide)
  ne_nil := List.cons_ne_nil _ _
  named m hm := by
    rw [List.mem_singleton.mp hm]
    decide

/-- The directory of a target. -/
theorem target (storage : FilePath) {key : String} (hkey : IsEntryName key) :
    Behind storage ["sources", key] (Layout.of storage key).root :=
  (sources storage).child hkey

/-- A path that goes on from the directory leads below the storage. -/
theorem leads (hroot : Behind storage names root) (habsolute : p.isAbsolute = root.isAbsolute)
    {more : List String} (hsteps : p.steps = root.steps ++ more) (hmore : Place.stays 0 more = true) :
    storage.Leads (names ++ Place.walk [] more) p := by
  refine ⟨habsolute.trans hroot.absolute, names ++ more,
    List.append_ne_nil_of_left_ne_nil hroot.ne_nil _, ?_,
    Place.stays_append (Place.stays_names hroot.named 0) hmore, ?_⟩
  · rw [hsteps, hroot.steps, List.append_assoc]
  · rw [Place.walk_append, Place.walk_names _ hroot.named, List.nil_append,
      Place.walk_of_stays_nil hmore]

end FilePath.Behind

/-! ## Changes -/

/-- What an engine may change on behalf of `area`, a place at or below its storage: what is below it,
and directories that are missing on the way there. -/
inductive Confined (storage : FilePath) (store area : Place) (w : World) : Change → Prop where
  | inside {c : Change} {rest : Place} (place : c.place = area ++ rest) (strictly : rest ≠ []) :
    Confined storage store area w c
  /-- From the storage down to the area. -/
  | between {q : Place} (below : store <+: q) (above : q <+: area) (missing : w.disk.find? q = none) :
    Confined storage store area w (.makeDirectory q)
  /-- The storage, or what the path of the storage passes on its way there. -/
  | above {p : FilePath} {q : Place} (absolute : p.isAbsolute = storage.isAbsolute)
    (passed : p.steps <+: storage.steps) (missing : w.disk.find? q = none)
    {through : Bool} {e : PathEnd} (leads : w.disk.locate w.cwd through p = .ok (q, e)) :
    Confined storage store area w (.makeDirectory q)

/-- An entry that is not below the area stays as it is. -/
theorem Confined.keeps (hc : Confined storage store area w c) {q : Place} {e : Entry}
    (hq : w.disk.find? q = some e) (houtside : ¬ area <+: q) : (w.disk.apply c).find? q = some e := by
  rw [Disk.find?_apply_of_ne, hq]
  rintro rfl
  cases hc with
  | inside place strictly => exact houtside (place ▸ List.prefix_append _ _)
  | between below above missing =>
    rw [Change.place, missing] at hq
    cases hq
  | above absolute passed missing leads =>
    rw [Change.place, missing] at hq
    cases hq

/-- One step of an engine that acts on behalf of the area. -/
inductive OwnStep (storage : FilePath) (store area : Place) (u v : World) : Prop where
  | aside (same : SameDisk u v)
  | own {c : Change} (confined : Confined storage store area u c) (disk : v.disk = u.disk.apply c)
    (cwd : v.cwd = u.cwd) (journal : v.journal = u.journal ++ [.changed c])

/-- Several steps. -/
def Confines (storage : FilePath) (store area : Place) : World → World → Prop :=
  Relation.ReflTransGen (OwnStep storage store area)

theorem OwnStep.keeps (hs : OwnStep storage store area u v) {q : Place} {e : Entry}
    (hq : u.disk.find? q = some e) (houtside : ¬ area <+: q) : v.disk.find? q = some e := by
  cases hs with
  | aside same => rw [same.disk, hq]
  | own confined disk cwd journal => rw [disk, confined.keeps hq houtside]

theorem Confines.keeps (hc : Confines storage store area u v) {q : Place} {e : Entry}
    (hq : u.disk.find? q = some e) (houtside : ¬ area <+: q) : v.disk.find? q = some e := by
  induction hc with
  | refl => exact hq
  | tail _ hlast ih => exact hlast.keeps ih houtside

/-! ## Paths below a directory -/

/-- The paths at and below a directory, and those above it. Everything may be looked at. -/
def Realm.below (root : FilePath) : Realm where
  look _ := True
  make p := p.isAbsolute = root.isAbsolute ∧
    ∃ more, Place.stays 0 more = true ∧ p.steps <+: root.steps ++ more
  write p := p.isAbsolute = root.isAbsolute ∧ ∃ more, Place.stays 0 more = true ∧
    p.steps = root.steps ++ more ∧ (p.ending = .plain → Place.walk [] more ≠ [])
  take p := ∃ rest, rest ≠ [] ∧ root.Leads rest p

theorem Realm.make_of_leads (hp : root.Leads rest p) : (Realm.below root).make p := by
  obtain ⟨more, -, hsteps, hstays, -⟩ := hp.behind
  exact ⟨hp.absolute, more, hstays, hsteps ▸ List.prefix_refl _⟩

theorem Realm.write_of_leads (hp : root.Leads rest p) : (Realm.below root).write p := by
  obtain ⟨more, -, hsteps, hstays, rfl⟩ := hp.behind
  exact ⟨hp.absolute, more, hstays, hsteps, hp.ne_nil_of_plain⟩

/-- A member of an archive that is unpacked into the directory itself. -/
theorem Realm.write_member (root : FilePath) {name : String} (hname : Zip.isEnclosed name = true) :
    (Realm.below root).write (root.join ⟨name⟩) := by
  have hrelative := Zip.isAbsolute_of_isEnclosed hname
  have hstays := Zip.stays_of_isEnclosed hname
  have hsteps : (root.join ⟨name⟩).steps = root.steps ++ (⟨name⟩ : FilePath).steps :=
    FilePath.steps_join hrelative
  refine ⟨FilePath.isAbsolute_join hrelative, _, hstays, hsteps, fun hplain => ?_⟩
  have hleads : root.Leads (Place.walk [] (⟨name⟩ : FilePath).steps) (root.join ⟨name⟩) :=
    ⟨FilePath.isAbsolute_join hrelative, _, FilePath.steps_ne_nil_of_join hrelative hplain, hsteps,
      hstays, rfl⟩
  exact hleads.ne_nil_of_plain hplain

theorem Realm.make_self (root : FilePath) : (Realm.below root).make root :=
  ⟨rfl, [], rfl, List.prefix_append _ _⟩

/-- The change is confined, leaves links as they are and is at a place that can be. -/
structure Admitted (storage : FilePath) (store area : Place) (w : World) (c : Change) : Prop where
  confined : Confined storage store area w c
  links : w.disk.SameLinks (w.disk.apply c)
  named : ∀ n ∈ c.place, IsEntryName n

section

variable (hw : Stored storage store w) (hroot : storage.Behind names root)
include hw hroot

theorem Stored.lands (hp : root.Leads rest p) : w.disk.Lands w.cwd p (store ++ names ++ rest) := by
  obtain ⟨more, -, hsteps, hstays, rfl⟩ := hp.behind
  rw [List.append_assoc]
  exact hw.addressed.lands (hroot.leads hp.absolute hsteps hstays)

/-- A directory on the way to the area, or below it. -/
theorem Stored.makes (hp : (Realm.below root).make p)
    (hc : w.disk.planMakeDirectory w.cwd p = .ok c) :
    Admitted storage store (store ++ names) w c := by
  obtain ⟨through, q, e, hlocate, rfl, hmissing⟩ := Disk.locate_of_planMakeDirectory hc
  refine ⟨?_, Disk.sameLinks_apply (fun t hlink => ?_) (fun _ _ heq => (by cases heq)),
    Disk.names_locate hw.cwd hlocate⟩
  swap
  · rw [Change.place, hmissing] at hlink
    cases hlink
  obtain ⟨habsolute, more, hmore, hsteps⟩ := hp
  rw [hroot.absolute] at habsolute
  rw [hroot.steps, List.append_assoc] at hsteps
  by_cases hpassed : p.steps <+: storage.steps
  · exact .above habsolute hpassed hmissing hlocate
  -- the path goes on from that of the storage
  have hall : Place.stays 0 (names ++ more) = true :=
    Place.stays_append (Place.stays_names hroot.named 0) hmore
  obtain ⟨m, hm⟩ : storage.steps <+: p.steps :=
    (List.prefix_or_prefix_of_prefix (List.prefix_append _ _) hsteps).resolve_right hpassed
  have hfront : m <+: names ++ more := by
    rw [← hm] at hsteps
    exact (List.prefix_append_right_inj _).mp hsteps
  have hne : m ≠ [] := by
    rintro rfl
    rw [List.append_nil] at hm
    exact hpassed (hm ▸ List.prefix_refl _)
  have hleads : storage.Leads (Place.walk [] m) p :=
    ⟨habsolute, m, hne, hm.symm, Place.stays_of_prefix hfront hall, rfl⟩
  obtain rfl := (hw.addressed.lands hleads).locate _ _ _ hlocate
  rcases List.prefix_or_prefix_of_prefix hfront (List.prefix_append _ _) with hm | ⟨m', rfl⟩
  · rw [Place.walk_names _ fun n hn => hroot.named n (hm.subset hn), List.nil_append] at hmissing ⊢
    exact .between (List.prefix_append _ _) ((List.prefix_append_right_inj _).mpr hm) hmissing
  · have hstays : Place.stays 0 m' = true :=
      Place.stays_of_prefix ((List.prefix_append_right_inj _).mp hfront) hmore
    rw [Place.walk_append, Place.walk_names _ hroot.named, List.nil_append,
      Place.walk_of_stays_nil hstays, ← List.append_assoc] at hmissing ⊢
    by_cases hnil : Place.walk [] m' = []
    · rw [hnil, List.append_nil] at hmissing ⊢
      exact .between (List.prefix_append _ _) (List.prefix_refl _) hmissing
    · exact .inside rfl hnil

theorem Stored.inside (hp : root.Leads rest p) (hrest : rest ≠ [])
    (hplace : c.place = store ++ names ++ rest) (hlink : ∀ q t, c ≠ .link q t)
    (hnames : ∀ n ∈ c.place, IsEntryName n) : Admitted storage store (store ++ names) w c where
  confined := .inside hplace hrest
  links := Disk.sameLinks_apply (hplace ▸ (hw.lands hroot hp).linkless) hlink
  named := hnames

/-- A file below the area, to which more may be written. -/
theorem Stored.writes (hp : (Realm.below root).write p) {x : Bool}
    (hc : w.disk.planCreate w.cwd p x = .ok c) :
    Admitted storage store (store ++ names) w c ∧
      ∀ v more, Admitted storage store (store ++ names) v (.append c.place more) := by
  obtain ⟨habsolute, more, hstays, hsteps, hrest⟩ := hp
  obtain ⟨q, hlocate, ⟨y, rfl⟩, hlink⟩ := Disk.locate_of_planCreate hc
  obtain ⟨rfl, hplain⟩ := hw.addressed.locate (hroot.leads habsolute hsteps hstays) hlocate
  have hnames := Disk.names_locate hw.cwd hlocate
  rw [← List.append_assoc] at hlink hnames ⊢
  have hstrictly := hrest hplain.symm
  exact ⟨⟨.inside rfl hstrictly, Disk.sameLinks_apply hlink fun _ _ heq => (by cases heq), hnames⟩,
    fun v more => ⟨.inside rfl hstrictly, Disk.sameLinks_append _ _ _, hnames⟩⟩

theorem Stored.replaces (hp : root.Leads rest p) (hrest : rest ≠ []) {bytes : Bytes}
    (hc : w.disk.planReplace w.cwd p bytes = .ok c) : Admitted storage store (store ++ names) w c := by
  obtain ⟨rfl, -⟩ := (hw.lands hroot hp).planReplace hc
  have hnames : ∀ n ∈ store ++ names ++ rest, IsEntryName n := by
    unfold Disk.planReplace at hc
    split at hc
    · cases hc
    · next q e hlocate =>
      obtain rfl := (hw.lands hroot hp).locate _ _ _ hlocate
      exact Disk.names_locate hw.cwd hlocate
  exact hw.inside hroot hp hrest rfl (fun _ _ heq => (by cases heq)) hnames

theorem Stored.removes (hp : root.Leads rest p) (hrest : rest ≠ [])
    (hc : w.disk.planRemoveFile w.cwd p = .ok c) : Admitted storage store (store ++ names) w c := by
  obtain rfl := (hw.lands hroot hp).planRemoveFile hc
  have hnames : ∀ n ∈ store ++ names ++ rest, IsEntryName n := by
    unfold Disk.planRemoveFile at hc
    split at hc
    · cases hc
    · cases hc
    · next q e hnot hentry =>
      obtain ⟨rfl, hfound⟩ := (hw.lands hroot hp).entryAt hentry
      exact hw.named _ _ hfound
  exact hw.inside hroot hp hrest rfl (fun _ _ heq => (by cases heq)) hnames

/-- Everything at and below a path goes, also when other things have been removed meanwhile. -/
theorem Stored.removesTree (hp : root.Leads rest p) (hrest : rest ≠ []) {cs : List Change}
    (hcs : w.disk.planRemoveTree w.cwd p = .ok cs) (hc : c ∈ cs) (hv : Stored storage store v) :
    Admitted storage store (store ++ names) v c := by
  have hplaces : (∀ n ∈ store ++ names ++ rest, IsEntryName n) ∧
      ∀ c ∈ cs, ∃ more, c = .remove (store ++ names ++ rest ++ more) ∧ ∀ n ∈ more, IsEntryName n := by
    have hlands := hw.lands hroot hp
    unfold Disk.planRemoveTree at hcs
    split at hcs
    · cases hcs
    · cases hcs
    · next q t hentry => exact absurd (hlands.entryAt hentry).2 (hlands.linkless t)
    · next q hentry =>
      obtain ⟨rfl, hfound⟩ := hlands.entryAt hentry
      obtain rfl := Except.ok.inj hcs
      refine ⟨hw.named _ _ hfound, fun c hc => ?_⟩
      rcases List.mem_append.mp hc with hc | hc
      · obtain ⟨x, hx, rfl⟩ := List.mem_map.mp hc
        exact ⟨x.1, rfl, fun n hn => hw.named _ _ (Disk.find?_of_mem_below (List.mem_reverse.mp hx)) n
          (List.mem_append_right _ hn)⟩
      · obtain rfl := List.mem_singleton.mp hc
        exact ⟨[], by rw [List.append_nil], fun n hn => absurd hn List.not_mem_nil⟩
  obtain ⟨hself, hbelow⟩ := hplaces
  obtain ⟨more, rfl, hmore⟩ := hbelow c hc
  have hplace : (Change.remove (store ++ names ++ rest ++ more)).place =
      store ++ names ++ (rest ++ more) := List.append_assoc _ _ _
  refine ⟨.inside hplace (List.append_ne_nil_of_left_ne_nil hrest _),
    Disk.sameLinks_apply ?_ (fun _ _ heq => (by cases heq)),
    fun n hn => (List.mem_append.mp hn).elim (hself n) (hmore n)⟩
  intro t
  rw [Change.place, List.append_assoc, List.append_assoc]
  exact hv.addressed.linkless _ t

end

/-- **What single runs keep up that change nothing but what is confined to a directory.** -/
theorem twins_below {h : Host} (hroot : storage.Behind names root) {G : World → Prop}
    (hG : ∀ u v, G u → OwnStep storage store (store ++ names) u v → G v) :
    Twins h h (Alone fun u => Stored storage store u ∧ G u) (.below root)
      (Admitted storage store (store ++ names)) := by
  refine Alone.twins (fun u v hu huv => ⟨hu.1.sameDisk huv, hG u v hu.2 (.aside huv)⟩)
    (fun u c hu hc => ⟨hu.1.change hc.links hc.named, hG u _ hu.2 (.own hc.confined rfl rfl rfl)⟩)
    (fun p hp u c hu => hu.1.makes hroot hp) (fun p hp u x c hu => hu.1.writes hroot hp)
    (fun p hp u bytes c hu => ?_) (fun p hp u c hu => ?_) (fun _ _ => trivial) ?_
  · obtain ⟨_, hne, hp⟩ := hp
    exact hu.1.replaces hroot hp hne
  · obtain ⟨_, hne, hp⟩ := hp
    exact hu.1.removes hroot hp hne
  intro p q hp hq
  obtain ⟨habsolute, hsteps⟩ := FilePath.steps_parent? hq
  have hmake : (Realm.below root).make p := by
    rcases hp with hp | ⟨habsolute, more, hmore, hsteps, -⟩
    · exact hp
    · exact ⟨habsolute, more, hmore, hsteps ▸ List.prefix_refl _⟩
  obtain ⟨habove, more, hmore, hfront⟩ := hmake
  exact ⟨habsolute.trans habove, more, hmore, hsteps.trans hfront⟩

end Decompile
