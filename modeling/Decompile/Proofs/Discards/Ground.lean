import Decompile.Proofs.Conservation.Run
import Decompile.Proofs.Confinement.Run
import Decompile.Proofs.Discards.Beside
import Decompile.Proofs.Disk.Trees

/-!
# Two disks on which one stage works

While a stage runs, two disks are changed alike in the directory that the stage writes, and nowhere else.
Paths above, at and below that directory mean the same on both.

- `Site.Grounded`: the disk that a job finds.
- `Site.Stable`: a disk on which it works.
- `Site.Builds`: the changes of a stage; `Stable.apply`.
- `Site.During`: the two disks; `During.apply`.
- `Site.reach`: the paths that a stage uses, with what it looks at; `Grounded.makes`, `writes` and `takes`
  say what is planned for these paths.
-/

namespace Decompile

/-- A change says the same about a place on two disks that hold the same there and where the change is. -/
theorem Disk.find?_apply_congr {d d' : Disk} {c : Change} {q : Place}
    (hplace : d.find? c.place = d'.find? c.place) (hq : d.find? q = d'.find? q) :
    (d.apply c).find? q = (d'.apply c).find? q := by
  by_cases hne : q = c.place
  swap
  · rw [find?_apply_of_ne d c hne, find?_apply_of_ne d' c hne, hq]
  subst hne
  cases c with
  | append p more =>
    replace hplace : d.find? p = d'.find? p := hplace
    show (d.apply (.append p more)).find? p = (d'.apply (.append p more)).find? p
    simp only [apply, hplace]
    split
    · rw [find?_put, find?_put]
      simp
    · exact hplace
  | remove p =>
    simp only [apply, Change.place, find?_erase, if_true]
  | _ => simp only [apply, Change.place, find?_put, if_true]

namespace Site

/-- The disk that a job finds is a tree, in which the directory of its target is fresh. -/
structure Grounded (s : Site) : Prop where
  fresh : s.Fresh
  tree : s.before.Tree
  home : s.before.find? s.cwd = some .directory

theorem grounded_iff (s : Site) :
    s.Grounded ↔ s.Fresh ∧ s.before.Tree ∧ s.before.find? s.cwd = some .directory :=
  ⟨fun hs => ⟨hs.fresh, hs.tree, hs.home⟩, fun ⟨fresh, tree, home⟩ => ⟨fresh, tree, home⟩⟩

instance (s : Site) : Decidable s.Grounded := decidable_of_iff _ s.grounded_iff.symm

/-- A disk on which a job works: a tree on which the way to its target stands, and where stages write
there are directories or nothing. -/
structure Stable (s : Site) (d : Disk) : Prop where
  sited : s.Sited d
  tree : d.Tree
  areas : ∀ kind e, d.find? (s.area kind) = some e → e = .directory

/-- The change is one that a stage makes in its directory. -/
structure Builds (s : Site) (kind : StageKind) (d : Disk) (c : Change) : Prop where
  sound : s.Sound d c
  fits : c.Fits d
  inside : ∃ rest, c.place = s.area kind ++ rest ∧ (rest = [] → c.makes = true)

/-- The two disks while a stage works on them: `d₀` and `d₀'` are those it has found. -/
structure During (s : Site) (kind : StageKind) (d₀ d₀' d d' : Disk) : Prop where
  left : s.Stable d
  right : s.Stable d'
  inside : ∀ rest, d.find? (s.area kind ++ rest) = d'.find? (s.area kind ++ rest)
  outside : ∀ q, ¬ s.area kind <+: q → d.find? q = d₀.find? q ∧ d'.find? q = d₀'.find? q

variable {s : Site} {h : Host} {c : StageContext} {kind other : StageKind} {d d' d₀ d₀' : Disk}
  {x : Change} {p : FilePath} {m more : List String}

theorem Grounded.stable (hs : s.Grounded) : s.Stable s.before where
  sited := hs.fresh.sited
  tree := hs.tree
  areas kind e hfound := by
    have hfree := hs.fresh.free kind []
    rw [List.append_nil] at hfree
    rw [hfree] at hfound
    cases hfound

/-- What is below one of the directories that stages write is not below another. -/
theorem eq_of_isPrefix_area {q : Place} (hq : s.area kind <+: q) (hother : s.area other <+: q) :
    kind = other := by
  obtain ⟨rest, rfl⟩ := hq
  obtain ⟨rest', heq⟩ := hother
  rw [area_eq, area_eq] at heq
  exact (area_inj heq).1.symm

theorem Stable.apply (hd : s.Stable d) (hx : s.Builds kind d x) : s.Stable (d.apply x) where
  sited := hd.sited.apply hx.sound
  tree := hd.tree.apply hx.fits
  areas other e hfound := by
    obtain ⟨rest, hplace, hself⟩ := hx.inside
    by_cases heq : s.area other = x.place
    · obtain ⟨rfl, hrest⟩ : kind = other ∧ rest = [] := by
        have hboth : s.target ++ [areaOf kind] ++ rest = s.target ++ [areaOf other] ++ [] := by
          rw [← area_eq, ← area_eq, List.append_nil, ← hplace, heq]
        exact area_inj hboth
      -- the directory itself is only made
      cases x with
      | makeDirectory q =>
        rw [heq, Disk.apply, Change.place, Disk.find?_put, if_pos rfl] at hfound
        exact (Option.some.inj hfound).symm
      | _ => cases hself hrest
    · rw [Disk.find?_apply_of_ne d x heq] at hfound
      exact hd.areas other e hfound

namespace During

variable (hd : s.During kind d₀ d₀' d d')
include hd

/-- Outside the directory of the stage, what was the same is the same. -/
theorem same {q : Place} (hq : d₀.find? q = d₀'.find? q) : d.find? q = d'.find? q := by
  by_cases hprefix : s.area kind <+: q
  · obtain ⟨rest, rfl⟩ := hprefix
    exact hd.inside rest
  · obtain ⟨hleft, hright⟩ := hd.outside q hprefix
    rw [hleft, hright, hq]

theorem target (hs : s.Fresh) : d.find? s.target = d'.find? s.target := by
  rw [hd.left.sited.keeps _ _ hs.there rfl, hd.right.sited.keeps _ _ hs.there rfl]

/-- The same change can be made on the other disk. -/
theorem builds (hs : s.Fresh) (hx : s.Builds kind d x) : s.Builds kind d' x := by
  obtain ⟨hsound, hfits, rest, hplace, hself⟩ := hx
  have hthere : d.find? x.place = d'.find? x.place := hplace ▸ hd.inside rest
  have hadmits : d.Admits x.place → d'.Admits x.place := by
    rintro ⟨r, n, hr, hdir, hn⟩
    refine ⟨r, n, hr, ?_, hn⟩
    -- the directory it stands in is that of the target, or in that of the stage
    rcases List.eq_nil_or_concat rest with rfl | ⟨rest, k, rfl⟩
    · rw [List.append_nil, area_eq, hr] at hplace
      obtain ⟨rfl, -⟩ := List.append_inj' hplace rfl
      rw [← hd.target hs, hdir]
    · rw [List.concat_eq_append, ← List.append_assoc, hr] at hplace
      obtain ⟨rfl, -⟩ := List.append_inj' hplace rfl
      rw [← hd.inside rest, hdir]
  refine ⟨?_, ?_, rest, hplace, hself⟩
  · cases x with
    | makeDirectory q => exact ⟨hthere.symm.trans hsound.1, hsound.2⟩
    | create q y | replace q b => exact ⟨fun e he => hsound.1 e (hthere.trans he), hsound.2⟩
    | append q b => trivial
    | remove q => exact hsound
    | link q t => exact hsound.elim
  · cases x with
    | makeDirectory q => exact hadmits hfits
    | create q y | replace q b => exact ⟨hadmits hfits.1, hthere ▸ hfits.2⟩
    | append q b => trivial
    | remove q => exact fun hdir => hfits (hthere.trans hdir)
    | link q t => exact hfits.elim

theorem apply (hs : s.Fresh) (hx : s.Builds kind d x) :
    s.During kind d₀ d₀' (d.apply x) (d'.apply x) := by
  obtain ⟨rest, hplace, -⟩ := hx.inside
  refine ⟨hd.left.apply hx, hd.right.apply (hd.builds hs hx), fun r => ?_, fun q hq => ?_⟩
  · exact Disk.find?_apply_congr (hplace ▸ hd.inside rest) (hd.inside r)
  · have hne : q ≠ x.place := fun heq => hq (heq ▸ hplace ▸ List.prefix_append _ _)
    rw [Disk.find?_apply_of_ne d x hne, Disk.find?_apply_of_ne d' x hne]
    exact hd.outside q hq

end During

/-! ## Paths -/

/-- The paths that a stage uses: those above, at and below its directory. What it looks at means the
same on both disks. -/
def reach (s : Site) (l : Layout) (kind : StageKind) (d₀ d₀' : Disk) : Realm :=
  { Realm.below (outputOf l kind) with
    look := fun p => ∀ d d', s.During kind d₀ d₀' d d' →
      d.entryAt s.cwd true p = d'.entryAt s.cwd true p }

/-- The first steps towards a directory that a stage writes, and below it. -/
theorem prefix_output (hm : m <+: [s.key, areaOf kind] ++ more) (hne : m ≠ []) :
    m = [s.key] ∨ ∃ m', m = [s.key, areaOf kind] ++ m' ∧ m' <+: more := by
  rcases List.prefix_or_prefix_of_prefix hm (List.prefix_append _ _) with hshort | ⟨m', rfl⟩
  · rcases List.prefix_cons_iff.mp hshort with rfl | ⟨m, rfl, hone⟩
    · exact absurd rfl hne
    · rcases List.prefix_cons_iff.mp hone with rfl | ⟨m, rfl, hlast⟩
      · exact .inl rfl
      · rw [List.prefix_nil.mp hlast]
        exact .inr ⟨[], rfl, List.nil_prefix⟩
  · exact .inr ⟨m', rfl, (List.prefix_append_right_inj _).mp hm⟩

theorem Serves.isEntryName_key (hc : s.Serves h c) : ∀ n ∈ [s.key], IsEntryName n := by
  have hnames : ∀ n ∈ [s.key, areaOf .unpack], IsEntryName n := hc.names
  exact List.forall_mem_singleton.mpr (hnames s.key List.mem_cons_self)

/-- The key leads to the directory of the target. -/
theorem walk_key (hc : s.Serves h c) : s.base ++ Place.walk [] [s.key] = s.target := by
  rw [Place.walk_names _ hc.isEntryName_key, List.nil_append]
  rfl

/-- What follows leads into the directory of the stage. -/
theorem walk_output (hc : s.Serves h c) {m' : List String} (hm' : Place.stays 0 m' = true) :
    s.base ++ Place.walk [] ([s.key, areaOf kind] ++ m') = s.area kind ++ Place.walk [] m' := by
  have hnames : ∀ n ∈ [s.key, areaOf kind], IsEntryName n := Serves.names hc
  rw [Place.walk_append, Place.walk_names _ hnames, List.nil_append, Place.walk_of_stays_nil hm',
    Serves.area_append kind]

/-- Below the directory of a stage a place has names that entries can have. -/
theorem clean_area {rest : Place} (hrest : ∀ n ∈ rest, IsEntryName n) :
    s.Clean (s.area kind ++ rest) := by
  intro r hr n hn
  rw [area_eq, List.append_assoc] at hr
  rw [← List.append_cancel_left hr] at hn
  rcases List.mem_cons.mp hn with rfl | hn
  · exact isEntryName_areaOf kind
  · exact hrest n hn

section

variable (hs : s.Grounded) (hc : s.Serves h c)
include hc

/-- A path above, at or below the directory of a stage is above that of all targets, or goes on from
there. -/
theorem below_make (hp : (Realm.below (outputOf c.layout kind)).make p) :
    p.isAbsolute = s.sources.isAbsolute ∧ (p.steps <+: s.sources.steps ∨
      ∃ m more, m ≠ [] ∧ p.steps = s.sources.steps ++ m ∧ m <+: [s.key, areaOf kind] ++ more ∧
        Place.stays 0 more = true) := by
  obtain ⟨habsolute, more, hmore, hsteps⟩ := hp
  refine ⟨habsolute.trans (hc.leads_output kind).absolute, ?_⟩
  rw [Serves.steps_output hc, List.append_assoc] at hsteps
  by_cases habove : p.steps <+: s.sources.steps
  · exact .inl habove
  · obtain ⟨m, hm⟩ :=
      (List.prefix_or_prefix_of_prefix (List.prefix_append _ _) hsteps).resolve_right habove
    refine .inr ⟨m, more, ?_, hm.symm, ?_, hmore⟩
    · rintro rfl
      rw [List.append_nil] at hm
      exact habove (hm ▸ List.prefix_refl _)
    · rw [← hm] at hsteps
      exact (List.prefix_append_right_inj _).mp hsteps

/-- A path that leads below the directory of a stage. -/
theorem leads_below {rest : Place} (hp : (outputOf c.layout kind).Leads rest p) :
    s.sources.Leads ([s.key, areaOf kind] ++ rest) p ∧
      ∃ more, p.steps = s.sources.steps ++ ([s.key, areaOf kind] ++ more) ∧
        Place.stays 0 more = true ∧ Place.walk [] more = rest := by
  obtain ⟨more, -, hsteps, hstays, hwalk⟩ := hp.behind
  refine ⟨(hc.leads_output kind).trans hp, more, ?_, hstays, hwalk⟩
  rw [hsteps, Serves.steps_output hc, List.append_assoc]

include hs

/-- A path below the directory of all targets means the same on two disks that hold the same along it. -/
theorem Stable.sameAt (hd : s.Stable d) (hd' : s.Stable d')
    (habsolute : p.isAbsolute = s.sources.isAbsolute) (hsteps : p.steps = s.sources.steps ++ m)
    (hm : m <+: [s.key, areaOf kind] ++ more) (hmore : Place.stays 0 more = true) (hne : m ≠ [])
    (hsame : ∀ a, a <+: more → d.find? (s.area kind ++ Place.walk [] a) =
      d'.find? (s.area kind ++ Place.walk [] a)) : Disk.SameAt d d' s.cwd p := by
  have hstays : Place.stays 0 m = true := Place.stays_of_prefix hm
    (Place.stays_append (Place.stays_names (Serves.names hc) 0) hmore)
  refine .below hs.fresh.anchored.leads hd.sited.keeps hd'.sited.keeps hd.sited.linkless habsolute
    hsteps hne hstays fun a hne ha => ?_
  rcases prefix_output (ha.trans hm) hne with rfl | ⟨a', rfl, ha'⟩
  · rw [walk_key hc, hd.sited.keeps _ _ hs.fresh.there rfl,
      hd'.sited.keeps _ _ hs.fresh.there rfl]
  · rw [walk_output hc (Place.stays_of_prefix ha' hmore)]
    exact hsame a' ha'

theorem During.sameAt (hd : s.During kind d₀ d₀' d d')
    (habsolute : p.isAbsolute = s.sources.isAbsolute) (hsteps : p.steps = s.sources.steps ++ m)
    (hm : m <+: [s.key, areaOf kind] ++ more) (hmore : Place.stays 0 more = true) (hne : m ≠ []) :
    Disk.SameAt d d' s.cwd p :=
  hd.left.sameAt hs hc hd.right habsolute hsteps hm hmore hne fun _ _ => hd.inside _

/-- A path that is made means the same on both disks. -/
theorem Grounded.same_make (hd : s.During kind d₀ d₀' d d')
    (hp : (Realm.below (outputOf c.layout kind)).make p) : Disk.SameAt d d' s.cwd p := by
  obtain ⟨habsolute, habove | ⟨m, more, hne, hsteps, hm, hmore⟩⟩ := below_make hc hp
  · exact (Disk.SameAt.above hs.tree hs.home hs.fresh.anchored.leads hd.left.sited.keeps
      hd.right.sited.keeps habsolute habove).1
  · exact hd.sameAt hs hc habsolute hsteps hm hmore hne

/-- What a stage makes at a path is one of its changes. -/
theorem Stable.makes (hd : s.Stable d) (hp : (Realm.below (outputOf c.layout kind)).make p)
    (hx : d.planMakeDirectory s.cwd p = .ok x) : s.Builds kind d x := by
  obtain ⟨habsolute, habove | ⟨m, more, hne, hsteps, hm, hmore⟩⟩ := below_make hc hp
  · exact absurd hx ((Disk.SameAt.above hs.tree hs.home hs.fresh.anchored.leads hd.sited.keeps
      hd.sited.keeps habsolute habove).2 x)
  have hstays : Place.stays 0 m = true := Place.stays_of_prefix hm
    (Place.stays_append (Place.stays_names (Serves.names hc) 0) hmore)
  have hleads : s.sources.Leads (Place.walk [] m) p := ⟨habsolute, m, hne, hsteps, hstays, rfl⟩
  have hanchored := hs.fresh.anchoredOn hd.sited
  obtain ⟨through, q, e, hlocate, rfl, hmissing⟩ := Disk.locate_of_planMakeDirectory hx
  obtain ⟨rfl, -⟩ := hanchored.locate hleads hlocate
  rcases prefix_output hm hne with rfl | ⟨m', rfl, hm'⟩
  · rw [walk_key hc, hd.sited.keeps _ _ hs.fresh.there rfl] at hmissing
    cases hmissing
  · refine ⟨⟨hmissing, fun r hr n hn => ?_⟩, ?_, _,
      walk_output hc (Place.stays_of_prefix hm' hmore), fun _ => rfl⟩
    · rw [target, List.append_assoc] at hr
      exact hleads.names n (List.append_cancel_left hr ▸ List.mem_append_right _ hn)
    · exact (hanchored.arrives hd.tree hleads hlocate).resolve_left fun hdir => by
        rw [hmissing] at hdir
        cases hdir

/-- What a stage writes at a path is one of its changes, and so is what it adds. -/
theorem Stable.writes (hd : s.Stable d) (hp : (Realm.below (outputOf c.layout kind)).write p) {y : Bool}
    (hx : d.planCreate s.cwd p y = .ok x) :
    s.Builds kind d x ∧ ∀ d more, s.Builds kind d (.append x.place more) := by
  obtain ⟨habsolute, more, hstays, hsteps, hrest⟩ := hp
  have hnames : ∀ n ∈ [s.key, areaOf kind], IsEntryName n := Serves.names hc
  have hleads : s.sources.Leads ([s.key, areaOf kind] ++ Place.walk [] more) p := by
    refine ⟨habsolute.trans (hc.leads_output kind).absolute, [s.key, areaOf kind] ++ more,
      List.cons_ne_nil _ _, ?_, Place.stays_append (Place.stays_names hnames 0) hstays, ?_⟩
    · rw [hsteps, Serves.steps_output hc, List.append_assoc]
    · rw [Place.walk_append, Place.walk_names _ hnames, List.nil_append,
        Place.walk_of_stays_nil hstays]
  have hanchored := hs.fresh.anchoredOn hd.sited
  obtain ⟨q, hlocate, ⟨y, rfl⟩, -⟩ := Disk.locate_of_planCreate hx
  have hfile := ((hanchored.lands hleads).planCreate hx).2
  obtain ⟨rfl, hplain⟩ := hanchored.locate hleads hlocate
  have hstrictly : Place.walk [] more ≠ [] := hrest hplain.symm
  rw [Serves.area_append kind] at hfile hlocate ⊢
  refine ⟨⟨⟨hfile, clean_area fun n hn => hleads.names n (List.mem_append_right _ hn)⟩, ?_,
    _, rfl, fun hnil => absurd hnil hstrictly⟩, fun d more => ⟨trivial, trivial, _, rfl,
      fun hnil => absurd hnil hstrictly⟩⟩
  have hnot : d.find? (s.area kind ++ Place.walk [] more) ≠ some .directory := fun hdir => by
    cases hfile _ hdir
  exact ⟨(hanchored.arrives hd.tree hleads hlocate).resolve_left hnot, hnot⟩

/-- What a stage puts in place of an entry is one of its changes. -/
theorem Stable.replaces (hd : s.Stable d) (hp : (Realm.below (outputOf c.layout kind)).take p)
    {bytes : Bytes} (hx : d.planReplace s.cwd p bytes = .ok x) : s.Builds kind d x := by
  obtain ⟨rest, hne, hp⟩ := hp
  obtain ⟨hleads, -⟩ := leads_below hc hp
  have hanchored := hs.fresh.anchoredOn hd.sited
  obtain ⟨rfl, hfile⟩ := (hanchored.lands hleads).planReplace hx
  rw [Serves.area_append kind] at hfile ⊢
  have hnot : d.find? (s.area kind ++ rest) ≠ some .directory := fun hdir => by
    cases hfile _ hdir
  refine ⟨⟨hfile, clean_area fun n hn => hleads.names n (List.mem_append_right _ hn)⟩,
    ⟨?_, hnot⟩, _, rfl, fun hnil => absurd hnil hne⟩
  unfold Disk.planReplace at hx
  split at hx
  · cases hx
  · next q e hlocate =>
    have hadmits := hanchored.arrives hd.tree hleads hlocate
    obtain ⟨rfl, -⟩ := hanchored.locate hleads hlocate
    rw [Serves.area_append kind] at hadmits
    exact hadmits.resolve_left hnot

/-- What a stage removes is one of its changes. -/
theorem Stable.removes (hd : s.Stable d) (hp : (Realm.below (outputOf c.layout kind)).take p)
    (hx : d.planRemoveFile s.cwd p = .ok x) : s.Builds kind d x := by
  obtain ⟨rest, hne, hp⟩ := hp
  obtain ⟨hleads, -⟩ := leads_below hc hp
  have hanchored := hs.fresh.anchoredOn hd.sited
  obtain rfl := (hanchored.lands hleads).planRemoveFile hx
  unfold Disk.planRemoveFile at hx
  rw [Serves.area_append kind] at hx ⊢
  refine ⟨fun e hbefore => ?_, fun hdir => ?_, _, rfl, fun hnil => absurd hnil hne⟩
  · rw [hs.fresh.free] at hbefore
    cases hbefore
  · split at hx
    · cases hx
    · cases hx
    · next q e hnot hentry =>
      obtain ⟨rfl, hfound⟩ := (hanchored.lands hleads).entryAt hentry
      rw [Serves.area_append kind, hdir] at hfound
      exact hnot (Option.some.inj hfound).symm

theorem During.same_take (hd : s.During kind d₀ d₀' d d')
    (hp : (Realm.below (outputOf c.layout kind)).take p) : Disk.SameAt d d' s.cwd p := by
  obtain ⟨rest, hne, hp⟩ := hp
  obtain ⟨hleads, more, hsteps, hstays, -⟩ := leads_below hc hp
  exact hd.sameAt hs hc hleads.absolute hsteps (List.prefix_refl _) hstays (List.cons_ne_nil _ _)

theorem During.same_write (hd : s.During kind d₀ d₀' d d')
    (hp : (Realm.below (outputOf c.layout kind)).write p) : Disk.SameAt d d' s.cwd p := by
  obtain ⟨habsolute, more, hstays, hsteps, -⟩ := hp
  rw [Serves.steps_output hc, List.append_assoc] at hsteps
  exact hd.sameAt hs hc (habsolute.trans (hc.leads_output kind).absolute) hsteps (List.prefix_refl _)
    hstays (List.cons_ne_nil _ _)

/-- **The two runs of a stage** make the same changes in its directory. -/
theorem Grounded.twins {k : Host} (kind : StageKind) (d₀ d₀' : Disk) (hsettings : h.settings = k.settings)
    (hcatalog : h.catalog = k.catalog) (hceiling : h.memoryCeiling = k.memoryCeiling) (a a' : Nat) :
    Twins (k.followedBy a h a') h (Beside a a' s.cwd (s.During kind d₀ d₀'))
      (s.reach c.layout kind d₀ d₀') fun w => s.Builds kind w.disk := by
  have hupward : ∀ p q, (Realm.below (outputOf c.layout kind)).make p → p.parent? = some q →
      (Realm.below (outputOf c.layout kind)).make q := by
    rintro p q ⟨habove, more, hmore, hfront⟩ hq
    obtain ⟨habsolute, hsteps⟩ := FilePath.steps_parent? hq
    exact ⟨habsolute.trans habove, more, hmore, hsteps.trans hfront⟩
  refine Beside.twins hceiling hsettings hcatalog (fun x d d' hd hx => hd.apply hs.fresh hx)
    (fun p hp => hp) (fun p hp d d' hd => ⟨(hs.same_make hc hd hp).planMakeDirectory,
      fun x => hd.left.makes hs hc hp⟩)
    (fun p hp d d' y hd => ⟨(hd.same_write hs hc hp).planCreate y, fun x => hd.left.writes hs hc hp⟩)
    (fun p hp d d' hd => ⟨fun bytes => ⟨(hd.same_take hs hc hp).planReplace bytes,
      fun x => hd.left.replaces hs hc hp⟩, (hd.same_take hs hc hp).planRemoveFile,
      fun x => hd.left.removes hs hc hp⟩)
    (fun p hp d d' hd => (hs.same_make hc hd hp).entryAt true) hupward ?_
  rintro p q ⟨habsolute, more, hmore, hsteps, -⟩
  exact hupward p q ⟨habsolute, more, hmore, hsteps ▸ List.prefix_refl _⟩

end

end Site

end Decompile
