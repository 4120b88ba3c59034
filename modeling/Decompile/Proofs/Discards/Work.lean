import Decompile.Proofs.Discards.Found

/-!
# The work of a stage on two disks

- `Host.Reproducible`: what tools do depends on the call, on the calls before it and on what they read.
- `preparedWork`: a stage up to the mark of its end.
- `Site.Repeated`: a call that comes to the same on both disks; `Grounded.callTool`.
- `Site.Apart`: the input of a job is not the record.
- `Lacks.items_on`: what the work on the items of a stage looks at, writes and calls.
- `Lacks.prepared`: up to the mark a stage does the same on both disks.
-/

namespace Decompile

/-- Names written one behind the other below a directory. -/
theorem FilePath.Leads.ofComponents {root : FilePath} {names : List String} (hne : names ≠ [])
    (hnames : ∀ n ∈ names, IsEntryName n) :
    root.Leads names (root.join ⟨FilePath.textOfComponents (names.map .name)⟩) := by
  have hrelative := isAbsolute_textOfComponents hnames
  refine ⟨isAbsolute_join hrelative, names, hne, ?_, Place.stays_names hnames 0, Place.walk_names _ hnames⟩
  rw [steps_join hrelative, steps_textOfComponents hnames]

/-- What a tool does is in the directory, and no request is made meanwhile. -/
def Activity.Into (dir : FilePath) : Activity → Prop
  | .line _ | .happening _ => True
  | .submit _ => False
  | .makeDirectories p => p = dir ∨ ∃ rest, dir.Leads rest p
  | .writeFile p _ => ∃ rest, dir.Leads rest p

/-- What tools do depends on the call, on the calls before it and on the contents of the files that it
names. They write into the directory that they are given. -/
structure Host.Reproducible (h : Host) (c : StageContext) (cwd : Place) : Prop where
  convert : ∀ files, ∀ i ∈ planConvert c.job.backend h.catalog files c.layout.java, ∀ past d d',
    (∀ p ∈ files, d.read cwd p = d'.read cwd p) → h.tool past d i = h.tool past d' i
  intermediate : ∀ dex past d d', d.read cwd dex = d'.read cwd dex →
    h.tool past d (dexToJarCall h.catalog c.layout.intermediate dex) =
      h.tool past d' (dexToJarCall h.catalog c.layout.intermediate dex)
  intoJava : ∀ files, ∀ i ∈ planConvert c.job.backend h.catalog files c.layout.java, ∀ past d,
    ∀ x ∈ (h.tool past d i).activities, x.Into c.layout.java
  intoIntermediate : ∀ dex past d,
    ∀ x ∈ (h.tool past d (dexToJarCall h.catalog c.layout.intermediate dex)).activities,
      x.Into c.layout.intermediate

/-- A stage up to the mark of its end. -/
def preparedWork (h : Host) (c : StageContext) (kind : StageKind) : Try StageError Items := do
  prepareOutput h c kind
  finishedWork h c kind

/-- A stage prepares its output, is finished, and clears away what it has consumed. -/
theorem workOfStage_eq (h : Host) (c : StageContext) (kind : StageKind) :
    workOfStage h c kind = preparedWork h c kind >>= clearAway h c kind := by
  unfold workOfStage preparedWork
  rw [bind_assoc]
  simp only [runWatched_eq]

namespace Site

variable {s : Site} {h k : Host} {c : StageContext} {kind source : StageKind} {named : String → Bool}
  {d d' d₀ d₀' : Disk} {done : List StageKind} {a a' : Nat}

/-- On the disks of a stage the call comes to the same, and what is done inside it is done in the
directory of the stage. -/
def Repeated (s : Site) (h : Host) (l : Layout) (kind : StageKind) (d₀ d₀' : Disk) (i : Invocation) : Prop :=
  ∀ past d d', s.During kind d₀ d₀' d d' → h.tool past d i = h.tool past d' i ∧
    ∀ x ∈ (h.tool past d i).activities, x.Into (outputOf l kind)

/-- The input of a job is not the record, whatever the job makes in the directory of its target. -/
def Apart (s : Site) (p : FilePath) : Prop :=
  ∀ d : Disk, (∀ q, (∀ n rest, q ≠ s.target ++ n :: rest) → d.find? q = s.before.find? q) →
    d.locate s.cwd true p ≠ .ok (s.recordPlace, .plain)

/-! ## Calls -/

theorem within_of_into {l : Layout} {x : Activity} (hx : x.Into (outputOf l kind)) :
    x.Within (s.reach l kind d₀ d₀') := by
  cases x with
  | line | happening | submit => trivial
  | makeDirectories p =>
    rcases hx with rfl | ⟨rest, hp⟩
    · exact Realm.make_self _
    · exact Realm.make_of_leads hp
  | writeFile p b =>
    obtain ⟨rest, hp⟩ := hx
    exact Realm.write_of_leads hp

section

variable (hs : s.Grounded) (hc : s.Serves h c) (hsettings : h.settings = k.settings)
  (hcatalog : h.catalog = k.catalog) (hceiling : h.memoryCeiling = k.memoryCeiling)
include hs hc hsettings hcatalog hceiling

/-- A call that comes to the same. -/
theorem Grounded.callTool (htool : k.tool = h.tool) (key title : String) {i : Invocation}
    (hi : s.Repeated h c.layout kind d₀ d₀' i) :
    Try.Pairs (Beside a a' s.cwd (s.During kind d₀ d₀'))
      (Work.callTool (k.followedBy a h a') key title i) (Work.callTool h key title i) := by
  have T := hs.twins hc kind d₀ d₀' hsettings hcatalog hceiling a a'
  refine T.callTool key title i (Beside.note _) fun u v huv => ?_
  obtain ⟨hsame, hinto⟩ := hi (World.callsIn u.journal) u.disk v.disk huv.disks
  have hboth : (k.followedBy a h a').tool (World.callsIn u.journal) u.disk i =
      h.tool (World.callsIn v.journal) v.disk i := by
    show k.tool _ _ i = _
    rw [htool, hsame, huv.veiled.calls]
  rw [hboth, ← huv.veiled.calls, ← hsame]
  refine ⟨rfl, Act.Pairs.mono (T.actAll key title _ (fun x hx => within_of_into (hinto x hx))
    fun r hr => absurd (hinto _ hr) id) (fun _ _ huv => huv.1) fun _ _ huv => huv⟩

end

/-! ## Items -/

theorem Precede.nil_of_unpack {b : Backend} (h : Precede b done .unpack) : done = [] :=
  List.eq_nil_iff_forall_not_mem.mpr fun _ hother => absurd (h.rank hother) (Nat.not_lt_zero _)

/-- The input means the same on both disks. -/
theorem Lacks.input_looks (hl : s.Lacks c.job done d₀ d₀') (h : Precede c.job.backend done .unpack)
    {p : FilePath} (hp : s.Apart p) : (s.reach c.layout .unpack d₀ d₀').look p := by
  obtain rfl := Precede.nil_of_unpack h
  intro d d' hd
  have hsame : ∀ q, q ≠ s.recordPlace → d.find? q = d'.find? q := fun q hq =>
    hd.same ((hl.spared q hq).trans (filter_lost fun _ _ => lost_nil)).symm
  -- the records differ in their contents only
  obtain ⟨r, hleft, hright⟩ := hl.record
  obtain ⟨hrecord, hrecord'⟩ := hd.outside _ (not_area_recordPlace .unpack)
  rw [hleft] at hrecord
  rw [hright] at hrecord'
  have halike : d.Alike d' := by
    intro q
    by_cases hq : q = s.recordPlace
    · simp only [hq, hrecord, hrecord', Option.map_some, Entry.emptied_file]
    · rw [hsame q hq]
  have hapart := hp d fun q hq => by
    rw [(hd.outside q fun hprefix => ?_).1, hl.outside q hq]
    obtain ⟨rest, rfl⟩ := hprefix
    refine hq (areaOf .unpack) rest ?_
    rw [area_eq, List.append_assoc]
    rfl
  unfold Disk.entryAt
  rw [← halike.locate]
  cases hlocate : d.locate s.cwd true p with
  | error e => rfl
  | ok place =>
    obtain ⟨q, e⟩ := place
    by_cases hq : q = s.recordPlace
    · subst hq
      have hplain : e ≠ .plain := fun hplain => hapart (hplain ▸ hlocate)
      simp only [hrecord, hrecord', if_neg hplain]
    · simp only [hsame q hq]

/-- The files that a stage finds mean the same on both disks. -/
theorem Lacks.found_sameAt (hs : s.Grounded) (hc : s.Serves h c) (hl : s.Lacks c.job done d₀ d₀')
    (h : Precede c.job.backend done kind) (hsource : sourceOf c.job kind = some (source, named))
    {q : Place} (hq : q ∈ s.filesIn d₀ source named) (hd : s.During kind d₀ d₀' d d') :
    Disk.SameAt d d' s.cwd (Disk.childPath (outputOf c.layout source) q) := by
  have hne := sourceOf_ne hsource
  refine (hd.agreeOn hne (hl.agreeOn h hsource)).sameAt hs hc hd.left hd.right ?_
  rw [hd.filesIn_left hne]
  exact hq

theorem exists_sourceOf (j : Job) (hkind : kind ≠ .unpack) :
    ∃ source named, sourceOf j kind = some (source, named) := by
  cases kind with
  | unpack => exact absurd rfl hkind
  | intermediateConvert | resources => exact ⟨_, _, rfl⟩
  | convert =>
    rw [sourceOf_convert]
    split
    · exact ⟨_, _, rfl⟩
    · exact ⟨_, _, rfl⟩

/-- **What the work on the items of a stage looks at, writes and calls** is the same on both disks. -/
theorem Lacks.items_on (hs : s.Grounded) (hc : s.Serves h c) (hl : s.Lacks c.job done d₀ d₀')
    (h' : Precede c.job.backend done kind) (hinput : s.Apart c.job.submission.inputPath)
    (htools : h.Reproducible c s.cwd) {g : Host} {u v w : World}
    (huv : Beside a a' s.cwd (s.During kind d₀ d₀') u v) {items : Items}
    (hrun : (Items.collect g c kind).Succeeds u items w) :
    items.On (s.reach c.layout kind d₀ d₀') (s.Repeated h c.layout kind d₀ d₀') h.catalog c kind := by
  by_cases hunpack : kind = .unpack
  · subst hunpack
    have hlook := hl.input_looks h' hinput
    cases items with
    | members ns => exact ⟨hlook, fun n hn => Realm.write_member _ hn⟩
    | files ps =>
      intro p hp
      obtain rfl := Items.input_yields _ _ _ _ hrun ps rfl
      obtain rfl := List.mem_singleton.mp hp
      exact ⟨hlook, fun n hn => Realm.write_of_leads (.ofChild (FilePath.isEntryName_of_fileName? hn))⟩
  obtain ⟨source, named, hsource⟩ := exists_sourceOf c.job hunpack
  obtain rfl := Items.collect_finds hs hc ⟨huv.home, huv.disks.left.sited⟩ huv.disks.left hsource hrun
  have hne := sourceOf_ne hsource
  rw [huv.disks.filesIn_left hne]
  have hfound : ∀ p ∈ (s.filesIn d₀ source named).map (Disk.childPath (outputOf c.layout source)),
      ∀ d d', s.During kind d₀ d₀' d d' → Disk.SameAt d d' s.cwd p := by
    intro p hp d d' hd
    obtain ⟨q, hq, rfl⟩ := List.mem_map.mp hp
    exact hl.found_sameAt hs hc h' hsource hq hd
  have hlook : ∀ p ∈ (s.filesIn d₀ source named).map (Disk.childPath (outputOf c.layout source)),
      (s.reach c.layout kind d₀ d₀').look p := fun p hp d d' hd => (hfound p hp d d' hd).entryAt true
  cases kind with
  | unpack => exact absurd rfl hunpack
  | intermediateConvert =>
    refine ⟨fun index => Realm.write_of_leads (.ofChild (isEntryName_chunkJarName index)),
      fun p hp => ⟨hlook p hp, fun past d d' hd => ⟨?_, htools.intoIntermediate p past d⟩⟩⟩
    exact htools.intermediate p past d d' (hfound p hp d d' hd).read
  | convert =>
    refine fun qs hqs i hi past d d' hd => ⟨?_, htools.intoJava qs i hi past d⟩
    exact htools.convert qs i hi past d d' fun p hp => (hfound p (hqs p hp) d d' hd).read
  | resources =>
    refine fun p hp => ⟨hlook p hp, fun cs hcs => ?_⟩
    cases hsource
    obtain ⟨q, hq, rfl⟩ := List.mem_map.mp hp
    obtain ⟨hnil, ⟨b, x, hfile⟩, -⟩ := mem_filesIn.mp hq
    have hnames := hl.stable.sited.names_area hfile
    replace hcs : (Disk.childPath c.layout.unpacked q).relativeTo? c.layout.unpacked = some cs := hcs
    rw [FilePath.relativeTo?_childPath hnames] at hcs
    obtain rfl := Option.some.inj hcs
    exact Realm.write_of_leads (.ofComponents hnil hnames)

/-! ## Up to the mark -/

section

variable (hs : s.Grounded) (hc : s.Serves h c)
include hs hc

/-- What stands in the directory of sources is listed alike. -/
theorem During.list (hd : s.During .convert d₀ d₀' d d') :
    d.list s.cwd c.layout.java = d'.list s.cwd c.layout.java ∧
      ∀ entries, d.list s.cwd c.layout.java = .ok entries → ∀ n ∈ entries.map Prod.fst,
        (s.reach c.layout .convert d₀ d₀').look (c.layout.java.child n) ∧
          (s.reach c.layout .convert d₀ d₀').take (c.layout.java.child n) := by
  have hlocate : ∀ through, d.locate s.cwd through c.layout.java = .ok (s.area .convert, .plain) :=
    (hd.left.locate_output hs hc :
      ∀ through, d.locate s.cwd through (outputOf c.layout .convert) = .ok (s.area .convert, .plain))
  have hsame : Disk.SameAt d d' s.cwd c.layout.java :=
    hs.same_make hc hd (Realm.make_self (outputOf c.layout .convert))
  refine ⟨hsame.list fun q e hq rest => ?_, fun entries hentries n hn => ?_⟩
  · rw [hlocate] at hq
    obtain ⟨rfl, -⟩ := Prod.mk.inj (Except.ok.inj hq)
    exact hd.inside rest
  · have hname : IsEntryName n := by
      obtain ⟨x, hx, rfl⟩ := List.mem_map.mp hn
      unfold Disk.list at hentries
      split at hentries
      · cases hentries
      · next q hentry =>
        obtain ⟨e, hq, -, -⟩ := Disk.entryAt_of_locate hentry
        rw [hlocate] at hq
        obtain ⟨rfl, -⟩ := Prod.mk.inj (Except.ok.inj hq)
        obtain rfl := Except.ok.inj hentries
        exact hd.left.sited.names_area (Disk.find?_of_mem_children hx) x.1 List.mem_cons_self
      · cases hentries
    have hleads : c.layout.java.Leads [n] (c.layout.java.child n) := .ofChild hname
    exact ⟨fun d d' hd => (hs.same_make hc hd (Realm.make_of_leads hleads)).entryAt true,
      [n], List.cons_ne_nil _ _, hleads⟩

variable (hsettings : h.settings = k.settings) (hcatalog : h.catalog = k.catalog)
  (hceiling : h.memoryCeiling = k.memoryCeiling) (htool : k.tool = h.tool)
include hsettings hcatalog hceiling htool

/-- **Up to the mark of its end a stage does the same on both disks.** -/
theorem Lacks.prepared (hl : s.Lacks c.job done d₀ d₀') (h' : Precede c.job.backend done kind)
    (hinput : s.Apart c.job.submission.inputPath) (htools : h.Reproducible c s.cwd) (keep : Option Bool) :
    Try.Pairs (Beside a a' s.cwd (s.During kind d₀ d₀'))
      (preparedWork (k.followedBy a h a') c kind) (preparedWork h (c.keeping keep) kind) := by
  have T := hs.twins hc kind d₀ d₀' hsettings hcatalog hceiling a a'
  have houtput : (s.reach c.layout kind d₀ d₀').make (outputOf c.layout kind) := Realm.make_self _
  have hmarkers : ∀ n, Target.isMarkerName n = true →
      (s.reach c.layout kind d₀ d₀').take ((outputOf c.layout kind).join ⟨n⟩) := fun n hn =>
    ⟨[n], List.cons_ne_nil _ _, .ofChild (isEntryName_of_isMarkerName hn)⟩
  have hcollect : Try.Pairs (Beside a a' s.cwd (s.During kind d₀ d₀'))
      (Items.collect (k.followedBy a h a') c kind) (Items.collect h (c.keeping keep) kind) := by
    by_cases hunpack : kind = .unpack
    · subst hunpack
      exact T.input keep (hl.input_looks h' hinput)
    · obtain ⟨source, named, hsource⟩ := exists_sourceOf c.job hunpack
      have hne := sourceOf_ne hsource
      rw [Items.collect_keeping]
      exact Items.collect_pairs hs hc hsource fun d d' hd =>
        ⟨hd.left, hd.right, hd.agreeOn hne (hl.agreeOn h' hsource)⟩
  have hcatalog' : (k.followedBy a h a').catalog = h.catalog := hcatalog.symm
  have hwork := T.collectAndRun keep (C := s.Repeated h c.layout kind d₀ d₀')
    (fun title i hi => hs.callTool hc hsettings hcatalog hceiling htool _ title hi) kind hcollect
    fun u v items w huv hrun => hcatalog' ▸ hl.items_on hs hc h' hinput htools huv hrun
  have hfinish := T.finishOutput keep kind houtput hmarkers
    (fun hconvert n hn => by
      subst hconvert
      exact Realm.write_member _ hn) fun hconvert u v huv => by
    subst hconvert
    rw [huv.home, huv.home']
    obtain ⟨hsame, hentries⟩ := huv.disks.list hs hc
    exact ⟨hsame, fun entries hlist n hn => (hentries entries hlist n hn).imp_right fun htake _ => htake⟩
  exact (T.prepareOutput keep kind houtput hmarkers).bind fun _ => T.finishedWork keep kind hwork hfinish

end

end Site

end Decompile
