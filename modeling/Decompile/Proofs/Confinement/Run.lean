import Decompile.Proofs.Confinement.Law
import Decompile.Proofs.Provenance.Run

/-!
# Engines stay in their storage

- `Engine.submit_confines`, `Work.extract_confines`: a request and the unpacking of an archive.
- `Turn`, `Course`: the steps of a job that runs: those of its own, and what is done inside its calls
  of tools.
- `covers_below`: a stage stays in the realm below the directory of its target.
- `Engine.runJob_course`: a whole run.
- `Course.keeps`: entries that are not below the directory of the target.
-/

namespace Decompile

variable {h : Host} {storage root : FilePath} {store area : Place} {names rest : List String}
  {u v w : World}

/-! ## Work on behalf of one directory -/

/-- A program whose paths are below a directory changes nothing but what is confined to it. -/
theorem Confines.of_pairs {ε α : Type} {t : Try ε α} (hw : Stored storage store w)
    (ht : Try.Pairs (Alone fun u => Stored storage store u ∧
      Confines storage store (store ++ names) w u) t t) :
    Stored storage store (t.settle.run w).2 ∧
      Confines storage store (store ++ names) w (t.settle.run w).2 :=
  Alone.keeps ht ⟨hw, .refl⟩

/-- **The unpacking of an archive changes nothing but what is below the directory it is unpacked
into**, whatever the names of its members, and makes that directory. -/
theorem Work.extract_confines (hw : Stored storage store w) {dest : FilePath}
    (hdest : storage.Behind names dest) (archive : FilePath) (members : List String) (checked : Bool) :
    Confines storage store (store ++ names) w
      ((extract h archive members dest checked).settle.run w).2 := by
  have T := twins_below (h := h) hdest (G := Confines storage store (store ++ names) w)
    fun _ _ => .tail
  have hmembers : ∀ n, Zip.isEnclosed n = true → (Realm.below dest).write (dest.join ⟨n⟩) :=
    fun n hn => Realm.write_member dest hn
  have harchive : (Realm.below dest).look archive := trivial
  exact (Confines.of_pairs hw (T.extract hmembers harchive members checked)).2

/-- **A request changes nothing but what is below the directory of its target.** -/
theorem Engine.submit_confines (s : Submission) (hw : Stored h.settings.storage store w) :
    Stored h.settings.storage store ((submit h s).settle.run w).2 ∧
      Confines h.settings.storage store (store ++ ["sources", s.targetKey]) w
        ((submit h s).settle.run w).2 := by
  cases hplan : Job.plan s h.catalog.has with
  | error e =>
    have hrun : (submit h s).settle.run w = (.error (.configuration e), w) := by
      unfold submit accept
      rw [hplan]
      rfl
    rw [hrun]
    exact ⟨hw, .refl⟩
  | ok job =>
    have hkey : IsEntryName s.targetKey := by
      rw [← Job.targetKey_of_plan hplan]
      exact isEntryName_of_isTargetKey (Job.isTargetKey_of_plan hplan)
    have hroot := FilePath.Behind.target h.settings.storage hkey
    have T := twins_below (h := h) hroot
      (G := Confines h.settings.storage store (store ++ ["sources", s.targetKey]) w)
      fun _ _ => .tail
    refine Confines.of_pairs hw (Alone.submit (fun u v hu huv =>
      ⟨hu.1.sameDisk huv, hu.2.tail (.aside huv)⟩) T (fun job' hplan' => ?_) fun job' hplan' => ?_)
    · rw [Job.targetKey_of_plan hplan']
      exact Realm.make_self _
    · rw [Job.targetKey_of_plan hplan']
      exact ⟨[recordName], List.cons_ne_nil _ _, FilePath.Leads.ofChild (by decide)⟩

/-! ## Tools -/

/-- The links stay as they are, and the place is one that can be. -/
def Linkless (w : World) (c : Change) : Prop :=
  w.disk.SameLinks (w.disk.apply c) ∧ ∀ n ∈ c.place, IsEntryName n

/-- Whatever a tool makes or writes, there are no more links than before. -/
theorem twins_tools {G : World → Prop} (hG : ∀ u v, G u → (∃ new, v.journal = u.journal ++ new) → G v) :
    Twins h h (Alone fun u => Stored storage store u ∧ G u)
      ⟨fun _ => True, fun _ => True, fun _ => True, fun _ => False⟩ Linkless := by
  refine Alone.twins (fun u v hu huv => ⟨hu.1.sameDisk huv, hG u v hu.2 ?_⟩)
    (fun u c hu hc => ⟨hu.1.change hc.1 hc.2, hG u _ hu.2 ⟨[.changed c], rfl⟩⟩)
    (fun p _ u c hu hc => ?_) (fun p _ u x c hu hc => ?_) (fun _ hp => absurd hp id)
    (fun _ hp => absurd hp id) (fun _ _ => trivial) fun _ _ _ _ => trivial
  · obtain ⟨new, hnew, -⟩ := huv.journal
    exact ⟨new, hnew⟩
  · obtain ⟨through, q, e, hlocate, rfl, hmissing⟩ := Disk.locate_of_planMakeDirectory hc
    refine ⟨Disk.sameLinks_apply (fun t hlink => ?_) fun _ _ heq => (by cases heq),
      Disk.names_locate hu.1.cwd hlocate⟩
    rw [Change.place, hmissing] at hlink
    cases hlink
  · obtain ⟨q, hlocate, ⟨y, rfl⟩, hlink⟩ := Disk.locate_of_planCreate hc
    have hnames := Disk.names_locate hu.1.cwd hlocate
    exact ⟨⟨Disk.sameLinks_apply hlink fun _ _ heq => (by cases heq), hnames⟩,
      fun v more => ⟨Disk.sameLinks_append _ _ _, hnames⟩⟩

/-- What was done inside a call, as the tool does it. -/
inductive Deed (h : Host) (store : Place) (u v : World) : Prop where
  | makes {p : FilePath} {past : List Invocation} {d : Disk} {i : Invocation}
    (called : .called i ∈ u.journal) (does : .makeDirectories p ∈ (h.tool past d i).activities)
    (ran : v = ((World.makeDirectories h p).settle.run u).2)
  | writes {p : FilePath} {bytes : Bytes} {past : List Invocation} {d : Disk} {i : Invocation}
    (called : .called i ∈ u.journal) (does : .writeFile p bytes ∈ (h.tool past d i).activities)
    (ran : v = ((World.writeFile h p bytes).settle.run u).2)
  /-- A request that comes meanwhile is about the directory of its own target. -/
  | request {s : Submission} {past : List Invocation} {d : Disk} {i : Invocation}
    (called : .called i ∈ u.journal) (does : .submit s ∈ (h.tool past d i).activities)
    (ran : v = ((Engine.submit h s).settle.run u).2)
    (confines : Confines h.settings.storage store (store ++ ["sources", s.targetKey]) u v)

/-- One step of a job that runs: one of the engine on its behalf, or one inside a call of a tool. -/
inductive Turn (h : Host) (store area : Place) (u v : World) : Prop where
  | own (step : OwnStep h.settings.storage store area u v)
  | deed (deed : Deed h store u v)

/-- The course of a job that runs. -/
def Course (h : Host) (store area : Place) : World → World → Prop :=
  Relation.ReflTransGen (Turn h store area)

/-- An entry that is not below the area is the same after a course, or something done inside a call
has changed it. -/
theorem Course.keeps (hc : Course h store area u v) {q : Place} {e : Entry}
    (hq : u.disk.find? q = some e) (houtside : ¬ area <+: q) :
    v.disk.find? q = some e ∨ ∃ u' v', Course h store area u u' ∧ Deed h store u' v' ∧
      u'.disk.find? q = some e ∧ v'.disk.find? q ≠ some e := by
  induction hc with
  | refl => exact .inl hq
  | @tail u' v' hfirst hlast ih =>
    rcases ih with hsame | hchanged
    · cases hlast with
      | own step => exact .inl (step.keeps hsame houtside)
      | deed deed =>
        by_cases hafter : v'.disk.find? q = some e
        · exact .inl hafter
        · exact .inr ⟨u', v', hfirst, deed, hsame, hafter⟩
    · exact .inr hchanged

/-! ### Calls -/

/-- The journal only grows. -/
theorem OwnStep.journal (hs : OwnStep storage store area u v) :
    ∃ new, v.journal = u.journal ++ new := by
  cases hs with
  | aside same =>
    obtain ⟨new, hnew, -⟩ := same.journal
    exact ⟨new, hnew⟩
  | own confined disk cwd journal => exact ⟨_, journal⟩

theorem Confines.journal (hc : Confines storage store area u v) :
    ∃ new, v.journal = u.journal ++ new := by
  induction hc with
  | refl => exact ⟨[], (List.append_nil _).symm⟩
  | tail _ hlast ih =>
    obtain ⟨new, hnew⟩ := ih
    obtain ⟨more, hmore⟩ := hlast.journal
    exact ⟨new ++ more, by rw [hmore, hnew, List.append_assoc]⟩

/-- The storage is without links, and the world has been come to by the course of a job. -/
def Underway (h : Host) (store area : Place) (w₀ w : World) : Prop :=
  Stored h.settings.storage store w ∧ Course h store area w₀ w

/-- The same, and the call was made. -/
def Calling (h : Host) (store area : Place) (w₀ : World) (i : Invocation) (w : World) : Prop :=
  Stored h.settings.storage store w ∧ Course h store area w₀ w ∧ .called i ∈ w.journal

variable {w₀ : World} {i : Invocation}

theorem Underway.sameDisk (hu : Underway h store area w₀ u) (huv : SameDisk u v) :
    Underway h store area w₀ v :=
  ⟨hu.1.sameDisk huv, hu.2.tail (.own (.aside huv))⟩

theorem Calling.sameDisk (hu : Calling h store area w₀ i u) (huv : SameDisk u v) :
    Calling h store area w₀ i v := by
  obtain ⟨new, hnew, -⟩ := huv.journal
  refine ⟨hu.1.sameDisk huv, hu.2.1.tail (.own (.aside huv)), ?_⟩
  rw [hnew]
  exact List.mem_append_left _ hu.2.2

section

variable (hroot : h.settings.storage.Behind names root)
include hroot

theorem twins_underway : Twins h h (Alone (Underway h store (store ++ names) w₀)) (.below root)
    (Admitted h.settings.storage store (store ++ names)) :=
  twins_below hroot fun _ _ hu hs => hu.tail (.own hs)

theorem twins_calling : Twins h h (Alone (Calling h store (store ++ names) w₀ i)) (.below root)
    (Admitted h.settings.storage store (store ++ names)) := by
  refine twins_below hroot fun u v hu hs => ⟨hu.1.tail (.own hs), ?_⟩
  obtain ⟨new, hnew⟩ := hs.journal
  rw [hnew]
  exact List.mem_append_left _ hu.2

/-- One thing that a tool does. -/
theorem Work.act_course (key title : String) {a : Activity} {past : List Invocation} {d : Disk}
    (ha : a ∈ (h.tool past d i).activities) :
    Act.Pairs (Alone (Calling h store (store ++ names) w₀ i))
      (Alone (Calling h store (store ++ names) w₀ i)) (act h key title a) (act h key title a) := by
  have T : Twins h h (Alone (Calling h store (store ++ names) w₀ i)) _ _ := twins_calling hroot
  have htools : Twins h h (Alone fun u => Stored h.settings.storage store u ∧ .called i ∈ u.journal)
      ⟨fun _ => True, fun _ => True, fun _ => True, fun _ => False⟩ Linkless := by
    refine twins_tools fun u v hu hgrows => ?_
    obtain ⟨new, hnew⟩ := hgrows
    rw [hnew]
    exact List.mem_append_left _ hu
  cases a with
  | line raw => exact T.tellLine key title raw
  | happening x => exact T.happen x
  | submit s =>
    refine Alone.answer (fun _ _ => Calling.sameDisk) fun u hu => ?_
    obtain ⟨hstored, hconfines⟩ := Engine.submit_confines s hu.1
    obtain ⟨new, hnew⟩ := hconfines.journal
    refine ⟨hstored, hu.2.1.tail (.deed (.request hu.2.2 ha rfl hconfines)), ?_⟩
    rw [hnew]
    exact List.mem_append_left _ hu.2.2
  | makeDirectories p =>
    refine Alone.pairs_of fun u hu => ?_
    obtain ⟨hstored, hcalled⟩ :=
      Alone.keeps (htools.makeDirectories (p := p) trivial).settle ⟨hu.1, hu.2.2⟩
    exact ⟨hstored, hu.2.1.tail (.deed (.makes hu.2.2 ha rfl)), hcalled⟩
  | writeFile p bytes =>
    refine Alone.pairs_of fun u hu => ?_
    obtain ⟨hstored, hcalled⟩ :=
      Alone.keeps (htools.writeFile (p := p) trivial bytes).settle ⟨hu.1, hu.2.2⟩
    exact ⟨hstored, hu.2.1.tail (.deed (.writes hu.2.2 ha rfl)), hcalled⟩

theorem Work.actAll_course (key title : String) (past : List Invocation) (d : Disk) :
    ∀ as : List Activity, (∀ a ∈ as, a ∈ (h.tool past d i).activities) →
      Try.Pairs (Alone (Calling h store (store ++ names) w₀ i))
        (actAll h key title as) (actAll h key title as)
  | [], _ => .pure ()
  | a :: as, has => by
    obtain ⟨ha, has⟩ := List.forall_mem_cons.mp has
    have T : Twins h h (Alone (Calling h store (store ++ names) w₀ i)) _ _ := twins_calling hroot
    unfold actAll
    exact .bind (.lift (act_course hroot key title ha)) fun _ => T.breakOff.bind fun _ =>
      actAll_course key title past d as has

theorem Work.callTool_course (key title : String) (i : Invocation) :
    Try.Pairs (Alone (Underway h store (store ++ names) w₀)) (callTool h key title i)
      (callTool h key title i) := by
  refine Alone.callTool (fun _ _ => Underway.sameDisk) (twins_underway hroot) key title i
    fun past d u hu hcalled => ?_
  have hacts := Alone.keeps (actAll_course hroot key title past d _ fun _ ha => ha).settle
    ⟨hu.1, hu.2, hcalled⟩
  exact ⟨hacts.1, hacts.2.1⟩

end

/-! ## A job -/

section

variable {c : StageContext} (hroot : h.settings.storage.Behind names c.layout.root)

theorem leads_outputOf (l : Layout) (kind : StageKind) : l.root.Leads [areaOf kind] (outputOf l kind) := by
  cases kind <;> exact FilePath.Leads.ofChild (by decide)

theorem isEntryName_of_isMarkerName {n : String} (hn : Target.isMarkerName n = true) :
    IsEntryName n := by
  unfold Target.isMarkerName at hn
  rw [Bool.or_eq_true, beq_iff_eq, beq_iff_eq] at hn
  rcases hn with rfl | rfl
  · decide
  · decide

/-- The files that a stage works through are below a directory of the target that bears no marks. -/
theorem Items.collect_leads {kind : StageKind} (hkind : kind ≠ .unpack) (hw : w.disk.Named)
    {items : Items} (hrun : (collect h c kind).Succeeds w items v) :
    ∃ ps, items = .files ps ∧ ∀ p ∈ ps, ∃ other names, other.hasMarkers = false ∧
      (kind = .resources → other = .unpack) ∧
      p = Disk.childPath (outputOf c.layout other) names ∧ ∀ n ∈ names, IsEntryName n := by
  obtain ⟨-, root, keep, rfl, hfound⟩ := collect_run hkind hrun
  refine ⟨_, rfl, fun p hp => ?_⟩
  have hmem : p ∈ ((w.disk.walk w.cwd root).map Disk.Found.path).filter keep := hp
  obtain ⟨f, hf, rfl⟩ := List.mem_map.mp (List.mem_filter.mp hmem).1
  obtain ⟨names, hpath, hnames⟩ := hw.walk hf
  rcases hfound with rfl | ⟨rfl, rfl⟩
  · exact ⟨.unpack, names, rfl, fun _ => rfl, hpath, hnames⟩
  · exact ⟨.intermediateConvert, names, rfl, by decide, hpath, hnames⟩

/-- No marker is taken for a resource. -/
theorem Items.collect_resources {ps : List FilePath}
    (hrun : (collect h c .resources).Succeeds w (.files ps) v) : ∀ p ∈ ps, isMarker p = false := by
  obtain ⟨hitems, -⟩ := Prod.mk.inj hrun
  obtain rfl := Items.files.inj (Except.ok.inj hitems)
  intro p hp
  have hkept := (List.mem_filter.mp hp).2
  rw [Bool.and_eq_true, Bool.not_eq_true', Bool.not_eq_true'] at hkept
  exact hkept.2

/-- A stage works in the directory that it writes; of what is in the directory of resources it makes no
marker. -/
theorem Items.on_of_leads {P : Realm} {C : Invocation → Prop} {kind : StageKind}
    (hw : w.disk.Named) (hlook : ∀ p, P.look p)
    (hwrite : ∀ rest p, (kind = .resources → ∀ n, rest = [n] → Target.isMarkerName n = false) →
      c.layout.root.Leads ([areaOf kind] ++ rest) p → P.write p)
    (hdex : kind = .intermediateConvert → ∀ p, C (dexToJarCall h.catalog c.layout.intermediate p))
    (hplan : kind = .convert → ∀ ps, ∀ i ∈ planConvert c.job.backend h.catalog ps c.layout.java, C i)
    {items : Items} (hrun : (collect h c kind).Succeeds w items v) :
    items.On P C h.catalog c kind := by
  by_cases hkind : kind = .unpack
  · subst hkind
    cases items with
    | members ns =>
      exact ⟨hlook _, fun n hn => hwrite _ _ nofun ((leads_outputOf _ .unpack).member hn)⟩
    | files ps =>
      exact fun p _ => ⟨hlook _, fun n hn => hwrite [n] _ nofun
        ((leads_outputOf _ .unpack).child (FilePath.isEntryName_of_fileName? hn))⟩
  · obtain ⟨ps, rfl, hps⟩ := collect_leads hkind hw hrun
    cases kind with
    | unpack => exact absurd rfl hkind
    | intermediateConvert =>
      exact ⟨fun index => hwrite [chunkJarName index] _ nofun
        ((leads_outputOf _ .intermediateConvert).child (isEntryName_chunkJarName index)),
        fun p _ => ⟨hlook _, hdex rfl p⟩⟩
    | convert => exact fun qs _ i hi => hplan rfl qs i hi
    | resources =>
      refine fun p hp => ⟨hlook _, fun cs hcs => ?_⟩
      obtain ⟨other, names, -, hother, rfl, hnames⟩ := hps p hp
      obtain rfl := hother rfl
      replace hcs : (Disk.childPath c.layout.unpacked names).relativeTo? c.layout.unpacked =
        some cs := hcs
      rw [FilePath.relativeTo?_childPath hnames] at hcs
      obtain rfl := Option.some.inj hcs
      refine hwrite names _ (fun _ n hn => ?_) ((leads_outputOf _ .resources).textOfComponents hnames)
      have hmarker := collect_resources hrun _ hp
      rw [isMarker, FilePath.fileName?_childPath hnames (by rw [hn]; nofun), hn] at hmarker
      exact hmarker

/-- A realm covers a stage of a target if it has what is below the directory that the stage writes, and
what is below those that the job clears away again. -/
theorem covers_of_leads {J : World → Prop} {P : Realm} {At : World → Change → Prop}
    {C : Invocation → Prop} {kind : StageKind} (hnamed : ∀ u, J u → u.disk.Named) (hlook : ∀ p, P.look p)
    (hmake : P.make (outputOf c.layout kind))
    (hwrite : ∀ rest p, c.layout.root.Leads ([areaOf kind] ++ rest) p → P.write p)
    (htake : ∀ other rest p, other = kind ∨ other.hasMarkers = false →
      c.layout.root.Leads ([areaOf other] ++ rest) p → P.take p)
    (htrees : ∀ other u cs, other.hasMarkers = false → J u →
      u.disk.planRemoveTree u.cwd (outputOf c.layout other) = .ok cs →
        ∀ x ∈ cs, ∀ u', J u' → At u' x)
    (hdex : kind = .intermediateConvert → ∀ p, C (dexToJarCall h.catalog c.layout.intermediate p))
    (hplan : kind = .convert →
      ∀ ps, ∀ i ∈ planConvert c.job.backend h.catalog ps c.layout.java, C i) :
    Twins.Covers (Alone J) P At C h c kind where
  output := hmake
  markers n hn := htake kind [n] _ (.inl rfl)
    ((leads_outputOf _ kind).child (isEntryName_of_isMarkerName hn))
  sources hconvert n hn := by
    subst hconvert
    exact hwrite _ _ ((leads_outputOf _ .convert).member hn)
  packed hconvert u v huv := by
    obtain ⟨rfl, hu⟩ := huv
    exact ⟨rfl, fun entries hentries n hn => ⟨hlook _, htake .convert [n] _ (.inl hconvert.symm)
      ((leads_outputOf _ .convert).child ((hnamed u hu).list hentries n hn))⟩⟩
  items u v items w huv hrun := by
    obtain ⟨rfl, hu⟩ := huv
    refine ⟨Items.on_of_leads (hnamed u hu) hlook (fun rest p _ => hwrite rest p) hdex hplan hrun,
      fun hconverts qs hqs p hp => ?_⟩
    have hkind : kind ≠ .unpack := by
      rintro rfl
      rcases hconverts with heq | heq <;> cases heq
    obtain ⟨ps, rfl, hps⟩ := Items.collect_leads hkind (hnamed u hu) hrun
    obtain rfl := Items.files.inj hqs
    obtain ⟨other, names, hbare, -, rfl, hnames⟩ := hps p hp
    exact htake other names _ (.inr hbare) ((leads_outputOf _ other).childPath hnames)
  trees p hp u v huv := by
    obtain ⟨rfl, hu⟩ := huv
    refine ⟨rfl, fun cs hcs x hx u' v' huv' => ?_⟩
    rcases hp with rfl | rfl
    · exact htrees .unpack u cs rfl hu hcs x hx u' huv'.2
    · exact htrees .intermediateConvert u cs rfl hu hcs x hx u' huv'.2

include hroot

/-- The realm below the directory of the target covers its stages. -/
theorem covers_below {G : World → Prop} (kind : StageKind) :
    Twins.Covers (Alone fun u => Stored h.settings.storage store u ∧ G u) (.below c.layout.root)
      (Admitted h.settings.storage store (store ++ names)) (fun _ => True) h c kind := by
  refine covers_of_leads (fun u hu => hu.1.named) (fun _ => trivial)
    (Realm.make_of_leads (leads_outputOf _ kind)) (fun rest p hp => Realm.write_of_leads hp)
    (fun other rest p _ hp => ⟨_, List.append_ne_nil_of_left_ne_nil (List.cons_ne_nil _ _) _, hp⟩)
    (fun other u cs _ hu hcs x hx u' hu' => ?_) (fun _ _ => trivial) fun _ _ _ _ => trivial
  exact hu.1.removesTree hroot (leads_outputOf _ other) (List.cons_ne_nil _ _) hcs hx hu'.1

end

/-- **The course of a job.** Whatever a job that was planned does by itself, is below the directory of
its target or makes directories that are missing on the way there. -/
theorem Engine.runJob_course {a : Accepted} (ha : a.Planned h) (hw : Stored h.settings.storage store w) :
    Stored h.settings.storage store ((runJob h a).run w).2 ∧
      Course h store (store ++ ["sources", a.job.targetKey]) w ((runJob h a).run w).2 := by
  obtain ⟨s, hs⟩ := ha
  have hkey := isEntryName_of_isTargetKey (Job.isTargetKey_of_plan hs)
  have hroot : h.settings.storage.Behind ["sources", a.job.targetKey] (a.context h).layout.root :=
    .target h.settings.storage hkey
  have T : Twins h h (Alone (Underway h store (store ++ ["sources", a.job.targetKey]) w)) _ _ :=
    twins_underway hroot
  refine Alone.runJob (J := Underway h store _ w) (fun _ _ => Underway.sameDisk)
    (Accepted.Planned.positional ⟨s, hs⟩) ?_ ⟨hw, .refl⟩
  refine Alone.shadows (fun _ _ => Underway.sameDisk) T (Realm.make_self _)
    ⟨_, List.cons_ne_nil _ _, .ofChild (by decide)⟩ fun stage => ?_
  exact T.stage (covers_below hroot stage.kind) (fun title i _ => Work.callTool_course hroot _ title i)
    (Alone.collect T trivial stage.kind)

/-- What an engine keeps to when a request is made of it in a world, and when its job is run there. -/
structure Contained (h : Host) (store : Place) (s : Submission) (job : Job) (w : World) : Prop where
  /-- The directory of the target is one of those below `sources`. -/
  child : IsEntryName s.targetKey
  submit : Confines h.settings.storage store (store ++ ["sources", s.targetKey]) w
    ((Engine.submit h s).settle.run w).2
  run : ∀ a : Accepted, a.job = job →
    Course h store (store ++ ["sources", s.targetKey]) w ((Engine.runJob h a).run w).2
  /-- An archive is unpacked below the directory that it is to be unpacked into. -/
  extract : ∀ dest names archive members checked, h.settings.storage.Behind names dest →
    Confines h.settings.storage store (store ++ names) w
      ((Work.extract h archive members dest checked).settle.run w).2
  /-- An entry that is not below the directory of the target, the input of the job above all, is not
  touched; what tools and other requests do meanwhile is theirs. -/
  outside : ∀ q e, w.disk.find? q = some e → ¬ store ++ ["sources", s.targetKey] <+: q →
    ((Engine.submit h s).settle.run w).2.disk.find? q = some e ∧
      ∀ a : Accepted, a.job = job → ((Engine.runJob h a).run w).2.disk.find? q = some e ∨
        ∃ u v, Course h store (store ++ ["sources", s.targetKey]) w u ∧ Deed h store u v ∧
          u.disk.find? q = some e ∧ v.disk.find? q ≠ some e
  /-- So it goes on. -/
  stored : Stored h.settings.storage store ((Engine.submit h s).settle.run w).2 ∧
    ∀ a : Accepted, a.job = job → Stored h.settings.storage store ((Engine.runJob h a).run w).2

namespace Engine

/-- **Confinement.** On a storage without links, whatever the request, the archive and the names in it:
what the engine itself changes is below the directory of the target, or is a directory that is missing
on the way there. -/
theorem contained {s : Submission} {job : Job} (hplan : Job.plan s h.catalog.has = .ok job)
    (hw : Stored h.settings.storage store w) : Contained h store s job w := by
  have hkey : job.targetKey = s.targetKey := Job.targetKey_of_plan hplan
  obtain ⟨hsubmitted, hconfines⟩ := submit_confines (h := h) s hw
  have hrun : ∀ a : Accepted, a.job = job → Stored h.settings.storage store ((runJob h a).run w).2 ∧
      Course h store (store ++ ["sources", s.targetKey]) w ((runJob h a).run w).2 := by
    rintro a rfl
    rw [← hkey]
    exact runJob_course ⟨s, hplan⟩ hw
  exact
    { child := hkey ▸ isEntryName_of_isTargetKey (Job.isTargetKey_of_plan hplan)
      submit := hconfines
      run := fun a ha => (hrun a ha).2
      extract := fun _ _ archive members checked hdest =>
        Work.extract_confines hw hdest archive members checked
      outside := fun q e hq houtside => ⟨Confines.keeps hconfines hq houtside,
        fun a ha => (hrun a ha).2.keeps hq houtside⟩
      stored := ⟨hsubmitted, fun a ha => (hrun a ha).1⟩ }

/-- A host without tools that keeps its storage at the path. -/
def idleHost (storage : String) : Host where
  settings := .forStorage ⟨storage⟩
  catalog := .complete 17
  memoryCeiling := 100
  interlude _ := []
  fault _ := none
  tool _ _ _ := ⟨[], .ok ()⟩
  time n := .ofEpoch 0 n

/-- A request for a bytecode container. -/
def plainRequest : Submission := ⟨"jadx", false, 1, 9, 90, false, "a", "A", ⟨"/1.dex"⟩, .dex⟩

/-- The input, and a link on the way to a storage that is not there yet. -/
def linkedHome : World :=
  .new (((Disk.empty.put ["1.dex"] (.file [1] false)).put ["disk"] .directory).put ["home"] (.link "disk")) []

/-- The storage may be behind a link. -/
theorem contained_behind_link :
    ∃ job, Job.plan plainRequest (idleHost "/home/store").catalog.has = .ok job ∧
      Stored ⟨"/home/store"⟩ ["disk", "store"] linkedHome ∧
      Contained (idleHost "/home/store") ["disk", "store"] plainRequest job linkedHome := by
  have hplan : (Job.plan plainRequest (idleHost "/home/store").catalog.has).toOption.isSome = true := by
    decide +kernel
  cases hjob : Job.plan plainRequest (idleHost "/home/store").catalog.has with
  | error e =>
    rw [hjob] at hplan
    cases hplan
  | ok job =>
    have hstored : Stored ⟨"/home/store"⟩ ["disk", "store"] linkedHome :=
      .of_entries (linkedHome.disk.put ["disk", "store"] .directory)
        (fun n hn => absurd hn List.not_mem_nil) (by decide +kernel) (by decide +kernel) rfl
        (by decide +kernel)
    exact ⟨job, rfl, hstored, contained hjob hstored⟩

/-- Directories above the storage are made as well. -/
theorem submit_makes_above :
    let after := ((submit (idleHost "/x/store") plainRequest).settle.run (.new Disk.empty [])).2
    (Job.plan plainRequest (idleHost "/x/store").catalog.has).toOption.isSome = true ∧
    Stored ⟨"/x/store"⟩ ["x", "store"] (.new Disk.empty []) ∧
    .makeDirectory ["x"] ∈ World.changesIn after.journal ∧
    ["x"] ∉ [["x", "store"], ["x", "store", "sources"]] ∧
    ¬ ["x", "store", "sources", plainRequest.targetKey] <+: ["x"] := by
  refine ⟨by decide +kernel, ?_, by decide +kernel, by decide +kernel, by decide +kernel⟩
  exact .of_entries ((Disk.empty.put ["x"] .directory).put ["x", "store"] .directory)
    (fun n hn => absurd hn List.not_mem_nil) (by decide +kernel) (by decide +kernel) rfl
    (by decide +kernel)

end Engine

end Decompile
