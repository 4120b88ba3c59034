import Decompile.Proofs.Conservation.Items
import Decompile.Proofs.Durability.Work
import Decompile.Proofs.Markers.Law

/-!
# Stages under a law

What a stage does is regular under every law that admits what is done at its paths. So the tree of one
stage is left alone by the others, as long as their tools keep out of it.

- `Elsewhere`: changes outside of the tree of a stage.
- `LeadsOutside`, `Aloof`: tools keep out of the trees of other stages.
- `Work.callTool_along`: calls of tools under a law.
- `runStage_elsewhere`: a stage leaves the trees of others alone.
-/

namespace Decompile

variable {h : Host} {c : StageContext} {storage root p : FilePath} {store : Place} {key : String}
  {X Y : Change → Prop} {u v w : World} {rest : List String} {kind other : StageKind}

/-! ## Paths under a law -/

/-- The law admits that the records of jobs are stored. -/
def AdmitsRecords (store : Place) (X : Change → Prop) : Prop :=
  ∀ key, (∀ bytes, X (.replace (recordPlace store key) bytes)) ∧ X (.remove (recordPlace store key))

/-- Where links are as in the world, nothing is written at or below the place by this path. -/
def LeadsOutside (w : World) (area : Place) (p : FilePath) : Prop :=
  ∀ d, w.disk.SameLinks d → ∀ q e, d.locate w.cwd true p = .ok (q, e) → ¬ area <+: q

theorem LeadsOutside.of_links {area : Place} (hp : LeadsOutside w area p)
    (hlinks : w.disk.SameLinks v.disk) (hcwd : v.cwd = w.cwd) : LeadsOutside v area p :=
  fun d hd q e hq => hp d (hlinks.trans hd) q e (hcwd ▸ hq)

section

variable (hw : Stored storage store w)
include hw

/-- A path below the directory of a stage. -/
theorem Stored.lands_area (hroot : storage.Behind ["sources", key] root)
    (hp : root.Leads ([areaOf kind] ++ rest) p) {d : Disk} (hd : w.disk.SameLinks d) :
    d.Lands w.cwd p (areaPlace store key kind ++ rest) := by
  rw [← areaPlace_append]
  exact hw.lands_of_sameLinks hroot hp hd

theorem Realm.admitting_write (hroot : storage.Behind ["sources", key] root)
    (hp : root.Leads ([areaOf kind] ++ rest) p)
    (hcreate : ∀ x, X (.create (areaPlace store key kind ++ rest) x))
    (happend : ∀ more, X (.append (areaPlace store key kind ++ rest) more)) : (admitting X w).write p := by
  intro d hd q e hq
  obtain rfl := (hw.lands_area hroot hp hd).locate _ _ _ hq
  exact ⟨hcreate, happend⟩

theorem Realm.admitting_take (hroot : storage.Behind ["sources", key] root)
    (hp : root.Leads ([areaOf kind] ++ rest) p)
    (hreplace : ∀ bytes, X (.replace (areaPlace store key kind ++ rest) bytes))
    (hremove : X (.remove (areaPlace store key kind ++ rest))) : (admitting X w).take p :=
  fun _ hd => ⟨_, hw.lands_area hroot hp hd, hreplace, hremove⟩

theorem Realm.admitting_record (hroot : storage.Behind ["sources", key] root)
    (hX : AdmitsRecords store X) : (admitting X w).take (root.join ⟨recordName⟩) := by
  refine fun d hd => ⟨recordPlace store key, ?_, hX key⟩
  have hplace : recordPlace store key = store ++ ["sources", key] ++ [recordName] := by
    simp [recordPlace]
  rw [hplace]
  exact hw.lands_of_sameLinks hroot (.ofChild (by decide)) hd

end

/-- What is removed with a directory that bears no marks. -/
theorem Along.removes (hroot : storage.Behind ["sources", key] c.layout.root) (hbare : other.hasMarkers = false)
    (hX : ∀ more, X (.remove (areaPlace store key other ++ more))) (hu : Along storage store key Y w u)
    {cs : List Change} (hcs : u.disk.planRemoveTree u.cwd (outputOf c.layout other) = .ok cs) {x : Change}
    (hx : x ∈ cs) (hv : Along storage store key Y w v) : Regular store key X v.disk x := by
  have hleads : c.layout.root.Leads ([areaOf other] ++ []) (outputOf c.layout other) :=
    leads_outputOf _ other
  have hadmitted := hu.stored.removesTree hroot hleads (List.cons_ne_nil _ _) hcs hx hv.stored
  obtain ⟨more, rfl⟩ := (hu.stored.lands hroot hleads).planRemoveTree hcs x hx
  rw [areaPlace_append, List.append_nil] at hadmitted ⊢
  exact ⟨.inr (hX more), fun _ => .inl (scratch_append hbare more), hadmitted.links, hadmitted.named⟩

/-! ## Requests and tools -/

section

variable (hw : Stored h.settings.storage store w) (hX : AdmitsRecords store X)
include hw hX

theorem Engine.submit_along (s : Submission) (hu : Along h.settings.storage store key X w u) :
    Along h.settings.storage store key X w ((submit h s).settle.run u).2 := by
  refine Alone.keeps (Alone.submit (fun _ _ => Along.sameDisk) twins_along (fun _ _ => trivial)
    fun job hplan => ?_).settle hu
  have hkey := isEntryName_of_isTargetKey (Job.isTargetKey_of_plan hplan)
  exact Realm.admitting_record hw (.target h.settings.storage hkey) hX

/-- A call of a tool that writes where the law admits it. -/
theorem Work.callTool_along (title : String) {i : Invocation}
    (hwrites : ∀ past d p bytes, .writeFile p bytes ∈ (h.tool past d i).activities →
      (Realm.admitting X w).write p) (name : String) :
    Try.Pairs (Alone (Along h.settings.storage store key X w)) (callTool h name title i)
      (callTool h name title i) := by
  refine Alone.callTool_within (fun _ _ => Along.sameDisk) twins_along name title i
    (fun past d a ha => ?_) fun _ _ s _ _ hu => Engine.submit_along hw hX s hu
  cases a with
  | line | happening | submit | makeDirectories => trivial
  | writeFile p bytes => exact hwrites past d p bytes ha

end

/-! ## Outside of a tree -/

/-- The change is outside of the tree of a stage. -/
def Elsewhere (store : Place) (key : String) (kind : StageKind) (c : Change) : Prop :=
  ¬ areaPlace store key kind <+: c.place

/-- What is below the directory of one stage is outside of those of the others. -/
theorem not_areaPlace_above (hne : other ≠ kind) (rest : List String) :
    ¬ areaPlace store key kind <+: areaPlace store key other ++ rest := by
  rintro ⟨more, heq⟩
  exact hne (areaPlace_inj heq).1.symm

theorem not_areaPlace_above_record (name : String) :
    ¬ areaPlace store key kind <+: recordPlace store name := by
  rintro ⟨rest, heq⟩
  rw [← areaPlace_append] at heq
  exact area_ne_recordPlace store key name kind rest heq

theorem Elsewhere.records : AdmitsRecords store (Elsewhere store key kind) :=
  fun name => ⟨fun _ => not_areaPlace_above_record name, not_areaPlace_above_record name⟩

/-- The calls of a stage write into none of the trees of the others that bear marks. -/
structure Aloof (h : Host) (c : StageContext) (store : Place) (key : String) (w : World) : Prop where
  convert : ∀ files, ∀ i ∈ planConvert c.job.backend h.catalog files c.layout.java,
    ∀ past d p bytes, .writeFile p bytes ∈ (h.tool past d i).activities →
      LeadsOutside w (areaPlace store key .resources) p
  intermediate : ∀ kind, kind.hasMarkers = true → ∀ dex past d p bytes,
    .writeFile p bytes ∈ (h.tool past d (dexToJarCall h.catalog c.layout.intermediate dex)).activities →
      LeadsOutside w (areaPlace store key kind) p

theorem Aloof.of_links (ha : Aloof h c store key w) (hlinks : w.disk.SameLinks v.disk)
    (hcwd : v.cwd = w.cwd) : Aloof h c store key v where
  convert files i hi past d p bytes hp := (ha.convert files i hi past d p bytes hp).of_links hlinks hcwd
  intermediate kind hkind dex past d p bytes hp :=
    (ha.intermediate kind hkind dex past d p bytes hp).of_links hlinks hcwd

section

variable (hw : Stored h.settings.storage store w)
  (hroot : h.settings.storage.Behind ["sources", key] c.layout.root)
include hw hroot

/-- What is admitted outside of the tree of a stage covers the other stages. -/
theorem covers_elsewhere (ha : Aloof h c store key w) (hkind : kind.hasMarkers = true)
    (hother : other ≠ kind) :
    Twins.Covers (Alone (Along h.settings.storage store key (Elsewhere store key kind) w))
      (.admitting (Elsewhere store key kind) w)
      (fun u => Regular store key (Elsewhere store key kind) u.disk)
      (fun i => ∀ past d p bytes, .writeFile p bytes ∈ (h.tool past d i).activities →
        LeadsOutside w (areaPlace store key kind) p) h c other := by
  have hout : ∀ {area : StageKind} (rest : List String), area = other ∨ area.hasMarkers = false →
      ¬ areaPlace store key kind <+: areaPlace store key area ++ rest := by
    rintro area rest (rfl | hbare)
    · exact not_areaPlace_above hother rest
    · refine not_areaPlace_above (fun heq => ?_) rest
      rw [heq, hkind] at hbare
      cases hbare
  refine covers_of_leads (fun u hu => hu.stored.named) (fun _ => trivial) trivial
    (fun rest p hp => Realm.admitting_write hw hroot hp (fun _ => hout rest (.inl rfl))
      fun _ => hout rest (.inl rfl))
    (fun area rest p harea hp => Realm.admitting_take hw hroot hp (fun _ => hout rest harea) (hout rest harea))
    (fun area u cs hbare hu hcs x hx v hv => hu.removes hroot hbare (fun more => hout more (.inr hbare)) hcs hx hv)
    (fun _ dex => ha.intermediate kind hkind dex) fun hconvert files i hi => ?_
  subst hconvert
  cases kind with
  | convert => exact absurd rfl hother
  | resources => exact ha.convert files i hi
  | unpack | intermediateConvert => cases hkind

/-- **A stage leaves the trees of others alone.** -/
theorem runStage_elsewhere (ha : Aloof h c store key w) (hkind : kind.hasMarkers = true) {stage : Stage}
    (hother : stage.kind ≠ kind) (hu : Along h.settings.storage store key (Elsewhere store key kind) w u) :
    Along h.settings.storage store key (Elsewhere store key kind) w ((runStage h c stage).run u).2 := by
  refine Alone.keeps (twins_along.stage (covers_elsewhere hw hroot ha hkind hother) (fun title i hi => ?_)
    (Alone.collect twins_along trivial stage.kind)) hu
  refine Work.callTool_along hw Elsewhere.records title (fun past d p bytes hp d' hd q e hq => ?_) _
  have hout := hi past d p bytes hp d' hd q e hq
  exact ⟨fun _ => hout, fun _ => hout⟩

end

end Decompile
