import Decompile.Proofs.Durability.Spared

/-!
# Jobs leave the records of others alone

- `Host.Avoids`: what tools, and the requests that they make, must leave alone.
- `Engine.submit_guarded`, `runStage_guarded`, `Engine.runJob_guarded`: requests, stages and whole jobs
  spare the records of some keys.
-/

namespace Decompile

variable {h : Host} {storage : FilePath} {store : Place} {ks : String → Prop} {key : String}
  {names rest : List String} {u v w : World} {p : FilePath} {d : Disk}

/-- Where links are as they are in the world, tools write to none of the records of some keys, and make
no requests for these keys. -/
structure Host.Avoids (h : Host) (store : Place) (ks : String → Prop) (w : World) : Prop where
  writes : ∀ past d i p bytes, .writeFile p bytes ∈ (h.tool past d i).activities →
    (Realm.apart store ks w).write p
  submits : ∀ past d i s, .submit s ∈ (h.tool past d i).activities → ¬ ks s.targetKey

theorem Host.Avoids.mono {ks' : String → Prop} (hks : ∀ key, ks' key → ks key)
    (ha : h.Avoids store ks w) : h.Avoids store ks' w where
  writes past d i p bytes hp d' hd q e hq key hkey :=
    ha.writes past d i p bytes hp d' hd q e hq key (hks key hkey)
  submits past d i s hs hkey := ha.submits past d i s hs (hks _ hkey)

/-! ## Paths of a target -/

/-- What a stage writes is no record. -/
theorem area_ne_recordPlace (store : Place) (own key : String) (kind : StageKind) (rest : List String) :
    store ++ ["sources", own] ++ ([areaOf kind] ++ rest) ≠ recordPlace store key := by
  intro heq
  rw [recordPlace, List.append_assoc] at heq
  have hnames := List.append_cancel_left heq
  rw [List.cons_append, List.cons_append, List.nil_append, List.singleton_append] at hnames
  simp only [List.cons.injEq, true_and] at hnames
  exact areaOf_ne_recordName kind hnames.2.1

theorem inside_area (store : Place) (own : String) (kind : StageKind) (rest : List String) :
    Inside store (store ++ ["sources", own] ++ ([areaOf kind] ++ rest)) :=
  ⟨own, [areaOf kind] ++ rest, List.append_ne_nil_of_left_ne_nil (List.cons_ne_nil _ _) _, by simp⟩

section

variable (hw : Stored storage store w) {root : FilePath} (hroot : storage.Behind names root)
include hw hroot

/-- A path below a directory of the storage leads to the same place as long as links are the same. -/
theorem Stored.lands_of_sameLinks (hp : root.Leads rest p) (hd : w.disk.SameLinks d) :
    d.Lands w.cwd p (store ++ names ++ rest) := by
  obtain ⟨more, -, hsteps, hstays, rfl⟩ := hp.behind
  rw [List.append_assoc]
  exact (hw.addressed.of_sameLinks hd).lands (hroot.leads hp.absolute hsteps hstays)

end

section

variable {own : String} {root : FilePath} (hw : Stored storage store w)
  (hroot : storage.Behind ["sources", own] root)
include hw hroot

/-- What stages write for a target is apart from all records. -/
theorem Realm.apart_output (kind : StageKind) (hp : root.Leads ([areaOf kind] ++ rest) p) :
    (apart store ks w).write p ∧ (apart store ks w).take p := by
  refine ⟨fun d hd q e hq key _ => ?_, fun d hd => ⟨_, hw.lands_of_sameLinks hroot hp hd, ?_⟩⟩
  · rw [(hw.lands_of_sameLinks hroot hp hd).locate _ _ _ hq]
    exact area_ne_recordPlace store own key kind rest
  · exact fun key _ => area_ne_recordPlace store own key kind rest

/-- The record of the target is apart from those of other keys. -/
theorem Realm.apart_record (hown : ¬ ks own) : (apart store ks w).take (root.join ⟨recordName⟩) := by
  refine fun d hd => ⟨_, hw.lands_of_sameLinks hroot (.ofChild (by decide)) hd, fun key hkey heq => ?_⟩
  have hplace : store ++ ["sources", own] ++ [recordName] = recordPlace store own := by
    simp [recordPlace]
  exact hown (recordPlace_inj (hplace.symm.trans heq) ▸ hkey)

end

/-! ## Requests -/

section

variable (hw : Stored h.settings.storage store w)
include hw

/-- A request spares the records of other keys. -/
theorem Engine.submit_guarded {s : Submission} (hs : ¬ ks s.targetKey)
    (hu : Guarded h.settings.storage store ks w u) :
    Guarded h.settings.storage store ks w ((submit h s).settle.run u).2 := by
  refine Alone.keeps (Alone.submit (fun _ _ => Guarded.sameDisk) twins_apart (fun _ _ => trivial)
    fun job hplan => ?_).settle hu
  have hkey := isEntryName_of_isTargetKey (Job.isTargetKey_of_plan hplan)
  refine Realm.apart_record hw (.target h.settings.storage hkey) ?_
  rwa [Job.targetKey_of_plan hplan]

/-! ## Tools -/

variable (ha : h.Avoids store ks w)
include ha

theorem Work.callTool_guarded (key title : String) (i : Invocation) :
    Try.Pairs (Alone (Guarded h.settings.storage store ks w)) (callTool h key title i)
      (callTool h key title i) := by
  refine Alone.callTool_within (fun _ _ => Guarded.sameDisk) twins_apart key title i
    (fun past d a hin => ?_) fun past d s hin u => Engine.submit_guarded hw (ha.submits past d i s hin)
  cases a with
  | line | happening | submit | makeDirectories => trivial
  | writeFile p bytes => exact ha.writes past d i p bytes hin

/-! ## Jobs -/

omit ha in
/-- The realm that is apart from the records covers the stages of a target. -/
theorem covers_apart {c : StageContext} {own : String}
    (hroot : h.settings.storage.Behind ["sources", own] c.layout.root) (kind : StageKind) :
    Twins.Covers (Alone (Guarded h.settings.storage store ks w)) (.apart store ks w) (Mild store ks)
      (fun _ => True) h c kind := by
  refine covers_of_leads (fun u hu => hu.stored.named) (fun _ => trivial) trivial
    (fun rest p hp => (Realm.apart_output hw hroot kind hp).1)
    (fun other rest p _ hp => (Realm.apart_output hw hroot other hp).2)
    (fun other u cs _ hu hcs x hx u' hu' => ?_) (fun _ _ => trivial) fun _ _ _ _ => trivial
  have hleads : c.layout.root.Leads ([areaOf other] ++ []) (outputOf c.layout other) :=
    leads_outputOf _ other
  have hadmitted := hu.stored.removesTree hroot hleads (List.cons_ne_nil _ _) hcs hx hu'.stored
  obtain ⟨more, rfl⟩ := (hu.stored.lands hroot hleads).planRemoveTree hcs x hx
  have hplace : store ++ ["sources", own] ++ ([areaOf other] ++ []) ++ more =
      store ++ ["sources", own] ++ ([areaOf other] ++ more) := by
    simp
  refine ⟨fun key _ heq => absurd (hplace.symm.trans heq) ?_, fun _ => .inl ?_, hadmitted.links,
    hadmitted.named⟩
  · exact area_ne_recordPlace store own key other more
  · rw [Change.place, hplace]
    exact inside_area store own other more

/-- A stage spares all these records, that of its own job among them. -/
theorem runStage_guarded {c : StageContext} {own : String}
    (hroot : h.settings.storage.Behind ["sources", own] c.layout.root) (s : Stage) :
    Act.Pairs (Alone (Guarded h.settings.storage store ks w))
      (Alone (Guarded h.settings.storage store ks w)) (runStage h c s) (runStage h c s) := by
  exact twins_apart.stage (covers_apart hw hroot s.kind)
    (fun title i _ => Work.callTool_guarded hw ha _ title i) (Alone.collect twins_apart trivial s.kind)

/-- **A job spares the records of other keys**, from its first message to its last. -/
theorem Engine.runJob_guarded {a : Accepted} (hplanned : a.Planned h) (hkey : ¬ ks a.job.targetKey)
    (hu : Guarded h.settings.storage store ks w u) :
    Guarded h.settings.storage store ks w ((runJob h a).run u).2 := by
  obtain ⟨s, hs⟩ := hplanned
  have hname := isEntryName_of_isTargetKey (Job.isTargetKey_of_plan hs)
  have hroot : h.settings.storage.Behind ["sources", a.job.targetKey]
      ((Task.ofAccepted a).context h).layout.root := .target h.settings.storage hname
  refine Alone.runJob (fun _ _ => Guarded.sameDisk) (Accepted.Planned.positional ⟨s, hs⟩) ?_ hu
  exact Alone.shadows (fun _ _ => Guarded.sameDisk) twins_apart trivial
    (Realm.apart_record hw hroot hkey) (runStage_guarded hw ha hroot)

end

end Decompile
