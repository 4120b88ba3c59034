import Decompile.Proofs.Markers.Marks

/-!
# Stages that mark what they write

A stage that writes a marked tree marks it as begun, works, marks it as finished, and clears away what
it has consumed. The marks are not touched in between, so at each point what they say is true.

- `AtWork`: what the work of such a stage may change.
- `unmarkedWork_along`, `clearAway_along`: the work, and what follows the mark of an end.
- `World.announced`, `StageContext.Begins`: where a stage is when it has marked its tree as begun.
- `Course`: the course of a stage; `runStage_course`: stages take it.
-/

namespace Decompile

open World (changesIn changesIn_append)

variable {h : Host} {c : StageContext} {storage p : FilePath} {store : Place} {key n : String}
  {kind : StageKind} {stage : Stage} {X : Change → Prop} {u v w : World} {items : Items} {rest : List String}

/-! ## The work -/

/-- The change writes to a file, from its start or at its end. -/
def Change.writes : Change → Bool
  | .create _ _ | .append _ _ => true
  | _ => false

/-- What the work of a stage may change: not the marks of its tree, unless the backend or an archive of
sources writes files of these names. -/
def AtWork (store : Place) (key : String) (kind : StageKind) (c : Change) : Prop :=
  (∀ n, Target.isMarkerName n = true → c.place ≠ markPlace store key kind n) ∨
    kind = .convert ∧ c.writes = true

theorem AtWork.records : AdmitsRecords store (AtWork store key kind) := by
  have hne : ∀ name n, recordPlace store name ≠ markPlace store key kind n := fun name n heq =>
    not_areaPlace_above_record name ⟨[n], heq.symm⟩
  exact fun name => ⟨fun _ => .inl fun n _ => hne name n, .inl fun n _ => hne name n⟩

/-- Apart from its marks, everything in the tree may be changed. -/
theorem AtWork.of_rest {x : Change} (hplace : x.place = areaPlace store key kind ++ rest)
    (hrest : ∀ n, rest = [n] → Target.isMarkerName n = false) : AtWork store key kind x := by
  refine .inl fun n hn heq => ?_
  rw [hplace] at heq
  rw [hrest n (List.append_cancel_left heq)] at hn
  cases hn

/-- Files among the items are in directories that bear no marks. -/
def Items.Unmarked (layout : Layout) (items : Items) : Prop :=
  ∀ ps, items = .files ps → ∀ p ∈ ps, ∃ other names, other.hasMarkers = false ∧
    p = Disk.childPath (outputOf layout other) names ∧ ∀ n ∈ names, IsEntryName n

/-- A packed archive of sources is no mark. -/
theorem not_marker_of_jar {dir : FilePath} (hn : IsEntryName n)
    (hjar : (dir.child n).hasExtension "jar" = true) : Target.isMarkerName n = false := by
  have hname : (dir.child n).fileName? = some n := by
    unfold FilePath.fileName?
    rw [FilePath.components_child hn, List.getLast?_concat]
  cases hmark : Target.isMarkerName n with
  | false => rfl
  | true =>
    unfold Target.isMarkerName at hmark
    rw [Bool.or_eq_true, beq_iff_eq, beq_iff_eq] at hmark
    have hnone : (dir.child n).extension? = none := by
      rw [FilePath.extension?, hname]
      rcases hmark with rfl | rfl <;> decide +kernel
    rw [FilePath.hasExtension, hnone] at hjar
    cases hjar

section

variable (hw : Stored h.settings.storage store w)
  (hroot : h.settings.storage.Behind ["sources", key] c.layout.root)
include hw hroot

/-- The work of a stage keeps to what it may change. -/
theorem unmarkedWork_along (hkind : kind.hasMarkers = true)
    (hu : Along h.settings.storage store key (AtWork store key kind) w u) :
    Along h.settings.storage store key (AtWork store key kind) w
      ((unmarkedWork h c kind).settle.run u).2 := by
  have T : Twins h h (Alone (Along h.settings.storage store key (AtWork store key kind) w)) _ _ := twins_along
  have hany : ∀ rest p, kind = .convert → c.layout.root.Leads ([areaOf kind] ++ rest) p →
      (Realm.admitting (AtWork store key kind) w).write p := fun rest p hconvert hp =>
    Realm.admitting_write hw hroot hp (fun _ => .inr ⟨hconvert, rfl⟩) fun _ => .inr ⟨hconvert, rfl⟩
  have hcall : ∀ title i, kind = .convert →
      Try.Pairs (Alone (Along h.settings.storage store key (AtWork store key kind) w))
        (Work.callTool h c.job.targetKey title i) (Work.callTool h c.job.targetKey title i) :=
    fun title i hconvert => Work.callTool_along hw AtWork.records title
      (fun _ _ _ _ _ _ _ _ _ _ => ⟨fun _ => .inr ⟨hconvert, rfl⟩, fun _ => .inr ⟨hconvert, rfl⟩⟩) _
  refine Alone.keeps (T.unmarkedWork none kind (T.collectAndRun none hcall kind
    (Alone.collect T trivial kind) ?_) (T.expandPacked none kind ?_ ?_)).settle hu
  · rintro u _ items v ⟨rfl, hu⟩ hcollect
    refine Items.on_of_leads hu.stored.named (fun _ => trivial) (fun rest p hmarks hp => ?_)
      (fun hconverts => ?_) (fun hconvert _ _ _ => hconvert) hcollect
    · by_cases hconvert : kind = .convert
      · exact hany rest p hconvert hp
      · -- no resource is copied to the name of a mark
        have hresources : kind = .resources := by
          cases kind with
          | resources => rfl
          | convert => exact absurd rfl hconvert
          | unpack | intermediateConvert => cases hkind
        exact Realm.admitting_write hw hroot hp (fun _ => .of_rest rfl (hmarks hresources))
          fun _ => .of_rest rfl (hmarks hresources)
    · rw [hconverts] at hkind
      cases hkind
  · intro hconvert n hn
    subst hconvert
    exact hany _ _ rfl ((leads_outputOf _ .convert).member hn)
  · rintro hconvert u _ ⟨rfl, hu⟩
    subst hconvert
    refine ⟨rfl, fun entries hentries n hn => ⟨trivial, fun hjar => ?_⟩⟩
    have hname := hu.stored.named.list hentries n hn
    have hrest : ∀ m, [n] = [m] → Target.isMarkerName m = false := fun m heq =>
      List.head_eq_of_cons_eq heq ▸ not_marker_of_jar hname hjar
    exact Realm.admitting_take hw hroot ((leads_outputOf _ .convert).child hname)
      (fun _ => .of_rest rfl hrest) (.of_rest rfl hrest)

/-- What a stage clears away is outside of the trees that bear marks. -/
theorem clearAway_along (hkind : kind.hasMarkers = true)
    (hitems : items.Unmarked c.layout)
    (hu : Along h.settings.storage store key (Elsewhere store key kind) w u) :
    Along h.settings.storage store key (Elsewhere store key kind) w
      ((clearAway h c kind items).settle.run u).2 := by
  have hout : ∀ {area : StageKind} (rest : List String), area.hasMarkers = false →
      ¬ areaPlace store key kind <+: areaPlace store key area ++ rest := fun rest hbare =>
    not_areaPlace_above (fun heq => by rw [heq, hkind] at hbare; cases hbare) rest
  refine Alone.keeps (twins_along.clearAway kind (fun _ ps hps p hp => ?_)
    (fun p hp u v huv => ?_)).settle hu
  · obtain ⟨other, names, hbare, rfl, hnames⟩ := hitems ps hps p hp
    exact Realm.admitting_take hw hroot ((leads_outputOf _ other).childPath hnames)
      (fun _ => hout names hbare) (hout names hbare)
  · obtain ⟨rfl, hu⟩ := huv
    refine ⟨rfl, fun cs hcs x hx u' v' huv' => ?_⟩
    rcases hp with rfl | rfl
    · have hbare : StageKind.unpack.hasMarkers = false := rfl
      exact hu.removes hroot hbare (fun more => hout more hbare) hcs hx huv'.2
    · have hbare : StageKind.intermediateConvert.hasMarkers = false := rfl
      exact hu.removes hroot hbare (fun more => hout more hbare) hcs hx huv'.2

end

/-! ## The course of a stage -/

/-- The world in which a stage has been announced. -/
def StageContext.announced (c : StageContext) (stage : Stage) (w : World) : World :=
  ((do
    World.log .info Work.logTarget
      (stageLogHead c stage.kind ++ "stage " ++ countText stage.ordinal ++ " started")
    World.emit c.job.targetKey
      ((ProgressEvent.status stage.kind.title "Started").withSecondary c.job.submission.label) :
    Act Unit).run w).2

/-- What has come of the preparation of a stage that is begun in a world. -/
def StageContext.prepared (h : Host) (c : StageContext) (stage : Stage) (w : World) :
    Except StageError Unit × World :=
  (prepareOutput h c stage.kind).settle.run (c.announced stage w)

theorem StageContext.announced_sameDisk (c : StageContext) (stage : Stage) (w : World) :
    SameDisk w (c.announced stage w) :=
  ⟨rfl, rfl, _, (List.append_assoc _ _ _).trans rfl, rfl⟩

/-- What a stage writes to the log in the end, and what it says has come of its work. -/
def StageContext.report (c : StageContext) (kind : StageKind) : Except StageError Unit → Act StageResult
  | .ok () => do
    World.log .info Work.logTarget (stageLogHead c kind ++ "succeeded")
    return .succeeded
  | .error .cancelled => do
    World.log .info Work.logTarget (stageLogHead c kind ++ "cancelled")
    return .cancelled
  | .error e => do
    World.log .warn Work.logTarget (stageLogHead c kind ++ "failed: " ++ e.message)
    return .failed e.isOutOfMemory e.message

theorem StageContext.report_eq (c : StageContext) (kind : StageKind) (r : Except StageError Unit) (w : World) :
    ((c.report kind r).run w).1 = resultOf r ∧ SameDisk w ((c.report kind r).run w).2 := by
  unfold StageContext.report resultOf
  rcases r with e | _
  · cases e with
    | cancelled => exact ⟨rfl, SameDisk.note rfl w⟩
    | _ => exact ⟨rfl, SameDisk.note rfl w⟩
  · exact ⟨rfl, SameDisk.note rfl w⟩

/-- A stage is announced, does its work, and says what has come of it. -/
theorem runStage_work (h : Host) (c : StageContext) (stage : Stage) (w : World) :
    ((runStage h c stage).run w).1 =
        resultOf ((workOfStage h c stage.kind).settle.run (c.announced stage w)).1 ∧
      SameDisk ((workOfStage h c stage.kind).settle.run (c.announced stage w)).2
        ((runStage h c stage).run w).2 := by
  have hrun : (runStage h c stage).run w =
      (c.report stage.kind ((workOfStage h c stage.kind).settle.run (c.announced stage w)).1).run
        ((workOfStage h c stage.kind).settle.run (c.announced stage w)).2 := rfl
  rw [hrun]
  exact c.report_eq _ _ _

theorem resultOf_error (e : StageError) : resultOf (.error e) ≠ .succeeded := by
  cases e <;> exact nofun

/-- The course of a stage that writes a marked tree: its preparation fails; or its work, or the mark of
its end; or it puts that mark into the tree, and clears away what it has consumed. -/
inductive MarkedRun (h : Host) (c : StageContext) (store : Place) (key : String) (stage : Stage)
    (w v : World) (r : StageResult) : Prop where
  | refused {e : StageError} (prepared : (c.prepared h stage w).1 = .error e)
    (rest : SameDisk (c.prepared h stage w).2 v) (failed : r ≠ .succeeded)
  | broken (prepared : (c.prepared h stage w).1 = .ok ())
    (worked : Along h.settings.storage store key (AtWork store key stage.kind) (c.prepared h stage w).2 v)
    (failed : r ≠ .succeeded)
  | finished {x : World} (prepared : (c.prepared h stage w).1 = .ok ())
    (worked : Along h.settings.storage store key (AtWork store key stage.kind) (c.prepared h stage w).2 x)
    (regular : Regular store key
      (fun c => c = endMark store key stage.kind) x.disk
      (endMark store key stage.kind))
    (cleared : Along h.settings.storage store key (Elsewhere store key stage.kind)
      ((World.change (endMark store key stage.kind)).run x).2 v)
    (succeeded : r = .succeeded)

theorem Along.trans (huv : Along storage store key X u v) (hvw : Along storage store key X v w) :
    Along storage store key X u w :=
  ⟨hvw.stored, huv.stretch.trans hvw.stretch⟩

theorem Along.mono {Y : Change → Prop} (hX : ∀ c, X c → Y c) (hu : Along storage store key X w u) :
    Along storage store key Y w u :=
  ⟨hu.stored, hu.stretch.mono hX⟩

theorem Settled.sameDisk (hw : Settled storage store w) (hv : SameDisk w v) : Settled storage store v := by
  have hsame : Along storage store "" (fun _ => True) w v := (Along.refl hw.stored).sameDisk hv
  exact hw.along hsame

section

variable (hlayout : c.layout = .of h.settings.storage key) (hkey : isTargetKey key = true)
  (hhonest : ∀ n e, h.fault n = some e → e.kind ≠ .notFound)
include hlayout

theorem prepareOutput_eq (hkind : kind.hasMarkers = true) : prepareOutput h c kind =
    (Target.markStarted h (treePath h.settings.storage key kind)).mapError .ofPersist := by
  unfold prepareOutput treePath
  rw [if_pos hkind, hlayout]

include hkey

theorem target_root : h.settings.storage.Behind ["sources", key] c.layout.root := by
  rw [hlayout]
  exact .target h.settings.storage (isEntryName_of_isTargetKey hkey)

/-- The work of a stage, and the mark of its end. -/
theorem finishedWork_marked (hkind : kind.hasMarkers = true) (hu : Settled h.settings.storage store u)
    {r : Except StageError Items} (hrun : (finishedWork h c kind).settle.run u = (r, v)) :
    match r with
    | .error _ => Along h.settings.storage store key (AtWork store key kind) u v
    | .ok items => (∃ x, Along h.settings.storage store key (AtWork store key kind) u x ∧
        Regular store key (fun c => c = endMark store key kind) x.disk
          (endMark store key kind) ∧
        v = ((World.change (endMark store key kind)).run x).2) ∧
      items.Unmarked c.layout := by
  have hroot := target_root hlayout hkey
  have hnever : ∀ {x y}, Along h.settings.storage store key (AtWork store key kind) u x →
      Along h.settings.storage store key (fun _ => False) x y →
      Along h.settings.storage store key (AtWork store key kind) u y :=
    fun hx hy => hx.trans (hy.mono fun _ => False.elim)
  have hworked := unmarkedWork_along hu.stored hroot hkind (.refl hu.stored)
  have heq := finishedWork_eq h c kind
  rw [if_pos hkind, hlayout] at heq
  cases r with
  | error e =>
    replace hrun : (finishedWork h c kind).Fails u e v := hrun
    rw [heq] at hrun
    rcases hrun.bind with hfailed | ⟨items, x, hdone, hmark⟩
    · replace hfailed : (unmarkedWork h c kind).settle.run u = _ := hfailed
      rwa [hfailed] at hworked
    · replace hdone : (unmarkedWork h c kind).settle.run u = _ := hdone
      rw [hdone] at hworked
      rcases hmark.bind with hmark | ⟨_, _, -, hpure⟩
      · obtain ⟨_, -, hmark⟩ := hmark.mapError
        exact hnever hworked (Target.markComplete_refused hworked.stored hmark)
      · exact absurd hpure Try.Fails.not_pure
  | ok items =>
    replace hrun : (finishedWork h c kind).Succeeds u items v := hrun
    have T : Twins h h (Alone (Along h.settings.storage store key (fun _ => True) u)) _ _ := twins_along
    have hfound : ∀ x y items z, Alone (Along h.settings.storage store key (fun _ => True) u) x y →
        (Items.collect h c kind).Succeeds x items z → items.Unmarked c.layout := by
      rintro x _ items z ⟨rfl, hx⟩ hcollect
      have hne : kind ≠ .unpack := by
        rintro rfl
        cases hkind
      obtain ⟨ps, rfl, hleads⟩ := Items.collect_leads hne hx.stored.named hcollect
      intro qs hqs p hp
      obtain rfl := Items.files.inj hqs
      obtain ⟨other, names, hbare, -, hpath, hnames⟩ := hleads p hp
      exact ⟨other, names, hbare, hpath, hnames⟩
    refine ⟨?_, T.finishedWork_gain hfound ⟨rfl, .refl hu.stored⟩ hrun⟩
    · rw [heq] at hrun
      obtain ⟨items', x, hdone, hmark⟩ := hrun.bind
      replace hdone : (unmarkedWork h c kind).settle.run u = _ := hdone
      rw [hdone] at hworked
      obtain ⟨_, y, hmark, hpure⟩ := hmark.bind
      obtain ⟨-, rfl⟩ := hpure.pure
      obtain ⟨z, hz, hregular, hlast⟩ :=
        Target.markComplete_succeeds hkey (hu.along hworked) hmark.mapError
      exact ⟨z, hnever hworked hz, hregular, hlast⟩

include hhonest

/-- **Stages that write marked trees take this course.** -/
theorem runStage_marked (hkind : stage.kind.hasMarkers = true) (hw : Settled h.settings.storage store w) :
    MarkedRun h c store key stage w ((runStage h c stage).run w).2 ((runStage h c stage).run w).1 := by
  have hroot := target_root hlayout hkey
  obtain ⟨hresult, hlast⟩ := runStage_work h c stage w
  rw [hresult]
  unfold workOfStage at hlast ⊢
  rw [runWatched_eq, Try.run_settle_bind] at hlast ⊢
  rcases hprepared : c.prepared h stage w with ⟨e | _, x⟩
  · rw [show (prepareOutput h c stage.kind).settle.run _ = _ from hprepared] at hlast ⊢
    exact .refused (e := e) (by rw [hprepared]) (by rw [hprepared]; exact hlast) (resultOf_error e)
  rw [show (prepareOutput h c stage.kind).settle.run _ = _ from hprepared] at hlast ⊢
  have hx : Settled h.settings.storage store x := by
    have hmade : (prepareOutput h c stage.kind).Succeeds (c.announced stage w) () x := hprepared
    rw [prepareOutput_eq hlayout hkind] at hmade
    have hannounced := hw.sameDisk (c.announced_sameDisk stage w)
    exact hannounced.along (Target.markStarted_succeeds hkey hkind hannounced hhonest hmade.mapError).1
  simp only [Try.run_settle_bind] at hlast ⊢
  rcases hwork : (finishedWork h c stage.kind).settle.run x with ⟨e | items, y⟩
  · have hworked := finishedWork_marked hlayout hkey hkind hx hwork
    simp only [hwork] at hlast ⊢
    exact .broken (by rw [hprepared]) (by rw [hprepared]; exact hworked.sameDisk hlast) (resultOf_error e)
  · obtain ⟨⟨z, hz, hregular, rfl⟩, hitems⟩ := finishedWork_marked hlayout hkey hkind hx hwork
    simp only [hwork] at hlast ⊢
    have hy := hz.stored.change hregular.links hregular.named
    have hcleared := clearAway_along hy hroot hkind hitems (.refl hy)
    refine .finished (by rw [hprepared]) (by rw [hprepared]; exact hz) hregular (hcleared.sameDisk hlast) ?_
    rw [clearAway_ok]
    rfl

end

end Decompile
