import Decompile.Proofs.Markers.Tale

/-!
# Stages that are stopped

A stage may be stopped at any point of its run. Up to the point at which its tree is marked as begun it
leaves the tree alone; from there on the marks tell how far it has come.

- `Visit`: a stage that is run; `Visit.begun`: its tree has been marked as begun.
- `Unmarked`: neither a backend nor an archive of sources has written a file named like a mark.
- `Visit.cut_idle`, `Visit.cut_tale`: before that point, and from it on.
-/

namespace Decompile

open World (changesIn changesIn_append)

/-- A stage that is run, and the world in which it begins. -/
structure Visit where
  stage : Stage
  start : World

namespace Visit

/-- What has come of the preparation. -/
def prepared (h : Host) (c : StageContext) (x : Visit) : Except StageError Unit × World :=
  c.prepared h x.stage x.start

/-- What has come of the stage. -/
def result (h : Host) (c : StageContext) (x : Visit) : StageResult := ((runStage h c x.stage).run x.start).1

/-- The world in which the stage is over. -/
def finish (h : Host) (c : StageContext) (x : Visit) : World := ((runStage h c x.stage).run x.start).2

/-- The tree has been marked as begun at the end of `j`. -/
def begun (h : Host) (c : StageContext) (j : List Occurrence) (x : Visit) : Bool :=
  (x.prepared h c).1.isOk && (x.prepared h c).2.journal.length ≤ j.length

/-- What the stage has changed at the end of `j`, since its tree was marked as begun. -/
def own (h : Host) (c : StageContext) (j : List Occurrence) (x : Visit) : List Change :=
  (x.prepared h c).2.changesTo (j.take (x.finish h c).journal.length)

end Visit

/-- Neither a backend nor an archive of sources has written a file in the directory of sources that is
named like a mark. -/
def Unmarked (store : Place) (key : String) (cs : List Change) : Prop :=
  ∀ c ∈ cs, c.writes = true → ∀ n, Target.isMarkerName n = true → c.place ≠ markPlace store key .convert n

variable {h : Host} {c : StageContext} {storage : FilePath} {store cwd : Place} {key : String}
  {kind : StageKind} {X : Change → Prop} {u v w : World} {d d' : Disk}
  {cs ds own rest : List Change} {j : List Occurrence} {x : Visit}

/-! ## At work -/

section

variable (hcs : Orderly store key (AtWork store key kind) d cs) (hmarks : kind = .convert → Unmarked store key cs)
include hcs hmarks

/-- The work of a stage does not touch the marks. -/
theorem AtWork.apart {n : String} (hn : Target.isMarkerName n = true) {c : Change} (hc : c ∈ cs)
    (hwork : AtWork store key kind c) : c.place ≠ markPlace store key kind n := by
  rcases hwork with haway | ⟨rfl, hwrites⟩
  · exact haway n hn
  · exact hmarks rfl c hc hwrites n hn

/-- A stage that works has begun its tree, and not ended it. -/
theorem Tale.of_work (hkey : isTargetKey key = true) (hkind : kind.hasMarkers = true)
    (hd : d.Housed cwd storage store) (hstarted : d.Started cwd storage store key kind)
    (hend : ¬ d.HasFile (markPlace store key kind Target.completeMarker)) :
    Tale storage cwd store key kind cs [] (d.replay cs) ∧
      endMark store key kind ∉ cs := by
  have hapart : ∀ n, Target.isMarkerName n = true → ∀ c ∈ cs, AtWork store key kind c →
      c.place ≠ markPlace store key kind n := fun n hn c hc => AtWork.apart hcs hmarks hn hc
  have hnone : endMark store key kind ∉ cs := by
    intro hmem
    rcases hcs.admitted _ hmem with hmakes | hwork
    · cases hmakes
    · exact hapart _ rfl _ hmem hwork rfl
  refine ⟨⟨?_, .inr ⟨?_, ?_⟩⟩, hnone⟩
  · exact hcs.keeps_started hkey hkind hd (fun c hc hwork heq => absurd heq (hapart _ rfl c hc hwork)) hstarted
  · rwa [(hcs.untouched (hapart _ rfl)).hasFile_iff]
  · rwa [List.append_nil]

/-- A stage that has ended its tree clears away what is elsewhere. -/
theorem Tale.of_end {late : List Change} (hkey : isTargetKey key = true) (hkind : kind.hasMarkers = true)
    (hd : d.Housed cwd storage store) (hstarted : d.Started cwd storage store key kind)
    (hregular : Regular store key (fun c => c = endMark store key kind)
      (d.replay cs) (endMark store key kind))
    (hlate : Orderly store key (Elsewhere store key kind)
      ((d.replay cs).apply (endMark store key kind)) late) :
    Tale storage cwd store key kind (cs ++ endMark store key kind :: late) []
      (d.replay (cs ++ endMark store key kind :: late)) := by
  have hworked : (d.replay cs).Started cwd storage store key kind :=
    hcs.keeps_started hkey hkind hd
      (fun c hc hwork heq => absurd heq (AtWork.apart hcs hmarks rfl hc hwork)) hstarted
  have hone : Orderly store key (fun c => c = endMark store key kind)
      (d.replay cs) [endMark store key kind] := ⟨hregular, trivial⟩
  have hended := hone.keeps_started hkey hkind (hd.replay hcs)
    (fun c hc _ heq => by rw [List.mem_singleton.mp hc] at heq; exact absurd heq.symm markPlace_ne) hworked
  have hidle : Idle storage cwd store key kind ((d.replay cs).replay
      [endMark store key kind]) late := .of_elsewhere hlate
  rw [Disk.replay_append]
  have hlast := hidle.orderly.rests_started hkey hkind ((hd.replay hcs).replay hone) hended
  refine ⟨hlast, .inl ⟨?_, cs, late, rfl, ?_⟩⟩
  · exact hidle.orderly.keeps_end.mpr (Disk.hasFile_replace _ _ _)
  · rw [List.append_nil]
    exact hidle.orderly.undisturbed

end

/-! ## The course of a stage -/

section

variable (hlayout : c.layout = .of h.settings.storage key) (hkey : isTargetKey key = true)
  (hw : Settled h.settings.storage store x.start)
include hlayout hkey hw

namespace Visit

/-- A stage prepares its tree after it was announced. -/
theorem prepared_along :
    Along h.settings.storage store key (fun _ => True) (c.announced x.stage x.start) (x.prepared h c).2 := by
  have hroot := target_root (h := h) hlayout hkey
  have hannounced := (hw.sameDisk (c.announced_sameDisk x.stage x.start)).stored
  show Along _ _ _ _ _ ((prepareOutput h c x.stage.kind).settle.run (c.announced x.stage x.start)).2
  refine Alone.keeps (twins_along.prepareOutput none x.stage.kind trivial fun n hn => ?_).settle (.refl hannounced)
  exact Realm.admitting_take hannounced hroot
    ((leads_outputOf _ x.stage.kind).child (isEntryName_of_isMarkerName hn)) (fun _ => trivial) trivial

variable (hkind : x.stage.kind.hasMarkers = true) (hhonest : ∀ n e, h.fault n = some e → e.kind ≠ .notFound)
include hkind hhonest

theorem course : MarkedRun h c store key x.stage x.start (x.finish h c) (x.result h c) :=
  runStage_marked hlayout hkey hhonest hkind hw

/-- The rest of the stage follows. -/
theorem prepared_grows : (x.prepared h c).2.journal <+: (x.finish h c).journal := by
  cases course hlayout hkey hw hkind hhonest with
  | refused _ hrest =>
    obtain ⟨new, hnew, -⟩ := hrest.journal
    exact ⟨new, hnew.symm⟩
  | broken _ hworked => exact hworked.stretch.grows
  | finished _ hworked _ hcleared =>
    exact hworked.stretch.grows.trans ((List.prefix_append _ _).trans hcleared.stretch.grows)

omit hkind in
/-- What has changed at a point of the preparation, unless its end is reached and it was made. -/
theorem preparing (hkind : x.stage.kind.hasMarkers = true) {past : List Occurrence}
    (hpast : past <+: (c.announced x.stage x.start).since (x.prepared h c).2)
    (hnot : (x.prepared h c).1 = .ok () → past ≠ (c.announced x.stage x.start).since (x.prepared h c).2) :
    Beginning h.settings.storage x.start.cwd store key x.stage.kind x.start.disk (changesIn past) := by
  have hsettled := hw.sameDisk (c.announced_sameDisk x.stage x.start)
  have hprepare : (prepareOutput h c x.stage.kind).settle.run (c.announced x.stage x.start) = x.prepared h c := rfl
  rw [prepareOutput_eq hlayout hkind] at hprepare
  rcases hcome : x.prepared h c with ⟨e | _, v⟩
  · rw [hcome] at hprepare hpast
    obtain ⟨e', -, hfailed⟩ := Try.Fails.mapError hprepare
    have hbegin := Target.markStarted_unfinished hkey hkind hsettled hhonest hfailed hpast nofun
    exact hbegin
  · rw [hcome] at hprepare hpast hnot
    have hmade : (Target.markStarted h (treePath h.settings.storage key x.stage.kind)).Succeeds
        (c.announced x.stage x.start) () v := Try.Succeeds.mapError hprepare
    have hbegin := Target.markStarted_unfinished hkey hkind hsettled hhonest hmade hpast fun _ => hnot rfl
    exact hbegin

/-- **A stage that is stopped before its tree is marked as begun.** -/
theorem cut_beginning (hj : x.start.journal <+: j) (hj' : j <+: (x.finish h c).journal)
    (hnot : x.begun h c j = false) :
    Beginning h.settings.storage x.start.cwd store key x.stage.kind x.start.disk (x.start.changesTo j) := by
  have hannounced := c.announced_sameDisk x.stage x.start
  have hprepared := (prepared_along hlayout hkey hw).stretch
  have hgrows := prepared_grows hlayout hkey hw hkind hhonest
  rcases List.prefix_or_prefix_of_prefix hj' (hprepared.grows.trans hgrows) with hearly | hlate
  · -- nothing has happened yet but that the stage was announced
    rw [hannounced.changesTo_nil hj hearly]
    exact .making trivial
  rw [hannounced.changesTo hlate]
  rcases List.prefix_or_prefix_of_prefix hj' hgrows with hwithin | hover
  · obtain ⟨past, rfl⟩ := hlate
    rw [World.changesTo_append]
    rw [hprepared.journal, List.prefix_append_right_inj] at hwithin
    refine preparing hlayout hkey hw hhonest hkind hwithin fun hok heq => ?_
    rw [heq, ← hprepared.journal] at hnot
    simp [begun, hok, Except.isOk, Except.toBool] at hnot
  · -- the preparation has failed, and nothing has happened since
    cases course hlayout hkey hw hkind hhonest with
    | refused hfailed hrest =>
      have hnothing : (x.prepared h c).2.changesTo j = [] := hrest.changesTo_nil hover hj'
      rw [hprepared.changesTo_append hover, hnothing, List.append_nil]
      refine preparing hlayout hkey hw hhonest hkind (List.prefix_refl _) fun hok => ?_
      replace hfailed : (x.prepared h c).1 = _ := hfailed
      rw [hok] at hfailed
      cases hfailed
    | broken hmade | finished hmade =>
      replace hmade : (x.prepared h c).1 = _ := hmade
      simp [begun, hmade, Except.isOk, Except.toBool, hover.length_le] at hnot

/-- A tree that has just been marked as begun. -/
theorem prepared_started (hmade : (x.prepared h c).1 = .ok ()) :
    Settled h.settings.storage store (x.prepared h c).2 ∧
      (x.prepared h c).2.disk.Started (x.prepared h c).2.cwd h.settings.storage store key x.stage.kind ∧
      ¬ (x.prepared h c).2.disk.HasFile (markPlace store key x.stage.kind Target.completeMarker) := by
  have hsettled := hw.sameDisk (c.announced_sameDisk x.stage x.start)
  have hprepare : (prepareOutput h c x.stage.kind).Succeeds (c.announced x.stage x.start) () (x.prepared h c).2 :=
    Prod.ext hmade rfl
  rw [prepareOutput_eq hlayout hkind] at hprepare
  obtain ⟨halong, hstarted, hend⟩ := Target.markStarted_succeeds hkey hkind hsettled hhonest hprepare.mapError
  exact ⟨hsettled.along halong, hstarted, hend⟩

/-- **A stage that is stopped after its tree is marked as begun.** -/
theorem cut_tale (hj : j <+: (x.finish h c).journal) (hbegun : x.begun h c j = true)
    (hmarks : x.stage.kind = .convert → Unmarked store key (x.start.changesTo j)) :
    Tale h.settings.storage x.start.cwd store key x.stage.kind (x.own h c j) []
        (x.start.disk.replay (x.start.changesTo j)) ∧
      ((x.finish h c).journal.length ≤ j.length →
        (endMark store key x.stage.kind ∈ x.own h c j ↔
          x.result h c = .succeeded)) := by
  have hannounced := c.announced_sameDisk x.stage x.start
  have hprepared := (prepared_along hlayout hkey hw).stretch
  have hgrows := prepared_grows hlayout hkey hw hkind hhonest
  obtain ⟨hok, hlength⟩ : (x.prepared h c).1.isOk = true ∧ (x.prepared h c).2.journal.length ≤ j.length := by
    rwa [begun, Bool.and_eq_true, decide_eq_true_eq] at hbegun
  have hmade : (x.prepared h c).1 = .ok () := by
    cases hr : (x.prepared h c).1 with
    | error e => rw [hr] at hok; cases hok
    | ok _ => rfl
  obtain ⟨hsettled, hstarted, hend⟩ := prepared_started hlayout hkey hw hkind hhonest hmade
  have hover : (x.prepared h c).2.journal <+: j := List.prefix_of_prefix_length_le hgrows hj hlength
  have hown : x.own h c j = (x.prepared h c).2.changesTo j := by
    rw [own, List.take_of_length_le hj.length_le]
  have hdisk : x.start.disk.replay (x.start.changesTo j) =
      (x.prepared h c).2.disk.replay ((x.prepared h c).2.changesTo j) := by
    rw [hannounced.changesTo (hprepared.grows.trans hover), ← hprepared.disk_to hover]
    rfl
  have hcwd : x.start.cwd = (x.prepared h c).2.cwd := hprepared.cwd.symm
  replace hmarks : x.stage.kind = .convert → Unmarked store key ((x.prepared h c).2.changesTo j) := by
    intro hconvert c hc
    refine hmarks hconvert c ?_
    rw [hannounced.changesTo (hprepared.grows.trans hover), hprepared.changesTo_append hover]
    exact List.mem_append_right _ hc
  rw [hdisk, hcwd, hown]
  -- before the mark of its end is put there
  have hworking : ∀ {y : World}, Stretch store key (AtWork store key x.stage.kind) (x.prepared h c).2 y →
      j <+: y.journal →
      Tale h.settings.storage (x.prepared h c).2.cwd store key x.stage.kind ((x.prepared h c).2.changesTo j) []
          ((x.prepared h c).2.disk.replay ((x.prepared h c).2.changesTo j)) ∧
        endMark store key x.stage.kind ∉ (x.prepared h c).2.changesTo j :=
    fun hy hjy => Tale.of_work (hy.orderly_to hover hjy) hmarks hkey hkind hsettled.housed hstarted hend
  have hcourse := course hlayout hkey hw hkind hhonest
  cases hcourse with
  | refused hfailed =>
    replace hfailed : (x.prepared h c).1 = _ := hfailed
    rw [hmade] at hfailed
    cases hfailed
  | broken _ hworked hfailed =>
    obtain ⟨htale, hnone⟩ := hworking hworked.stretch hj
    exact ⟨htale, fun _ => iff_of_false hnone hfailed⟩
  | @finished y _ hworked hregular hcleared hsucceeded =>
    have hlonger := hcleared.stretch.grows.length_le
    have hjournal := World.journal_change (endMark store key x.stage.kind) y
    rw [hjournal, List.length_append, List.length_singleton] at hlonger
    by_cases hshort : j.length ≤ y.journal.length
    · have hbefore : j <+: y.journal := List.prefix_of_prefix_length_le hj
        ((List.prefix_append _ _).trans hcleared.stretch.grows) hshort
      exact ⟨(hworking hworked.stretch hbefore).1, fun hlength => absurd (hlength.trans hshort) (by omega)⟩
    · have hafter : ((World.change (endMark store key x.stage.kind)).run y).2.journal
          <+: j := List.prefix_of_prefix_length_le hcleared.stretch.grows hj (by
            rw [hjournal, List.length_append, List.length_singleton]; omega)
      have hreached : y.journal <+: j := (List.prefix_append _ _).trans hafter
      have hchanges : (x.prepared h c).2.changesTo j =
          changesIn ((x.prepared h c).2.since y) ++ y.changesTo j := hworked.stretch.changesTo_append hreached
      rw [World.changesTo_change hafter] at hchanges
      rw [hchanges] at hmarks ⊢
      refine ⟨Tale.of_end hworked.stretch.orderly (fun hconvert c hc => hmarks hconvert c (List.mem_append_left _ hc))
        hkey hkind hsettled.housed hstarted ?_ ?_, fun _ => iff_of_true ?_ hsucceeded⟩
      · rw [hworked.stretch.disk] at hregular
        exact hregular
      · have hlate := hcleared.stretch.orderly_to hafter hj
        rw [World.disk_change, hworked.stretch.disk] at hlate
        exact hlate
      · exact List.mem_append_right _ List.mem_cons_self

end Visit

end

end Decompile
