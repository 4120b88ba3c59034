import Decompile.Proofs.Markers.Run

/-!
# Runs that are stopped

A run may be stopped at any point. Then the marks of a tree tell of the stage that was the last to mark
it as begun, or nothing new.

- `lastBegun`: that stage.
- `Interrupted`: what is true of the tree then; `Woven.halted`: it is true of runs that are woven of stages.
- `Engine.runJob_halted`: it is true of the runs of jobs.
-/

namespace Decompile

open World (changesIn)

/-- What has changed after the stage was over, up to the end of `j`. -/
def Visit.later (h : Host) (c : StageContext) (j : List Occurrence) (x : Visit) : List Change :=
  (x.finish h c).changesTo j

/-- Of some stages, the last that has marked the tree as begun at the end of `j`. -/
def lastBegun (h : Host) (c : StageContext) (kind : StageKind) (j : List Occurrence) (vs : List Visit) :
    Option Visit :=
  (vs.filter fun x => x.stage.kind = kind && x.begun h c j).getLast?

variable {h : Host} {c : StageContext} {store : Place} {key : String} {kind : StageKind}
  {X : Change → Prop} {u v w : World} {vs ws : List Visit} {x : Visit} {j : List Occurrence} {o : Option Visit}

theorem lastBegun_eq_none (hvs : ∀ x ∈ vs, x.stage.kind = kind → x.begun h c j = false) :
    lastBegun h c kind j vs = none := by
  rw [lastBegun, List.getLast?_eq_none_iff, List.filter_eq_nil_iff]
  intro x hx hboth
  rw [Bool.and_eq_true, decide_eq_true_eq] at hboth
  rw [hvs x hx hboth.1] at hboth
  cases hboth.2

theorem lastBegun_cons (x : Visit) (vs : List Visit) :
    lastBegun h c kind j (x :: vs) = (lastBegun h c kind j vs).or (lastBegun h c kind j [x]) := by
  unfold lastBegun
  rw [← List.singleton_append, List.filter_append, List.getLast?_append]

theorem lastBegun_singleton (x : Visit) : lastBegun h c kind j [x] =
    if x.stage.kind = kind ∧ x.begun h c j = true then some x else none := by
  unfold lastBegun
  by_cases hboth : x.stage.kind = kind ∧ x.begun h c j = true
  · rw [if_pos hboth, List.filter_cons_of_pos (by simpa using hboth)]
    rfl
  · rw [if_neg hboth, List.filter_cons_of_neg (by simpa using hboth)]
    rfl

/-- What is true of a tree in which nothing was begun, or something, since a world. If the stage is over
that has begun it, it has ended it just if it has succeeded. -/
def Interrupted (h : Host) (c : StageContext) (store : Place) (key : String) (kind : StageKind) (j : List Occurrence)
    (w : World) : Option Visit → Prop
  | none => Idle h.settings.storage w.cwd store key kind w.disk (w.changesTo j)
  | some x => Tale h.settings.storage w.cwd store key kind (x.own h c j) (x.later h c j)
      (w.disk.replay (w.changesTo j)) ∧
    ((x.finish h c).journal.length ≤ j.length →
      (endMark store key kind ∈ x.own h c j ↔ x.result h c = .succeeded))

section

variable (hlayout : c.layout = .of h.settings.storage key) (hkey : isTargetKey key = true)
  (hkind : kind.hasMarkers = true) (hhonest : ∀ n e, h.fault n = some e → e.kind ≠ .notFound)
include hlayout hkey

/-- The tree of a stage is not marked as begun before the stage is announced. -/
theorem Ready.not_begun (hx : Ready h c store key x.start) (hj : j.length ≤ x.start.journal.length) :
    x.begun h c j = false := by
  have hannounced : x.start.journal.length < (c.announced x.stage x.start).journal.length := by
    show _ < ((x.start.journal ++ [_]) ++ [_]).length
    simp
  have hprepared := (Visit.prepared_along hlayout hkey hx.settled).stretch.grows.length_le
  rw [Visit.begun, Bool.and_eq_false_iff]
  exact .inr (decide_eq_false (by omega))

include hkind hhonest

theorem Woven.not_begun (hw : Ready h c store key w) (hv : Woven h c store key kind w vs v)
    (hj : j.length ≤ w.journal.length) : ∀ x ∈ vs, x.begun h c j = false := by
  induction vs generalizing w with
  | nil => exact fun x hx => absurd hx List.not_mem_nil
  | cons x xs ih =>
    have hx := hw.along hv.1
    have hfinish := hx.finish hlayout hkey hkind hhonest
    have hstart := hj.trans hv.1.stretch.grows.length_le
    exact List.forall_mem_cons.mpr ⟨hx.not_begun hlayout hkey hstart,
      ih (hx.along hfinish) hv.2 (hstart.trans hfinish.stretch.grows.length_le)⟩

/-- A stage that is stopped. -/
theorem Visit.halted (hx : Ready h c store key x.start) (hj : x.start.journal <+: j)
    (hj' : j <+: (x.finish h c).journal) (hmarks : kind = .convert → Unmarked store key (x.start.changesTo j)) :
    Interrupted h c store key kind j x.start (lastBegun h c kind j [x]) := by
  rw [lastBegun_singleton]
  by_cases hsame : x.stage.kind = kind
  · subst hsame
    cases hbegun : x.begun h c j with
    | false =>
      rw [if_neg (by simp)]
      exact .of_beginning hkey hkind hx.settled.housed
        (Visit.cut_beginning hlayout hkey hx.settled hkind hhonest hj hj' hbegun)
    | true =>
      rw [if_pos ⟨rfl, rfl⟩]
      have hlater : x.later h c j = [] := World.changesTo_of_le hj'.length_le
      have htale := Visit.cut_tale hlayout hkey hx.settled hkind hhonest hj' hbegun hmarks
      rwa [← hlater] at htale
  · rw [if_neg fun hboth => hsame hboth.1]
    exact .of_elsewhere ((Ready.elsewhere hlayout hkey hkind hx hsame).stretch.orderly_to hj hj')

/-- A stage that is over has begun its tree then, or never. -/
theorem Visit.lastBegun_over (hx : Ready h c store key x.start) (hover : (x.finish h c).journal <+: j) :
    lastBegun h c kind j [x] = lastBegun h c kind (x.finish h c).journal [x] := by
  rw [lastBegun_singleton, lastBegun_singleton]
  refine if_congr (and_congr_right fun hsame => ?_) rfl rfl
  subst hsame
  have hgrows := (Visit.prepared_grows hlayout hkey hx.settled hkind hhonest).length_le
  rw [Visit.begun, Visit.begun, decide_eq_true hgrows, decide_eq_true (hgrows.trans hover.length_le)]

/-- What was true of the tree when a stage was over stays true if the tree is left alone. -/
theorem Visit.halted_later (hx : Ready h c store key x.start) (hover : (x.finish h c).journal <+: j)
    (hmarks : kind = .convert → Unmarked store key (x.start.changesTo j))
    (hlater : Idle h.settings.storage (x.finish h c).cwd store key kind (x.finish h c).disk
      ((x.finish h c).changesTo j)) :
    Interrupted h c store key kind j x.start (lastBegun h c kind j [x]) := by
  have hfinish := hx.finish hlayout hkey hkind hhonest
  have hchanges : x.start.changesTo j =
      x.start.changesTo (x.finish h c).journal ++ (x.finish h c).changesTo j := by
    rw [hfinish.stretch.changesTo_append hover, hfinish.stretch.journal, World.changesTo_append]
  have hdisk : (x.finish h c).disk = x.start.disk.replay (x.start.changesTo (x.finish h c).journal) := by
    rw [hfinish.stretch.disk, hfinish.stretch.journal, World.changesTo_append]
    rfl
  have hend := Visit.halted hlayout hkey hkind hhonest hx hfinish.stretch.grows (List.prefix_refl _)
    fun hconvert c hc => hmarks hconvert c (hchanges ▸ List.mem_append_left _ hc)
  have hhoused := (hx.along hfinish).settled.housed
  rw [hfinish.stretch.cwd, hdisk] at hlater hhoused
  rw [Visit.lastBegun_over hlayout hkey hkind hhonest hx hover]
  rw [lastBegun_singleton] at hend ⊢
  split at hend
  · next hboth =>
    obtain ⟨htale, hresult⟩ := hend
    have hnothing : x.later h c (x.finish h c).journal = [] := World.changesTo_of_le (Nat.le_refl _)
    have hown : x.own h c j = x.own h c (x.finish h c).journal := by
      obtain ⟨more, rfl⟩ := hover
      rw [Visit.own, Visit.own, List.take_left, List.take_length]
    rw [if_pos hboth]
    refine ⟨?_, fun _ => hown ▸ hresult (Nat.le_refl _)⟩
    rw [hnothing] at htale
    have hstays := htale.idle hkey hkind hhoused hlater
    rw [← Disk.replay_append, ← hchanges, ← hown] at hstays
    exact hstays
  · next hboth =>
    rw [if_neg hboth]
    show Idle _ _ _ _ _ _ (x.start.changesTo j)
    rw [hchanges]
    exact Idle.append hkey hkind hx.settled.housed hend hlater

omit hlayout hhonest in
/-- What is true of the tree is true as well if nothing has happened in it before. -/
theorem Interrupted.prepend (hw : Ready h c store key w)
    (hu : Along h.settings.storage store key (Elsewhere store key kind) w u) (hj : u.journal <+: j)
    (ho : Interrupted h c store key kind j u o) : Interrupted h c store key kind j w o := by
  cases o with
  | none =>
    have hfirst : Idle h.settings.storage w.cwd store key kind w.disk (changesIn (w.since u)) :=
      .of_elsewhere hu.stretch.orderly
    have hsecond : Idle h.settings.storage u.cwd store key kind u.disk (u.changesTo j) := ho
    rw [hu.stretch.disk, hu.stretch.cwd] at hsecond
    show Idle _ _ _ _ _ _ (w.changesTo j)
    rw [hu.stretch.changesTo_append hj]
    exact hfirst.append hkey hkind hw.settled.housed hsecond
  | some x =>
    obtain ⟨htale, hover⟩ := ho
    rw [← hu.stretch.disk_to hj, hu.stretch.cwd] at htale
    exact ⟨htale, hover⟩

/-- **A run that is stopped.** -/
theorem Woven.halted (hw : Ready h c store key w) (hv : Woven h c store key kind w vs v)
    (hj : w.journal <+: j) (hj' : j <+: v.journal)
    (hmarks : kind = .convert → Unmarked store key (w.changesTo j)) :
    Interrupted h c store key kind j w (lastBegun h c kind j vs) := by
  induction vs generalizing w with
  | nil => exact .of_elsewhere (hv.stretch.orderly_to hj hj')
  | cons x xs ih =>
    have hx := hw.along hv.1
    have hfinish := hx.finish hlayout hkey hkind hhonest
    have hready := hx.along hfinish
    have hwoven := Woven.along hlayout hkey hkind hhonest hready hv.2
    rcases List.prefix_or_prefix_of_prefix hj' (hfinish.stretch.grows.trans hwoven.stretch.grows) with hearly | hlate
    · -- no stage has been announced yet
      have hnone : ∀ y ∈ x :: xs, y.begun h c j = false :=
        List.forall_mem_cons.mpr ⟨hx.not_begun hlayout hkey hearly.length_le,
          Woven.not_begun hlayout hkey hkind hhonest hready hv.2
            (hearly.trans hfinish.stretch.grows).length_le⟩
      rw [lastBegun_eq_none fun y hy _ => hnone y hy]
      exact .of_elsewhere (hv.1.stretch.orderly_to hj hearly)
    refine Interrupted.prepend hkey hkind hw hv.1 hlate ?_
    rw [hv.1.stretch.changesTo_append hlate] at hmarks
    replace hmarks : kind = .convert → Unmarked store key (x.start.changesTo j) :=
      fun hconvert c hc => hmarks hconvert c (List.mem_append_right _ hc)
    rw [lastBegun_cons]
    rcases List.prefix_or_prefix_of_prefix hj' hwoven.stretch.grows with hwithin | hover
    · have hnone := Woven.not_begun hlayout hkey hkind hhonest hready hv.2 hwithin.length_le
      rw [lastBegun_eq_none fun y hy _ => hnone y hy, Option.none_or]
      exact Visit.halted hlayout hkey hkind hhonest hx hlate hwithin hmarks
    · have htail := ih hready hv.2 hover fun hconvert c hc => hmarks hconvert c (by
        rw [hfinish.stretch.changesTo_append hover]
        exact List.mem_append_right _ hc)
      cases hlast : lastBegun h c kind j xs with
      | none =>
        rw [hlast] at htail
        rw [Option.none_or]
        exact Visit.halted_later hlayout hkey hkind hhonest hx hover hmarks htail
      | some y =>
        rw [hlast] at htail
        obtain ⟨htale, hresult⟩ := htail
        rw [← hfinish.stretch.disk_to hover, hfinish.stretch.cwd] at htale
        exact ⟨htale, hresult⟩

end

/-- A stage that has succeeded has marked its tree as begun. -/
theorem Visit.begun_of_succeeded (hlayout : c.layout = .of h.settings.storage key) (hkey : isTargetKey key = true)
    (hkind : x.stage.kind.hasMarkers = true) (hhonest : ∀ n e, h.fault n = some e → e.kind ≠ .notFound)
    (hx : Ready h c store key x.start) (hover : (x.finish h c).journal <+: j)
    (hdone : x.result h c = .succeeded) : x.begun h c j = true := by
  have hgrows := (Visit.prepared_grows hlayout hkey hx.settled hkind hhonest).trans hover
  have hmade : (x.prepared h c).1 = .ok () := by
    cases Visit.course hlayout hkey hx.settled hkind hhonest with
    | refused _ _ hfailed => exact absurd hdone hfailed
    | broken hmade => exact hmade
    | finished hmade => exact hmade
  rw [Visit.begun, hmade, decide_eq_true hgrows.length_le]
  rfl

section

variable {a : Accepted} (hkey : isTargetKey a.job.targetKey = true) (hkind : kind.hasMarkers = true)
  (hhonest : ∀ n e, h.fault n = some e → e.kind ≠ .notFound)
  (hw : Ready h (a.context h) store a.job.targetKey w)
include hkey hkind hhonest hw

/-- The run of a job is woven of its stages. -/
theorem Engine.runJob_woven :
    Woven h (a.context h) store a.job.targetKey kind w (visits h a w) ((runJob h a).run w).2 := by
  have hrun := Task.runFor_woven rfl hkey hkind hhonest (Task.ofAccepted a).messageBound
    (t := .ofAccepted a) rfl hw
  have hlast := hw.along (Woven.along rfl hkey hkind hhonest hw hrun)
  have hrelease : SameDisk (((Task.ofAccepted a).runFor h (Task.ofAccepted a).messageBound).run w).2
      ((runJob h a).run w).2 := .of_note (o := .released a.job.targetKey a.ticket) rfl rfl rfl rfl
  have hend : Woven h (a.context h) store a.job.targetKey kind _ [] ((runJob h a).run w).2 :=
    (Along.refl hlast.settled.stored).sameDisk hrelease
  exact List.append_nil (visits h a w) ▸ hrun.append hend

/-- **The run of a job that is stopped at any point.** -/
theorem Engine.runJob_halted (hj : w.journal <+: j) (hj' : j <+: ((runJob h a).run w).2.journal)
    (hmarks : Unmarked store a.job.targetKey (w.changesTo j)) :
    Interrupted h (a.context h) store a.job.targetKey kind j w
      (lastBegun h (a.context h) kind j (visits h a w)) :=
  Woven.halted rfl hkey hkind hhonest hw (Engine.runJob_woven hkey hkind hhonest hw) hj hj' fun _ => hmarks

end

end Decompile
