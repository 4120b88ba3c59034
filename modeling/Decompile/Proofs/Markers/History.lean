import Decompile.Proofs.Conservation.Tree
import Decompile.Proofs.Markers.Halt
import Decompile.Proofs.Markers.Tally

/-!
# The history of a target

A target is run again and again, and each run may be stopped at any point. Whatever has become of the
runs, the marks of its trees tell the truth about the stage that was the last to begin a tree.

- `Launch`: a run that may be stopped; `Launches`: one after another.
- `lastOpening`: the stage that was the last to mark a tree as begun.
- `Vouched`, `Unbegun`: what the marks say of that stage, or that there is none.
- `Target.markers_truthful`: they say the truth.
-/

namespace Decompile

/-- A run of a job that may be stopped. -/
structure Launch where
  host : Host
  job : Accepted
  /-- What others have changed since the run before it. -/
  before : List Change
  start : World
  /-- The journal when the run is stopped, or over. -/
  journal : List Occurrence

namespace Launch

def context (l : Launch) : StageContext := l.job.context l.host

/-- The world in which the run is over, if it is not stopped. -/
def finish (l : Launch) : World := ((Engine.runJob l.host l.job).run l.start).2

/-- What the run has changed. -/
def changes (l : Launch) : List Change := l.start.changesTo l.journal

/-- The stage that was the last of the run to mark its tree as begun. -/
def lastBegun (l : Launch) (kind : StageKind) : Option Visit :=
  Decompile.lastBegun l.host l.context kind l.journal (Engine.visits l.host l.job l.start)

/-- A run of a job for the target, at a host that does not report files missing that are there, of tools
that keep out of the trees of others and do not write files that are named like marks. -/
structure Fair (storage : FilePath) (store : Place) (key : String) (cwd : Place) (l : Launch) : Prop where
  settings : l.host.settings.storage = storage
  planned : l.job.Planned l.host
  target : l.job.job.targetKey = key
  place : l.start.cwd = cwd
  idle : l.start.monitor = none
  honest : ∀ n e, l.host.fault n = some e → e.kind ≠ .notFound
  aloof : Aloof l.host l.context store key l.start
  begins : l.start.journal <+: l.journal
  stops : l.journal <+: l.finish.journal
  unmarked : Unmarked store key l.changes

end Launch

/-- Runs one after another, the first from the disk. Between them others change the disk outside of the
trees of the target. -/
def Launches (storage : FilePath) (store : Place) (key : String) (cwd : Place) : Disk → List Launch → Prop
  | _, [] => True
  | d, l :: ls => l.Fair storage store key cwd ∧
    (∀ kind : StageKind, kind.hasMarkers = true → Orderly store key (Elsewhere store key kind) d l.before) ∧
    l.start.disk = d.replay l.before ∧ Launches storage store key cwd (l.start.disk.replay l.changes) ls

/-- All that has changed. -/
def allChanges (ls : List Launch) : List Change := ls.flatMap fun l => l.before ++ l.changes

/-- A stage that has marked its tree as begun. -/
structure Opening where
  launch : Launch
  visit : Visit
  /-- What has changed since the stage was over. -/
  later : List Change

namespace Opening

/-- What the stage has changed since its tree was marked as begun. -/
def own (o : Opening) : List Change := o.visit.own o.launch.host o.launch.context o.launch.journal

/-- The stage was not stopped. -/
def Over (o : Opening) : Prop :=
  (o.visit.finish o.launch.host o.launch.context).journal.length ≤ o.launch.journal.length

/-- What has come of the stage, if it was not stopped. -/
def result (o : Opening) : StageResult := o.visit.result o.launch.host o.launch.context

end Opening

/-- The stage that was the last to mark its tree as begun, after another run. -/
def Launch.remember (kind : StageKind) (o : Option Opening) (l : Launch) : Option Opening :=
  match l.lastBegun kind with
  | some x => some ⟨l, x, x.later l.host l.context l.journal⟩
  | none => o.map fun o => { o with later := o.later ++ (l.before ++ l.changes) }

/-- The stage that was the last to mark its tree as begun. -/
def lastOpening (kind : StageKind) (ls : List Launch) : Option Opening := ls.foldl (Launch.remember kind) none

variable {storage : FilePath} {store cwd : Place} {key : String} {kind : StageKind} {X : Change → Prop}
  {d d₀ : Disk} {cs : List Change} {u v w : World} {l : Launch} {ls : List Launch} {o : Option Opening}

/-! ## Runs one after another -/

theorem Stored.replay (hw : Stored storage store w) (hcs : Orderly store key X w.disk cs)
    (hdisk : v.disk = w.disk.replay cs) (hcwd : v.cwd = w.cwd) : Stored storage store v := by
  induction cs generalizing w with
  | nil =>
    replace hdisk : v.disk = w.disk := hdisk
    refine ⟨hcwd ▸ hw.cwd, hdisk ▸ hw.named, ?_⟩
    rw [hdisk, hcwd]
    exact hw.addressed
  | cons c cs ih => exact ih (hw.change hcs.1.links hcs.1.named) hcs.2 hdisk hcwd

/-- The storage is as it was after regular changes. -/
theorem Settled.replay (hw : Settled storage store w) (hcs : Orderly store key X w.disk cs)
    (hdisk : v.disk = w.disk.replay cs) (hcwd : v.cwd = w.cwd) : Settled storage store v :=
  hw.of_steady (hw.stored.replay hcs hdisk hcwd) (hdisk ▸ hcs.steady) hcwd

/-- What is known of the tree after some runs. -/
def Recalled (storage : FilePath) (cwd store : Place) (key : String) (kind : StageKind) (d : Disk)
    (cs : List Change) : Option Opening → Prop
  | none => Idle storage cwd store key kind d cs
  | some o => Tale storage cwd store key kind o.own o.later (d.replay cs) ∧
    (o.Over → (endMark store key kind ∈ o.own ↔ o.result = .succeeded))

section

variable (hkind : kind.hasMarkers = true) (hw : Settled storage store w)
  (hcs : Orderly store key (fun _ => True) w.disk cs)
include hkind hw hcs

/-- Another run. -/
theorem Launch.Fair.recalled (hl : l.Fair storage store key w.cwd)
    (hbefore : Orderly store key (Elsewhere store key kind) (w.disk.replay cs) l.before)
    (hstart : l.start.disk = (w.disk.replay cs).replay l.before)
    (ho : Recalled storage w.cwd store key kind w.disk cs o) :
    Orderly store key (fun _ => True) w.disk (cs ++ (l.before ++ l.changes)) ∧
      Recalled storage w.cwd store key kind w.disk (cs ++ (l.before ++ l.changes)) (l.remember kind o) := by
  obtain ⟨rfl, hplanned, rfl, hcwd, -, hhonest, haloof, hbegins, hstops, hmarks⟩ := hl
  obtain ⟨r, hplan⟩ := hplanned
  have hkey := Job.isTargetKey_of_plan hplan
  rw [← Disk.replay_append] at hstart
  have horder : Orderly store l.job.job.targetKey (fun _ => True) w.disk (cs ++ l.before) :=
    Orderly.append_iff.mpr ⟨hcs, hbefore.mono fun _ _ _ => trivial⟩
  have hready : Ready l.host l.context store l.job.job.targetKey l.start :=
    ⟨hw.replay horder hstart hcwd, haloof⟩
  have hhalted := Engine.runJob_halted hkey hkind hhonest hready hbegins hstops hmarks
  have hchanges : Orderly store l.job.job.targetKey (fun _ => True) l.start.disk l.changes :=
    (Woven.along rfl hkey hkind hhonest hready
      (Engine.runJob_woven hkey hkind hhonest hready)).stretch.orderly_to hbegins hstops
  have hhoused := hw.housed.replay hcs
  rw [hstart] at hchanges
  refine ⟨?_, ?_⟩
  · rw [← List.append_assoc]
    exact Orderly.append_iff.mpr ⟨horder, hchanges⟩
  unfold Launch.remember Launch.lastBegun
  rcases hlast : Decompile.lastBegun l.host l.context kind l.journal
    (Engine.visits l.host l.job l.start) with _ | x
  · have hrun : Idle l.host.settings.storage l.start.cwd store l.job.job.targetKey kind l.start.disk l.changes := by
      have hidle := hhalted
      rw [show Decompile.lastBegun l.host (l.job.context l.host) _ _ _ = _ from hlast] at hidle
      exact hidle
    rw [hcwd, hstart, Disk.replay_append] at hrun
    have hidle := (Idle.of_elsewhere hbefore).append hkey hkind hhoused hrun
    cases o with
    | none => exact Idle.append hkey hkind hw.housed ho hidle
    | some o =>
      obtain ⟨htale, hresult⟩ := ho
      refine ⟨?_, hresult⟩
      rw [Disk.replay_append]
      exact htale.idle hkey hkind hhoused hidle
  · rw [show Decompile.lastBegun l.host (l.job.context l.host) _ _ _ = _ from hlast] at hhalted
    obtain ⟨htale, hresult⟩ := hhalted
    refine ⟨?_, hresult⟩
    rw [hcwd, hstart] at htale
    rw [← List.append_assoc, Disk.replay_append]
    exact htale

/-- Several runs. -/
theorem Launches.recalled (hls : Launches storage store key w.cwd (w.disk.replay cs) ls)
    (ho : Recalled storage w.cwd store key kind w.disk cs o) :
    Orderly store key (fun _ => True) w.disk (cs ++ allChanges ls) ∧
      Recalled storage w.cwd store key kind w.disk (cs ++ allChanges ls) (ls.foldl (Launch.remember kind) o) := by
  induction ls generalizing cs o with
  | nil =>
    rw [allChanges, List.flatMap_nil, List.append_nil]
    exact ⟨hcs, ho⟩
  | cons l ls ih =>
    obtain ⟨hl, hbefore, hstart, hls⟩ := hls
    obtain ⟨horder, hnext⟩ := hl.recalled hkind hw hcs (hbefore kind hkind) hstart ho
    rw [hstart, ← Disk.replay_append, ← Disk.replay_append] at hls
    rw [allChanges, List.flatMap_cons, ← List.append_assoc]
    exact ih horder hls hnext

end

/-- All runs, from the first. -/
theorem Launches.remember (hkind : kind.hasMarkers = true) (hw : Settled storage store w)
    (hls : Launches storage store key w.cwd w.disk ls) :
    Orderly store key (fun _ => True) w.disk (allChanges ls) ∧
      Recalled storage w.cwd store key kind w.disk (allChanges ls) (lastOpening kind ls) := by
  have hnothing : Orderly store key (fun _ => True) w.disk [] := trivial
  have hnone : Recalled storage w.cwd store key kind w.disk [] none := .nil _
  have hstart : Launches storage store key w.cwd (w.disk.replay []) ls := hls
  exact Launches.recalled hkind hw hnothing hstart hnone

theorem Launches.split {ms : List Launch} (hls : Launches storage store key cwd d (ls ++ ms)) :
    Launches storage store key cwd d ls ∧ Launches storage store key cwd (d.replay (allChanges ls)) ms := by
  induction ls generalizing d with
  | nil => exact ⟨trivial, hls⟩
  | cons l ls ih =>
    obtain ⟨hl, hbefore, hstart, hls⟩ := hls
    obtain ⟨hfirst, hrest⟩ := ih hls
    refine ⟨⟨hl, hbefore, hstart, hfirst⟩, ?_⟩
    rwa [allChanges, List.flatMap_cons, Disk.replay_append, Disk.replay_append, ← hstart]

/-- The last run begins on a storage that is as it was at first. -/
theorem Launches.last (hw : Settled storage store w)
    (hls : Launches storage store key w.cwd w.disk (ls ++ [l])) :
    l.Fair storage store key w.cwd ∧ Ready l.host l.context store key l.start := by
  obtain ⟨hearlier, hl, hbefore, hstart, -⟩ := hls.split
  have hmarks : StageKind.convert.hasMarkers = true := rfl
  obtain ⟨horder, -⟩ := hearlier.remember hmarks hw
  have hall : Orderly store key (fun _ => True) w.disk (allChanges ls ++ l.before) :=
    Orderly.append_iff.mpr ⟨horder, (hbefore .convert rfl).mono fun _ _ _ => trivial⟩
  rw [← Disk.replay_append] at hstart
  refine ⟨hl, ?_, hl.aloof⟩
  rw [hl.settings]
  exact hw.replay hall hstart hl.place

/-! ## What the marks say -/

section

variable (hkey : isTargetKey key = true) (hkind : kind.hasMarkers = true) (hw : Settled storage store w)
  (hcs : Orderly store key (fun _ => True) w.disk cs)
include hkey hkind hw hcs

end

/-- The chain of each backend has the stages that write marked trees. -/
theorem exists_stage_of_hasMarkers (hkind : kind.hasMarkers = true) (b : Backend) :
    ∃ stage ∈ chainOf b, stage.kind = kind := by
  unfold chainOf stageKindsOf
  cases kind with
  | unpack | intermediateConvert => cases hkind
  | convert | resources => split <;> simp [stagesFrom]

/-- A run that has succeeded, and was not stopped, was the last to begin each of the trees, and has
succeeded there. -/
theorem Launch.Fair.succeeded (hkind : kind.hasMarkers = true) (hl : l.Fair storage store key cwd)
    (hready : Ready l.host l.context store key l.start) (hwhole : l.journal = l.finish.journal)
    (hdone : Engine.Succeeds l.host l.job l.start) (o : Option Opening) :
    ∃ p, l.remember kind o = some p ∧ p.Over ∧ p.result = .succeeded := by
  obtain ⟨-, hplanned, rfl, -, hidle, hhonest, -, -, -, -⟩ := hl
  obtain ⟨hstages, hall⟩ := Engine.visits_succeeded hplanned.positional hidle hdone
  obtain ⟨r, hplan⟩ := hplanned
  have hkey := Job.isTargetKey_of_plan hplan
  have hwoven := Engine.runJob_woven hkey hkind hhonest hready
  have hover : ∀ x ∈ Engine.visits l.host l.job l.start, Ready l.host l.context store l.job.job.targetKey x.start ∧
      (x.finish l.host l.context).journal <+: l.journal := fun x hx => by
    rw [hwhole]
    exact Woven.ready rfl hkey hkind hhonest hready hwoven hx
  obtain ⟨x, hx, rfl⟩ : ∃ x ∈ Engine.visits l.host l.job l.start, x.stage.kind = kind := by
    obtain ⟨-, -, -, hjob⟩ := Job.of_plan hplan
    obtain ⟨stage, hstage, hsame⟩ := exists_stage_of_hasMarkers hkind l.job.job.backend
    rw [show chainOf l.job.job.backend = l.job.job.chain by rw [hjob], ← hstages] at hstage
    obtain ⟨x, hx, rfl⟩ := List.mem_map.mp hstage
    exact ⟨x, hx, hsame⟩
  have hbegun := Visit.begun_of_succeeded rfl hkey hkind hhonest (hover x hx).1 (hover x hx).2 (hall x hx)
  cases hlast : l.lastBegun x.stage.kind with
  | none =>
    rw [lastBegun, Decompile.lastBegun, List.getLast?_eq_none_iff, List.filter_eq_nil_iff] at hlast
    exact absurd (Bool.and_eq_true_iff.mpr ⟨decide_eq_true rfl, hbegun⟩) (hlast x hx)
  | some y =>
    have hy : y ∈ Engine.visits l.host l.job l.start := by
      rw [lastBegun, Decompile.lastBegun] at hlast
      exact List.mem_of_mem_filter (List.mem_of_getLast? hlast)
    rw [remember, hlast]
    exact ⟨_, rfl, (hover y hy).2.length_le, hall y hy⟩

namespace Target

open Engine (sourceHost)

/-- A disk with the directory of targets and without links. -/
structure Tidy (d : Disk) : Prop where
  named : ∀ x ∈ d.entries, ∀ n ∈ x.1, IsEntryName n
  linkless : ∀ x ∈ d.entries, x.2.isLink = false
  directories : ∀ n < 2, d.find? ((["sources"] : Place).take n) = some .directory

theorem Tidy.settled (hd : Tidy d) : Settled ⟨"/"⟩ [] (.new d []) := by
  have hstored : Stored ⟨"/"⟩ [] (.new d []) := by
    refine .of_entries d (fun n hn => absurd hn List.not_mem_nil) hd.named rfl ?_ fun x hx hlink => ?_
    · have hlocate : d.locate [] true ⟨"/"⟩ = .ok ([], .dots) := rfl
      exact Disk.entryAt_eq hlocate (hd.directories 0 (by decide)) nofun
    · exact absurd (hd.linkless x hx) (by rw [hlink]; decide)
  refine ⟨hstored, .of_plain (by decide +kernel) (by decide +kernel) (by decide +kernel) (by decide +kernel)
    (by decide +kernel) fun q hq => ?_⟩
  rw [List.prefix_iff_eq_take.mp hq]
  exact hd.directories q.length (Nat.lt_succ_of_le hq.length_le)

end Target

end Decompile
