import Decompile.Proofs.Conservation.Spares
import Mathlib.Data.List.Perm.Subperm

/-!
# The files of a run that has succeeded

- `Unpacked`, `Passes.unpacked`: what unpacking has left when it is told to have succeeded.
- `Reaches`, `Route`: the stages that a job that has succeeded has passed, and what is known between
  them.
- `Engine.ResourceTree`: what a run leaves of its input.
- `Engine.runJob_resources`: every run that has succeeded has left the resources of its input, and
  nothing else.
-/

namespace Decompile

open Site (Hosts)

variable {h : Host} {c : StageContext} {s : Site} {w v u : World}

section

variable {kind : StageKind} {stage : Stage} (hs : s.Fresh) (hc : s.Serves h c)
  (htools : ToolsWithin h c)

include hs hc htools

theorem StageRun.course (hrun : StageRun h c kind w v) (hw : s.Hosts w)
    (hunpacked : kind ≠ .unpack → s.Stands c.layout .unpack w.disk)
    (hjars : kind = .convert → c.job.backend.isDirect = false →
      s.Stands c.layout .intermediateConvert w.disk) : s.Course (fun _ => True) w v := by
  obtain ⟨items, u, u', hcourse, -, -, hcourse', -⟩ := hrun.summary hs hc htools hw hunpacked hjars
  exact (hcourse.mono fun _ _ => trivial).trans (hcourse'.mono fun _ _ => trivial)

theorem Passes.course (hp : Passes h c s stage w v) (hw : s.Hosts w)
    (hunpacked : stage.kind ≠ .unpack → s.Stands c.layout .unpack w.disk)
    (hjars : stage.kind = .convert → c.job.backend.isDirect = false →
      s.Stands c.layout .intermediateConvert w.disk) : s.Course (fun _ => True) w v := by
  obtain ⟨x, y, hfirst, hrun, hlast, -, -⟩ := hp.parts hw
  have hx := hfirst.hosts hw
  have hcourse := hrun.course hs hc htools hx (fun hkind => hfirst.stands hw (hunpacked hkind))
    fun hkind hsplit => hfirst.stands hw (hjars hkind hsplit)
  exact ((hfirst.alters hw).mono fun _ _ => trivial).trans
    (hcourse.trans ((hlast.alters (hcourse.hosts hx)).mono fun _ _ => trivial))

/-- In the end the stage was told to have succeeded. -/
theorem Passes.ended (hp : Passes h c s stage w v) (hw : s.Hosts w)
    (hunpacked : stage.kind ≠ .unpack → s.Stands c.layout .unpack w.disk)
    (hjars : stage.kind = .convert → c.job.backend.isDirect = false →
      s.Stands c.layout .intermediateConvert w.disk) :
    (w.since v).getLast? =
      some (.published c.job.targetKey (.stageChanged c.job.targetKey stage .succeeded)) := by
  obtain ⟨x, y, hfirst, hrun, -, -, hended⟩ := hp.parts hw
  have hx := hfirst.hosts hw
  have hcourse := hrun.course hs hc htools hx (fun hkind => hfirst.stands hw (hunpacked hkind))
    fun hkind hsplit => hfirst.stands hw (hjars hkind hsplit)
  obtain ⟨more, hend⟩ := hended (hcourse.hosts hx)
  have hlog : y.journal = w.journal ++ w.since y := (Site.Course.journal
    (((hfirst.alters hw).mono (Y := fun _ => True) fun _ _ => trivial).trans hcourse)).1
  rw [World.since_eq (hend.trans (by rw [hlog, List.append_assoc])), ← List.append_assoc,
    List.getLast?_append, List.getLast?_singleton]
  rfl

/-! ## What unpacking has left -/

/-- What unpacking has left when it is told to have succeeded: the files of the input as it was read
while the stage ran. -/
inductive Unpacked (h : Host) (c : StageContext) (s : Site) (w : World) (past : List Occurrence) :
    Prop where
  | mk {during storing : List Occurrence} {bytes : Bytes} (parts : past = during ++ storing)
    (begun : .published c.job.targetKey (.stageChanged c.job.targetKey ⟨0, .unpack⟩ .running) ∈ during)
    (ended : past.getLast? =
      some (.published c.job.targetKey (.stageChanged c.job.targetKey ⟨0, .unpack⟩ .succeeded)))
    (read : (w.diskAfter during).read w.cwd c.job.submission.inputPath = .ok bytes)
    (files : ∀ q b, (q, b) ∈ (w.diskAfter past).filesUnder (s.area .unpack) ↔
      lastWrite (c.job.submission.files h.settings.libraryRoots bytes) q = some b)

omit hs hc htools in
/-- Some files were written below a directory that held none. -/
theorem Disk.Wrote.mem_filesUnder {d d' : Disk} {dir : Place} {ws : List (Place × Bytes)}
    (hwrote : d.Wrote (writesBelow dir ws) d')
    (hvacant : ∀ rest b x, d.find? (dir ++ rest) ≠ some (.file b x))
    (hdir : d'.find? dir = some .directory) (q : Place) (b : Bytes) :
    (q, b) ∈ d'.filesUnder dir ↔ lastWrite ws q = some b := by
  have hfile := hwrote.file_iff (q := dir ++ q) (b := b)
  rw [lastWrite_writesBelow] at hfile
  rw [Disk.mem_filesUnder, hfile, or_iff_left fun hold => hvacant _ _ _ hold.2.choose_spec,
    and_iff_right_iff_imp]
  rintro hlast rfl
  obtain ⟨x, hx⟩ := hfile.mpr (.inl hlast)
  rw [List.append_nil, hdir] at hx
  cases hx

theorem Passes.unpacked (hp : Passes h c s ⟨0, .unpack⟩ w v) (hw : s.Hosts w)
    (hvacant : s.Vacant w.disk) :
    s.Hosts v ∧ s.Stands c.layout .unpack v.disk ∧ Unpacked h c s w (w.since v) ∧
      v.journal = w.journal ++ w.since v ∧ v.disk = w.diskAfter (w.since v) ∧
      ∀ other, .unpack ≠ other → ∀ rest, w.disk.Untouched v.disk (s.area other ++ rest) := by
  obtain ⟨x, y, hfirst, hrun, hlast, ⟨new, hbegun⟩, -⟩ := hp.parts hw
  have hx := hfirst.hosts hw
  obtain ⟨items, u, u', hcourse, -, -, hcourse', -⟩ := hrun.summary hs hc htools hx nofun nofun
  have hy := hcourse'.hosts (hcourse.hosts hx)
  have hcourse' : s.Course (s.Within .unpack) x y := hcourse.trans (hcourse'.mono fun z hz => by
    rcases hz with hz | hz
    · exact hz
    · exact hz.place.elim)
  have hvacant' : s.Vacant x.disk := fun rest b e hfile =>
    hvacant rest b e ((hfirst.untouched hw .unpack rest).file_iff.mp hfile)
  obtain ⟨hstands, bytes, hread, hwrote⟩ := hrun.unpacked hs hc hx hvacant'
  -- from the beginning to the end of the run of the stage, and on until that is told
  have hrunning : s.Course (fun _ => True) w y :=
    ((hfirst.alters hw).mono fun _ _ => trivial).trans (hcourse'.mono fun _ _ => trivial)
  obtain ⟨hlog, hdisk⟩ := hrunning.journal
  obtain ⟨hlog', hdisk'⟩ := (hlast.alters hy).journal
  obtain ⟨hlog'', -⟩ := hcourse'.journal
  have hwhole : v.journal = w.journal ++ (w.since y ++ y.since v) := by
    rw [← List.append_assoc, ← hlog, ← hlog']
  have hpast : w.since v = w.since y ++ y.since v := World.since_eq hwhole
  have hnow : v.disk = w.diskAfter (w.since v) := by
    rw [hpast, World.diskAfter_append, ← hdisk, hdisk']
    rfl
  refine ⟨hlast.hosts hy, hlast.stands hy hstands, ?_, hpast ▸ hwhole, hnow, fun other hne rest => ?_⟩
  · have hread' : (w.diskAfter (w.since y)).read w.cwd c.job.submission.inputPath = .ok bytes := by
      rw [← hdisk, hw.cwd]
      exact hread
    refine .mk hpast ?_ (hp.ended hs hc htools hw nofun nofun) hread' ?_
    · rw [World.since_eq (hlog''.trans (by rw [hbegun, List.append_assoc]))]
      simp
    · intro q b
      rw [← hnow, ← hwrote.mem_filesUnder hvacant' hstands.there q b, Disk.mem_filesUnder,
        Disk.mem_filesUnder, exists_congr fun e => (hlast.untouched hy .unpack q).file_iff]
  · exact ((hfirst.untouched hw other rest).trans (Site.Course.others hcourse' hne rest)).trans
      (hlast.untouched hy other rest)

omit hs hc htools in
/-- There are few enough files for chunks of any size. -/
theorem Unpacked.length_filesIn {past : List Occurrence} (hpast : Unpacked h c s w past)
    (keep : String → Bool) : (s.filesIn (w.diskAfter past) .unpack keep).length ≤ itemLimit := by
  obtain @⟨during, storing, bytes, -, -, -, -, hfiles⟩ := hpast
  let row := c.job.submission.files h.settings.libraryRoots bytes
  have hsub : s.filesIn (w.diskAfter past) .unpack keep ⊆ row.map Prod.fst := by
    intro q hq
    obtain ⟨hne, ⟨b, x, hfile⟩, -⟩ := Site.mem_filesIn.mp hq
    have hlast := (hfiles q b).mp (Disk.mem_filesUnder.mpr ⟨hne, x, hfile⟩)
    exact List.mem_map.mpr ⟨_, mem_of_lastWrite hlast, rfl⟩
  have hle := (List.subperm_of_subset (Site.filesIn_nodup s _ _ _) hsub).length_le
  rw [List.length_map] at hle
  have hrow : row.length < 256 ^ 2 := length_inputFiles_lt _ _ _ _ _
  exact Nat.le_trans hle (Nat.le_trans (Nat.le_of_lt hrow) (by decide))

/-! ## The stages that were passed -/

omit hs hc htools in
/-- What is known some time after unpacking. -/
structure Reaches (c : StageContext) (s : Site) (u x : World) : Prop where
  hosts : s.Hosts x
  stocked : s.Stocked c u.disk x.disk
  course : s.Course (fun _ => True) u x

/-- A conversion goes on from what was unpacked. -/
theorem Passes.reaches (hkind : stage.kind.converts = true) (hp : Passes h c s stage w v)
    (hw : Reaches c s u w)
    (hjars : stage.kind = .convert → c.job.backend.isDirect = false →
      s.Stands c.layout .intermediateConvert w.disk) :
    Reaches c s u v ∧ (stage.kind.hasMarkers = false → s.Stands c.layout stage.kind v.disk) := by
  obtain ⟨x, y, hfirst, hrun, hlast, -, -⟩ := hp.parts hw.hosts
  obtain ⟨hy, hdone, hmade⟩ := hrun.stocked hs hc htools hkind (hfirst.hosts hw.hosts)
    (hw.stocked.aside hfirst hw.hosts) fun hconvert hsplit =>
      hfirst.stands hw.hosts (hjars hconvert hsplit)
  have hcourse := hp.course hs hc htools hw.hosts (fun _ => hw.stocked.stands) hjars
  exact ⟨⟨hlast.hosts hy, hdone.aside hlast hy, hw.course.trans hcourse⟩,
    fun hmarkers => hlast.stands hy (hmade hmarkers)⟩

omit hs hc htools in
/-- The stages that a job with the chain of its backend has passed. -/
inductive Route (h : Host) (c : StageContext) (s : Site) (w v : World) : Prop where
  | direct {u x : World} (direct : c.job.backend.isDirect = true)
    (unpack : Passes h c s ⟨0, .unpack⟩ w u) (unpacked : Reaches c s u u)
    (convert : Passes h c s ⟨1, .convert⟩ u x) (converted : Reaches c s u x)
    (resources : Passes h c s ⟨2, .resources⟩ x v)
  | split {u x y : World} (split : c.job.backend.isDirect = false)
    (unpack : Passes h c s ⟨0, .unpack⟩ w u) (unpacked : Reaches c s u u)
    (intermediate : Passes h c s ⟨1, .intermediateConvert⟩ u x) (made : Reaches c s u x)
    (jars : s.Stands c.layout .intermediateConvert x.disk)
    (convert : Passes h c s ⟨2, .convert⟩ x y) (converted : Reaches c s u y)
    (resources : Passes h c s ⟨3, .resources⟩ y v)

theorem Passed.route (hpassed : Passed h c s (chainOf c.job.backend) w v) (hw : s.Hosts w)
    (hvacant : s.Vacant w.disk) : Route h c s w v := by
  have hstart : ∀ {u}, Passes h c s ⟨0, .unpack⟩ w u → Reaches c s u u := fun hunpack => by
    obtain ⟨hu, hstands, -⟩ := hunpack.unpacked hs hc htools hw hvacant
    exact ⟨hu, .refl hstands, .refl⟩
  unfold chainOf stageKindsOf at hpassed
  cases hdirect : c.job.backend.isDirect with
  | true =>
    rw [hdirect] at hpassed
    obtain ⟨u, hunpack, x, hconvert, y, hresources, rfl⟩ := hpassed
    obtain ⟨hconverted, -⟩ := hconvert.reaches hs hc htools rfl (hstart hunpack) fun _ hsplit => by
      cases hdirect.symm.trans hsplit
    exact .direct hdirect hunpack (hstart hunpack) hconvert hconverted hresources
  | false =>
    rw [hdirect] at hpassed
    obtain ⟨u, hunpack, x, hintermediate, y, hconvert, z, hresources, rfl⟩ := hpassed
    obtain ⟨hmade, hjars⟩ := hintermediate.reaches hs hc htools rfl (hstart hunpack) nofun
    obtain ⟨hconverted, -⟩ := hconvert.reaches hs hc htools rfl hmade fun _ _ => hjars rfl
    exact .split hdirect hunpack (hstart hunpack) hintermediate hmade (hjars rfl) hconvert hconverted
      hresources

omit hs hc htools in
/-- On every route resources are extracted from what unpacking has left of them. -/
theorem Route.resources (hroute : Route h c s w v) :
    ∃ u x n, Passes h c s ⟨0, .unpack⟩ w u ∧ Reaches c s u x ∧ Passes h c s ⟨n, .resources⟩ x v := by
  cases hroute with
  | direct direct unpack unpacked convert converted resources =>
    exact ⟨_, _, 2, unpack, converted, resources⟩
  | split split unpack unpacked intermediate made jars convert converted resources =>
    exact ⟨_, _, 3, unpack, converted, resources⟩

/-- What came after unpacking is in the journal. -/
theorem Reaches.since {n : Nat} {y : World} (hx : Reaches c s u w) (hp : Passes h c s ⟨n, .resources⟩ w v)
    (hafter : Aside s v y) : y.journal = u.journal ++ u.since y := by
  have hresources := hp.course hs hc htools hx.hosts (fun _ => hx.stocked.stands) nofun
  have hlast := (hafter.alters (hresources.hosts hx.hosts)).mono (Y := fun _ => True) fun _ _ => trivial
  exact (Site.Course.journal (hx.course.trans (hresources.trans hlast))).1

end

/-! ## The run of a job -/

variable {a : Accepted} {base : Place}

namespace Engine

/-- Where a job is to unpack its input there are no files. -/
theorem vacant (hs : (a.site h w base).Fresh) : (a.site h w base).Vacant w.disk :=
  fun rest b x hx => by cases (hs.free .unpack rest).symm.trans hx

/-- A job that has succeeded has passed the stages of its backend. -/
theorem runJob_route (ha : a.Planned h) (hs : (a.site h w base).Fresh) (hidle : w.monitor = none)
    (htools : ToolsWithin h (a.context h)) (hdone : Succeeds h a w) :
    ∃ u, Route h (a.context h) (a.site h w base) w u ∧
      Aside (a.site h w base) u ((runJob h a).run w).2 := by
  obtain ⟨u, hpassed, hafter⟩ := runJob_passed ha hs hidle hdone
  have hc := ha.serves w base
  obtain ⟨r, hplan⟩ := ha
  obtain ⟨-, -, -, hjob⟩ := Job.of_plan hplan
  have hchain : a.job.chain = chainOf a.job.backend := by rw [hjob]
  rw [hchain] at hpassed
  exact ⟨u, hpassed.route hs hc htools (Accepted.hosts hs) (vacant hs), hafter⟩

/-- A host whose decompilers write a source, and whose converter of bytecode writes an archive. -/
def sourceHost : Host where
  settings := .forStorage ⟨"/"⟩
  catalog := .complete 17
  memoryCeiling := 100
  interlude _ := []
  fault _ := none
  tool _ _ i := ⟨[.writeFile (if i.program = dexToJarName then ⟨"/sources/a/intermediate/classes.jar"⟩
    else ⟨"/sources/a/java/M.java"⟩) [7]], .ok ()⟩
  time n := .ofEpoch 0 n

theorem sourceHost_toolsWithin {a : Accepted} (ha : a.job.targetKey = "a") :
    ToolsWithin sourceHost (a.context sourceHost) := by
  have hlayout : (a.context sourceHost).layout = .of ⟨"/"⟩ "a" := congrArg (Layout.of ⟨"/"⟩) ha
  constructor
  · intro files i hi calls d p bytes hp
    have hprogram : i.program ≠ dexToJarName := by
      unfold planConvert at hi
      split at hi
      · cases hi
      · cases hbackend : (a.context sourceHost).job.backend with
        | jadx =>
          rw [hbackend] at hi
          obtain rfl := List.mem_singleton.mp hi
          exact (by decide : sourceHost.catalog.jadx.program ≠ dexToJarName)
        | cfr =>
          rw [hbackend] at hi
          obtain ⟨jar, -, rfl⟩ := List.mem_map.mp hi
          exact (by decide : sourceHost.catalog.cfr.program ≠ dexToJarName)
        | fernflower =>
          rw [hbackend] at hi
          obtain rfl := List.mem_singleton.mp hi
          exact (by decide : sourceHost.catalog.fernflower.program ≠ dexToJarName)
    have hwritten : p = (Layout.of ⟨"/"⟩ "a").java.join ⟨"M.java"⟩ := by
      obtain ⟨rfl, -⟩ := Activity.writeFile.inj (List.mem_singleton.mp hp)
      rw [if_neg hprogram]
      decide +kernel
    rw [hlayout, hwritten]
    exact ⟨_, .ofChild (by decide)⟩
  · intro dex calls d p bytes hp
    have hwritten : p = (Layout.of ⟨"/"⟩ "a").intermediate.join ⟨"classes.jar"⟩ := by
      obtain ⟨rfl, -⟩ := Activity.writeFile.inj (List.mem_singleton.mp hp)
      refine (if_pos (by decide : sourceHost.catalog.dexToJar.program = dexToJarName)).trans ?_
      decide +kernel
    rw [hlayout, hwritten]
    exact ⟨_, .ofChild (by decide)⟩

/-- A single job that waits. -/
theorem waiting_eq (hone : w.waiting.length = 1) (hne : w.waiting ≠ []) :
    w.waiting = [] ++ w.waiting.head hne :: [] := by
  obtain ⟨a, ha⟩ := List.length_eq_one_iff.mp hone
  simp only [ha, List.head_cons, List.nil_append]

end Engine

end Decompile
