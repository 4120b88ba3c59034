import Decompile.Proofs.Discards.Clearing
import Decompile.Proofs.Discards.Work

/-!
# A stage that discards what it has consumed

A stage is run twice: by a job that keeps intermediate files, and by one that does not. Both do the same
up to the mark of its end; then the second one discards what it has consumed.

- `Site.Parted`: the worlds of the two runs, whatever their moments.
- `Lacks.clearAway`: what a stage has consumed is discarded.
- `Lacks.prepared_items`: the items of a stage that is finished.
- `Site.Grounded.runStage`: the stage comes to the same; then one disk lacks more than before.
-/

namespace Decompile

namespace Site

/-- The worlds of the two runs: all is the same but for moments and disks, and one disk lacks what has
been discarded. -/
structure Parted (s : Site) (j : Job) (done : List StageKind) (u v : World) : Prop where
  veiled : Veiled u v
  home : u.cwd = s.cwd
  lacks : s.Lacks j done u.disk v.disk

variable {s : Site} {h k : Host} {c : StageContext} {kind source : StageKind} {named : String → Bool}
  {j : Job} {d d' d₀ d₀' : Disk} {done : List StageKind} {a a' : Nat} {u v : World} {items : Items}

theorem Parted.of_beside (huv : Beside a a' s.cwd (s.Lacks j done) u v) : s.Parted j done u v :=
  ⟨huv.veiled, huv.home, huv.disks⟩

theorem Parted.home' (huv : s.Parted j done u v) : v.cwd = s.cwd := huv.veiled.cwd.symm.trans huv.home

theorem discards_keeping (keep : Option Bool) :
    s.discards (c.keeping keep).job kind = s.discards c.job kind := by
  cases kind <;> rfl

theorem sourceOf_keeping (keep : Option Bool) : sourceOf (c.keeping keep).job kind = sourceOf c.job kind := by
  cases kind <;> rfl

theorem Serves.keeping (hc : s.Serves h c) (keep : Option Bool) : s.Serves h (c.keeping keep) :=
  ⟨hc.sources, hc.key, hc.layout, hc.clean⟩

/-- **What a stage has consumed is discarded** from the second disk, if nothing happens meanwhile. -/
theorem Lacks.clearAway (hs : s.Grounded) (hc : s.Serves h c) (hl : s.Lacks c.job done d₀ d₀')
    (h' : Precede c.job.backend done kind) (huv : Beside a a' s.cwd (s.During kind d₀ d₀') u v)
    (hitems : ∀ source named, sourceOf c.job kind = some (source, named) →
      items = .files ((s.filesIn d₀ source named).map (Disk.childPath (outputOf c.layout source))))
    (hquiet : h.Quiet v.clock
      ((Decompile.clearAway h (c.keeping (some false)) kind items).settle.run v).2.clock) :
    s.Parted c.job (done ++ [kind]) u
      ((Decompile.clearAway h (c.keeping (some false)) kind items).settle.run v).2 := by
  obtain ⟨hveiled, hgone⟩ := huv.disks.right.clearAway_discards kind items hs (hc.keeping (some false)) rfl
    huv.home' (fun source named hsource => by
      rw [sourceOf_keeping] at hsource
      rw [hitems source named hsource,
        huv.disks.filesIn_right (sourceOf_ne hsource) (hl.agreeOn h' hsource)]
      rfl) hquiet
  rw [discards_keeping] at hgone
  exact ⟨huv.veiled.trans hveiled, huv.home, (hl.of_during h' huv.disks).discard hgone⟩

variable (hs : s.Grounded) (hc : s.Serves h c) (hsettings : h.settings = k.settings)
  (hcatalog : h.catalog = k.catalog) (hceiling : h.memoryCeiling = k.memoryCeiling)
include hs hc hsettings hcatalog hceiling

/-- The items of a stage that is finished are the files that were found when it began. -/
theorem Lacks.prepared_items (hsource : sourceOf c.job kind = some (source, named))
    (huv : Beside a a' s.cwd (s.During kind d₀ d₀') u v) {w : World}
    (hrun : (preparedWork (k.followedBy a h a') c kind).Succeeds u items w) :
    items = .files ((s.filesIn d₀ source named).map (Disk.childPath (outputOf c.layout source))) := by
  have T := hs.twins hc kind d₀ d₀' hsettings hcatalog hceiling a a'
  have hne := sourceOf_ne hsource
  obtain ⟨_, u', hprepare, hfinish⟩ := Try.Succeeds.bind hrun
  have hprepared : Beside a a' s.cwd (s.During kind d₀ d₀')
      ((prepareOutput (k.followedBy a h a') c kind).settle.run u).2 _ :=
    (T.prepareOutput (c := c) none kind (Realm.make_self _) (fun n hn =>
      ⟨[n], List.cons_ne_nil _ _, .ofChild (isEntryName_of_isMarkerName hn)⟩) u v huv).2
  rw [show ((prepareOutput _ c kind).settle.run u).2 = u' from congrArg Prod.snd hprepare] at hprepared
  refine T.finishedWork_gain (φ := fun items => items = .files ((s.filesIn d₀ source named).map
    (Disk.childPath (outputOf c.layout source)))) (fun x y found w hxy hcollect => ?_) hprepared hfinish
  rw [← hxy.disks.filesIn_left hne]
  exact Items.collect_finds hs hc ⟨hxy.home, hxy.disks.left.sited⟩ hxy.disks.left hsource hcollect

/-- **A stage comes to the same in both runs**, and if it has succeeded, one disk lacks what it has
consumed. -/
theorem Grounded.runStage (htool : k.tool = h.tool) (hinput : s.Apart c.job.submission.inputPath)
    (htools : h.Reproducible c s.cwd) (hkeep : c.job.submission.keepIntermediate = true) {stage : Stage}
    (h' : Precede c.job.backend done stage.kind) :
    Act.PairsTo (Beside a a' s.cwd (s.Lacks c.job done))
      (fun r u v => h.Quiet (a' + (u.clock - a)) v.clock →
        s.Parted c.job (if r = .succeeded then done ++ [stage.kind] else done) u v)
      (Decompile.runStage (k.followedBy a h a') c stage)
      (Decompile.runStage h (c.keeping (some false)) stage) := by
  refine Twins.runStage (S := fun r u v => h.Quiet (a' + (u.clock - a)) v.clock →
    s.Parted c.job (if r = .succeeded then done ++ [stage.kind] else done) u v) rfl rfl
    (fun _ => Beside.note _) Beside.publish ?_ fun r l u v huv => ⟨rfl, fun hquiet => ?_⟩
  swap
  · obtain ⟨hveiled, hhome, hlacks⟩ := huv hquiet
    exact ⟨(Veiled.note _ u v hveiled).2, hhome, hlacks⟩
  intro u v huv
  have hl := huv.disks
  have hbegun : Beside a a' s.cwd (s.During stage.kind u.disk v.disk) u v :=
    huv.mono fun hl => hl.during hs.fresh h'
  rw [workOfStage_eq, workOfStage_eq, Try.run_settle_bind, Try.run_settle_bind]
  obtain ⟨hsame, hrel⟩ :=
    hl.prepared hs hc hsettings hcatalog hceiling htool h' hinput htools (some false) u v hbegun
  have hitems : ∀ source named, sourceOf c.job stage.kind = some (source, named) → ∀ items w,
      (preparedWork (k.followedBy a h a') c stage.kind).Succeeds u items w → items =
        .files ((s.filesIn u.disk source named).map (Disk.childPath (outputOf c.layout source))) :=
    fun _ _ hsource _ _ => Lacks.prepared_items hs hc hsettings hcatalog hceiling hsource hbegun
  unfold Try.Succeeds at hitems
  rcases hleft : (preparedWork (k.followedBy a h a') c stage.kind).settle.run u with ⟨r, u'⟩
  rcases hright : (preparedWork h (c.keeping (some false)) stage.kind).settle.run v with ⟨r', v'⟩
  rw [hleft, hright] at hsame hrel
  rw [hleft] at hitems
  obtain rfl : r = r' := hsame
  replace hrel : Beside a a' s.cwd (s.During stage.kind u.disk v.disk) u' v' := hrel
  cases r with
  | error e =>
    have hfailed : resultOf (.error e) ≠ .succeeded := by cases e <;> nofun
    refine ⟨rfl, fun _ => ?_⟩
    rw [if_neg hfailed]
    exact ⟨hrel.veiled, hrel.home, hl.of_during h' hrel.disks⟩
  | ok items =>
    have hok := clearAway_ok h (c.keeping (some false)) stage.kind items v'
    have hclear := hl.clearAway hs hc h' hrel fun source named hsource =>
      hitems source named hsource items u' rfl
    simp only [clearAway_keeps hkeep]
    generalize (Decompile.clearAway h (c.keeping (some false)) stage.kind items).settle.run v' = cleared
      at hok hclear ⊢
    refine ⟨hok.symm, fun hquiet => hclear ?_⟩
    have hmoment : a' + (u'.clock - a) = v'.clock := by
      have hshift := hrel.shift
      have hlater := hrel.begun
      omega
    exact hmoment ▸ hquiet

end Site

end Decompile
