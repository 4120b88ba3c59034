import Decompile.Proofs.Conservation.Attempts
import Decompile.Proofs.Conservation.Chunks
import Decompile.Proofs.Conservation.Outputs
import Decompile.Proofs.Provenance.Stage

/-!
# A stage that has succeeded

A stage tries each chunk until an attempt succeeds. What failed attempts keep and the one that
succeeds advances, the stage has advanced to the end of its chunks.

- `Rests`: nothing was changed, no attempt begun and no tool called.
- `Advances`: a property of the first chunks, kept by attempts that fail and advanced by one that
  succeeds; `Advances.runItems`: it reaches the last chunk.
- `runItems_tried`: what is noted of the attempts.
- `runItems_wrote`: what the attempts have written, those that failed included.
- `StageRun`: the parts of a stage that has succeeded.
-/

namespace Decompile

open Site (Hosts)

/-! ## Rest -/

/-- Nothing was changed, no attempt begun and no tool called. -/
structure Rests (w v : World) : Prop where
  still : Still w v
  worked : Worked [] w v

instance : Std.Refl Rests := ⟨fun w => ⟨Std.Refl.refl w, .refl w⟩⟩

instance : IsTrans World Rests :=
  ⟨fun _ _ _ hu hv => ⟨IsTrans.trans _ _ _ hu.still hv.still, hu.worked.append hv.worked⟩⟩

variable {h : Host} {c : StageContext} {kind : StageKind} {items : Items} {w v u : World}

theorem Act.Keeps.rests {α : Type} {x : Act α} (hstill : Act.Keeps Still x)
    (hmoves : Act.Keeps (Moves h fun _ => False) x) : Act.Keeps Rests x :=
  fun w => ⟨hstill w, hmoves.worked w⟩

theorem World.pause_rests : Act.Keeps Rests (pause h) := pause_still.rests pause_moves

theorem World.log_rests (level : LogLevel) (target text : String) :
    Act.Keeps Rests (log level target text) :=
  fun _ => ⟨log_still level target text _, .of_note rfl rfl⟩

theorem World.publish_rests (key : String) (m : BusMessage) : Act.Keeps Rests (publish key m) :=
  fun _ => ⟨publish_still key m _, .of_note rfl rfl⟩

theorem World.readBytes_rests (p : FilePath) : Try.Keeps Rests (readBytes h p) :=
  Act.Keeps.rests (readBytes_still p) (readBytes_moves p)

theorem pollCancelled_rests (ticket : Nat) : Act.Keeps Rests (pollCancelled h ticket) :=
  (pollCancelled_still ticket).rests (pollCancelled_moves ticket)

theorem watch_rests (m : Option Monitor) :
    Act.Keeps Rests (modify fun w : World => { w with monitor := m }) :=
  fun _ => ⟨.of_eq rfl rfl rfl rfl, .of_eq rfl⟩

theorem Site.Hosts.of_rests {s : Site} (hw : s.Hosts w) (hr : Rests w v) : s.Hosts v :=
  hw.of_still hr.still

/-! ## One attempt -/

/-- An attempt notes that it begins, and makes the calls that are planned for the chunk, or the
first of them if it fails. -/
theorem attempt_worked (kind : StageKind) (index : Nat) (items : Items) (chunk : Chunk) (w : World) :
    ∃ made, made <+: plannedCalls h c kind items chunk ∧
      Worked (Attempt.noted ⟨c.ticket, kind, index, made⟩) w
        ((attempt h c kind index items chunk).settle.run w).2 ∧
      ∀ a, ((attempt h c kind index items chunk).settle.run w).1 = .ok a →
        made = plannedCalls h c kind items chunk := by
  unfold attempt
  rw [Try.run_settle_lift_bind]
  have hbegun : Worked [.attempted c.ticket kind index] w
      ((World.note (.attempted c.ticket kind index)).run w).2 :=
    @Worked.of_journal [.attempted c.ticket kind index] _ _ rfl
  generalize ((World.note (.attempted c.ticket kind index)).run w).2 = u at hbegun
  have hbreak : Try.Keeps (Worked []) Work.breakOff := (Work.breakOff_moves (h := h)).worked
  have hfirst := hbreak u
  rw [Try.run_settle_bind]
  rcases hrun : Work.breakOff.settle.run u with ⟨e | _, u'⟩
  · rw [hrun] at hfirst
    exact ⟨[], List.nil_prefix, hbegun.append hfirst, nofun⟩
  · rw [hrun] at hfirst
    obtain ⟨made, hmade, hworked, hall⟩ :=
      Work.processChunk_calls (h := h) (c := c) kind index items chunk u'
    refine ⟨made, hmade, ?_⟩
    simp only [Try.run_settle_outcome_bind]
    generalize (Work.processChunk h c kind index items chunk).settle.run u' = r at hworked hall ⊢
    obtain ⟨r, u''⟩ := r
    have hsofar := (hbegun.append hfirst).append hworked
    cases r with
    | ok a =>
      have hlast := hsofar.append (hbreak u'')
      rw [List.append_nil] at hlast
      exact ⟨hlast, fun _ _ => hall a rfl⟩
    | error e =>
      have hthrow : Try.Keeps (Worked []) (Work.breakOff >>= fun _ =>
        (throw e : Try StageError Unit)) := hbreak.bind fun _ => .throw e
      have hlast := hsofar.append (hthrow u'')
      rw [List.append_nil] at hlast
      refine ⟨hlast, fun a hok => ?_⟩
      -- a failure is not taken back
      have hnever : Try.Succeeds (Work.breakOff >>= fun _ => (throw e : Try StageError Unit)) u'' a
        _ := Prod.ext hok rfl
      obtain ⟨_, _, -, hthrow⟩ := hnever.bind
      exact absurd hthrow Try.Succeeds.not_throw

/-- An attempt changes what the work on the chunk changes. -/
theorem attempt_alters {s : Site} {X : Change → Prop} {index : Nat} {chunk : Chunk}
    (hwork : Try.Keeps (s.Alters X) (Work.processChunk h c kind index items chunk)) :
    Try.Keeps (s.Alters X) (attempt h c kind index items chunk) := by
  unfold attempt
  refine .bind (.lift (Act.Keeps.alters (World.note_still rfl))) fun _ => ?_
  refine Work.breakOff_still.alters.bind fun _ => hwork.outcome.bind fun r => ?_
  cases r with
  | ok _ => exact Work.breakOff_still.alters
  | error e => exact Work.breakOff_still.alters.bind fun _ => .throw e

/-- When an attempt succeeds, so does the work on the chunk. -/
theorem attempt_succeeds {index : Nat} {chunk : Chunk}
    (hrun : (attempt h c kind index items chunk).Succeeds w () v) :
    ∃ u u', Still w u ∧ (Work.processChunk h c kind index items chunk).Succeeds u () u' ∧
      Still u' v := by
  unfold attempt at hrun
  replace hrun := Try.Succeeds.lift hrun
  have hnote : Still w ((World.note (.attempted c.ticket kind index)).run w).2 :=
    World.note_still rfl w
  obtain ⟨_, u, hbreak, hrun⟩ := Try.Succeeds.bind hrun
  replace hrun := Try.Succeeds.outcome hrun
  rcases hwork : (Work.processChunk h c kind index items chunk).settle.run u with ⟨e | _, u'⟩
  · rw [hwork] at hrun
    obtain ⟨_, _, -, hthrow⟩ := Try.Succeeds.bind hrun
    exact absurd hthrow Try.Succeeds.not_throw
  · rw [hwork] at hrun
    exact ⟨u, u', IsTrans.trans _ _ _ hnote (hbreak.keeps Work.breakOff_still), hwork,
      Try.Succeeds.keeps hrun Work.breakOff_still⟩

/-! ## All chunks -/

/-- The chunks of a stage. -/
def StageContext.chunks (c : StageContext) (items : Items) : List Chunk :=
  chunksOf items.count c.job.submission.chunkSize

/-- A property of the first chunks, which attempts that fail keep and one that succeeds advances. -/
structure Advances (h : Host) (c : StageContext) (kind : StageKind) (items : Items)
    (I : Nat → World → Prop) : Prop where
  rests : ∀ {k w v}, Rests w v → I k w → I k v
  failed : ∀ {k chunk w v e}, (c.chunks items)[k]? = some chunk → I k w →
    (attempt h c kind k items chunk).settle.run w = (.error e, v) → I k v
  done : ∀ {k chunk w v}, (c.chunks items)[k]? = some chunk → I k w →
    (attempt h c kind k items chunk).Succeeds w () v → I (k + 1) v

namespace Advances

variable {I : Nat → World → Prop} (hI : Advances h c kind items I)

include hI

theorem runChunk {k : Nat} {chunk : Chunk} (hchunk : (c.chunks items)[k]? = some chunk) (left : Nat)
    (failures : UInt32) {r : Nat × UInt32} (hw : I k w)
    (hrun : (runChunk h c kind k items chunk left failures).Succeeds w r v) : I (k + 1) v := by
  induction left generalizing failures w with
  | zero =>
    unfold Decompile.runChunk at hrun
    replace hrun := Try.Succeeds.outcome hrun
    rcases hattempt : (attempt h c kind k items chunk).settle.run w with ⟨e | _, u⟩
    · rw [hattempt] at hrun
      replace hrun := Try.Succeeds.lift (x := pollCancelled h c.ticket) (Try.Succeeds.passed hrun).2
      -- no further attempt is allowed, so the stage fails
      exact absurd (Try.Succeeds.passed hrun).2 Try.Succeeds.not_throw
    · rw [hattempt] at hrun
      obtain ⟨-, rfl⟩ := hrun.pure
      exact hI.done hchunk hw hattempt
  | succ left ih =>
    unfold Decompile.runChunk at hrun
    replace hrun := Try.Succeeds.outcome hrun
    rcases hattempt : (attempt h c kind k items chunk).settle.run w with ⟨e | _, u⟩
    · rw [hattempt] at hrun
      have hu := hI.rests (pollCancelled_rests (h := h) c.ticket u) (hI.failed hchunk hw hattempt)
      replace hrun := Try.Succeeds.lift (x := pollCancelled h c.ticket) (Try.Succeeds.passed hrun).2
      -- the next attempt comes after two notices
      replace hrun := Try.Succeeds.lift (Try.Succeeds.passed hrun).2
      replace hrun := Try.Succeeds.lift hrun
      exact ih _ (hI.rests (World.publish_rests _ _ _) (hI.rests (World.log_rests _ _ _ _) hu)) hrun
    · rw [hattempt] at hrun
      obtain ⟨-, rfl⟩ := hrun.pure
      exact hI.done hchunk hw hattempt

theorem runChunks {total k left : Nat} {failures : UInt32} {chunks : List Chunk}
    (hchunks : (c.chunks items).drop k = chunks) (hw : I k w)
    (hrun : (runChunks h c kind items total k left failures chunks).Succeeds w () v) :
    I (k + chunks.length) v := by
  induction chunks generalizing k left failures w with
  | nil =>
    obtain ⟨-, rfl⟩ := hrun.pure
    exact hw
  | cons chunk rest ih =>
    have hchunk : (c.chunks items)[k]? = some chunk := by
      rw [← List.head?_drop, hchunks, List.head?_cons]
    have hrest : (c.chunks items).drop (k + 1) = rest := by
      rw [← List.tail_drop, hchunks, List.tail_cons]
    unfold Decompile.runChunks at hrun
    replace hrun := Try.Succeeds.lift (x := pollCancelled h c.ticket) hrun
    replace hrun := Try.Succeeds.lift (Try.Succeeds.passed hrun).2
    obtain ⟨spent, u, hone, hrun⟩ := Try.Succeeds.bind hrun
    replace hrun := Try.Succeeds.lift (x := pollCancelled h c.ticket) hrun
    have hpolled := hI.rests (pollCancelled_rests (h := h) c.ticket w) hw
    have hu := hI.runChunk hchunk left failures
      (hI.rests (World.publish_rests _ _ _) hpolled) hone
    have hdone := hI.rests (pollCancelled_rests (h := h) c.ticket u) hu
    have hlast := ih hrest hdone (Try.Succeeds.passed hrun).2
    rwa [List.length_cons, Nat.add_comm rest.length, ← Nat.add_assoc]

/-- **The property reaches the last chunk.** -/
theorem runItems (hw : I 0 w) (hrun : (runItems h c kind items).Succeeds w () v) :
    I (c.chunks items).length v := by
  have hlast := hI.runChunks (List.drop_zero) hw hrun
  rwa [Nat.zero_add] at hlast

end Advances

/-- The calls of a stage for the chunk of a number. -/
def chunkPlan (h : Host) (c : StageContext) (kind : StageKind) (items : Items) (k : Nat) :
    List Invocation :=
  match (c.chunks items)[k]? with
  | some chunk => plannedCalls h c kind items chunk
  | none => []

/-- The attempts of a stage that has succeeded. -/
theorem runItems_tried (hrun : (runItems h c kind items).Succeeds w () v) :
    ∃ as, Worked (as.flatMap Attempt.noted) w v ∧
      Tried c.ticket kind (chunkPlan h c kind items) (c.chunks items).length 0
        (c.chunks items).length as := by
  have hplan : ∀ {k chunk}, (c.chunks items)[k]? = some chunk →
      chunkPlan h c kind items k = plannedCalls h c kind items chunk := fun hchunk => by
    rw [chunkPlan, hchunk]
  have hlt : ∀ {k chunk}, (c.chunks items)[k]? = some chunk → k < (c.chunks items).length :=
    fun hchunk => (List.getElem?_eq_some_iff.mp hchunk).1
  refine Advances.runItems (I := fun k u => ∃ as, Worked (as.flatMap Attempt.noted) w u ∧
    Tried c.ticket kind (chunkPlan h c kind items) (c.chunks items).length 0 k as)
    ⟨?_, ?_, ?_⟩ ⟨[], .refl w, .none 0⟩ hrun
  · rintro k u x hrests ⟨as, hworked, has⟩
    have hmore := hworked.append hrests.worked
    rw [List.append_nil] at hmore
    exact ⟨as, hmore, has⟩
  · rintro k chunk u x e hchunk ⟨as, hworked, has⟩ hattempt
    obtain ⟨made, hmade, hmore, -⟩ := attempt_worked (h := h) (c := c) kind k items chunk u
    rw [hattempt] at hmore
    refine ⟨as ++ [⟨c.ticket, kind, k, made⟩], ?_, ?_⟩
    · rw [List.flatMap_append, List.flatMap_singleton]
      exact hworked.append hmore
    · exact has.append (.failed (hlt hchunk) (hplan hchunk ▸ hmade) (.none k))
  · rintro k chunk u x hchunk ⟨as, hworked, has⟩ hattempt
    obtain ⟨made, -, hmore, hall⟩ := attempt_worked (h := h) (c := c) kind k items chunk u
    rw [show (attempt h c kind k items chunk).settle.run u = (.ok (), x) from hattempt] at hmore hall
    obtain rfl := hall () rfl
    refine ⟨as ++ [⟨c.ticket, kind, k, chunkPlan h c kind items k⟩], ?_, ?_⟩
    · rw [List.flatMap_append, List.flatMap_singleton, hplan hchunk]
      exact hworked.append hmore
    · exact has.append (.done (hlt hchunk) (.none (k + 1)))

/-! ## What was written -/

section

variable {s : Site}

/-- What attempts change, whether they succeed or not, all of them change. -/
theorem runItems_alters {X : Change → Prop} (halters : ∀ {k chunk}, (c.chunks items)[k]? = some chunk →
      Try.Keeps (s.Alters X) (Work.processChunk h c kind k items chunk))
    (hrun : (runItems h c kind items).Succeeds w () v) : s.Alters X w v := by
  refine Advances.runItems (I := fun _ u => s.Alters X w u) ⟨?_, ?_, ?_⟩ (Std.Refl.refl w) hrun
  · exact fun hrests hu => IsTrans.trans _ _ _ hu (.of_still hrests.still)
  · exact fun hchunk hu hattempt =>
      IsTrans.trans _ _ _ hu ((attempt_alters (halters hchunk)).of_run hattempt)
  · exact fun hchunk hu hattempt =>
      IsTrans.trans _ _ _ hu ((attempt_alters (halters hchunk)).of_run hattempt)

/-- **What was written.** Let work on chunk `k` fill places `L k` only, and let work that succeeds
have written `W k` and thereby all of `L k`. Then a stage has written the rows of all chunks, however
often it tried. -/
theorem runItems_wrote {L : Nat → Place → Prop} {W : Nat → List (Place × Bytes)} (hw : s.Hosts w)
    (halters : ∀ {k chunk}, (c.chunks items)[k]? = some chunk →
      Try.Keeps (s.Alters (Site.Fills (L k))) (Work.processChunk h c kind k items chunk))
    (hdone : ∀ {k chunk u x}, (c.chunks items)[k]? = some chunk →
      s.Course (Site.Fills fun q => ∃ k, L k q) w u →
      (Work.processChunk h c kind k items chunk).Succeeds u () x →
        u.disk.Wrote (W k) x.disk ∧ ∀ q, L k q → lastWrite (W k) q ≠ none)
    (hrun : (runItems h c kind items).Succeeds w () v) :
    s.Course (Site.Fills fun q => ∃ k, L k q) w v ∧
      w.disk.Wrote ((List.range (c.chunks items).length).flatMap W) v.disk := by
  have hall : ∀ {k chunk}, (c.chunks items)[k]? = some chunk → Try.Keeps
      (s.Alters (Site.Fills fun q => ∃ k, L k q)) (Work.processChunk h c kind k items chunk) :=
    fun hchunk => Act.Keeps.mono (halters hchunk) fun _ _ ha =>
      ha.mono fun _ => Site.Fills.mono fun _ hq => ⟨_, hq⟩
  let I : Nat → World → Prop := fun k u => s.Course (Site.Fills fun q => ∃ k, L k q) w u ∧
    Disk.Written (fun q => k < (c.chunks items).length ∧ L k q) ((List.range k).flatMap W)
      w.disk u.disk
  suffices hadvances : Advances h c kind items I by
    obtain ⟨hcourse, hwritten⟩ := hadvances.runItems ⟨.refl, .refl _⟩ hrun
    exact ⟨hcourse, hwritten.mono fun q hq => absurd hq.1 (Nat.lt_irrefl _)⟩
  refine ⟨?_, ?_, ?_⟩
  · rintro k u x hrests ⟨hcourse, hwritten⟩
    rw [← hrests.still.disk] at hwritten
    exact ⟨hcourse.trans (Site.Alters.of_still hrests.still (hcourse.hosts hw)), hwritten⟩
  · rintro k chunk u x e hchunk ⟨hcourse, hwritten⟩ hattempt
    have hu := hcourse.hosts hw
    have hmore := (attempt_alters (halters hchunk)).of_run hattempt hu
    refine ⟨hcourse.trans ((attempt_alters (hall hchunk)).of_run hattempt hu), ?_⟩
    refine hwritten.leave fun q hq => hmore.untouched fun change hchange hplace => hq ?_
    exact ⟨(List.getElem?_eq_some_iff.mp hchunk).1, hplace ▸ hchange.place⟩
  · rintro k chunk u x hchunk ⟨hcourse, hwritten⟩ hattempt
    have hu := hcourse.hosts hw
    obtain ⟨y, z, hbefore, hwork, hafter⟩ := attempt_succeeds hattempt
    obtain ⟨hwrote, hcovered⟩ :=
      hdone hchunk (hcourse.trans (Site.Alters.of_still hbefore hu)) hwork
    rw [hbefore.disk, ← hafter.disk] at hwrote
    refine ⟨hcourse.trans ((attempt_alters (hall hchunk)).of_run hattempt hu), ?_⟩
    rw [List.range_succ, List.flatMap_append, List.flatMap_singleton]
    exact (hwritten.append hwrote fun q hq => hcovered q hq.2).mono fun _ => False.elim

end

/-! ## A whole stage -/

/-- The parts of a stage that has succeeded, one after another. -/
inductive StageRun (h : Host) (c : StageContext) (kind : StageKind) (w v : World) : Prop where
  | mk {w₁ w₂ w₃ w₄ w₅ w₆ w₇ w₈ : World} (items : Items)
    (starts : Rests w w₁)
    (prepares : (prepareOutput h c kind).Succeeds w₁ () w₂)
    (watches : Rests w₂ w₃)
    (collects : (Items.collect h c kind).Succeeds w₃ items w₄)
    (works : (runItems h c kind items).Succeeds w₄ () w₅)
    (stops : Rests w₅ w₆)
    (finishes : (finishOutput h c kind).Succeeds w₆ () w₇)
    (discards : w₈ = if c.job.submission.keepIntermediate then w₇
      else ((discardConsumed h c kind items).settle.run w₇).2)
    (ends : Rests w₈ v) : StageRun h c kind w v

theorem runWatched_succeeds (hrun : (runWatched h c kind).Succeeds w () v) :
    ∃ items w₃ w₄ w₅ w₆ w₇ w₈, Rests w w₃ ∧ (Items.collect h c kind).Succeeds w₃ items w₄ ∧
      (runItems h c kind items).Succeeds w₄ () w₅ ∧ Rests w₅ w₆ ∧
      (finishOutput h c kind).Succeeds w₆ () w₇ ∧
      (w₈ = if c.job.submission.keepIntermediate then w₇
        else ((discardConsumed h c kind items).settle.run w₇).2) ∧ Rests w₈ v := by
  unfold runWatched at hrun
  replace hrun := Try.Succeeds.lift (x := startMonitor h c) hrun
  replace hrun := Try.Succeeds.lift (x := World.pause h) hrun
  have hwatch : Rests w ((World.pause h).run ((startMonitor h c).run w).2).2 :=
    IsTrans.trans _ _ _ (watch_rests _ w) (World.pause_rests _)
  replace hrun := Try.Succeeds.outcome hrun
  rcases hwork : (collectAndRun h c kind).settle.run _ with ⟨e | items, u⟩
  · rw [hwork] at hrun
    replace hrun := Try.Succeeds.lift (x := World.pause h) hrun
    replace hrun := Try.Succeeds.lift (x := stopMonitor) hrun
    exact absurd hrun Try.Succeeds.not_throw
  rw [hwork] at hrun
  replace hrun := Try.Succeeds.lift (x := World.pause h) hrun
  replace hrun := Try.Succeeds.lift (x := stopMonitor) hrun
  have hstop : Rests u ((stopMonitor).run ((World.pause h).run u).2).2 :=
    IsTrans.trans _ _ _ (World.pause_rests u) (watch_rests none _)
  obtain ⟨found, w₄, hcollect, hwork⟩ := Try.Succeeds.bind (t := Items.collect h c kind) hwork
  obtain ⟨_, w₅, hitems, hlast⟩ := Try.Succeeds.bind (t := runItems h c kind found) hwork
  obtain ⟨rfl, rfl⟩ := hlast.pure
  obtain ⟨_, w₇, hfinish, hrun⟩ := Try.Succeeds.bind (t := finishOutput h c kind) hrun
  refine ⟨items, _, w₄, u, _, w₇, _, hwatch, hcollect, hitems, hstop, hfinish, rfl, ?_⟩
  cases hkeep : c.job.submission.keepIntermediate with
  | true =>
    rw [hkeep] at hrun
    obtain ⟨-, rfl⟩ := Try.Succeeds.pure hrun
    exact Std.Refl.refl _
  | false =>
    rw [hkeep] at hrun
    replace hrun := Try.Succeeds.outcome (t := discardConsumed h c kind items) hrun
    rcases hdiscard : (discardConsumed h c kind items).settle.run w₇ with ⟨e | _, x⟩
    · rw [hdiscard] at hrun
      exact Try.Succeeds.keeps hrun (Try.Keeps.lift (World.log_rests _ _ _))
    · rw [hdiscard] at hrun
      obtain ⟨-, rfl⟩ := Try.Succeeds.pure hrun
      exact Std.Refl.refl _

/-- A stage whose result is success has gone through all its parts. -/
theorem runStage_succeeded {stage : Stage} (hrun : (runStage h c stage).run w = (.succeeded, v)) :
    StageRun h c stage.kind w v := by
  unfold runStage at hrun
  simp only [Act.run_bind] at hrun
  have hstart : Rests w ((World.emit c.job.targetKey
      ((ProgressEvent.status stage.kind.title "Started").withSecondary c.job.submission.label)).run
        ((World.log .info Work.logTarget (stageLogHead c stage.kind ++ "stage " ++
          countText stage.ordinal ++ " started")).run w).2).2 :=
    IsTrans.trans _ _ _ (World.log_rests _ _ _ w) (World.publish_rests _ _ _)
  rcases hwork : (workOfStage h c stage.kind).settle.run _ with ⟨e | _, u⟩
  · rw [hwork] at hrun
    cases e <;> cases (Prod.mk.inj hrun).1
  · rw [hwork] at hrun
    obtain rfl := (Prod.mk.inj hrun).2
    obtain ⟨_, w₂, hprepare, hwatched⟩ := Try.Succeeds.bind (t := prepareOutput h c stage.kind) hwork
    obtain ⟨items, w₃, w₄, w₅, w₆, w₇, w₈, hwatch, hcollect, hitems, hstop, hfinish, hdiscard,
      hend⟩ := runWatched_succeeds hwatched
    exact .mk items hstart hprepare hwatch hcollect hitems hstop hfinish hdiscard
      (IsTrans.trans _ _ _ hend (World.log_rests _ _ _ u))

end Decompile
