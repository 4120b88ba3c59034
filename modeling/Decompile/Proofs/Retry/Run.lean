import Decompile.Proofs.Conservation.Stage
import Decompile.Proofs.Retry.Budget

/-!
# The attempts of a stage

What a stage does with its items is the rule of attempts, carried out: whatever the attempts come to,
the stage makes the next one that the rule asks for, and ends when and as the rule says.

- `Idle`: time passes between attempts, and nothing is done for the stage.
- `Course`: the attempts of a stage up to a world, each told before it is made.
- `runChunk_came`, `runChunks_over`: what the loops do.
- `runItems_obeyed`: the whole stage, unless the job is asked to stop.
-/

namespace Decompile

/-- How many attempts of a stage may fail that are worth another; the last of them ends it. -/
def StageContext.budget (c : StageContext) : Nat := max c.job.submission.maxAttempts.toNat 1

theorem StageContext.budget_pos (c : StageContext) : 0 < c.budget := Nat.le_max_right _ _

namespace Retry

/-- Time passes, and others may ask jobs to stop or use memory. -/
structure Idle (h : Host) (w v : World) : Prop where
  rests : Rests w v
  quiet : Moves h (fun _ => False) w v

theorem Idle.trans {h : Host} {w v u : World} (hw : Idle h w v) (hv : Idle h v u) : Idle h w u :=
  ⟨IsTrans.trans _ _ _ hw.rests hv.rests, hw.quiet.trans hv.quiet⟩

theorem Idle.refl {h : Host} (w : World) : Idle h w w := ⟨Std.Refl.refl w, Std.Refl.refl w⟩

theorem idle_pause (h : Host) (w : World) : Idle h w ((World.pause h).run w).2 :=
  ⟨World.pause_rests w, World.pause_moves w⟩

theorem idle_log (h : Host) (level : LogLevel) (target text : String) (w : World) :
    Idle h w ((World.log level target text).run w).2 :=
  ⟨World.log_rests level target text w, World.log_moves level target text w⟩

/-- The text of what is told before a trial, if there are `total` chunks. -/
def Notice.event (c : StageContext) (kind : StageKind) (total : Nat) : Notice → ProgressEvent
  | .chunk index =>
    .status kind.title ("Chunk " ++ countText (index + 1) ++ " of " ++ countText total)
  | .again number =>
    .status kind.title ("Retrying " ++ String.ofList (Text.lower kind.title.toList) ++ " (attempt "
      ++ countText number ++ " of " ++ countText c.job.submission.maxAttempts.toNat ++ ")")

section

variable (h : Host) (c : StageContext) (kind : StageKind) (items : Items)

/-- What a stage does next after some trials. -/
def asks (past : List Trial) : Next := next (c.chunks items).length c.budget past

/-- Tells what is told before the next trial. -/
def announce (past : List Trial) (chunk : Nat) : Act Unit :=
  World.emit c.job.targetKey ((notice past chunk).event c kind (c.chunks items).length)

/-- These attempts were made since a world. Each was asked for by those before it, was told right
before it was made, and came to what the trial says. -/
inductive Course (w : World) : List Trial → World → Prop where
  | begun : Course w [] w
  | tried {past : List Trial} {t : Trial} {chunk : Chunk} {v u x : World} (before : Course w past v)
    (asked : asks c items past = .attempt t.chunk) (idle : Idle h v u)
    (there : (c.chunks items)[t.chunk]? = some chunk)
    (made : (attempt h c kind t.chunk items chunk).settle.run
      ((announce c kind items past t.chunk).run u).2 = (t.result, x)) : Course w (past ++ [t]) x

theorem Course.allowed {w v : World} {ts : List Trial} (hcourse : Course h c kind items w ts v) :
    Allowed (c.chunks items).length c.budget ts := by
  induction hcourse with
  | begun => exact .none
  | tried _ asked _ _ _ ih => exact ih.more asked

/-- An attempt is about to be made. -/
structure Poised (w : World) (past : List Trial) (k : Nat) (x : World) : Prop where
  asked : asks c items past = .attempt k
  told : ∃ v u, Course h c kind items w past v ∧ Idle h v u ∧
    x = ((announce c kind items past k).run u).2

/-- The counters of the loop stand where the trials so far put them. -/
structure Spent (past : List Trial) (left : Nat) (failures : UInt32) : Prop where
  left : left + transients past + 1 = c.budget
  failures : failures.toNat = transients past

/-- What the attempts at a chunk come to. -/
inductive Came (w : World) (k : Nat) : Except StageError (Nat × UInt32) → World → Prop where
  | done {past : List Trial} {left : Nat} {failures : UInt32} {v : World}
    (course : Course h c kind items w (past ++ [⟨k, .ok ()⟩]) v)
    (spent : Spent c (past ++ [⟨k, .ok ()⟩]) left failures) : Came w k (.ok (left, failures)) v
  | stopped {ts : List Trial} {e : StageError} {u v : World} (course : Course h c kind items w ts u)
    (idle : Idle h u v) (ends : asks c items ts = .finish (.error e)) : Came w k (.error e) v

end

variable {h : Host} {c : StageContext} {kind : StageKind} {items : Items}

/-- A poll in an action that was not asked to stop: the action goes on. -/
theorem run_poll {α : Type} {f : Unit → Try StageError α} {w v : World} {r : Except StageError α}
    (hrun : (Try.settle (liftM (pollCancelled h c.ticket) >>= fun stop =>
      if stop = true then throw .cancelled >>= f else f ())).run w = (r, v))
    (hcalm : ∀ e, r = .error e → v.registry.isCancelled c.ticket = false) :
    (f ()).settle.run ((World.pause h).run w).2 = (r, v) := by
  have hpoll : ((pollCancelled h c.ticket).run w) =
      (((World.pause h).run w).2.registry.isCancelled c.ticket, ((World.pause h).run w).2) := rfl
  rw [Try.run_settle_lift_bind, hpoll] at hrun
  cases hstop : ((World.pause h).run w).2.registry.isCancelled c.ticket with
  | false =>
    rw [hstop] at hrun
    exact hrun
  | true =>
    -- the action would have ended at once, in a world in which the job was asked to stop
    rw [hstop] at hrun
    obtain ⟨rfl, rfl⟩ := Prod.mk.inj hrun
    rw [hcalm _ rfl] at hstop
    cases hstop

/-! ## One chunk -/

section

variable {w x y v : World} {past : List Trial} {k left : Nat} {failures : UInt32}

/-- The attempt that is about to be made is made. -/
theorem Poised.tried {chunk : Chunk} {result : Except StageError Unit}
    (hpoised : Poised h c kind items w past k x) (hchunk : (c.chunks items)[k]? = some chunk)
    (hmade : (attempt h c kind k items chunk).settle.run x = (result, y)) :
    Course h c kind items w (past ++ [⟨k, result⟩]) y := by
  obtain ⟨asked, v, u, hcourse, hidle, rfl⟩ := hpoised
  exact .tried hcourse asked hidle hchunk hmade

theorem Spent.ok (hspent : Spent c past left failures) (k : Nat) :
    Spent c (past ++ [⟨k, .ok ()⟩]) left failures := by
  have hsame : transients (past ++ [⟨k, .ok ()⟩]) = transients past := by
    simp [transients_concat, Trial.isTransient]
  exact ⟨hsame ▸ hspent.left, hsame ▸ hspent.failures⟩

/-- The counter of failures does not overflow. -/
theorem Spent.again (hspent : Spent c past (left + 1) failures) (k : Nat) {e : StageError}
    (he : e.isTransient = true) : Spent c (past ++ [⟨k, .error e⟩]) left (failures + 1) := by
  have hmore : transients (past ++ [⟨k, .error e⟩]) = transients past + 1 := by
    simp [transients_concat, Trial.isTransient, he]
  obtain ⟨hleft, hfailures⟩ := hspent
  have hmax := c.job.submission.maxAttempts.toNat_lt
  rw [StageContext.budget] at hleft
  refine ⟨by rw [StageContext.budget]; omega, ?_⟩
  rw [hmore, UInt32.toNat_add, hfailures]
  exact Nat.mod_eq_of_lt (by simp; omega)

theorem asks_of_error {e : StageError} (he : ¬(e.isTransient = true ∧
    transients (past ++ [⟨k, .error e⟩]) < c.budget)) :
    asks c items (past ++ [⟨k, .error e⟩]) = .finish (.error e) := by
  rw [asks, next_of_error rfl]
  exact if_neg (by simpa using he)

/-- What is told before a further attempt. The number told does not overflow either. -/
theorem announce_again {e : StageError}
    (hspent : Spent c (past ++ [⟨k, .error e⟩]) left failures)
    (hless : transients (past ++ [⟨k, .error e⟩]) < c.budget) :
    announce c kind items (past ++ [⟨k, .error e⟩]) k =
      World.emit c.job.targetKey (.status kind.title
        ("Retrying " ++ String.ofList (Text.lower kind.title.toList) ++ " (attempt "
          ++ countText (failures + 1).toNat ++ " of "
          ++ countText c.job.submission.maxAttempts.toNat ++ ")")) := by
  have hmax := c.job.submission.maxAttempts.toNat_lt
  have hnumber : (failures + 1).toNat = transients (past ++ [⟨k, .error e⟩]) + 1 := by
    rw [StageContext.budget] at hless
    rw [UInt32.toNat_add, hspent.failures]
    exact Nat.mod_eq_of_lt (by simp; omega)
  have hnotice : notice (past ++ [⟨k, .error e⟩]) k =
      .again (transients (past ++ [⟨k, .error e⟩]) + 1) := by simp [notice]
  rw [announce, hnotice, Notice.event, hnumber]

/-- What the attempts at a chunk come to, in a job that was not asked to stop. -/
theorem runChunk_came {chunk : Chunk} (hchunk : (c.chunks items)[k]? = some chunk) (left : Nat)
    {failures : UInt32} {past : List Trial} {x : World} {r : Except StageError (Nat × UInt32)}
    (hpoised : Poised h c kind items w past k x) (hspent : Spent c past left failures)
    (hrun : (runChunk h c kind k items chunk left failures).settle.run x = (r, v))
    (hcalm : ∀ e, r = .error e → v.registry.isCancelled c.ticket = false) :
    Came h c kind items w k r v := by
  rw [runChunk.eq_def, Try.run_settle_outcome_bind] at hrun
  rcases hmade : (attempt h c kind k items chunk).settle.run x with ⟨result, y⟩
  have hcourse := hpoised.tried hchunk hmade
  rw [hmade] at hrun
  cases result with
  | ok _ =>
    obtain ⟨rfl, rfl⟩ := Prod.mk.inj hrun
    exact .done hcourse (hspent.ok k)
  | error e =>
    cases he : e.isTransient with
    | false =>
      -- what will not pass is not tried again
      simp only [he] at hrun
      obtain ⟨rfl, rfl⟩ := Prod.mk.inj hrun
      exact .stopped hcourse (.refl y) (asks_of_error (by simp [he]))
    | true =>
      simp only [he] at hrun
      replace hrun := run_poll hrun hcalm
      have hidle := idle_pause h y
      cases left with
      | zero =>
        -- no further attempt is allowed
        obtain ⟨rfl, rfl⟩ := Prod.mk.inj hrun
        refine .stopped hcourse hidle (asks_of_error fun ⟨_, hless⟩ => ?_)
        have hmore : transients (past ++ [⟨k, .error e⟩]) = transients past + 1 := by
          simp [transients_concat, Trial.isTransient, he]
        have hleft := hspent.left
        omega
      | succ left =>
        have hagain := hspent.again k he
        have hless : transients (past ++ [⟨k, .error e⟩]) < c.budget := by
          have hleft := hagain.left
          omega
        -- the next attempt comes after two notices
        rw [Try.run_settle_lift_bind, Try.run_settle_lift_bind,
          ← announce_again hagain hless] at hrun
        have hasked : asks c items (past ++ [⟨k, .error e⟩]) = .attempt k := by
          rw [asks, next_of_error rfl]
          exact if_pos (by simp [he, hless])
        exact runChunk_came hchunk left
          ⟨hasked, _, _, hcourse, hidle.trans (idle_log h _ _ _ _), rfl⟩ hagain hrun hcalm

/-! ## All chunks -/

/-- The chunks before one of them are done, and time has passed since. -/
structure Ready (h : Host) (c : StageContext) (kind : StageKind) (items : Items) (w : World)
    (past : List Trial) (k : Nat) (x : World) : Prop where
  asks : asks c items past =
    if k < (c.chunks items).length then .attempt k else .finish (.ok ())
  /-- The next chunk is not told as one that is tried again. -/
  notice : notice past k = .chunk k
  came : ∃ v, Course h c kind items w past v ∧ Idle h v x

theorem Ready.start (h : Host) (c : StageContext) (kind : StageKind) (items : Items) (w : World) :
    Ready h c kind items w [] 0 w := ⟨rfl, rfl, w, .begun, .refl w⟩

theorem Ready.idle (hready : Ready h c kind items w past k x) (hidle : Idle h x y) :
    Ready h c kind items w past k y := by
  obtain ⟨hasks, hnotice, v, hcourse, hbefore⟩ := hready
  exact ⟨hasks, hnotice, v, hcourse, hbefore.trans hidle⟩

/-- After a chunk comes the next one, if there is one. -/
theorem Ready.next (hcourse : Course h c kind items w (past ++ [⟨k, .ok ()⟩]) x) :
    Ready h c kind items w (past ++ [⟨k, .ok ()⟩]) (k + 1) x := by
  refine ⟨by rw [Retry.asks, next_of_ok rfl], ?_, x, hcourse, .refl x⟩
  simp [Retry.notice]

/-- The chunks of a stage are worked through, in a job that was not asked to stop. -/
theorem runChunks_over (chunks : List Chunk) {r : Except StageError Unit}
    (hchunks : (c.chunks items).drop k = chunks) (hready : Ready h c kind items w past k x)
    (hspent : Spent c past left failures)
    (hrun : (runChunks h c kind items (c.chunks items).length k left failures chunks).settle.run x =
      (r, v))
    (hcalm : ∀ e, r = .error e → v.registry.isCancelled c.ticket = false) :
    ∃ ts u, Course h c kind items w ts u ∧ Idle h u v ∧ asks c items ts = .finish r := by
  induction chunks generalizing past k left failures x with
  | nil =>
    obtain ⟨rfl, rfl⟩ := Prod.mk.inj hrun
    obtain ⟨hasks, -, u, hcourse, hidle⟩ := hready
    have hend : ¬ k < (c.chunks items).length := Nat.not_lt.mpr (List.drop_eq_nil_iff.mp hchunks)
    exact ⟨past, u, hcourse, hidle, by rw [hasks, if_neg hend]⟩
  | cons chunk rest ih =>
    have hchunk : (c.chunks items)[k]? = some chunk := by
      rw [← List.head?_drop, hchunks, List.head?_cons]
    have hrest : (c.chunks items).drop (k + 1) = rest := by
      rw [← List.tail_drop, hchunks, List.tail_cons]
    unfold runChunks at hrun
    replace hrun := run_poll hrun hcalm
    obtain ⟨hasks, hnotice, u, hcourse, hidle⟩ := hready.idle (idle_pause h x)
    have hannounce : announce c kind items past k = World.emit c.job.targetKey (.status kind.title
        ("Chunk " ++ countText (k + 1) ++ " of " ++ countText (c.chunks items).length)) := by
      rw [announce, hnotice, Notice.event]
    rw [Try.run_settle_lift_bind, ← hannounce, Try.run_settle_bind] at hrun
    have hpoised : Poised h c kind items w past k _ :=
      ⟨by rw [hasks, if_pos (List.getElem?_eq_some_iff.mp hchunk).1], u, _, hcourse, hidle, rfl⟩
    rcases hone : (runChunk h c kind k items chunk left failures).settle.run _ with ⟨e | ⟨l, f⟩, y⟩
    · -- the chunk was given up
      rw [hone] at hrun
      obtain ⟨rfl, rfl⟩ := Prod.mk.inj hrun
      cases runChunk_came hchunk left hpoised hspent hone fun _ _ => hcalm e rfl with
      | stopped hlast hafter hends => exact ⟨_, _, hlast, hafter, hends⟩
    · rw [hone] at hrun
      cases runChunk_came hchunk left hpoised hspent hone (fun _ heq => by cases heq) with
      | done hdone hstill =>
        replace hrun := run_poll hrun hcalm
        exact ih hrest ((Ready.next hdone).idle (idle_pause h y)) hstill hrun

end

/-- **The retry budget of a stage.** Whatever the attempts of a stage come to, and whatever the
machine and the tools do meanwhile: as long as the job is not asked to stop, the stage makes the
attempts that the rule asks for, each told before it is made, and ends when and as the rule says. -/
theorem runItems_obeyed (h : Host) (c : StageContext) (kind : StageKind) (items : Items) (w : World)
    (calm : ((runItems h c kind items).settle.run w).2.registry.isCancelled c.ticket = false) :
    ∃ ts u, Course h c kind items w ts u ∧ Idle h u ((runItems h c kind items).settle.run w).2 ∧
      Obeyed (c.chunks items).length c.budget ts ((runItems h c kind items).settle.run w).1 := by
  have hspent : Spent c [] (c.job.submission.maxAttempts.toNat - 1) 0 := by
    refine ⟨?_, rfl⟩
    rw [StageContext.budget]
    simp only [transients, List.countP_nil]
    omega
  obtain ⟨ts, u, hcourse, hidle, hends⟩ :=
    runChunks_over (c.chunks items) (List.drop_zero) (Ready.start h c kind items w) hspent rfl
      fun _ _ => calm
  exact ⟨ts, u, hcourse, hidle, hcourse.allowed.obeyed c.budget_pos hends⟩

/-- A host on which the calls of tools of some numbers fail in a way that may pass. -/
def failingHost (fails : Nat → Bool) : Host where
  settings := .forStorage ⟨"store"⟩
  catalog := .complete 17
  memoryCeiling := 100
  interlude _ := []
  fault _ := none
  tool past _ _ := ⟨[], if fails past.length then .error (.transient "busy") else .ok ()⟩
  time n := .ofEpoch 0 n

/-- A stage of a job with three attempts, one file at a time. -/
def threeAttempts : StageContext where
  job := ⟨⟨"jadx", false, 3, 1, 90, false, "app", "App", ⟨"app.dex"⟩, .dex⟩, .jadx, []⟩
  layout := .of ⟨"store"⟩ "app"
  ticket := 1

/-- Two of three chunks fail once each, and the stage succeeds with its last attempt. -/
theorem runItems_obeyed_twice :
    let h := failingHost fun k => k == 0 || k == 2
    let items := Items.files [⟨"a.dex"⟩, ⟨"b.dex"⟩, ⟨"c.dex"⟩]
    let w := World.new .empty []
    ∃ ts u, Course h threeAttempts .convert items w ts u ∧
      Idle h u ((runItems h threeAttempts .convert items).settle.run w).2 ∧
      Obeyed 3 3 ts (.ok ()) := by
  have hcalm : ((runItems (failingHost fun k => k == 0 || k == 2) threeAttempts .convert
      (.files [⟨"a.dex"⟩, ⟨"b.dex"⟩, ⟨"c.dex"⟩])).settle.run (.new .empty [])).2.registry.isCancelled
        threeAttempts.ticket = false := by decide +kernel
  have hok : ((runItems (failingHost fun k => k == 0 || k == 2) threeAttempts .convert
      (.files [⟨"a.dex"⟩, ⟨"b.dex"⟩, ⟨"c.dex"⟩])).settle.run (.new .empty [])).1 = .ok () := by
    decide +kernel
  have hlaw := runItems_obeyed _ threeAttempts .convert _ _ hcalm
  rw [hok] at hlaw
  exact hlaw

end Retry

end Decompile
