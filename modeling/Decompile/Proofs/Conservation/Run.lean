import Decompile.Proofs.Conservation.Resources
import Decompile.Proofs.Protocol.Bus
import Decompile.Proofs.Provenance.Run

/-!
# A run that has succeeded

A job that has succeeded has run each stage of its chain once, to success. Between its stages it
stores its record and tells of them.

- `Aside`: what happens between stages.
- `World.told`, `Passes`, `Passed`: stages that have succeeded, each told when it starts and when it
  is over.
- `Come`: what has happened of a job in each of its phases.
- `Task.step_come`, `Task.runFor_come`: one message, and several.
- `Engine.runJob_passed`: a job that was told to have succeeded has passed all its stages.
-/

namespace Decompile

open Site (Hosts)

variable {h : Host} {c : StageContext} {s : Site} {w v u : World}

/-! ## Between stages -/

/-- What happens between stages: records are stored, and there is talk. -/
structure Aside (s : Site) (w v : World) : Prop where
  alters : s.Alters (s.ByTools fun _ => False) w v
  worked : Worked [] w v

namespace Aside

instance : Std.Refl (Aside s) := ⟨fun w => ⟨Std.Refl.refl w, .refl w⟩⟩

instance : IsTrans World (Aside s) where
  trans _ _ _ h h' := ⟨IsTrans.trans _ _ _ h.alters h'.alters, h.worked.append h'.worked⟩

theorem hosts (ha : Aside s w v) (hw : s.Hosts w) : s.Hosts v := (ha.alters hw).hosts hw

theorem of_rests (hr : Rests w v) : Aside s w v := ⟨.of_still hr.still, hr.worked⟩

theorem of_note {o : Occurrence} (hjournal : v.journal = w.journal ++ [o]) (hdisk : v.disk = w.disk)
    (hcwd : v.cwd = w.cwd) (hchanged : ∀ x, o ≠ .changed x) (ho : o.isWork = false) :
    Aside s w v :=
  ⟨.of_note hjournal hdisk hcwd hchanged, .of_note hjournal ho⟩

/-- What is between stages is about records only. -/
theorem untouched (ha : Aside s w v) (hw : s.Hosts w) (kind : StageKind) (rest : Place) :
    w.disk.Untouched v.disk (s.area kind ++ rest) := by
  refine (ha.alters hw).untouched fun x hx hplace => ?_
  cases hx with
  | fill fills => exact fills.place
  | record key bytes => exact Site.record_ne_area rest hplace

theorem stands (ha : Aside s w v) (hw : s.Hosts w) {kind : StageKind}
    (hstands : s.Stands c.layout kind w.disk) : s.Stands c.layout kind v.disk := by
  refine hstands.course (ha.alters hw) fun x hx heq => ?_
  subst heq
  cases hx with
  | fill fills => exact fills.place

end Aside

/-! ## Stages that have succeeded -/

/-- The world after listeners of a key were told of a stage. -/
def World.told (key : String) (stage : Stage) (state : StageState) (w : World) : World :=
  ((publish key (.stageChanged key stage state)).run w).2

theorem Aside.told (key : String) (stage : Stage) (state : StageState) (w : World) :
    Aside s w (w.told key stage state) := .of_note rfl rfl rfl nofun rfl

/-- A stage has been passed: it was told to run, succeeded, and was told so. -/
inductive Passes (h : Host) (c : StageContext) (s : Site) (stage : Stage) (w v : World) : Prop where
  | mk {w₁ w₂ w₃ : World} (before : Aside s w w₁)
    (run : StageRun h c stage.kind (w₁.told c.job.targetKey stage .running) w₂)
    (after : Aside s w₂ w₃) (ends : v = w₃.told c.job.targetKey stage .succeeded) :
    Passes h c s stage w v

/-- Before the run of the stage it is told to run, and after it to have succeeded. -/
theorem Passes.parts {stage : Stage} (hp : Passes h c s stage w v) (hw : s.Hosts w) :
    ∃ x y, Aside s w x ∧ StageRun h c stage.kind x y ∧ Aside s y v ∧
      (∃ new, x.journal = w.journal ++ (new ++
        [.published c.job.targetKey (.stageChanged c.job.targetKey stage .running)])) ∧
      (s.Hosts y → ∃ new, v.journal = y.journal ++ (new ++
        [.published c.job.targetKey (.stageChanged c.job.targetKey stage .succeeded)])) := by
  obtain @⟨w₁, w₂, w₃, hbefore, hrun, hafter, rfl⟩ := hp
  refine ⟨_, _, IsTrans.trans _ _ _ hbefore (.told _ _ _ _), hrun,
    IsTrans.trans _ _ _ hafter (.told _ _ _ _), ⟨w.since w₁, ?_⟩, fun hw₂ => ⟨w₂.since w₃, ?_⟩⟩
  · rw [← List.append_assoc, ← (hbefore.alters hw).journal.1]
    rfl
  · rw [← List.append_assoc, ← (hafter.alters hw₂).journal.1]
    rfl

/-- Stages have been passed one after another. -/
def Passed (h : Host) (c : StageContext) (s : Site) : List Stage → World → World → Prop
  | [], w, v => v = w
  | stage :: rest, w, v => ∃ u, Passes h c s stage w u ∧ Passed h c s rest u v

theorem Passed.concat {done : List Stage} {stage : Stage} (hdone : Passed h c s done w u)
    (hstage : Passes h c s stage u v) : Passed h c s (done ++ [stage]) w v := by
  induction done generalizing w with
  | nil =>
    obtain rfl := hdone
    exact ⟨v, hstage, rfl⟩
  | cons first rest ih =>
    obtain ⟨x, hfirst, hrest⟩ := hdone
    exact ⟨x, hfirst, ih hrest⟩

/-- What has happened of a job in a phase that can end in success, with the messages it has not
taken. -/
def Come {chain : List Stage} (h : Host) (c : StageContext) (s : Site) (w₀ : World) :
    Phase chain → List Message → World → Prop
  | .waiting, queue, w => Aside s w₀ w ∧ queue = [.start]
  | .underway cut _, queue, w => ∃ u x y r, Passed h c s cut.done w₀ u ∧ Aside s u x ∧
    (runStage h c cut.stage).run (x.told c.job.targetKey cut.stage .running) = (r, y) ∧
    Aside s y w ∧ queue = [.stageFinished cut.stage.ordinal r]
  | .succeeded, _, w => ∃ u, Passed h c s chain w₀ u ∧ Aside s u w
  | _, _, _ => True

theorem Come.aside {chain : List Stage} {p : Phase chain} {queue : List Message} {w₀ : World}
    (hcome : Come h c s w₀ p queue w) (ha : Aside s w v) : Come h c s w₀ p queue v := by
  cases p with
  | waiting => exact ⟨IsTrans.trans _ _ _ hcome.1 ha, hcome.2⟩
  | underway cut stops =>
    obtain ⟨u, x, y, r, hdone, hbefore, hrun, hafter, hqueue⟩ := hcome
    exact ⟨u, x, y, r, hdone, hbefore, hrun, IsTrans.trans _ _ _ hafter ha, hqueue⟩
  | succeeded =>
    obtain ⟨u, hdone, hafter⟩ := hcome
    exact ⟨u, hdone, IsTrans.trans _ _ _ hafter ha⟩
  | failed | unstarted | stopped => trivial

/-- The run of a stage, and what is between it and the change that is told next. -/
theorem Passed.done {done : List Stage} {stage : Stage} {w₀ x y : World}
    (hdone : Passed h c s done w₀ u) (hbefore : Aside s u x)
    (hrun : (runStage h c stage).run (x.told c.job.targetKey stage .running) = (.succeeded, y))
    (hafter : Aside s y w) :
    Passed h c s (done ++ [stage]) w₀ (w.told c.job.targetKey stage .succeeded) :=
  hdone.concat (.mk hbefore (runStage_succeeded hrun) hafter rfl)

/-! ## Messages -/

namespace Task

section

variable (hs : s.Fresh) (hc : s.Serves h c)

include hs hc

theorem saveRecord_aside {t : Task} (hj : t.job = c.job) : Act.Keeps (Aside s) (t.saveRecord h) := by
  intro w
  refine ⟨?_, (saveRecord_moves (h := h) (N := fun _ => False) t w).worked nofun⟩
  have halters : Act.Keeps (s.Alters (s.ByTools fun _ => False)) (t.saveRecord h) := by
    unfold saveRecord layout
    rw [hj]
    refine (Work.save_alters hs hc hc.clean _).settle.bind fun r => ?_
    cases r with
    | ok _ => exact .pure ()
    | error e => exact (World.log_still _ _ _).alters
  exact halters w

/-- A change of a stage is written down and told. -/
theorem changed_run {t : Task} (hj : t.job = c.job) (stage : Stage) (state : StageState)
    (w : World) :
    ∃ r x, Aside s w x ∧ (t.performAll h ((Effect.stageChanged stage state).actions t.job)).run w =
      ({ t with record := r }, x.told c.job.targetKey stage state) := by
  let r := (RecordEdit.stage stage.ordinal state).apply t.record (h.time w.clock)
  refine ⟨r, (({ t with record := r } : Task).saveRecord h |>.run w).2, ?_, ?_⟩
  · exact saveRecord_aside hs hc (t := { t with record := r }) hj w
  · rw [← hj]
    rfl

/-- The end of a job is no stage. -/
theorem finish_aside {t : Task} (hj : t.job = c.job) (o : Outcome) (oom : Bool)
    (detail : Option String) :
    Act.Keeps (Aside s) (t.performAll h ((Effect.finish o oom detail).actions t.job)) := by
  have htells : ∀ (t : Task) (said : List BusMessage),
      Act.Keeps (Aside s) (t.performAll h (said.map .tell)) := by
    intro t said
    induction said with
    | nil => exact .pure t
    | cons m said ih =>
      have htell : Act.Keeps (Aside s) (World.publish t.job.targetKey m) :=
        fun _ => .of_note rfl rfl rfl nofun rfl
      show Act.Keeps (Aside s) (World.publish t.job.targetKey m >>= fun _ => t.performAll h _)
      exact htell.bind fun _ => ih
  have hsave : Act.Keeps (Aside s) (t.perform h (.record (.finish o oom))) :=
    World.now_reads.keeps.bind fun now => (saveRecord_aside hs hc
      (t := { t with record := (RecordEdit.finish o oom).apply t.record now }) hj).bind fun _ => .pure _
  rw [finish_actions]
  refine hsave.bind fun u => ?_
  have hrelease : Act.Keeps (Aside s) (u.perform h .release) :=
    Act.Keeps.bind (x := Engine.release u.job.targetKey u.ticket)
      (fun _ => .of_note rfl rfl rfl nofun rfl) fun _ => .pure u
  refine hrelease.bind fun u => ?_
  have hlog : Act.Keeps (Aside s) (u.perform h (.log
      ⟨.info, Engine.logTarget, t.job.targetKey ++ " finished: " ++ o.label⟩)) :=
    Act.Keeps.bind (x := World.note _) (fun _ => .of_note rfl rfl rfl nofun rfl) fun _ => .pure u
  exact hlog.bind fun u => htells u _

/-- What is done about the start of a stage: it is told to run, and runs. -/
theorem opening_run {t : Task} (hcontext : t.context h = c) (stage : Stage) (w : World) :
    ∃ r x y result, Aside s w x ∧
      (runStage h c stage).run (x.told c.job.targetKey stage .running) = (result, y) ∧
      (t.performAll h ((Phase.opening stage).flatMap (Effect.actions t.job))).run w =
        ({ t with record := r, queue := t.queue ++ [.stageFinished stage.ordinal result] }, y) := by
  have hj : t.job = c.job := congrArg StageContext.job hcontext
  obtain ⟨r, x, haside, hrun⟩ := changed_run hs hc hj stage .running w
  rcases hresult : (runStage h c stage).run (x.told c.job.targetKey stage .running) with ⟨result, y⟩
  refine ⟨r, x, y, result, haside, hresult, ?_⟩
  rw [Phase.opening, List.flatMap_cons, List.flatMap_singleton, performAll_append, Act.run_bind, hrun]
  have hsame : ({ t with record := r } : Task).context h = c := hcontext
  show (performAll h { t with record := r } [.run stage]).run _ = _
  simp only [performAll, perform, bind_assoc, pure_bind, Act.run_bind, hsame, hresult]
  rfl

/-- A message that a job takes brings it on. -/
theorem handle_come {chain : List Stage} {p q : Phase chain} {m : Message} {es : List Effect}
    (hstep : Phase.Step p m q es) {t : Task} (hcontext : t.context h = c) {w₀ : World}
    {queue : List Message} (hcome : Come h c s w₀ p queue w)
    (hqueue : m = .cancelRequested ∧ t.queue = queue ∨ queue = m :: t.queue) :
    Come h c s w₀ q ((t.performAll h (es.flatMap (Effect.actions t.job))).run w).1.queue
      ((t.performAll h (es.flatMap (Effect.actions t.job))).run w).2 := by
  have hj : t.job = c.job := congrArg StageContext.job hcontext
  cases hstep with
  | ignored p m hdeaf =>
    show Come h c s w₀ p t.queue w
    rcases hqueue with ⟨rfl, hsame⟩ | hsame
    · rwa [hsame]
    · cases p with
      | waiting =>
        obtain ⟨-, hstart⟩ := hcome
        obtain ⟨rfl, -⟩ := List.cons.inj (hsame.symm.trans hstart)
        cases hdeaf ""
      | underway cut stops =>
        obtain ⟨u, x, y, r, -, -, -, -, hreport⟩ := hcome
        obtain ⟨rfl, -⟩ := List.cons.inj (hsame.symm.trans hreport)
        have htakes := hdeaf ""
        simp at htakes
      | succeeded => exact hcome
      | failed | unstarted | stopped => trivial
  | start cut first =>
    obtain ⟨haside, hstart⟩ := hcome
    rcases hqueue with ⟨hne, -⟩ | hsame
    · cases hne
    obtain ⟨-, hnil⟩ := List.cons.inj (hsame.symm.trans hstart)
    obtain ⟨r, x, y, result, hbefore, hresult, hrun⟩ := opening_run hs hc hcontext cut.stage w
    rw [hrun]
    refine ⟨w₀, x, y, result, ?_, IsTrans.trans _ _ _ haside hbefore, hresult, Std.Refl.refl y, ?_⟩
    · rw [first]
      rfl
    · show t.queue ++ _ = _
      rw [hnil, List.nil_append]
  | startEmpty hnil =>
    subst hnil
    refine ⟨w₀, rfl, IsTrans.trans _ _ _ hcome.1 ?_⟩
    rw [List.flatMap_singleton]
    exact finish_aside hs hc hj _ _ _ w
  | stopUnstarted => trivial
  | stop cut stops =>
    show Come h c s w₀ (.underway cut (stops + 1)) t.queue w
    rcases hqueue with ⟨-, hsame⟩ | hsame
    · rw [hsame]
      exact hcome
    · obtain ⟨u, x, y, r, -, -, -, -, hreport⟩ := hcome
      cases (List.cons.inj (hsame.symm.trans hreport)).1
  | advance cut d later =>
    obtain ⟨u, x, y, r, hdone, hbefore, hresult, hafter, hreport⟩ := hcome
    rcases hqueue with ⟨hne, -⟩ | hsame
    · cases hne
    obtain ⟨hm, hnil⟩ := List.cons.inj (hsame.symm.trans hreport)
    obtain ⟨-, rfl⟩ := Message.stageFinished.inj hm
    obtain ⟨r₁, x₁, haside₁, hrun₁⟩ := changed_run hs hc hj cut.stage .succeeded w
    obtain ⟨r₂, x₂, y₂, result, haside₂, hresult₂, hrun₂⟩ := opening_run hs hc
      (t := { t with record := r₁ }) hcontext d.stage (x₁.told c.job.targetKey cut.stage .succeeded)
    have hpassed := hdone.done hbefore hresult (IsTrans.trans _ _ _ hafter haside₁)
    rw [List.flatMap_cons, performAll_append, Act.run_bind, hrun₁]
    simp only
    rw [hrun₂]
    refine ⟨_, x₂, y₂, result, later ▸ hpassed, haside₂, hresult₂, Std.Refl.refl y₂, ?_⟩
    show t.queue ++ _ = _
    rw [hnil, List.nil_append]
  | complete cut last =>
    obtain ⟨u, x, y, r, hdone, hbefore, hresult, hafter, hreport⟩ := hcome
    rcases hqueue with ⟨hne, -⟩ | hsame
    · cases hne
    obtain ⟨hm, hnil⟩ := List.cons.inj (hsame.symm.trans hreport)
    obtain ⟨-, rfl⟩ := Message.stageFinished.inj hm
    obtain ⟨r₁, x₁, haside₁, hrun₁⟩ := changed_run hs hc hj cut.stage .succeeded w
    have hpassed := hdone.done hbefore hresult (IsTrans.trans _ _ _ hafter haside₁)
    rw [← cut.eq_of_last last] at hpassed
    rw [List.flatMap_cons, performAll_append, Act.run_bind, hrun₁, List.flatMap_singleton]
    exact ⟨_, hpassed, finish_aside hs hc (t := { t with record := r₁ }) hj _ _ _ _⟩
  | fail cut oom message => trivial
  | report cut stops r cause => trivial

/-- One message. -/
theorem step_come (hchain : Positional c.job.chain) {t : Task} (hcontext : t.context h = c)
    {p : Phase c.job.chain} (hp : t.state = p.job c.job.targetKey) {w₀ : World}
    (hcome : Come h c s w₀ p t.queue w) {m : Message} {rest : List Message}
    (hq : t.queue = m :: rest) :
    ∃ q : Phase c.job.chain, ((t.step h m rest).run w).1.state = q.job c.job.targetKey ∧
      ((t.step h m rest).run w).1.context h = c ∧
      Come h c s w₀ q ((t.step h m rest).run w).1.queue ((t.step h m rest).run w).2 := by
  simp only [run_step]
  have hpaused := hcome.aside (.of_rests (World.pause_rests (h := h) w))
  generalize ((World.pause h).run w).2 = v at hpaused ⊢
  generalize v.registry.isCancelled t.ticket = stop
  obtain ⟨n, hhandle, hcontext', hqueue⟩ := taken_from (h := h) hq stop
  rw [hcontext] at hcontext'
  generalize t.taken stop m rest = taken at hhandle hcontext' hqueue ⊢
  obtain ⟨q, es, hhandle', hstep⟩ := Phase.handle_step hchain c.job.targetKey p n
  rw [← hp, hhandle] at hhandle'
  obtain ⟨hstate, rfl⟩ := Prod.mk.inj hhandle'
  refine ⟨q, ?_, ?_, handle_come hs hc hstep hcontext' hpaused hqueue⟩
  all_goals
    obtain ⟨r, queue, hfst⟩ :=
      performAll_fst (h := h) (taken.2.flatMap (Effect.actions taken.1.job)) taken.1 v
    rw [hfst]
    assumption

/-- **Several messages.** -/
theorem runFor_come (hchain : Positional c.job.chain) (fuel : Nat) {t : Task}
    (hcontext : t.context h = c) {p : Phase c.job.chain} (hp : t.state = p.job c.job.targetKey)
    {w₀ : World} (hcome : Come h c s w₀ p t.queue w) :
    ∃ q : Phase c.job.chain, ((t.runFor h fuel).run w).1.state = q.job c.job.targetKey ∧
      Come h c s w₀ q ((t.runFor h fuel).run w).1.queue ((t.runFor h fuel).run w).2 := by
  induction fuel generalizing t p w with
  | zero => exact ⟨p, hp, hcome⟩
  | succ fuel ih =>
    rw [runFor_succ]
    cases hq : t.queue with
    | nil => exact ⟨p, hp, hcome⟩
    | cons m rest =>
      simp only
      rw [Act.run_bind]
      obtain ⟨q, hstate, hcontext', hnext⟩ := step_come hs hc hchain hcontext hp hcome hq
      exact ih hcontext' hstate hnext

end

end Task

/-! ## The run of a job -/

variable {a : Accepted} {base : Place}

/-- Where a job works when it is run in a world, if the directory of all targets is at `base`. -/
def Accepted.site (h : Host) (a : Accepted) (w : World) (base : Place) : Site :=
  ⟨sourcesIn h.settings.storage, w.cwd, base, a.job.targetKey, w.disk⟩

theorem Accepted.Planned.serves (ha : a.Planned h) (w : World) (base : Place) :
    (a.site h w base).Serves h (a.context h) := by
  obtain ⟨r, hplan⟩ := ha
  exact ⟨rfl, rfl, rfl, Job.isTargetKey_of_plan hplan⟩

theorem Accepted.hosts (hs : (a.site h w base).Fresh) : (a.site h w base).Hosts w := ⟨rfl, hs.sited⟩

namespace Engine

/-- The listeners of the job are told in the end that it has succeeded. -/
def Succeeds (h : Host) (a : Accepted) (w : World) : Prop :=
  ∃ r, r.outcome = .succeeded ∧
    .terminal r ∈ World.messagesOn a.job.targetKey (w.since ((runJob h a).run w).2)

instance : Decidable (Succeeds h a w) :=
  decidable_of_iff (∃ m ∈ World.messagesOn a.job.targetKey (w.since ((runJob h a).run w).2),
    (match m with
      | .terminal r => decide (r.outcome = .succeeded)
      | _ => false) = true) <| by
    constructor
    · rintro ⟨m, hm, hsuccess⟩
      cases m with
      | terminal r => exact ⟨r, of_decide_eq_true hsuccess, hm⟩
      | _ => cases hsuccess
    · rintro ⟨r, hr, hm⟩
      exact ⟨_, hm, decide_eq_true hr⟩

/-- The state of a job says that it has succeeded, if its listeners are told so. -/
theorem Succeeds.outcome (hchain : Positional a.job.chain) (hidle : w.monitor = none)
    (hdone : Succeeds h a w) :
    (((Task.ofAccepted a).runFor h (Task.ofAccepted a).messageBound).run w).1.state.outcome =
      some .succeeded := by
  obtain ⟨t, new, hjournal, hmessages, -, -, -, houtcome⟩ :=
    runJob_transcript (h := h) hchain hidle
  -- the only end that is told is that of the transcript
  obtain ⟨r, hr, htold⟩ := hdone
  rw [World.since_eq hjournal, hmessages] at htold
  obtain rfl : r = t.result := by
    simpa [Transcript.messages, Interval.messages, TerminalResult.notice] using htold
  rw [houtcome, hr]

/-- **A job that has succeeded has passed all its stages.** -/
theorem runJob_passed (ha : a.Planned h) (hs : (a.site h w base).Fresh) (hidle : w.monitor = none)
    (hdone : Succeeds h a w) :
    ∃ u, Passed h (a.context h) (a.site h w base) a.job.chain w u ∧
      Aside (a.site h w base) u ((runJob h a).run w).2 := by
  have hc := ha.serves w base
  have hchain := ha.positional
  have houtcome := Succeeds.outcome hchain hidle hdone
  have hwaiting : Come h (a.context h) (a.site h w base) w (.waiting : Phase a.job.chain) [.start] w :=
    ⟨Std.Refl.refl w, rfl⟩
  obtain ⟨q, hstate, hcome⟩ := Task.runFor_come hs hc hchain (Task.ofAccepted a).messageBound
    (t := .ofAccepted a) rfl (p := .waiting) rfl hwaiting
  rw [hstate, Phase.job_outcome] at houtcome
  cases q with
  | succeeded =>
    obtain ⟨u, hpassed, hafter⟩ := hcome
    exact ⟨u, hpassed, IsTrans.trans _ _ _ hafter (.of_note rfl rfl rfl (fun c hc => by cases hc) rfl)⟩
  | waiting | underway | failed | unstarted | stopped => cases houtcome

end Engine

end Decompile
