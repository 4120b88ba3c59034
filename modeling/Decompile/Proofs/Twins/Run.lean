import Decompile.Proofs.Cancellation.Run
import Decompile.Proofs.Twins.Stage

/-!
# Two runs of a job

A job is run twice, at two hosts. Between its stages it stores its record and tells of them; if both
runs do this alike, and its stages go together, the whole runs go together.

- `Task.keeping`, `Accepted.keeping`: the same job, but for what becomes of what it consumes.
- `Echoes`: what is asked of the two hosts and of a relation between their worlds, for what is done
  between stages.
- `Task.step_keeping`: both runs take the same message.
- `Shadows`: what is asked for the stages as well; here the relation may depend on the phase of the job
  and on the messages it has not taken.
- `Shadows.step`, `Shadows.runFor`: one message, and several.
-/

namespace Decompile

/-- The record of the same job, but for what becomes of what it consumes. -/
def JobRecord.keeping (r : JobRecord) (keep : Option Bool) : JobRecord :=
  { r with submission := r.submission.keeping keep }

/-- The same job, but for what becomes of what it consumes. -/
def Accepted.keeping (a : Accepted) (keep : Option Bool) : Accepted :=
  { a with job := a.job.keeping keep, record := a.record.keeping keep }

/-- The task of the same job, but for what becomes of what it consumes. -/
def Task.keeping (t : Task) (keep : Option Bool) : Task :=
  { t with job := t.job.keeping keep, record := t.record.keeping keep }

theorem Task.state_keeping (t : Task) (keep : Option Bool) : (t.keeping keep).state = t.state := rfl

theorem Task.ofAccepted_keeping (a : Accepted) (keep : Option Bool) :
    Task.ofAccepted (a.keeping keep) = (Task.ofAccepted a).keeping keep := rfl

variable {h k : Host} {keep : Option Bool}

theorem Effect.actions_keeping (e : Effect) (j : Job) :
    e.actions (j.keeping keep) = e.actions j := by
  cases e <;> rfl

theorem RecordEdit.apply_keeping (e : RecordEdit) (r : JobRecord) (now : Timestamp) :
    e.apply (r.keeping keep) now = (e.apply r now).keeping keep := by
  cases e with
  | stage ordinal state =>
    have hstages : (r.keeping keep).stages = r.stages := rfl
    unfold apply JobRecord.setStage
    simp only [hstages]
    cases r.stages[ordinal]? with
    | none => rfl
    | some s => rfl
  | finish outcome oom => rfl

/-- The task with a change of its record. -/
def Task.recorded (t : Task) (e : RecordEdit) (now : Timestamp) : Task :=
  { t with record := e.apply t.record now }

theorem Task.recorded_keeping (t : Task) (e : RecordEdit) (now : Timestamp) :
    (t.keeping keep).recorded e now = (t.recorded e now).keeping keep := by
  unfold recorded
  show ({ t.keeping keep with record := e.apply (t.record.keeping keep) now } : Task) = _
  rw [RecordEdit.apply_keeping]
  rfl

theorem Task.run_record (t : Task) (e : RecordEdit) (w : World) :
    (t.perform h (.record e)).run w =
      (t.recorded e (h.time w.clock), (((t.recorded e (h.time w.clock)).saveRecord h).run w).2) := by
  rfl

theorem Task.run_performAll (t : Task) (a : Action) (as : List Action) (w : World) :
    (t.performAll h (a :: as)).run w =
      (((t.perform h a).run w).1.performAll h as).run ((t.perform h a).run w).2 := by
  rfl

theorem Task.run_run (t : Task) (s : Stage) (w : World) :
    (t.performAll h [.run s]).run w =
      ({ t with queue := t.queue ++
          [.stageFinished s.ordinal ((runStage h (t.context h) s).run w).1] },
        ((runStage h (t.context h) s).run w).2) := by
  rfl

/-- From worlds related by `J`, the two actions lead the task to the same record, in worlds related
by `J`. -/
def Task.Alike (J : World → World → Prop) (keep : Option Bool) (t : Task) (x y : Act Task) : Prop :=
  ∀ u v, J u v → ∃ r, (x.run u).1 = { t with record := r } ∧
    (y.run v).1 = ({ t with record := r } : Task).keeping keep ∧ J (x.run u).2 (y.run v).2

/-- From `u` and `v`, the two actions lead the task to the same record and the same messages, in
worlds related by what `J` says of these. -/
def Task.Together (J : List Message → World → World → Prop) (keep : Option Bool) (t : Task)
    (x y : Act Task) (u v : World) : Prop :=
  ∃ r reports, (x.run u).1 = { t with record := r, queue := t.queue ++ reports } ∧
    (y.run v).1 = ({ t with record := r, queue := t.queue ++ reports } : Task).keeping keep ∧
    J (t.queue ++ reports) (x.run u).2 (y.run v).2

/-- The record has changed, and no message has come. -/
theorem Task.Alike.together {J : List Message → World → World → Prop} {t : Task} {x y : Act Task}
    {u v : World} (halike : t.Alike (J t.queue) keep x y) (huv : J t.queue u v) :
    t.Together J keep x y u v := by
  obtain ⟨r, hleft, hright, hafter⟩ := halike u v huv
  refine ⟨r, [], ?_, ?_, ?_⟩
  · rw [List.append_nil]
    exact hleft
  · rw [List.append_nil]
    exact hright
  · rw [List.append_nil]
    exact hafter

/-- What a task and its messages have become. -/
theorem Task.Together.step {J : List Message → World → World → Prop} {t : Task} {x y : Act Task}
    {u v : World} (htogether : t.Together J keep x y u v) {c : StageContext} {key : String}
    {q : Phase c.job.chain} (hcontext : t.context h = c) (hstate : t.state = q.job key) :
    (x.run u).1.state = q.job key ∧ (x.run u).1.context h = c ∧
      (y.run v).1 = (x.run u).1.keeping keep ∧ J (x.run u).1.queue (x.run u).2 (y.run v).2 := by
  obtain ⟨r, reports, hleft, hright, hrel⟩ := htogether
  rw [hleft, hright]
  exact ⟨hstate, hcontext, rfl, hrel⟩

/-- Two hosts and a relation between their worlds that a job keeps up between its stages: both runs
store its record and tell of it alike. -/
structure Echoes (h k : Host) (keep : Option Bool) (c : StageContext) (J : World → World → Prop) :
    Prop where
  settings : k.settings = h.settings
  time : ∀ u v, J u v → k.time v.clock = h.time u.clock
  save : ∀ t : Task, t.context h = c →
    Act.Pairs J J (t.saveRecord h) ((t.keeping keep).saveRecord k)
  tell : ∀ m, Act.Pairs J J (World.publish c.job.targetKey m) (World.publish c.job.targetKey m)
  log : ∀ r, Act.Pairs J J (World.note (.logged r)) (World.note (.logged r))

namespace Echoes

variable {c : StageContext} {J : World → World → Prop} (S : Echoes h k keep c J)
include S

variable {t : Task} (ht : t.context h = c)
include ht

theorem record (e : RecordEdit) :
    t.Alike J keep (t.perform h (.record e)) ((t.keeping keep).perform k (.record e)) := by
  intro u v huv
  rw [Task.run_record, Task.run_record, S.time u v huv, Task.recorded_keeping]
  exact ⟨_, rfl, rfl, (S.save (t.recorded e (h.time u.clock)) ht u v huv).2⟩

theorem tells (ms : List BusMessage) :
    t.Alike J keep (t.performAll h (ms.map .tell))
      ((t.keeping keep).performAll k (ms.map .tell)) := by
  have hj : t.job.targetKey = c.job.targetKey :=
    congrArg (fun d : StageContext => d.job.targetKey) ht
  induction ms with
  | nil => exact fun u v huv => ⟨t.record, rfl, rfl, huv⟩
  | cons m ms ih =>
    intro u v huv
    have htell := (S.tell m u v huv).2
    rw [← hj] at htell
    exact ih _ _ htell

/-- A change of a stage is written down and told. -/
theorem changed (stage : Stage) (state : StageState) :
    t.Alike J keep (t.performAll h ((Effect.stageChanged stage state).actions t.job))
      ((t.keeping keep).performAll k ((Effect.stageChanged stage state).actions t.job)) := by
  intro u v huv
  obtain ⟨r, hleft, hright, hrel⟩ := S.record ht (.stage stage.ordinal state) u v huv
  have htells := S.tells (t := { t with record := r }) ht
    [.stageChanged t.job.targetKey stage state] _ _ hrel
  unfold Effect.actions
  rw [Task.run_performAll (h := h) t, Task.run_performAll (h := k) (t.keeping keep), hleft, hright]
  exact htells

/-- Several changes. -/
theorem changes (l : List (Stage × StageState)) :
    t.Alike J keep
      (t.performAll h ((l.map fun x => Effect.stageChanged x.1 x.2).flatMap (Effect.actions t.job)))
      ((t.keeping keep).performAll k
        ((l.map fun x => Effect.stageChanged x.1 x.2).flatMap (Effect.actions t.job))) := by
  induction l generalizing t with
  | nil => exact fun u v huv => ⟨t.record, rfl, rfl, huv⟩
  | cons x l ih =>
    intro u v huv
    rw [List.map_cons, List.flatMap_cons, Task.performAll_append, Task.performAll_append,
      Act.run_bind, Act.run_bind]
    obtain ⟨r, hleft, hright, hrel⟩ := S.changed ht x.1 x.2 u v huv
    rw [hleft, hright]
    exact ih (t := { t with record := r }) ht _ _ hrel

/-- The end of a job is written down and told, and its key is given back. -/
theorem finish (hrelease : Act.Pairs J J (Engine.release c.job.targetKey c.ticket)
    (Engine.release c.job.targetKey c.ticket)) (o : Outcome) (oom : Bool) (detail : Option String) :
    t.Alike J keep (t.performAll h ((Effect.finish o oom detail).actions t.job))
      ((t.keeping keep).performAll k ((Effect.finish o oom detail).actions t.job)) := by
  have hj : t.job.targetKey = c.job.targetKey :=
    congrArg (fun d : StageContext => d.job.targetKey) ht
  have hticket : t.ticket = c.ticket := congrArg StageContext.ticket ht
  intro u v huv
  obtain ⟨r, hleft, hright, hrel⟩ := S.record ht (.finish o oom) u v huv
  have hfree := (hrelease _ _ hrel).2
  have hlog := (S.log ⟨.info, Engine.logTarget,
    t.job.targetKey ++ " finished: " ++ o.label⟩ _ _ hfree).2
  rw [← hj, ← hticket] at hlog
  rw [Task.finish_actions, Task.run_performAll (h := h) t,
    Task.run_performAll (h := k) (t.keeping keep), hleft, hright]
  exact S.tells (t := { t with record := r }) ht _ _ _ hlog

/-- Changes, and then the end of the job. -/
theorem ended (hrelease : Act.Pairs J J (Engine.release c.job.targetKey c.ticket)
    (Engine.release c.job.targetKey c.ticket)) (l : List (Stage × StageState)) (o : Outcome) (oom : Bool)
    (detail : Option String) :
    t.Alike J keep
      (t.performAll h ((l.map (fun x => Effect.stageChanged x.1 x.2) ++
        [Effect.finish o oom detail]).flatMap (Effect.actions t.job)))
      ((t.keeping keep).performAll k ((l.map (fun x => Effect.stageChanged x.1 x.2) ++
        [Effect.finish o oom detail]).flatMap (Effect.actions t.job))) := by
  intro u v huv
  obtain ⟨r, hleft, hright, hrel⟩ := S.changes ht l u v huv
  rw [List.flatMap_append, List.flatMap_singleton, Task.performAll_append, Task.performAll_append,
    Act.run_bind, Act.run_bind, hleft, hright]
  exact S.finish (t := { t with record := r }) ht hrelease o oom detail _ _ hrel

/-- Changes, and then a stage that runs and comes to the same. -/
theorem opens {K : List Message → World → World → Prop} {stage : Stage}
    {l : List (Stage × StageState)} {es : List Effect}
    (hes : es = l.map (fun x => .stageChanged x.1 x.2) ++ [.startStage stage])
    (hrun : ∀ u v, J u v →
      ((runStage h c stage).run u).1 = ((runStage k (c.keeping keep) stage).run v).1 ∧
        K (t.queue ++ [.stageFinished stage.ordinal ((runStage h c stage).run u).1])
          ((runStage h c stage).run u).2 ((runStage k (c.keeping keep) stage).run v).2)
    {u v : World} (huv : J u v) :
    t.Together K keep (t.performAll h (es.flatMap (Effect.actions t.job)))
      ((t.keeping keep).performAll k (es.flatMap (Effect.actions t.job))) u v := by
  subst hes
  obtain ⟨r, hleft, hright, hrel⟩ := S.changes ht l u v huv
  unfold Task.Together
  rw [List.flatMap_append, List.flatMap_singleton, Task.performAll_append, Task.performAll_append,
    Act.run_bind, Act.run_bind, hleft, hright]
  generalize ((t.performAll h _).run u).2 = u' at hrel ⊢
  generalize (((t.keeping keep).performAll k _).run v).2 = v' at hrel ⊢
  have hcontext : ({ t with record := r } : Task).context h = c := ht
  have hcontext' : (({ t with record := r } : Task).keeping keep).context k = c.keeping keep := by
    rw [← hcontext]
    unfold Task.context Task.layout
    rw [S.settings]
    rfl
  obtain ⟨hsame, hafter⟩ := hrun u' v' hrel
  refine ⟨r, [.stageFinished stage.ordinal ((runStage h c stage).run u').1], ?_, ?_, ?_⟩
  · rw [Effect.actions, Task.run_run, hcontext]
  · rw [Effect.actions, Task.run_run, hcontext', hsame]
    rfl
  · rw [Effect.actions, Task.run_run, Task.run_run, hcontext, hcontext']
    exact hafter

end Echoes

theorem Task.taken_keeping (t : Task) (stop : Bool) (m : Message) (rest : List Message) :
    (t.keeping keep).taken stop m rest =
      ((t.taken stop m rest).1.keeping keep, (t.taken stop m rest).2) := by
  have hstop : (t.keeping keep).stopTold = t.stopTold := rfl
  unfold Task.taken Task.next
  rw [hstop]
  cases stop && !t.stopTold with
  | true => rfl
  | false => rfl

/-- If a wish to stop is seen in both runs or in none, both take the same message. -/
theorem Task.step_keeping (keep : Option Bool) {c : StageContext} {t : Task} (ht : t.context h = c)
    {p : Phase c.job.chain} (hchain : Positional c.job.chain) (hp : t.state = p.job c.job.targetKey)
    {m : Message} {rest : List Message} (hq : t.queue = m :: rest) {u v : World}
    (hstop : ((World.pause h).run u).2.registry.isCancelled c.ticket =
      ((World.pause k).run v).2.registry.isCancelled c.ticket) :
    ∃ (n : Message) (q : Phase c.job.chain) (es : List Effect) (next : Task), Phase.Step p n q es ∧
      next.context h = c ∧ next.state = q.job c.job.targetKey ∧
      (n = .cancelRequested ∧ next.queue = t.queue ∨ t.queue = n :: next.queue) ∧
      (t.step h m rest).run u =
        (next.performAll h (es.flatMap (Effect.actions next.job))).run ((World.pause h).run u).2 ∧
      ((t.keeping keep).step k m rest).run v = ((next.keeping keep).performAll k
        (es.flatMap (Effect.actions next.job))).run ((World.pause k).run v).2 := by
  have hticket : t.ticket = c.ticket := congrArg StageContext.ticket ht
  rw [← hticket] at hstop
  rw [Task.run_step, Task.run_step]
  generalize ((World.pause h).run u).2 = u' at hstop ⊢
  generalize ((World.pause k).run v).2 = v' at hstop ⊢
  have hkeeping : (t.keeping keep).taken (v'.registry.isCancelled (t.keeping keep).ticket) m rest =
      ((t.taken (u'.registry.isCancelled t.ticket) m rest).1.keeping keep,
        (t.taken (u'.registry.isCancelled t.ticket) m rest).2) := by
    rw [hstop]
    exact Task.taken_keeping t _ m rest
  simp only [hkeeping]
  obtain ⟨n, hhandle, hcontext, hqueue⟩ :=
    Task.taken_from (h := h) hq (u'.registry.isCancelled t.ticket)
  generalize t.taken (u'.registry.isCancelled t.ticket) m rest = taken at hhandle hcontext hqueue ⊢
  obtain ⟨next, es⟩ := taken
  obtain ⟨q, es', hhandle', hstep⟩ := Phase.handle_step hchain c.job.targetKey p n
  rw [← hp, hhandle] at hhandle'
  obtain ⟨hstate, rfl⟩ := Prod.mk.inj hhandle'
  refine ⟨n, q, es, next, hstep, hcontext.trans ht, hstate, hqueue, rfl, ?_⟩
  rw [show Effect.actions (next.keeping keep).job = Effect.actions next.job from
    funext fun e => e.actions_keeping next.job]

/-- Two hosts and a relation between their worlds, for a job in each of its phases and with the
messages it has not taken: between its stages both runs do the same, and its stages go together. -/
structure Shadows (h k : Host) (keep : Option Bool) (c : StageContext)
    (I : Phase c.job.chain → List Message → World → World → Prop) : Prop where
  echoes : ∀ p queue, Echoes h k keep c (I p queue)
  poll : ∀ p queue, Act.Pairs (I p queue) (I p queue) (pollCancelled h c.ticket)
    (pollCancelled k c.ticket)
  release : ∀ p queue, p.outcome ≠ none → Act.Pairs (I p queue) (I p queue)
    (Engine.release c.job.targetKey c.ticket) (Engine.release c.job.targetKey c.ticket)
  /-- A message is taken, and no stage is started. -/
  settle : ∀ p q m es queue rest u v, Phase.Step p m q es → (es = [] ∨ q.outcome ≠ none) →
    (m = .cancelRequested ∧ rest = queue ∨ queue = m :: rest) → I p queue u v → I q rest u v
  /-- A stage is run. -/
  run : ∀ p m (cut : Cut c.job.chain) es rest u v,
    Phase.Step p m (.underway cut 0) (es ++ [.startStage cut.stage]) → I p (m :: rest) u v →
    ((runStage h c cut.stage).run u).1 = ((runStage k (c.keeping keep) cut.stage).run v).1 ∧
      I (.underway cut 0)
        (rest ++ [.stageFinished cut.stage.ordinal ((runStage h c cut.stage).run u).1])
        ((runStage h c cut.stage).run u).2 ((runStage k (c.keeping keep) cut.stage).run v).2

namespace Shadows

variable {c : StageContext} {I : Phase c.job.chain → List Message → World → World → Prop}
  (S : Shadows h k keep c I)
include S

variable {p q : Phase c.job.chain} {queue : List Message} {t : Task} (ht : t.context h = c)
include ht

/-- Whatever message a task takes, both runs do the same about it. -/
theorem handled {m : Message} {es : List Effect} (hstep : Phase.Step p m q es)
    (hqueue : m = .cancelRequested ∧ t.queue = queue ∨ queue = m :: t.queue) {u v : World}
    (huv : I p queue u v) :
    t.Together (I q) keep (t.performAll h (es.flatMap (Effect.actions t.job)))
      ((t.keeping keep).performAll k (es.flatMap (Effect.actions t.job))) u v := by
  rcases hstep.asks with rfl | ⟨hne, cut, l, rfl, hes⟩ | ⟨l, o, oom, detail, hq, rfl⟩
  · have hrel := S.settle p q m [] queue t.queue u v hstep (.inl rfl) hqueue huv
    exact Task.Alike.together (fun _ _ huv => ⟨t.record, rfl, rfl, huv⟩) hrel
  · obtain rfl := hqueue.resolve_left fun hstop => hne hstop.1
    exact (S.echoes p _).opens ht hes (fun u v huv => S.run p m cut _ t.queue u v (hes ▸ hstep) huv) huv
  · have hover : q.outcome ≠ none := hq ▸ nofun
    have hrel := S.settle p q m _ queue t.queue u v hstep (.inr hover) hqueue huv
    exact ((S.echoes q _).ended ht (S.release q _ hover) l o oom detail).together hrel

/-- One message. -/
theorem step (hchain : Positional c.job.chain) (hp : t.state = p.job c.job.targetKey) {m : Message}
    {rest : List Message} (hq : t.queue = m :: rest) {u v : World} (huv : I p t.queue u v) :
    ∃ q : Phase c.job.chain, ((t.step h m rest).run u).1.state = q.job c.job.targetKey ∧
      ((t.step h m rest).run u).1.context h = c ∧
      (((t.keeping keep).step k m rest).run v).1 = ((t.step h m rest).run u).1.keeping keep ∧
      I q ((t.step h m rest).run u).1.queue ((t.step h m rest).run u).2
        (((t.keeping keep).step k m rest).run v).2 := by
  obtain ⟨hstop, hpolled⟩ := S.poll p t.queue u v huv
  obtain ⟨n, q, es, next, hstep, hcontext, hstate, hqueue, hleft, hright⟩ :=
    Task.step_keeping keep (k := k) (v := v) ht hchain hp hq hstop
  rw [hleft, hright]
  exact ⟨q, (S.handled hcontext hstep hqueue hpolled).step hcontext hstate⟩

/-- **Several messages.** -/
theorem runFor (hchain : Positional c.job.chain) (hp : t.state = p.job c.job.targetKey) (fuel : Nat)
    {u v : World} (huv : I p t.queue u v) :
    ∃ q : Phase c.job.chain, ((t.runFor h fuel).run u).1.state = q.job c.job.targetKey ∧
      (((t.keeping keep).runFor k fuel).run v).1 = ((t.runFor h fuel).run u).1.keeping keep ∧
      I q ((t.runFor h fuel).run u).1.queue ((t.runFor h fuel).run u).2
        (((t.keeping keep).runFor k fuel).run v).2 := by
  induction fuel generalizing t p u v with
  | zero => exact ⟨p, hp, rfl, huv⟩
  | succ fuel ih =>
    rw [Task.runFor_succ, Task.runFor_succ]
    have hqueue : (t.keeping keep).queue = t.queue := rfl
    rw [hqueue]
    cases hq : t.queue with
    | nil =>
      refine ⟨p, hp, rfl, ?_⟩
      show I p t.queue u v
      exact huv
    | cons m rest =>
      simp only
      rw [Act.run_bind, Act.run_bind]
      obtain ⟨q, hstate, hcontext, hsame, hnext⟩ := S.step ht hchain hp hq huv
      rw [hsame]
      exact ih hcontext hstate hnext

end Shadows

end Decompile
