import Decompile.Proofs.Protocol.Told

/-!
# The messages of effects

- `Tells`: an action begun while nothing is watched tells certain messages and leaves nothing
  watched.
- `Task.SawTo`: what becomes of a task when effects are seen to.
- `Task.performAll_tells`: the actions of effects tell messages that follow the effects.
-/

namespace Decompile

variable {h : Host} {key : String}

/-! ## Actions that tell -/

/-- Begun while nothing is watched, the action tells messages that `P` admits for its result, and
leaves nothing watched. -/
def Tells {α : Type} (h : Host) (key : String) (x : Act α) (P : α → List BusMessage → Prop) :
    Prop :=
  ∀ w, w.monitor = none → ∃ ms, P (x.run w).1 ms ∧ (x.run w).2.monitor = none ∧
    Told h key ms w (x.run w).2

namespace Tells

variable {α β : Type} {P : α → List BusMessage → Prop} {Q : β → List BusMessage → Prop}

theorem pure {a : α} (hP : P a []) : Tells h key (Pure.pure a) P :=
  fun w hw => ⟨[], hP, hw, .refl w⟩

theorem bind {x : Act α} {f : α → Act β} (hx : Tells h key x P)
    (hf : ∀ a ms, P a ms → Tells h key (f a) fun b more => Q b (ms ++ more)) :
    Tells h key (x >>= f) Q := by
  intro w hw
  obtain ⟨ms, hP, hidle, htold⟩ := hx w hw
  obtain ⟨more, hQ, hidle', htold'⟩ := hf _ ms hP _ hidle
  exact ⟨ms ++ more, hQ, hidle', htold.append htold'⟩

theorem mono {R : α → List BusMessage → Prop} {x : Act α} (hx : Tells h key x P)
    (hPR : ∀ a ms, P a ms → R a ms) : Tells h key x R := by
  intro w hw
  obtain ⟨ms, hP, hrest⟩ := hx w hw
  exact ⟨ms, hPR _ ms hP, hrest⟩

/-- Work that is free to tell nothing. -/
theorem silent {x : Act α} (hx : Act.Keeps (Moves h fun _ => False) x) :
    Tells h key x fun _ ms => ms = [] := by
  intro w hw
  obtain ⟨hidle, htold⟩ := (hx w).silent hw
  exact ⟨[], rfl, hidle, htold key⟩

theorem silent_bind {x : Act α} {f : α → Act β} (hx : Act.Keeps (Moves h fun _ => False) x)
    (hf : ∀ a, Tells h key (f a) Q) : Tells h key (x >>= f) Q := by
  refine (silent hx).bind fun a ms hms => ?_
  obtain rfl := hms
  exact hf a

theorem publish (m : BusMessage) :
    Tells h key (World.publish key m) fun _ ms => ms = [m] :=
  fun _ hw => ⟨[m], rfl, hw, .single rfl rfl⟩

/-- Nobody is told that a key is given back. -/
theorem release (k : String) (ticket : Nat) :
    Tells h key (Engine.release k ticket) fun _ ms => ms = [] :=
  fun _ hw => ⟨[], rfl, hw, .of_note rfl rfl rfl⟩

end Tells

/-! ## Effects of a job that runs -/

namespace Task

theorem performAll_append (t : Task) (as bs : List Action) :
    t.performAll h (as ++ bs) = t.performAll h as >>= fun u => u.performAll h bs := by
  induction as generalizing t with
  | nil => rfl
  | cons a as ih => simp only [List.cons_append, performAll, ih, bind_assoc]

theorem saveRecord_moves {N : Occurrence → Prop} (t : Task) :
    Act.Keeps (Moves h N) (t.saveRecord h) := by
  unfold saveRecord
  refine (JobRecord.save_moves _ _).settle.bind fun r => ?_
  cases r with
  | ok _ => exact .pure ()
  | error e => exact World.log_moves _ _ _

theorem perform_record_tells (t : Task) (e : RecordEdit) :
    Tells h key (t.perform h (.record e)) fun u ms =>
      (∃ r, u = { t with record := r }) ∧ ms = [] := by
  unfold perform
  refine .silent_bind World.now_reads.keeps fun now => ?_
  exact .silent_bind (saveRecord_moves _) fun _ => .pure ⟨⟨_, rfl⟩, rfl⟩

theorem perform_tell_tells (t : Task) (m : BusMessage) :
    Tells h t.job.targetKey (t.perform h (.tell m)) fun u ms => u = t ∧ ms = [m] := by
  unfold perform
  refine (Tells.publish m).bind fun _ ms hms => .pure ⟨rfl, ?_⟩
  rw [hms, List.append_nil]

theorem perform_release_tells (t : Task) :
    Tells h key (t.perform h .release) fun u ms => u = t ∧ ms = [] := by
  unfold perform
  exact (Tells.release _ _).bind fun _ ms hms => .pure ⟨rfl, by rw [hms, List.append_nil]⟩

theorem perform_log_tells (t : Task) (r : LogRecord) :
    Tells h key (t.perform h (.log r)) fun u ms => u = t ∧ ms = [] := by
  unfold perform
  exact .silent_bind (World.log_moves r.level r.target r.text) fun _ => .pure ⟨rfl, rfl⟩

theorem perform_run_tells (t : Task) (s : Stage) :
    Tells h t.job.targetKey (t.perform h (.run s)) fun u ms =>
      ∃ (r : StageResult) (events : List ProgressEvent),
        u = { t with queue := t.queue ++ [.stageFinished s.ordinal r] } ∧
        (∀ e ∈ events, e.isProgress = true) ∧ ms = events.map (.status t.job.targetKey) := by
  unfold perform
  intro w hw
  obtain ⟨hidle, events, hevents, htold⟩ := runStage_quiet (t.context h) s w hw
  exact ⟨_, ⟨_, events, rfl, hevents, rfl⟩, hidle, htold⟩

theorem tellAll_tells (t : Task) (said : List BusMessage) :
    Tells h t.job.targetKey (t.performAll h (said.map .tell)) fun u ms => u = t ∧ ms = said := by
  induction said with
  | nil => exact .pure ⟨rfl, rfl⟩
  | cons m said ih =>
    refine (perform_tell_tells t m).bind ?_
    rintro u ms ⟨rfl, rfl⟩
    refine ih.mono ?_
    rintro v more ⟨rfl, rfl⟩
    exact ⟨rfl, rfl⟩

/-- The task after effects were seen to: its record may have changed, and stages have brought their
reports. -/
def SawTo (t : Task) (es : List Effect) (u : Task) (ms : List BusMessage) : Prop :=
  ∃ (r : JobRecord) (reports : List Message),
    u = { t with record := r, queue := t.queue ++ reports } ∧ Follows t.job es reports ms

theorem failureNotice_terminalOf (j : Job) (o : Outcome) (oom : Bool) (detail : Option String) :
    failureNotice j (terminalOf j o oom detail) = (terminalOf j o oom detail).notice.map .tell := by
  unfold failureNotice TerminalResult.notice
  cases (terminalOf j o oom detail).userMessage? <;> rfl

/-- What is done about the end of a job: it is written down, the key is given back, and then it is
told. -/
theorem finish_actions (j : Job) (o : Outcome) (oom : Bool) (detail : Option String) :
    (Effect.finish o oom detail).actions j =
      .record (.finish o oom) :: .release ::
        .log ⟨.info, Engine.logTarget, j.targetKey ++ " finished: " ++ o.label⟩ ::
        ((terminalOf j o oom detail).notice ++
          [BusMessage.terminal (terminalOf j o oom detail)]).map .tell := by
  rw [List.map_append, ← failureNotice_terminalOf]
  rfl

theorem effect_tells (t : Task) (e : Effect) :
    Tells h t.job.targetKey (t.performAll h (e.actions t.job)) (t.SawTo [e]) := by
  cases e with
  | stageChanged s state =>
    refine (perform_record_tells t _).bind ?_
    rintro u ms ⟨⟨r, rfl⟩, rfl⟩
    refine (tellAll_tells { t with record := r } [.stageChanged t.job.targetKey s state]).mono ?_
    rintro v more ⟨rfl, rfl⟩
    exact ⟨r, [], by simp, .changed s state .nothing⟩
  | startStage s =>
    refine (perform_run_tells t s).bind fun u ms hu => .pure ?_
    obtain ⟨r, events, rfl, hevents, rfl⟩ := hu
    exact ⟨t.record, _, rfl, .started s r events hevents .nothing⟩
  | finish o oom detail =>
    rw [finish_actions]
    refine (perform_record_tells t _).bind ?_
    rintro u ms ⟨⟨r, rfl⟩, rfl⟩
    refine (perform_release_tells _).bind ?_
    rintro u ms ⟨rfl, rfl⟩
    refine (perform_log_tells _ _).bind ?_
    rintro u ms ⟨rfl, rfl⟩
    refine (tellAll_tells { t with record := r } _).mono ?_
    rintro v more ⟨rfl, rfl⟩
    exact ⟨r, [], by simp, .finished o oom detail .nothing⟩

/-- What has to be done about effects, in order. -/
theorem performAll_tells (t : Task) (es : List Effect) :
    Tells h t.job.targetKey (t.performAll h (es.flatMap (Effect.actions t.job))) (t.SawTo es) := by
  induction es generalizing t with
  | nil => exact .pure ⟨t.record, [], by simp, .nothing⟩
  | cons e es ih =>
    rw [List.flatMap_cons, performAll_append]
    refine (effect_tells t e).bind ?_
    rintro u ms ⟨r, reports, rfl, hfirst⟩
    refine (ih { t with record := r, queue := t.queue ++ reports }).mono ?_
    rintro v later ⟨r', more, rfl, hrest⟩
    exact ⟨r', reports ++ more, by simp, hfirst.cons hrest⟩

end Task

end Decompile
