import Decompile.Proofs.Durability.Saving

/-!
# Jobs save their effects and tell them

- `Keeping`: how a job stands between two of its actions.
- `Keeping.effect`, `Keeping.step`, `Keeping.runFor`: one effect, one message, and several.
-/

namespace Decompile

open World (messagesOn)

variable {h : Host} {store : Place} {a : Accepted} {w u m v : World} {t : Task}
  {seen done es : List Effect} {e : Effect}

/-! ## Actions -/

namespace Task

variable (t : Task) (as : List Action) (u : World)

theorem run_release : (t.performAll h (.release :: as)).run u =
    (t.performAll h as).run ((Engine.release t.job.targetKey t.ticket).run u).2 := rfl

theorem run_log (r : LogRecord) : (t.performAll h (.log r :: as)).run u =
    (t.performAll h as).run ((World.note (.logged r)).run u).2 := rfl

theorem run_tell (m : BusMessage) : (t.performAll h (.tell m :: as)).run u =
    (t.performAll h as).run ((World.publish t.job.targetKey m).run u).2 := rfl

theorem perform_grows (x : Action) :
    ∃ new, ((t.perform h x).run u).2.journal = u.journal ++ new := by
  by_cases hx : x = .release
  · subst hx
    exact ⟨[.released t.job.targetKey t.ticket], rfl⟩
  · obtain ⟨new, hjournal, -⟩ := (perform_heeds (h := h) t hx u).journal
    exact ⟨new, hjournal⟩

theorem performAll_grows : ∃ new, ((t.performAll h as).run u).2.journal = u.journal ++ new := by
  induction as generalizing t u with
  | nil => exact ⟨[], (List.append_nil _).symm⟩
  | cons x as ih =>
    obtain ⟨first, hfirst⟩ := perform_grows (h := h) t u x
    obtain ⟨later, hlater⟩ := ih ((t.perform h x).run u).1 ((t.perform h x).run u).2
    exact ⟨first ++ later, by rw [run_performAll, hlater, hfirst, List.append_assoc]⟩

end Task

/-- How a job stands between two of its actions. -/
structure Keeping (h : Host) (store : Place) (a : Accepted) (w u : World) (t : Task)
    (seen done : List Effect) : Prop where
  account : Account store a w u seen done t.record
  stored : Stored h.settings.storage store u
  idle : u.monitor = none
  job : t.job = a.job

namespace Keeping

theorem layout (hu : Keeping h store a w u t seen done) :
    t.layout h = Layout.of h.settings.storage a.job.targetKey := by
  rw [Task.layout, hu.job]

/-- What is besides the records and the announcements of the job. -/
theorem quiet (hu : Keeping h store a w u t seen done)
    (hv : Guarded h.settings.storage store (· = a.job.targetKey) u v) (hidle : v.monitor = none)
    (hushed : announcedOn a.job.targetKey (u.since v) = []) :
    Keeping h store a w v t seen done :=
  ⟨hu.account.quiet hv.spared hushed, hv.stored, hidle, hu.job⟩

/-- Nothing happens to the disk, and only progress is told. -/
theorem aside (hu : Keeping h store a w u t seen done) (hv : SameDisk u v) (hidle : v.monitor = none)
    {ms : List BusMessage} (htold : Told h a.job.targetKey ms u v)
    (hms : ∀ m ∈ ms, m.isAnnouncement = false) : Keeping h store a w v t seen done :=
  hu.quiet (.sameDisk (.refl hu.stored) hv) hidle (htold.hushed hms)

/-- Neither the queue nor the state of the task bears on it. -/
theorem task (hu : Keeping h store a w u t seen done) {t' : Task} (hjob : t'.job = t.job)
    (hrecord : t'.record = t.record) : Keeping h store a w u t' seen done :=
  ⟨hrecord ▸ hu.account, hu.stored, hu.idle, hjob.trans hu.job⟩

section

variable (hclock : ∀ n, (h.time n).Dated)
  (hroot : h.settings.storage.Behind ["sources", a.job.targetKey]
    (Layout.of h.settings.storage a.job.targetKey).root)
include hclock hroot

/-- An effect is saved. -/
theorem record (hu : Keeping h store a w u t es es) {x : RecordEdit} (hedit : e.edit? = some x)
    (hsaved : AllSaved (Layout.of h.settings.storage a.job.targetKey) u
      ((t.perform h (.record x)).run u).2) :
    Keeping h store a w ((t.perform h (.record x)).run u).2 (t.recorded x (h.time u.clock)) es
      (es ++ [e]) := by
  rw [Task.run_record] at hsaved ⊢
  have hlayout : (t.recorded x (h.time u.clock)).layout h =
      Layout.of h.settings.storage a.job.targetKey := hu.layout
  unfold Task.saveRecord at hsaved ⊢
  rw [hlayout] at hsaved ⊢
  rw [Act.run_bind] at hsaved ⊢
  rcases hrun : ((t.recorded x (h.time u.clock)).record.save h
    (Layout.of h.settings.storage a.job.targetKey)).settle.run u with ⟨err | ⟨⟩, v⟩
  · -- the record was not saved, and this was complained about
    rw [hrun] at hsaved
    have hmoves : Moves h (fun _ => False) u v := by
      have hkeeps := JobRecord.save_moves (h := h) (N := fun _ => False)
        (Layout.of h.settings.storage a.job.targetKey) (t.recorded x (h.time u.clock)).record u
      rwa [hrun] at hkeeps
    obtain ⟨new, hjournal⟩ := ((hmoves.silent hu.idle).2 a.job.targetKey).grows
    refine absurd ?_ (hsaved err)
    rw [@World.since_eq _ _ (new ++ [.logged (saveFailed _ err)]) ?_]
    · exact List.mem_append_right _ List.mem_cons_self
    · rw [← List.append_assoc, ← hjournal]
      rfl
  · obtain ⟨m, hsaving⟩ := JobRecord.save_saving hroot hu.stored hu.idle hrun
    have hm := hu.account.quiet (hsaving.guarded.spared.mono fun _ _ => trivial)
      ((hsaving.told a.job.targetKey).hushed fun _ hm => absurd hm List.not_mem_nil)
    obtain rfl := hsaving.moved
    exact ⟨hm.save hedit (hclock _) hsaving.free hsaving.links, hsaving.stored, hsaving.idle, hu.job⟩

end

/-- An effect that was saved is told. -/
theorem tell (hu : Keeping h store a w u t es (es ++ [e])) {m : BusMessage}
    (hannounces : e.announcement? a.job = some m) (hreflected : m.ReflectedIn t.record) :
    Keeping h store a w ((t.perform h (.tell m)).run u).2 t (es ++ [e]) (es ++ [e]) := by
  have hrun : ((t.perform h (.tell m)).run u).2 = ((World.publish a.job.targetKey m).run u).2 := by
    rw [← hu.job]
    rfl
  rw [hrun]
  exact ⟨hu.account.tell hannounces hreflected,
    hu.stored.sameDisk (.of_note (o := .published a.job.targetKey m) rfl rfl rfl rfl), hu.idle, hu.job⟩

/-- The key is given back, and something is logged. -/
theorem released (hu : Keeping h store a w u t seen done) (key : String) (ticket : Nat) :
    Keeping h store a w ((Engine.release key ticket).run u).2 t seen done :=
  have htold : Told h a.job.targetKey [] u ((Engine.release key ticket).run u).2 :=
    .of_note rfl rfl rfl
  hu.aside (.of_note (o := .released key ticket) rfl rfl rfl rfl) hu.idle htold
    fun _ hm => absurd hm List.not_mem_nil

theorem logged (hu : Keeping h store a w u t seen done) (r : LogRecord) :
    Keeping h store a w ((World.note (.logged r)).run u).2 t seen done :=
  have htold : Told h a.job.targetKey [] u ((World.note (.logged r)).run u).2 :=
    .of_note rfl rfl rfl
  hu.aside (.of_note (o := .logged r) rfl rfl rfl rfl) hu.idle htold
    fun _ hm => absurd hm List.not_mem_nil

/-- Only progress is told. -/
theorem noticed (hu : Keeping h store a w u t seen done) {m : BusMessage}
    (hm : m.isAnnouncement = false) :
    Keeping h store a w ((World.publish t.job.targetKey m).run u).2 t seen done := by
  have htold : Told h a.job.targetKey [m] u ((World.publish t.job.targetKey m).run u).2 := by
    rw [hu.job]
    exact .single rfl rfl
  refine hu.aside (.of_note (o := .published t.job.targetKey m) rfl rfl rfl rfl) hu.idle htold
    fun m' hm' => ?_
  rwa [List.mem_singleton.mp hm']

/-- A stage is run. -/
theorem ran (hu : Keeping h store a w u t seen done)
    (hroot : h.settings.storage.Behind ["sources", a.job.targetKey]
      (Layout.of h.settings.storage a.job.targetKey).root)
    (ha : h.Avoids store (· = a.job.targetKey) w) (s : Stage) :
    Keeping h store a w ((runStage h (t.context h) s).run u).2 t seen done := by
  have hpoints := hu.account.points
  have havoids : h.Avoids store (· = a.job.targetKey) u := by
    refine ha.of_sameLinks hpoints.cwd ?_
    rw [hpoints.disk]
    exact hpoints.whole.steady.links
  have hcontext : (t.context h).layout = Layout.of h.settings.storage a.job.targetKey := hu.layout
  have hguarded := Alone.keeps (runStage_guarded hu.stored havoids (c := t.context h)
    (by rw [hcontext]; exact hroot) s) (.refl hu.stored)
  obtain ⟨hidle, events, hevents, htold⟩ := runStage_quiet (h := h) (t.context h) s u hu.idle
  rw [show (t.context h).job = a.job from hu.job] at htold
  refine hu.quiet hguarded hidle (htold.hushed fun m hm => ?_)
  obtain ⟨event, -, rfl⟩ := List.mem_map.mp hm
  rfl

end Keeping

/-! ## Effects -/

theorem JobRecord.length_apply (x : RecordEdit) (r : JobRecord) (now : Timestamp) :
    (x.apply r now).stages.length = r.stages.length := by
  cases x with
  | finish o oom => rfl
  | stage ordinal st =>
    cases hs : r.stages[ordinal]? with
    | none => simp [RecordEdit.apply, setStage, hs]
    | some s => simp [RecordEdit.apply, setStage, hs]

/-- The stage that an effect is about is one of the record. -/
def Effect.Fits (r : JobRecord) : Effect → Prop
  | .stageChanged s _ => s.ordinal < r.stages.length
  | .startStage _ | .finish _ _ _ => True

/-- What is told of an effect is what the record says that was saved for it. -/
theorem Effect.reflected {r : JobRecord} (he : e.Fits r) {x : RecordEdit} (hedit : e.edit? = some x)
    {j : Job} {m : BusMessage} (hannounces : e.announcement? j = some m) (now : Timestamp) :
    m.ReflectedIn (x.apply r now) := by
  cases e with
  | startStage s => cases hedit
  | finish o oom detail =>
    obtain rfl := Option.some.inj hedit
    obtain rfl := Option.some.inj hannounces
    exact ⟨rfl, rfl⟩
  | stageChanged s st =>
    obtain rfl := Option.some.inj hedit
    obtain rfl := Option.some.inj hannounces
    have hs : s.ordinal < r.stages.length := he
    simp [BusMessage.ReflectedIn, RecordEdit.apply, JobRecord.setStage, hs]

namespace Keeping

section

variable (hclock : ∀ n, (h.time n).Dated)
  (hroot : h.settings.storage.Behind ["sources", a.job.targetKey]
    (Layout.of h.settings.storage a.job.targetKey).root)
  (ha : h.Avoids store (· = a.job.targetKey) w)
include hclock hroot ha

/-- **One effect** is saved, and then told. -/
theorem effect (hu : Keeping h store a w u t es es) (hfits : e.Fits t.record)
    (hsaved : AllSaved (Layout.of h.settings.storage a.job.targetKey) u
      ((t.performAll h (e.actions t.job)).run u).2) :
    Keeping h store a w ((t.performAll h (e.actions t.job)).run u).2
        ((t.performAll h (e.actions t.job)).run u).1 (es ++ [e]) (es ++ [e]) ∧
      ((t.performAll h (e.actions t.job)).run u).1.record.stages.length = t.record.stages.length := by
  have hgrows := fun x => Task.perform_grows (h := h) t u (.record x)
  cases e with
  | startStage s =>
    have hran := hu.ran hroot ha s
    exact ⟨⟨hran.account.skip rfl rfl, hran.stored, hran.idle, hran.job⟩, rfl⟩
  | stageChanged s st =>
    rw [Effect.actions, Task.run_performAll, hu.job] at hsaved ⊢
    have hnow := hu.record (e := .stageChanged s st) hclock hroot rfl
      (hsaved.parts (hgrows _) ⟨_, rfl⟩).1
    exact ⟨hnow.tell rfl (Effect.reflected hfits rfl (j := a.job) rfl _),
      JobRecord.length_apply _ _ _⟩
  | finish o oom detail =>
    have hreflected := Effect.reflected (e := .finish o oom detail) trivial rfl (j := a.job) rfl
      (h.time u.clock) (r := t.record)
    rw [Effect.actions, List.append_assoc, List.cons_append, Task.run_performAll, hu.job] at hsaved ⊢
    have hnow := hu.record (e := .finish o oom detail) hclock hroot rfl
      (hsaved.parts (hgrows _) (Task.performAll_grows _ _ _)).1
    rw [Task.run_record] at hnow ⊢
    generalize (((t.recorded _ _).saveRecord h).run u).2 = v at hnow ⊢
    rw [List.cons_append, List.cons_append, List.nil_append, Task.run_release, Task.run_log]
    have hlogged := (hnow.released t.job.targetKey t.ticket).logged
      ⟨.info, Engine.logTarget, a.job.targetKey ++ " finished: " ++ o.label⟩
    unfold failureNotice
    cases (terminalOf a.job o oom detail).userMessage? with
    | none => exact ⟨hlogged.tell rfl hreflected, rfl⟩
    | some text =>
      rw [List.singleton_append, Task.run_tell]
      exact ⟨(hlogged.noticed rfl).tell rfl hreflected, rfl⟩

/-- **Several effects**, one after another. -/
theorem effects (hu : Keeping h store a w u t es es) {more : List Effect}
    (hfits : ∀ e ∈ more, e.Fits t.record)
    (hsaved : AllSaved (Layout.of h.settings.storage a.job.targetKey) u
      ((t.performAll h (more.flatMap (Effect.actions a.job))).run u).2) :
    Keeping h store a w ((t.performAll h (more.flatMap (Effect.actions a.job))).run u).2
        ((t.performAll h (more.flatMap (Effect.actions a.job))).run u).1 (es ++ more) (es ++ more) ∧
      ((t.performAll h (more.flatMap (Effect.actions a.job))).run u).1.record.stages.length =
        t.record.stages.length := by
  induction more generalizing es t u with
  | nil =>
    rw [List.append_nil]
    exact ⟨hu, rfl⟩
  | cons e more ih =>
    obtain ⟨hfit, hfits⟩ := List.forall_mem_cons.mp hfits
    rw [List.flatMap_cons, Task.performAll_append, Act.run_bind] at hsaved ⊢
    have hparts := hsaved.parts (Task.performAll_grows _ _ _) (Task.performAll_grows _ _ _)
    have hone := hu.effect (e := e) hclock hroot ha hfit (by rw [hu.job]; exact hparts.1)
    rw [hu.job] at hone
    obtain ⟨hone, hlength⟩ := hone
    have hrest := ih hone (fun e' he' => ?_) hparts.2
    · rw [List.append_assoc, List.singleton_append] at hrest
      exact ⟨hrest.1, hrest.2.trans hlength⟩
    · have hfit' := hfits e' he'
      cases e' with
      | stageChanged s st =>
        show s.ordinal < _
        rw [hlength]
        exact hfit'
      | startStage s => exact trivial
      | finish o oom detail => exact trivial

end

end Keeping

/-! ## Messages -/

theorem JobState.stages_new (key : String) (chain : List Stage) :
    (JobState.new key chain).slots.map Slot.stage = chain := by
  simp [new, Function.comp_def]

namespace Task

theorem step_grows (t : Task) (m : Message) (rest : List Message) (u : World) :
    ∃ new, ((t.step h m rest).run u).2.journal = u.journal ++ new := by
  obtain ⟨first, hfirst, -⟩ := (World.pause_still (h := h) u).journal
  rw [run_step]
  dsimp only
  generalize ((World.pause h).run u).2 = v at hfirst ⊢
  obtain ⟨later, hlater⟩ := performAll_grows (h := h)
    (t.taken (v.registry.isCancelled t.ticket) m rest).1
    ((t.taken (v.registry.isCancelled t.ticket) m rest).2.flatMap
      (Effect.actions (t.taken (v.registry.isCancelled t.ticket) m rest).1.job)) v
  exact ⟨first ++ later, by rw [hlater, hfirst, List.append_assoc]⟩

theorem runFor_grows (fuel : Nat) (t : Task) (u : World) :
    ∃ new, ((t.runFor h fuel).run u).2.journal = u.journal ++ new := by
  induction fuel generalizing t u with
  | zero => exact ⟨[], (List.append_nil _).symm⟩
  | succ fuel ih =>
    rw [runFor_succ]
    cases t.queue with
    | nil => exact ⟨[], (List.append_nil _).symm⟩
    | cons m rest =>
      obtain ⟨first, hfirst⟩ := step_grows (h := h) t m rest u
      obtain ⟨later, hlater⟩ := ih ((t.step h m rest).run u).1 ((t.step h m rest).run u).2
      refine ⟨first ++ later, ?_⟩
      rw [Act.run_bind, hlater, hfirst, List.append_assoc]

end Task

/-- A job whose record has its stages, after some messages. -/
structure Running (h : Host) (store : Place) (a : Accepted) (w u : World) (t : Task) (ms : List Message)
    (es : List Effect) : Prop where
  keeping : Keeping h store a w u t es es
  run : (JobState.new a.job.targetKey a.job.chain).run ms = (t.state, es)
  length : t.record.stages.length = a.job.chain.length

/-- What a legal log is about are stages that there are. -/
theorem fits_of_legal {states : List StageState} {es : List Effect} (hlegal : Legal states es)
    {r : JobRecord} (hr : r.stages.length = states.length) : ∀ e ∈ es, e.Fits r := by
  induction es generalizing states with
  | nil => exact fun e he => absurd he List.not_mem_nil
  | cons e es ih =>
    obtain ⟨hfirst, hrest⟩ := hlegal
    have hlength : (replayOne states e).length = states.length := by
      cases e with
      | stageChanged s st => exact List.length_set
      | startStage s => rfl
      | finish o oom detail => rfl
    refine List.forall_mem_cons.mpr ⟨?_, ih hrest (hr.trans hlength.symm)⟩
    cases e with
    | stageChanged s st =>
      obtain ⟨now, hnow, -⟩ := hfirst
      show s.ordinal < _
      rw [hr]
      exact (List.getElem?_eq_some_iff.mp hnow).1
    | startStage s => exact trivial
    | finish o oom detail => exact trivial

namespace Running

variable {ms : List Message} (hclock : ∀ n, (h.time n).Dated) (hc : Positional a.job.chain)
  (hroot : h.settings.storage.Behind ["sources", a.job.targetKey]
    (Layout.of h.settings.storage a.job.targetKey).root)
  (ha : h.Avoids store (· = a.job.targetKey) w)
include hclock hc hroot ha

/-- **One message.** -/
theorem step (hu : Running h store a w u t ms es) (m : Message) (rest : List Message)
    (hsaved : AllSaved (Layout.of h.settings.storage a.job.targetKey) u ((t.step h m rest).run u).2) :
    ∃ n more, Running h store a w ((t.step h m rest).run u).2 ((t.step h m rest).run u).1
      (ms ++ [n]) (es ++ more) := by
  rw [Task.run_step] at hsaved ⊢
  dsimp only at hsaved ⊢
  have hpause : Moves h (fun _ => False) u ((World.pause h).run u).2 := World.pause_moves u
  have hsilent := hpause.silent hu.keeping.idle
  have hstill := (World.pause_still (h := h)).sameDisk u
  have hgrows := (hsilent.2 a.job.targetKey).grows
  generalize ((World.pause h).run u).2 = v at hsaved hsilent hstill hgrows ⊢
  obtain ⟨hjob, -, n, hhandle⟩ := t.taken_eq (v.registry.isCancelled t.ticket) m rest
  have hrecord : (t.taken (v.registry.isCancelled t.ticket) m rest).1.record = t.record := by
    unfold Task.taken Task.next
    split <;> rfl
  generalize t.taken (v.registry.isCancelled t.ticket) m rest = x at hsaved hjob hhandle hrecord ⊢
  have hv : Keeping h store a w v x.1 es es :=
    (hu.keeping.aside hstill hsilent.1 (hsilent.2 a.job.targetKey)
      fun _ hm => absurd hm List.not_mem_nil).task hjob hrecord
  rw [hv.job] at hsaved ⊢
  have hstate : (JobState.new a.job.targetKey a.job.chain).run (ms ++ [n]) = (x.1.state, es ++ x.2) := by
    rw [JobState.run_concat, hu.run, hhandle]
  have hfits : ∀ e ∈ x.2, e.Fits x.1.record := by
    have hlogs := JobState.logs_run (j := .new a.job.targetKey a.job.chain)
      (by rwa [JobState.stages_new]) ms
    rw [hu.run] at hlogs
    have hstages := hlogs.stages.trans (JobState.stages_new _ _)
    have hlegal := (JobState.logs_handle (j := t.state) (by rwa [hstages]) n).legal
    rw [hhandle] at hlegal
    refine fits_of_legal hlegal ?_
    rw [hrecord, hu.length, ← hstages, JobState.states, List.length_map, List.length_map]
  obtain ⟨hlast, hlength⟩ := hv.effects hclock hroot ha hfits (hsaved.parts hgrows
    (Task.performAll_grows _ _ _)).2
  obtain ⟨r, queue, hfst⟩ := Task.performAll_fst (h := h) (x.2.flatMap (Effect.actions a.job)) x.1 v
  refine ⟨n, x.2, hlast, ?_, hlength.trans (hrecord ▸ hu.length)⟩
  rw [hstate, hfst]

/-- **Several messages.** -/
theorem runFor (fuel : Nat) (hu : Running h store a w u t ms es)
    (hsaved : AllSaved (Layout.of h.settings.storage a.job.targetKey) u ((t.runFor h fuel).run u).2) :
    ∃ more later, Running h store a w ((t.runFor h fuel).run u).2 ((t.runFor h fuel).run u).1
      (ms ++ more) (es ++ later) := by
  have hnone : Running h store a w u t (ms ++ []) (es ++ []) := by simpa using hu
  induction fuel generalizing u t ms es with
  | zero => exact ⟨[], [], hnone⟩
  | succ fuel ih =>
    rw [Task.runFor_succ] at hsaved ⊢
    cases hq : t.queue with
    | nil => exact ⟨[], [], hnone⟩
    | cons m rest =>
      simp only [hq, Act.run_bind] at hsaved ⊢
      have hparts := hsaved.parts (Task.step_grows _ _ _ _) (Task.runFor_grows _ _ _)
      obtain ⟨n, first, hone⟩ := hu.step hclock hc hroot ha m rest hparts.1
      obtain ⟨more, later, hrest⟩ := ih hone hparts.2 (by simpa using hone)
      rw [List.append_assoc, List.append_assoc] at hrest
      exact ⟨_, _, hrest⟩

end Running

end Decompile
