import Decompile.Proofs.Cancellation.Heeds

/-!
# Runs heed a wish to stop

- `Frees`: a job that held its key has given it back, and heeded a wish to stop.
- `Task.step_heeds`, `Task.runFor_heeds`: one message, and several. As long as a job is not over it
  holds its key.
- `Engine.Reached.holding`: in every world that an engine can come to, the jobs that wait hold their
  keys.
-/

namespace Decompile

variable {h : Host} {key : String} {ticket : Nat}

/-! ## A job gives its key back -/

/-- The job that held the key has given it back, all others still hold theirs, and no attempt of the
job was begun once it was asked to stop. -/
structure Freed (key : String) (ticket : Nat) (w v : World) : Prop where
  sound : v.registry.Sound
  free : v.registry.holder? key = none
  held : ∀ {k : String} {t : Nat}, k ≠ key → w.registry.holder? k = some t →
    v.registry.holder? k = some t
  waiting : ∃ more, v.waiting = w.waiting ++ more ∧ (more.map fun a => a.job.targetKey).Nodup ∧
    ∀ a ∈ more, w.registry.holder? a.job.targetKey = none ∧
      v.registry.holder? a.job.targetKey = some a.ticket
  journal : ∃ new, v.journal = w.journal ++ new ∧ Obeys key ticket w new

/-- A job that holds the key has given it back in the end. -/
def Frees (key : String) (ticket : Nat) (w v : World) : Prop :=
  w.registry.Sound → w.registry.holder? key = some ticket → Freed key ticket w v

namespace Frees

variable {u v w : World}

/-- A job heeds a wish to stop and then gives its key back. -/
theorem of_release (hw : Heeds key ticket w v) :
    Frees key ticket w ((Engine.release key ticket).run v).2 := by
  intro hsound hheld
  have hv : v.registry.holder? key = some ticket := hw.guards.held hheld
  have hkept : ∀ k, k ≠ key →
      (v.registry.release key ticket).holder? k = v.registry.holder? k := fun k hk => by
    rw [Registry.holder?_release, if_neg fun hand => hk hand.1]
  obtain ⟨more, hmore, hkeys, hboth⟩ := hw.guards.waiting
  obtain ⟨new, hnew, hlaw⟩ := hw.journal
  obtain ⟨htoken, hobeys⟩ := hlaw hsound hheld
  constructor
  case sound => exact (hw.guards.sound hsound).release
  case free =>
    show (v.registry.release key ticket).holder? key = none
    rw [Registry.holder?_release, if_pos ⟨rfl, hv⟩]
  case held => exact fun hk hheld' => (hkept _ hk).trans (hw.guards.held hheld')
  case waiting =>
    refine ⟨more, hmore, hkeys, fun a ha => ⟨(hboth a ha).1, ?_⟩⟩
    have hother : a.job.targetKey ≠ key := by
      intro heq
      have hfree := (hboth a ha).1
      rw [heq, hheld] at hfree
      cases hfree
    exact (hkept _ hother).trans (hboth a ha).2
  case journal =>
    refine ⟨new ++ [.released key ticket], ?_, hobeys.append htoken (.of_forall ?_)⟩
    · show v.journal ++ _ = _
      rw [hnew, List.append_assoc]
    · intro kind chunk hmem
      cases List.mem_singleton.mp hmem

/-- What idles may come after. -/
theorem idles (hw : Frees key ticket w v) (hv : Idles v u) : Frees key ticket w u := by
  intro hsound hheld
  obtain ⟨hsound', hfree, hheld', ⟨more, hmore, hkeys, hboth⟩, new, hnew, hobeys⟩ :=
    hw hsound hheld
  obtain ⟨late, hlate, hnone⟩ := hv.journal
  constructor
  case sound => exact hv.alike.sound hsound'
  case free => rw [hv.alike.holder?, hfree]
  case held => exact fun hk hk' => (hv.alike.holder? _).trans (hheld' hk hk')
  case waiting =>
    exact ⟨more, hv.waiting.trans hmore, hkeys,
      fun a ha => ⟨(hboth a ha).1, (hv.alike.holder? _).trans (hboth a ha).2⟩⟩
  case journal =>
    refine ⟨new ++ late, by rw [hlate, hnew, List.append_assoc], ?_⟩
    intro past later kind chunk heq
    rcases List.append_eq_append_iff.mp heq with ⟨more, -, hmore⟩ | ⟨rest, rfl, hrest⟩
    · exact absurd (hmore ▸ List.mem_append_right _ List.mem_cons_self) (hnone ticket kind chunk)
    · cases rest with
      | nil =>
        have hmem : Occurrence.attempted ticket kind chunk ∈ late := by
          rw [List.nil_append] at hrest
          rw [← hrest]
          exact List.mem_cons_self
        exact absurd hmem (hnone ticket kind chunk)
      | cons o rest =>
        obtain ⟨rfl, -⟩ := List.cons.inj hrest
        exact hobeys past rest kind chunk rfl

end Frees

/-! ## Actions of a job -/

namespace Task

/-- An action changes at most the record of a task and the messages it has not taken. -/
theorem perform_fst (t : Task) (a : Action) (w : World) :
    ∃ r queue, ((t.perform h a).run w).1 = { t with record := r, queue := queue } := by
  cases a with
  | record e => exact ⟨_, t.queue, rfl⟩
  | run s => exact ⟨t.record, _, rfl⟩
  | tell m => exact ⟨t.record, t.queue, rfl⟩
  | release => exact ⟨t.record, t.queue, rfl⟩
  | log r => exact ⟨t.record, t.queue, rfl⟩

theorem performAll_fst (as : List Action) (t : Task) (w : World) :
    ∃ r queue, ((t.performAll h as).run w).1 = { t with record := r, queue := queue } := by
  induction as generalizing t w with
  | nil => exact ⟨t.record, t.queue, rfl⟩
  | cons a as ih =>
    unfold performAll
    rw [Act.run_bind]
    obtain ⟨r, queue, hfirst⟩ := perform_fst (h := h) t a w
    obtain ⟨r', queue', hrest⟩ := ih ((t.perform h a).run w).1 ((t.perform h a).run w).2
    refine ⟨r', queue', ?_⟩
    rw [hrest, hfirst]

/-- What a task takes is handled by the same job with the same ticket. -/
theorem taken_eq (t : Task) (stop : Bool) (m : Message) (rest : List Message) :
    (t.taken stop m rest).1.job = t.job ∧ (t.taken stop m rest).1.ticket = t.ticket ∧
      ∃ n, t.state.handle n = ((t.taken stop m rest).1.state, (t.taken stop m rest).2) := by
  unfold taken next
  split
  · exact ⟨rfl, rfl, .cancelRequested, rfl⟩
  · exact ⟨rfl, rfl, m, rfl⟩

/-- A task takes what comes first, or overtaking it a wish to stop. -/
theorem taken_from {t : Task} {m : Message} {rest : List Message} (hq : t.queue = m :: rest)
    (stop : Bool) :
    ∃ n, t.state.handle n = ((t.taken stop m rest).1.state, (t.taken stop m rest).2) ∧
      (t.taken stop m rest).1.context h = t.context h ∧
      (n = .cancelRequested ∧ (t.taken stop m rest).1.queue = t.queue ∨
        t.queue = n :: (t.taken stop m rest).1.queue) := by
  unfold taken next
  split
  · exact ⟨.cancelRequested, rfl, rfl, .inl ⟨rfl, rfl⟩⟩
  · exact ⟨m, rfl, rfl, .inr hq⟩

/-- A task keeps its job and its ticket. -/
theorem runFor_fst (fuel : Nat) (t : Task) (w : World) :
    ((t.runFor h fuel).run w).1.job = t.job ∧ ((t.runFor h fuel).run w).1.ticket = t.ticket := by
  induction fuel generalizing t w with
  | zero => exact ⟨rfl, rfl⟩
  | succ fuel ih =>
    rw [runFor_succ]
    cases hq : t.queue with
    | nil => exact ⟨rfl, rfl⟩
    | cons m rest =>
      simp only [Act.run_bind, ih, run_step]
      generalize ((World.pause h).run w).2 = v
      obtain ⟨hjob, hticket, -⟩ := t.taken_eq (v.registry.isCancelled t.ticket) m rest
      generalize t.taken (v.registry.isCancelled t.ticket) m rest = u at hjob hticket ⊢
      obtain ⟨r, queue, hfst⟩ :=
        performAll_fst (h := h) (u.2.flatMap (Effect.actions u.1.job)) u.1 v
      rw [hfst]
      exact ⟨hjob, hticket⟩

/-- Every action but giving the key back heeds a wish to stop. -/
theorem perform_heeds (t : Task) {a : Action} (ha : a ≠ .release) :
    Act.Keeps (Heeds t.job.targetKey t.ticket) (t.perform h a) := by
  cases a with
  | release => exact absurd rfl ha
  | record e =>
    unfold perform
    refine (World.now_reads.keeps).bind fun now => ?_
    exact (saveRecord_moves _).heeds.bind fun _ => .pure _
  | tell m => exact fun w => .of_note rfl ⟨nofun, nofun⟩ rfl rfl
  | log r => exact fun w => .of_note rfl ⟨nofun, nofun⟩ rfl rfl
  | run s =>
    unfold perform
    have hstage : Act.Keeps (Heeds t.job.targetKey t.ticket) (runStage h (t.context h) s) :=
      runStage_heeds (c := t.context h) s
    exact hstage.bind fun _ => .pure _

theorem performAll_heeds {as : List Action} (has : ∀ a ∈ as, a ≠ .release) (t : Task) :
    Act.Keeps (Heeds t.job.targetKey t.ticket) (t.performAll h as) := by
  induction as generalizing t with
  | nil => exact .pure t
  | cons a as ih =>
    intro w
    unfold performAll
    rw [Act.run_bind]
    obtain ⟨ha, has⟩ := List.forall_mem_cons.mp has
    obtain ⟨r, queue, hfirst⟩ := perform_fst (h := h) t a w
    have hrest := ih has ((t.perform h a).run w).1 ((t.perform h a).run w).2
    rw [hfirst] at hrest ⊢
    exact (perform_heeds t ha w).trans hrest

/-- What is told idles. -/
theorem tellAll_idles (t : Task) (said : List BusMessage) :
    Act.Keeps Idles (t.performAll h (said.map .tell)) := by
  induction said with
  | nil => exact .pure t
  | cons m said ih =>
    have htell : Act.Keeps Idles (World.publish t.job.targetKey m) :=
      fun w => .of_note rfl nofun rfl rfl
    show Act.Keeps Idles (World.publish t.job.targetKey m >>= fun _ => t.performAll h _)
    exact htell.bind fun _ => ih

/-- The key is given back, a line is logged, and the end is told. -/
theorem release_frees {w₀ w : World} (t : Task) (line : LogRecord) (said : List BusMessage)
    (hw : Heeds t.job.targetKey t.ticket w₀ w) :
    Frees t.job.targetKey t.ticket w₀
      ((t.performAll h (.release :: .log line :: said.map .tell)).run w).2 := by
  let v := ((Engine.release t.job.targetKey t.ticket).run w).2
  have hlogged : Idles v ((World.note (.logged line)).run v).2 := .of_note rfl nofun rfl rfl
  exact ((Frees.of_release hw).idles hlogged).idles (tellAll_idles t said _)

/-- The end of a job frees its key. -/
theorem finish_frees {w₀ w : World} (t : Task) (o : Outcome) (oom : Bool) (detail : Option String)
    (hw : Heeds t.job.targetKey t.ticket w₀ w) :
    Frees t.job.targetKey t.ticket w₀
      ((t.performAll h ((Effect.finish o oom detail).actions t.job)).run w).2 := by
  obtain ⟨r, queue, hsaved⟩ := perform_fst (h := h) t (.record (.finish o oom)) w
  have hsave := hw.trans (perform_heeds (h := h) t (a := .record (.finish o oom)) nofun w)
  rw [finish_actions]
  unfold performAll
  rw [Act.run_bind]
  generalize (t.perform h (.record (.finish o oom))).run w = saved at hsaved hsave ⊢
  rw [hsaved]
  exact release_frees { t with record := r, queue := queue } _ _ hsave

/-! ## Messages of a job -/

/-- The actions of changes of stages do not give the key back. -/
theorem release_not_mem_of_changes (j : Job) {es : List Effect}
    (hes : ∀ o oom detail, .finish o oom detail ∉ es) :
    ∀ a ∈ es.flatMap (Effect.actions j), a ≠ .release := by
  intro a ha
  obtain ⟨e, he, ha⟩ := List.mem_flatMap.mp ha
  cases e with
  | stageChanged s state =>
    rcases List.mem_cons.mp ha with rfl | ha
    · nofun
    · obtain rfl := List.mem_singleton.mp ha
      nofun
  | startStage s =>
    obtain rfl := List.mem_singleton.mp ha
    nofun
  | finish o oom detail => exact absurd he (hes o oom detail)

/-- The actions of a step of a job that is not over: the job goes on to hold its key, or it is over
and has given it back. -/
theorem effects_heed {chain : List Stage} {p q : Phase chain} {m : Message} {es : List Effect}
    (hstep : Phase.Step p m q es) (hopen : p.outcome = none) (t : Task) {w₀ w : World}
    (hw : Heeds t.job.targetKey t.ticket w₀ w) :
    (q.outcome = none → Heeds t.job.targetKey t.ticket w₀
      ((t.performAll h (es.flatMap (Effect.actions t.job))).run w).2) ∧
    (q.outcome ≠ none → Frees t.job.targetKey t.ticket w₀
      ((t.performAll h (es.flatMap (Effect.actions t.job))).run w).2) := by
  rcases hstep.effects hopen with ⟨hq, hes⟩ | ⟨changes, o, oom, detail, hq, rfl⟩
  · refine ⟨fun _ => ?_, fun hover => absurd hq hover⟩
    exact hw.trans (performAll_heeds (release_not_mem_of_changes t.job hes) t w)
  · refine ⟨fun hq' => ?_, fun _ => ?_⟩
    · rw [hq] at hq'
      cases hq'
    · rw [List.flatMap_append, performAll_append, Act.run_bind, List.flatMap_singleton]
      let told := (changes.map fun x => Effect.stageChanged x.1 x.2).flatMap (Effect.actions t.job)
      have hnone : ∀ a ∈ told, a ≠ .release :=
        release_not_mem_of_changes t.job fun o oom detail hmem => by simp at hmem
      obtain ⟨r, queue, hfirst⟩ := performAll_fst (h := h) told t w
      have hbefore := hw.trans (performAll_heeds (h := h) hnone t w)
      rw [hfirst]
      exact finish_frees { t with record := r, queue := queue } o oom detail hbefore

/-- **One message** of a job that is not over: it goes on to hold its key, or it is over and has given
it back. -/
theorem step_heeds {j : Job} (hc : Positional j.chain) {t : Task} (hj : t.job = j)
    {p : Phase j.chain} (hp : t.state = p.job j.targetKey) (hopen : p.outcome = none) (m : Message)
    (rest : List Message) {w₀ w : World} (hw : Heeds j.targetKey t.ticket w₀ w) :
    ∃ q : Phase j.chain, ((t.step h m rest).run w).1.state = q.job j.targetKey ∧
      ((t.step h m rest).run w).1.job = j ∧ ((t.step h m rest).run w).1.ticket = t.ticket ∧
      (q.outcome = none → Heeds j.targetKey t.ticket w₀ ((t.step h m rest).run w).2) ∧
      (q.outcome ≠ none → Frees j.targetKey t.ticket w₀ ((t.step h m rest).run w).2) := by
  subst hj
  simp only [run_step]
  have hpaused := hw.trans (World.pause_moves.heeds (h := h) w)
  generalize ((World.pause h).run w).2 = v at hpaused ⊢
  obtain ⟨hjob, hticket, n, hhandle⟩ := t.taken_eq (v.registry.isCancelled t.ticket) m rest
  generalize t.taken (v.registry.isCancelled t.ticket) m rest = u at hjob hticket hhandle ⊢
  obtain ⟨q, es, hhandle', hstep⟩ := Phase.handle_step hc t.job.targetKey p n
  rw [← hp, hhandle] at hhandle'
  obtain ⟨hstate, heffects⟩ := Prod.mk.inj hhandle'
  obtain ⟨r, queue, hfst⟩ := performAll_fst (h := h) (u.2.flatMap (Effect.actions u.1.job)) u.1 v
  have hpaused' : Heeds u.1.job.targetKey u.1.ticket w₀ v := by rwa [hjob, hticket]
  have hboth := effects_heed (h := h) hstep hopen u.1 hpaused'
  rw [← heffects, hjob, hticket] at hboth
  rw [hjob] at hfst ⊢
  rw [hfst]
  exact ⟨q, hstate, rfl, hticket, hboth⟩

/-- A job that is over does nothing but look at the messages it has left. -/
theorem runFor_over (fuel : Nat) {t : Task} (ht : t.state.outcome ≠ none) (w : World) :
    ((t.runFor h fuel).run w).1.state = t.state ∧ Idles w ((t.runFor h fuel).run w).2 := by
  induction fuel generalizing t w with
  | zero => exact ⟨rfl, Std.Refl.refl w⟩
  | succ fuel ih =>
    rw [runFor_succ]
    cases hq : t.queue with
    | nil => exact ⟨rfl, Std.Refl.refl w⟩
    | cons m rest =>
      simp only [Act.run_bind, run_step]
      have hpaused := (World.pause_moves (h := h) w).idles
      generalize ((World.pause h).run w).2 = v at hpaused ⊢
      obtain ⟨-, -, n, hhandle⟩ := t.taken_eq (v.registry.isCancelled t.ticket) m rest
      rw [JobState.handle_of_outcome ht] at hhandle
      obtain ⟨hstate, heffects⟩ := Prod.mk.inj hhandle
      simp only [← heffects]
      obtain ⟨hlast, hidles⟩ := ih (t := (t.taken (v.registry.isCancelled t.ticket) m rest).1)
        (by rw [← hstate]; exact ht) v
      exact ⟨hlast.trans hstate.symm, hpaused.trans hidles⟩

/-- **Several messages.** As long as the job is not over it holds its key and heeds a wish to stop;
when it is over it has given its key back. -/
theorem runFor_heeds {j : Job} (hc : Positional j.chain) (fuel : Nat) {t : Task} (hj : t.job = j)
    {p : Phase j.chain} (hp : t.state = p.job j.targetKey) (hopen : p.outcome = none)
    {w₀ w : World} (hw : Heeds j.targetKey t.ticket w₀ w) :
    (((t.runFor h fuel).run w).1.state.outcome = none →
      Heeds j.targetKey t.ticket w₀ ((t.runFor h fuel).run w).2) ∧
    (((t.runFor h fuel).run w).1.state.outcome ≠ none →
      Frees j.targetKey t.ticket w₀ ((t.runFor h fuel).run w).2) := by
  induction fuel generalizing t p w with
  | zero =>
    refine ⟨fun _ => hw, fun hover => absurd ?_ hover⟩
    show t.state.outcome = none
    rw [hp]
    exact hopen
  | succ fuel ih =>
    rw [runFor_succ]
    cases hq : t.queue with
    | nil =>
      refine ⟨fun _ => hw, fun hover => absurd ?_ hover⟩
      show t.state.outcome = none
      rw [hp]
      exact hopen
    | cons m rest =>
      simp only
      rw [Act.run_bind]
      obtain ⟨q, hstate, hjob, hticket, hheeds, hfrees⟩ :=
        step_heeds (h := h) hc hj hp hopen m rest hw
      generalize (t.step h m rest).run w = stepped at hstate hjob hticket hheeds hfrees ⊢
      cases hq : q.outcome with
      | none =>
        have hnext := ih hjob hstate hq (w := stepped.2) (by rw [hticket]; exact hheeds hq)
        rw [hticket] at hnext
        exact hnext
      | some o =>
        have hover : stepped.1.state.outcome ≠ none := by
          rw [hstate, Phase.job_outcome, hq]
          nofun
        obtain ⟨hlast, hidles⟩ := runFor_over (h := h) fuel hover stepped.2
        refine ⟨fun hnone => absurd (hlast ▸ hnone) hover, fun _ => ?_⟩
        exact (hfrees (by rw [hq]; nofun)).idles hidles

end Task

namespace Engine

variable {a : Accepted}

/-- To give a key back that nobody holds changes nothing. -/
theorem release_idles {v : World} (hfree : v.registry.holder? key = none) :
    Idles v ((release key ticket).run v).2 :=
  .of_note rfl nofun (Registry.release_of_ne (by rw [hfree]; nofun)) rfl

/-- A job that holds its key when it begins has given it back when it is over. -/
theorem runJob_freed (hc : Positional a.job.chain) {w : World} (hidle : w.monitor = none)
    (hsound : w.registry.Sound) (hheld : w.registry.holder? a.job.targetKey = some a.ticket) :
    Freed a.job.targetKey a.ticket w ((runJob h a).run w).2 := by
  let t := Task.ofAccepted a
  obtain ⟨ms, ⟨-, transcript, -, -, houtcome, -⟩, -⟩ :=
    Task.runFor_transcript (h := h) hc (Nat.le_refl _) w hidle
  have hfrees := (Task.runFor_heeds (h := h) hc t.messageBound (t := t) rfl (p := .waiting) rfl rfl
    (Heeds.refl w)).2 (by rw [houtcome]; nofun)
  have hfreed := hfrees hsound hheld
  exact hfrees.idles (release_idles hfreed.free) hsound hheld

end Engine

/-! ## Sessions -/

namespace Holding

variable {r : Registry} {as more : List Accepted}

theorem of_perm {bs : List Accepted} (hr : Holding r as) (hp : as.Perm bs) : Holding r bs where
  sound := hr.sound
  held b hb := hr.held b (hp.mem_iff.mpr hb)
  keys := (hp.map _).nodup_iff.mp hr.keys

/-- The jobs that wait go on to hold their keys when others are taken on. -/
theorem guards {w v : World} (hw : Holding w.registry w.waiting) (hg : Guards w v) :
    Holding v.registry v.waiting := by
  obtain ⟨more, hmore, hkeys, hboth⟩ := hg.waiting
  rw [hmore]
  constructor
  case sound => exact hg.sound hw.sound
  case held =>
    intro a ha
    rcases List.mem_append.mp ha with ha | ha
    · exact hg.held (hw.held a ha)
    · exact (hboth a ha).2
  case keys =>
    rw [List.map_append]
    refine List.nodup_append.mpr ⟨hw.keys, hkeys, fun k hk k' hk' heq => ?_⟩
    obtain ⟨a, ha, rfl⟩ := List.mem_map.mp hk
    obtain ⟨b, hb, rfl⟩ := List.mem_map.mp hk'
    have hfree := (hboth b hb).1
    rw [← heq, hw.held a ha] at hfree
    cases hfree

/-- The jobs that still wait go on to hold their keys when one has been run. -/
theorem freed {w v : World} {a : Accepted} (hw : Holding w.registry (a :: w.waiting))
    (hv : Freed a.job.targetKey a.ticket w v) : Holding v.registry v.waiting := by
  obtain ⟨more, hmore, hkeys, hboth⟩ := hv.waiting
  have hdistinct := List.nodup_cons.mp hw.keys
  have hrest : ∀ b ∈ w.waiting, w.registry.holder? b.job.targetKey = some b.ticket :=
    fun b hb => hw.held b (List.mem_cons_of_mem a hb)
  rw [hmore]
  constructor
  case sound => exact hv.sound
  case held =>
    intro b hb
    rcases List.mem_append.mp hb with hb | hb
    · exact hv.held (fun heq => hdistinct.1 (List.mem_map.mpr ⟨b, hb, heq⟩)) (hrest b hb)
    · exact (hboth b hb).2
  case keys =>
    rw [List.map_append]
    refine List.nodup_append.mpr ⟨hdistinct.2, hkeys, fun k hk k' hk' heq => ?_⟩
    obtain ⟨b, hb, rfl⟩ := List.mem_map.mp hk
    obtain ⟨b', hb', rfl⟩ := List.mem_map.mp hk'
    have hfree := (hboth b' hb').1
    rw [← heq, hrest b hb] at hfree
    cases hfree

end Holding

/-- Who is asked to stop goes on to hold the key. -/
theorem Engine.cancelJob_guards (key : String) : Act.Keeps Guards (cancelJob key) := by
  intro w
  obtain ⟨said, hsaid⟩ := World.run_cancel key w
  show Guards w ((World.cancel key).run w).2
  rw [hsaid]
  exact .cancel rfl rfl

theorem Engine.submit_guards (s : Submission) : Try.Keeps Guards (submit h s) :=
  fun w => (submit_submitted s w).guards fun _ _ hm => hm.guards

namespace Engine

/-- In every world that an engine can come to, the jobs that wait hold their keys. -/
theorem Reached.holding {w : World} (hw : Reached h w) : Holding w.registry w.waiting := by
  induction hw with
  | new disk cwd => exact ⟨Registry.sound_empty, fun _ ha => absurd ha List.not_mem_nil, .nil⟩
  | submit _ s ih => exact ih.guards (submit_guards s _)
  | resume _ ih => exact ih.guards (resumePending_keep (fun _ _ hm => hm.guards) submit_guards _)
  | cancel _ key ih => exact ih.guards (cancelJob_guards key _)
  | subscribe _ key ih => exact ih
  | drain _ id ih => exact ih
  | unsubscribe _ id ih => exact ih
  | pass _ ih => exact ih.guards (World.pause_moves (N := fun _ => False) _).guards
  | edit _ disk ih => exact ih
  | @run w hw before after a waits ih =>
    have hrest := hw.atRest
    have hall : Holding w.registry (a :: (before ++ after)) := by
      rw [waits] at ih
      exact ih.of_perm List.perm_middle
    have hc : Positional a.job.chain := (hrest.planned a (by simp [waits])).positional
    exact hall.freed (w := { w with waiting := before ++ after })
      (runJob_freed hc hrest.idle hall.sound (hall.held a List.mem_cons_self))

/-- A job that waits holds its key. -/
theorem Reached.held {w : World} (hw : Reached h w) {before after : List Accepted} {a : Accepted}
    (waits : w.waiting = before ++ a :: after) :
    w.registry.Sound ∧ w.registry.holder? a.job.targetKey = some a.ticket :=
  ⟨hw.holding.sound, hw.holding.held a (by simp [waits])⟩

end Engine

end Decompile
