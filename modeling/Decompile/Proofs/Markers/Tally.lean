import Decompile.Proofs.Conservation.Run
import Decompile.Proofs.Markers.Run

/-!
# The stages of a run that succeeds

A job that has succeeded has run all of its stages, each of them with success.

- `Tallied`: what the phase of a job says of the stages that it has run.
- `Task.step_tallied`, `runFor_tallied`: one message, and several.
- `Engine.visits_succeeded`: the whole run.
-/

namespace Decompile

variable {h : Host} {c : StageContext} {w : World} {vs : List Visit} {t : Task} {as bs : List Action}

/-- What the phase of a job says of the stages that it has run, with the messages it has not taken. -/
def Tallied {chain : List Stage} (h : Host) (c : StageContext) : Phase chain → List Message → List Visit → Prop
  | .waiting, queue, vs => queue = [.start] ∧ vs = []
  | .underway cut _, queue, vs => ∃ done last, vs = done ++ [last] ∧ done.map Visit.stage = cut.done ∧
    (∀ x ∈ done, x.result h c = .succeeded) ∧ last.stage = cut.stage ∧
    queue = [.stageFinished cut.stage.ordinal (last.result h c)]
  | .succeeded, _, vs => vs.map Visit.stage = chain ∧ ∀ x ∈ vs, x.result h c = .succeeded
  | _, _, _ => True

namespace Task

theorem visitsOf_append (as bs : List Action) (t : Task) (w : World) :
    visitsOf h (as ++ bs) t w = visitsOf h as t w ++
      visitsOf h bs ((t.performAll h as).run w).1 ((t.performAll h as).run w).2 := by
  induction as generalizing t w with
  | nil => rfl
  | cons a as ih =>
    rw [List.cons_append, visitsOf, visitsOf, ih, run_performAll, List.append_assoc]

/-- Most actions run no stage. -/
theorem visitsOf_eq_nil (has : ∀ a ∈ as, ∀ s, a ≠ .run s) (t : Task) (w : World) : visitsOf h as t w = [] := by
  induction as generalizing t w with
  | nil => rfl
  | cons a as ih =>
    obtain ⟨ha, has⟩ := List.forall_mem_cons.mp has
    rw [visitsOf, ih has, List.append_nil]
    cases a with
    | run s => exact absurd rfl (ha s)
    | record | tell | release | log => rfl

/-- A change of a stage is written down and told. -/
theorem changed_tallied (t : Task) (stage : Stage) (state : StageState) (w : World) :
    visitsOf h ((Effect.stageChanged stage state).actions t.job) t w = [] ∧
      ∃ r, ((t.performAll h ((Effect.stageChanged stage state).actions t.job)).run w).1 = { t with record := r } :=
  ⟨rfl, _, rfl⟩

theorem finish_tallied (j : Job) (o : Outcome) (oom : Bool) (detail : Option String) (t : Task) (w : World) :
    visitsOf h ((Effect.finish o oom detail).actions j) t w = [] := by
  refine visitsOf_eq_nil (fun a ha s => ?_) t w
  rw [finish_actions] at ha
  rcases List.mem_cons.mp ha with rfl | ha
  · nofun
  rcases List.mem_cons.mp ha with rfl | ha
  · nofun
  rcases List.mem_cons.mp ha with rfl | ha
  · nofun
  · obtain ⟨m, -, rfl⟩ := List.mem_map.mp ha
    nofun

/-- A stage that is opened is run, and reports. -/
theorem opening_tallied (ht : t.context h = c) (stage : Stage) (w : World) :
    ∃ x : Visit, x.stage = stage ∧
      visitsOf h ((Phase.opening stage).flatMap (Effect.actions t.job)) t w = [x] ∧
      ((t.performAll h ((Phase.opening stage).flatMap (Effect.actions t.job))).run w).1.queue =
        t.queue ++ [.stageFinished stage.ordinal (x.result h c)] := by
  subst ht
  exact ⟨⟨stage, _⟩, rfl, rfl, rfl⟩

/-- A message that a job takes brings it on. -/
theorem handle_tallied {chain : List Stage} {p q : Phase chain} {m : Message} {es : List Effect}
    (hstep : Phase.Step p m q es) (ht : t.context h = c) {queue : List Message}
    (hvs : Tallied h c p queue vs) (hqueue : m = .cancelRequested ∧ t.queue = queue ∨ queue = m :: t.queue) :
    Tallied h c q ((t.performAll h (es.flatMap (Effect.actions t.job))).run w).1.queue
      (vs ++ visitsOf h (es.flatMap (Effect.actions t.job)) t w) := by
  cases hstep with
  | ignored p m hdeaf =>
    show Tallied h c p t.queue (vs ++ [])
    rw [List.append_nil]
    rcases hqueue with ⟨rfl, hsame⟩ | hsame
    · rwa [hsame]
    · cases p with
      | waiting =>
        obtain ⟨rfl, -⟩ := List.cons.inj (hsame.symm.trans hvs.1)
        cases hdeaf ""
      | underway cut stops =>
        obtain ⟨_, _, -, -, -, -, hreport⟩ := hvs
        obtain ⟨rfl, -⟩ := List.cons.inj (hsame.symm.trans hreport)
        have htakes := hdeaf ""
        simp at htakes
      | succeeded => exact hvs
      | failed | unstarted | stopped => trivial
  | start cut first =>
    obtain ⟨hstart, rfl⟩ := hvs
    rcases hqueue with ⟨hne, -⟩ | hsame
    · cases hne
    obtain ⟨-, hnil⟩ := List.cons.inj (hsame.symm.trans hstart)
    obtain ⟨x, hx, hvisits, hreport⟩ := opening_tallied ht cut.stage w
    rw [hvisits, hreport, hnil]
    exact ⟨[], x, rfl, first.symm, fun y hy => absurd hy List.not_mem_nil, hx, rfl⟩
  | startEmpty hnil =>
    obtain ⟨-, rfl⟩ := hvs
    subst hnil
    rw [List.flatMap_singleton, finish_tallied]
    exact ⟨rfl, fun x hx => absurd hx List.not_mem_nil⟩
  | stopUnstarted => trivial
  | stop cut stops =>
    show Tallied h c (.underway cut (stops + 1)) t.queue (vs ++ [])
    rw [List.append_nil]
    rcases hqueue with ⟨-, hsame⟩ | hsame
    · rw [hsame]
      exact hvs
    · obtain ⟨_, _, -, -, -, -, hreport⟩ := hvs
      cases (List.cons.inj (hsame.symm.trans hreport)).1
  | advance cut d later =>
    obtain ⟨done, last, rfl, hdone, hall, hlast, hreport⟩ := hvs
    rcases hqueue with ⟨hne, -⟩ | hsame
    · cases hne
    obtain ⟨hm, hnil⟩ := List.cons.inj (hsame.symm.trans hreport)
    obtain ⟨-, hresult⟩ := Message.stageFinished.inj hm
    obtain ⟨hquiet, r, hfst⟩ := changed_tallied (h := h) t cut.stage .succeeded w
    rw [List.flatMap_cons, visitsOf_append, performAll_append, Act.run_bind, hquiet, hfst, List.nil_append]
    obtain ⟨x, hx, hvisits, hqueue⟩ := opening_tallied (t := { t with record := r }) ht d.stage
      ((t.performAll h ((Effect.stageChanged cut.stage .succeeded).actions t.job)).run w).2
    refine ⟨done ++ [last], x, ?_, ?_, ?_, hx, ?_⟩
    · exact congrArg _ hvisits
    · rw [List.map_append, hdone, later, List.map_singleton, hlast]
    · rw [List.forall_mem_append]
      exact ⟨hall, fun y hy => List.mem_singleton.mp hy ▸ hresult.symm⟩
    · refine hqueue.trans ?_
      show t.queue ++ _ = _
      rw [hnil, List.nil_append]
  | complete cut last =>
    obtain ⟨done, final, rfl, hdone, hall, hlast, hreport⟩ := hvs
    rcases hqueue with ⟨hne, -⟩ | hsame
    · cases hne
    obtain ⟨hm, -⟩ := List.cons.inj (hsame.symm.trans hreport)
    obtain ⟨-, hresult⟩ := Message.stageFinished.inj hm
    rw [List.flatMap_cons, visitsOf_append, (changed_tallied t cut.stage .succeeded w).1,
      List.flatMap_singleton, finish_tallied, List.append_nil, List.append_nil]
    refine ⟨?_, ?_⟩
    · rw [List.map_append, hdone, List.map_singleton, hlast, ← cut.eq_of_last last]
    · rw [List.forall_mem_append]
      exact ⟨hall, fun y hy => List.mem_singleton.mp hy ▸ hresult.symm⟩
  | fail cut oom message => trivial
  | report cut stops r cause => trivial

/-- One message. -/
theorem step_tallied (hchain : Positional c.job.chain) (ht : t.context h = c) {p : Phase c.job.chain}
    (hp : t.state = p.job c.job.targetKey) (hvs : Tallied h c p t.queue vs) {m : Message}
    {rest : List Message} (hq : t.queue = m :: rest) :
    let v := ((World.pause h).run w).2
    let u := t.taken (v.registry.isCancelled t.ticket) m rest
    ∃ q : Phase c.job.chain, ((t.step h m rest).run w).1.state = q.job c.job.targetKey ∧
      ((t.step h m rest).run w).1.context h = c ∧
      Tallied h c q ((t.step h m rest).run w).1.queue
        (vs ++ visitsOf h (u.2.flatMap (Effect.actions u.1.job)) u.1 v) := by
  simp only [run_step]
  generalize ((World.pause h).run w).2 = v
  generalize v.registry.isCancelled t.ticket = stop
  -- whichever message is taken, the queue is as it should be
  have htaken : ∃ n, t.state.handle n = ((t.taken stop m rest).1.state, (t.taken stop m rest).2) ∧
      (t.taken stop m rest).1.context h = c ∧
      (n = .cancelRequested ∧ (t.taken stop m rest).1.queue = t.queue ∨
        t.queue = n :: (t.taken stop m rest).1.queue) := by
    unfold taken next
    split
    · exact ⟨.cancelRequested, rfl, ht, .inl ⟨rfl, rfl⟩⟩
    · exact ⟨m, rfl, ht, .inr hq⟩
  obtain ⟨n, hhandle, hcontext, hqueue⟩ := htaken
  generalize t.taken stop m rest = taken at hhandle hcontext hqueue ⊢
  obtain ⟨q, es, hhandle', hstep⟩ := Phase.handle_step hchain c.job.targetKey p n
  rw [← hp, hhandle] at hhandle'
  obtain ⟨hstate, rfl⟩ := Prod.mk.inj hhandle'
  refine ⟨q, ?_, (context_performAll _ _ _).trans hcontext, handle_tallied hstep hcontext hvs hqueue⟩
  obtain ⟨r, queue, hfst⟩ := performAll_fst (h := h) (taken.2.flatMap (Effect.actions taken.1.job)) taken.1 v
  rw [hfst]
  exact hstate

/-- Several messages. -/
theorem runFor_tallied (hchain : Positional c.job.chain) (fuel : Nat) (ht : t.context h = c)
    {p : Phase c.job.chain} (hp : t.state = p.job c.job.targetKey) (hvs : Tallied h c p t.queue vs) :
    ∃ q : Phase c.job.chain, ((t.runFor h fuel).run w).1.state = q.job c.job.targetKey ∧
      Tallied h c q ((t.runFor h fuel).run w).1.queue (vs ++ visits h fuel t w) := by
  induction fuel generalizing t p w vs with
  | zero => exact ⟨p, hp, (List.append_nil vs).symm ▸ hvs⟩
  | succ fuel ih =>
    rw [runFor_succ, visits]
    cases hq : t.queue with
    | nil => exact ⟨p, hp, (List.append_nil vs).symm ▸ hvs⟩
    | cons m rest =>
      simp only
      obtain ⟨q, hstate, hcontext, hnext⟩ := step_tallied (w := w) hchain ht hp hvs hq
      rw [Act.run_bind, ← List.append_assoc]
      exact ih hcontext hstate hnext

end Task

/-- **A job that has succeeded has run all of its stages with success.** -/
theorem Engine.visits_succeeded {a : Accepted} (ha : Positional a.job.chain) (hidle : w.monitor = none)
    (hdone : Succeeds h a w) : (visits h a w).map Visit.stage = a.job.chain ∧
      ∀ x ∈ visits h a w, x.result h (a.context h) = .succeeded := by
  obtain ⟨q, hstate, htallied⟩ := Task.runFor_tallied (h := h) (w := w) (c := a.context h) ha
    (Task.ofAccepted a).messageBound (t := .ofAccepted a) rfl (p := .waiting) rfl ⟨rfl, rfl⟩
  have houtcome := Succeeds.outcome ha hidle hdone
  rw [hstate, Phase.job_outcome] at houtcome
  cases q with
  | succeeded => exact htallied
  | waiting | underway | failed | unstarted | stopped => cases houtcome

end Decompile
