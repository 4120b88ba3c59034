import Decompile.Proofs.Lifecycle.Shape
import Mathlib.Data.List.Induction

/-!
# The status of a job

How a job stands is said twice: by its outcome, which its messages decide, and by the status of its
chain, which is read off the states of its stages. A wish to stop overrules the report of the stage
that runs, but not the state of that stage; so the two part where no stage is left to be cancelled.

- `Overruled`: the report of the last stage came after a wish to stop.
- `Phase.status`, `Phase.status_job`: the status of the chain in each phase.
- `Phase.Heard`, `Phase.stopped_of_overruled`: which phase a job is in when its last stage was
  overruled, and the other way round.
- `StatusLaw`, `run_status`: the status of every job agrees with its outcome, but for those whose
  last report was overruled.
-/

namespace Decompile

namespace ChainStatus

/-- The status of the same name. -/
def ofOutcome : Outcome → ChainStatus
  | .succeeded => succeeded
  | .failed => failed
  | .cancelled => cancelled

/-- The status of a chain that ends with the report of its last stage. -/
def ofResult : StageResult → ChainStatus
  | .succeeded => succeeded
  | .failed _ _ => failed
  | .cancelled => cancelled

end ChainStatus

/-- After the messages the last stage of a new job runs. -/
def LastRuns (key : String) (chain : List Stage) (ms : List Message) : Prop :=
  ((JobState.new key chain).run ms).1.states.getLast? = some .running

/-- Somebody wanted the job to stop while its last stage ran, and that stage then reported `r`. -/
def Overruled (key : String) (chain : List Stage) (r : StageResult) (ms : List Message) : Prop :=
  ∃ before between after,
    ms = before ++ .cancelRequested :: between ++
      .stageFinished (chain.length - 1) r :: after ∧
    LastRuns key chain before ∧ LastRuns key chain (before ++ .cancelRequested :: between)

variable {chain : List Stage} {key : String}

/-- A report that was overruled stays so, whatever comes later. -/
theorem Overruled.concat {r : StageResult} {ms : List Message} (h : Overruled key chain r ms)
    (m : Message) : Overruled key chain r (ms ++ [m]) := by
  obtain ⟨before, between, after, rfl, hbefore, hbetween⟩ := h
  exact ⟨before, between, after ++ [m], by simp, hbefore, hbetween⟩

theorem Cut.ordinal_of_last (hc : Positional chain) (c : Cut chain) (last : c.rest = []) :
    c.stage.ordinal = chain.length - 1 := by
  rw [c.ordinal_stage hc, c.length_eq, last]
  simp

namespace Phase

/-! ## The states of the stages -/

theorem states_job (p : Phase chain) : (p.job key).states = p.slots.map Slot.state := rfl

/-- The status of the chain. -/
def status : Phase chain → ChainStatus
  | waiting => .waiting
  | underway _ _ => .running
  | succeeded => .succeeded
  | failed _ _ _ => .failed
  | unstarted => .cancelled
  | stopped c _ r _ => if c.rest = [] then .ofResult r else .cancelled

theorem status_job (hne : chain ≠ []) (p : Phase chain) : (p.job key).status = p.status := by
  have hlen : chain.length ≠ 0 := by simpa using hne
  rw [JobState.status, states_job]
  cases p with
  | waiting | succeeded | unstarted =>
    rw [slots, states_uniform]
    simp [ChainStatus.ofStates, status, hlen]
  | underway c stops =>
    rw [slots, states_cut]
    simp [ChainStatus.ofStates, status]
  | failed c oom message =>
    rw [slots, states_cut]
    simp [ChainStatus.ofStates, status]
  | stopped c stops r cause =>
    rw [slots, states_cut]
    by_cases hrest : c.rest = []
    · cases r <;> simp [ChainStatus.ofStates, ChainStatus.ofResult, JobState.stateAfter, status,
        hrest]
    · simp [ChainStatus.ofStates, status, hrest]

/-- A job that was stopped neither waits nor runs. -/
theorem status_stopped_ne (c : Cut chain) (stops : Nat) (r : StageResult)
    (cause : stops = 0 → r = .cancelled) :
    (stopped c stops r cause).status ≠ .waiting ∧ (stopped c stops r cause).status ≠ .running := by
  rw [status]
  split
  · cases r <;> simp [ChainStatus.ofResult]
  · exact ⟨by decide, by decide⟩

theorem status_eq_waiting_iff (p : Phase chain) :
    p.status = .waiting ↔ p.started = false ∧ p.outcome = none := by
  cases p with
  | stopped c stops r cause =>
    exact iff_of_false (status_stopped_ne c stops r cause).1 (by simp [outcome])
  | _ => simp [status, outcome, started]

theorem status_eq_running_iff (p : Phase chain) :
    p.status = .running ↔ p.started = true ∧ p.outcome = none := by
  cases p with
  | stopped c stops r cause =>
    exact iff_of_false (status_stopped_ne c stops r cause).2 (by simp [outcome])
  | _ => simp [status, outcome, started]

theorem getLast?_states_cut (c : Cut chain) (here later : StageState) :
    ((c.slots here later).map Slot.state).getLast? =
      some (if c.rest = [] then here else later) := by
  rw [states_cut, List.getLast?_append]
  cases c.rest with
  | nil => simp
  | cons s rest => simp [List.getLast?_cons, List.getLast?_replicate]

theorem getLast?_states_uniform {s : StageState} (hs : s ≠ .running) :
    ((chain.map (Slot.mk · s)).map Slot.state).getLast? ≠ some .running := by
  intro hlast
  rw [states_uniform] at hlast
  exact hs (List.eq_of_mem_replicate (List.mem_of_getLast? hlast)).symm

/-- Only a stage that is under way runs. -/
theorem underway_of_last_runs {p : Phase chain}
    (h : (p.job key).states.getLast? = some .running) :
    ∃ c stops, p = underway c stops ∧ c.rest = [] := by
  rw [states_job] at h
  cases p with
  | waiting => exact absurd h (getLast?_states_uniform nofun)
  | succeeded => exact absurd h (getLast?_states_uniform nofun)
  | unstarted => exact absurd h (getLast?_states_uniform nofun)
  | underway c stops =>
    rw [slots, getLast?_states_cut] at h
    by_cases hrest : c.rest = []
    · exact ⟨c, stops, rfl, hrest⟩
    · simp [hrest] at h
  | failed c oom message =>
    rw [slots, getLast?_states_cut] at h
    split at h <;> cases h
  | stopped c stops r cause =>
    rw [slots, getLast?_states_cut] at h
    split at h
    · cases r <;> cases h
    · cases h

theorem last_runs_of_underway {c : Cut chain} (stops : Nat) (last : c.rest = []) :
    ((underway c stops).job key).states.getLast? = some .running := by
  rw [states_job, slots, getLast?_states_cut, if_pos last]

/-! ## Wishes to stop while the last stage runs -/

/-- What the messages of a job with a single stage left must have been: if it was asked to stop,
then while that stage ran, and what that stage reported later was overruled. -/
structure Heard (key : String) (p : Phase chain) (ms : List Message) : Prop where
  underway : ∀ c stops, p = underway c stops → c.rest = [] → stops ≠ 0 →
    ∃ before between, ms = before ++ .cancelRequested :: between ∧ LastRuns key chain before
  stopped : ∀ c stops r cause, p = stopped c stops r cause → c.rest = [] → stops ≠ 0 →
    Overruled key chain r ms

theorem Heard.concat (hc : Positional chain) {p q : Phase chain} {m : Message} {e : List Effect}
    {ms : List Message} (hjob : ((JobState.new key chain).run ms).1 = p.job key)
    (hstep : Step p m q e) (h : p.Heard key ms) : q.Heard key (ms ++ [m]) := by
  cases hstep with
  | ignored p m =>
    constructor
    · intro c stops hp last hstops
      obtain ⟨before, between, rfl, hbefore⟩ := h.underway c stops hp last hstops
      exact ⟨before, between ++ [m], by simp, hbefore⟩
    · intro c stops r cause hp last hstops
      exact (h.stopped c stops r cause hp last hstops).concat m
  | stop c stops =>
    refine ⟨fun d n hd last _ => ?_, nofun⟩
    obtain ⟨rfl, rfl⟩ := underway.inj hd
    refine ⟨ms, [], rfl, ?_⟩
    rw [LastRuns, hjob]
    exact last_runs_of_underway stops last
  | report c stops r cause =>
    refine ⟨nofun, fun d n r' cause' hd last hstops => ?_⟩
    obtain ⟨rfl, rfl, rfl⟩ := stopped.inj hd
    obtain ⟨before, between, rfl, hbefore⟩ := h.underway c stops rfl last hstops
    refine ⟨before, between, [], by rw [c.ordinal_of_last hc last], hbefore, ?_⟩
    rw [LastRuns, hjob]
    exact last_runs_of_underway stops last
  -- nobody has wanted the job to stop yet
  | start c first => exact ⟨fun d n hd _ hn => absurd (underway.inj hd).2.symm hn, nofun⟩
  | advance c d later => exact ⟨fun d' n hd _ hn => absurd (underway.inj hd).2.symm hn, nofun⟩
  | startEmpty h => exact ⟨nofun, nofun⟩
  | stopUnstarted => exact ⟨nofun, nofun⟩
  | complete c last => exact ⟨nofun, nofun⟩
  | fail c oom message => exact ⟨nofun, nofun⟩

/-- Every job is in a phase that its messages account for. -/
theorem run_heard (hc : Positional chain) (key : String) (ms : List Message) :
    ∃ p : Phase chain, ((JobState.new key chain).run ms).1 = p.job key ∧ p.Heard key ms := by
  induction ms using List.reverseRecOn with
  | nil => exact ⟨waiting, rfl, nofun, nofun⟩
  | append_singleton ms m ih =>
    obtain ⟨p, hp, hheard⟩ := ih
    obtain ⟨q, e, hq, hstep⟩ := handle_step hc key p m
    refine ⟨q, ?_, hheard.concat hc hp hstep⟩
    rw [JobState.run_concat, hp, hq]

/-- A job that will be cancelled keeps to that, whatever it is told. -/
theorem run_of_stopping (hc : Positional chain) (key : String) {p : Phase chain}
    (hp : p.Stopping) (ms : List Message) : ∃ q : Phase chain, ((p.job key).run ms).1 = q.job key ∧ q.Stopping := by
  induction ms generalizing p with
  | nil => exact ⟨p, rfl, hp⟩
  | cons m ms ih =>
    obtain ⟨q, e, hq, hstep⟩ := handle_step hc key p m
    rw [JobState.run, hq]
    exact ih (hstep.stopping hp)

/-- The report of a stage that was asked to stop ends the job. -/
theorem handle_report_of_stop (hc : Positional chain) (key : String) (c : Cut chain) {stops : Nat}
    (hstops : stops ≠ 0) (r : StageResult) :
    (((underway c stops).job key).handle (.stageFinished c.stage.ordinal r)).1 =
      (stopped c stops r fun h => absurd h hstops).job key := by
  obtain ⟨q, e, hq, hstep⟩ := handle_report hc key c stops r
  rw [hq]
  cases hstep with
  | ignored p m h => simpa using h key
  | report c stops r cause => rfl
  | advance | complete | fail => exact absurd rfl hstops

/-- A job whose last report was overruled is stopped with that report. -/
theorem stopped_of_overruled (hc : Positional chain) {r : StageResult} {ms : List Message}
    (h : Overruled key chain r ms) : ∃ c stops cause, c.rest = [] ∧
      ((JobState.new key chain).run ms).1 = (stopped c stops r cause : Phase chain).job key := by
  obtain ⟨before, between, after, rfl, hbefore, hbetween⟩ := h
  obtain ⟨p, hp, -⟩ := run_phase hc key before
  rw [LastRuns, hp] at hbefore
  obtain ⟨c, stops, rfl, -⟩ := underway_of_last_runs hbefore
  -- the wish to stop is taken, and no message after it is a way back
  have hasked : (underway c (stops + 1)).Stopping := .inr ⟨rfl, rfl⟩
  obtain ⟨q, hq, hstopping⟩ := run_of_stopping hc key hasked between
  have hreached : ((JobState.new key chain).run (before ++ .cancelRequested :: between)).1 =
      q.job key := by
    rw [JobState.run_append, hp, ← hq]
    rfl
  rw [LastRuns, hreached] at hbetween
  obtain ⟨d, n, rfl, last⟩ := underway_of_last_runs hbetween
  have hn : n ≠ 0 := by simpa [Stopping, outcome, stopWanted] using hstopping
  refine ⟨d, n, fun h => absurd h hn, last, ?_⟩
  rw [JobState.run_append, hreached, JobState.run, ← d.ordinal_of_last hc last]
  have hreport := handle_report_of_stop hc key d hn r
  generalize ((underway d n).job key).handle (.stageFinished d.stage.ordinal r) = handled at hreport ⊢
  obtain ⟨j, effects⟩ := handled
  obtain rfl : j = _ := hreport
  show (((stopped d n r fun h => absurd h hn).job key).run after).1 = _
  rw [JobState.run_of_outcome (by simp [outcome])]

end Phase

/-! ## The law of the status -/

/-- How the status of a job that was given the messages goes with its outcome. -/
structure StatusLaw (key : String) (chain : List Stage) (ms : List Message) (j : JobState) :
    Prop where
  waiting_iff : j.status = .waiting ↔ j.started = false ∧ j.outcome = none
  running_iff : j.status = .running ↔ j.started = true ∧ j.outcome = none
  /-- A job that is over has the status of its outcome, unless its last stage reported that it
  succeeded or failed and was overruled. -/
  agrees_iff : ∀ o, j.outcome = some o →
    (j.status = .ofOutcome o ↔ ∀ r, Overruled key chain r ms → r = .cancelled)
  /-- In that case it was cancelled, and has the status of the report. -/
  overruled : ∀ r, Overruled key chain r ms →
    j.outcome = some .cancelled ∧ j.status = .ofResult r

theorem ChainStatus.ofResult_eq_cancelled_iff (r : StageResult) :
    ofResult r = .cancelled ↔ r = .cancelled := by
  cases r <;> simp [ofResult]

/-- **The law of the status.** Whatever messages a new job with at least one stage was given: it
waits, runs or is over by its status as it does by its flag and its outcome, and the two name the
same end exactly if the report of its last stage was not overruled. -/
theorem run_status (hc : Positional chain) (hne : chain ≠ []) (key : String) (ms : List Message) :
    StatusLaw key chain ms ((JobState.new key chain).run ms).1 := by
  have hoverruled : ∀ r, Overruled key chain r ms →
      ((JobState.new key chain).run ms).1.outcome = some .cancelled ∧
        ((JobState.new key chain).run ms).1.status = .ofResult r := by
    intro r hr
    obtain ⟨c, stops, cause, last, hstopped⟩ := Phase.stopped_of_overruled hc hr
    rw [hstopped, Phase.status_job hne]
    exact ⟨rfl, if_pos last⟩
  obtain ⟨p, hp, hheard⟩ := Phase.run_heard hc key ms
  rw [hp] at hoverruled ⊢
  rw [Phase.status_job hne] at hoverruled
  refine ⟨?_, ?_, fun o ho => ⟨fun hsame r hr => ?_, fun hnone => ?_⟩, ?_⟩
  · rw [Phase.status_job hne]
    exact p.status_eq_waiting_iff
  · rw [Phase.status_job hne]
    exact p.status_eq_running_iff
  · obtain ⟨hcancelled, hstatus⟩ := hoverruled r hr
    obtain rfl : Outcome.cancelled = o := Option.some.inj (hcancelled.symm.trans ho)
    rw [Phase.status_job hne, hstatus] at hsame
    exact (ChainStatus.ofResult_eq_cancelled_iff r).mp hsame
  · rw [Phase.status_job hne]
    cases p with
    | waiting => cases ho
    | underway c stops => cases ho
    | succeeded => cases ho; rfl
    | failed c oom message => cases ho; rfl
    | unstarted => cases ho; rfl
    | stopped c stops r cause =>
      cases ho
      by_cases last : c.rest = []
      · have hr : r = .cancelled := by
          by_cases hstops : stops = 0
          · exact cause hstops
          · exact hnone r (hheard.stopped c stops r cause rfl last hstops)
        rw [Phase.status, if_pos last, hr]
        rfl
      · rw [Phase.status, if_neg last]
        rfl
  · rw [Phase.status_job hne]
    exact hoverruled

/-- A wish to stop while the last stage runs, which then runs out of memory: the job is cancelled,
and its chain has failed. -/
theorem run_status_last_stage_overruled :
    let ms := [.start, .stageFinished 0 .succeeded, .stageFinished 1 .succeeded, .cancelRequested,
      .stageFinished 1 .succeeded, .stageFinished 2 (.failed true "heap"), .start]
    let j := ((JobState.new "app" (chainOf .jadx)).run ms).1
    Positional (chainOf .jadx) ∧ chainOf .jadx ≠ [] ∧
      Overruled "app" (chainOf .jadx) (.failed true "heap") ms ∧
      j.outcome = some .cancelled ∧ j.status = .failed := by
  intro ms j
  have hover : Overruled "app" (chainOf .jadx) (.failed true "heap") ms :=
    ⟨[.start, .stageFinished 0 .succeeded, .stageFinished 1 .succeeded],
      [.stageFinished 1 .succeeded], [.start], by decide, by unfold LastRuns; decide,
      by unfold LastRuns; decide⟩
  have hlaw := run_status (positional_chainOf .jadx) (by decide) "app" ms
  exact ⟨positional_chainOf .jadx, by decide, hover, hlaw.overruled _ hover⟩

end Decompile
