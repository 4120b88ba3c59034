import Decompile.Proofs.Lifecycle.Phase

/-!
# How jobs end

The outcome of a job, read off the messages it has listened to. A wish to stop decides before all
reports that follow it.

- `Completed`, `Broke`, `Halted`: three things that lists of messages can say.
- `OutcomeLaw`, `run_outcome`: which of them a job's messages say is its outcome, and what is told
  of its end.
-/

namespace Decompile

/-! ## Criteria -/

/-- Reports of success by the first `n` stages, one after another. -/
def successes (n : Nat) : List Message :=
  (List.range n).map fun i => .stageFinished i .succeeded

/-- The job was started, and all stages reported success in turn, with no wish to stop before the
last of these reports. -/
def Completed (n : Nat) (log : List Message) : Prop :=
  .start ∈ log ∧ ∃ earlier later, log = earlier ++ later ∧ (successes n).Sublist earlier ∧
    .cancelRequested ∉ earlier

/-- A stage reported this failure, with no wish to stop before it. -/
def Broke (oom : Bool) (message : String) (log : List Message) : Prop :=
  ∃ earlier later i, log = earlier ++ .stageFinished i (.failed oom message) :: later ∧
    .cancelRequested ∉ earlier

/-- Somebody wanted the job to stop before its start, or before some report, or a stage reported
that it was cancelled. -/
def Halted (log : List Message) : Prop :=
  (∃ earlier later, log = earlier ++ .cancelRequested :: later ∧ .start ∉ earlier) ∨
  (∃ earlier between later i r,
    log = earlier ++ .cancelRequested :: between ++ .stageFinished i r :: later) ∨
  ∃ i, .stageFinished i .cancelled ∈ log

/-! ## Lists cut at a wish to stop -/

/-- What stands before the first of some entries stands before each of them. -/
theorem exists_eq_append_of_not_mem {α : Type} {l m a b : List α} {x : α}
    (h : l ++ m = a ++ x :: b) (hx : x ∉ l) : ∃ d, a = l ++ d := by
  rcases List.append_eq_append_iff.mp h with ⟨d, hd, -⟩ | ⟨d, hd, hm⟩
  · exact ⟨d, hd⟩
  · cases d with
    | nil => exact ⟨[], by simpa using hd.symm⟩
    | cons y d =>
      obtain rfl : x = y := (List.cons.inj hm).1
      exact absurd (by simp [hd]) hx

theorem mem_reports {l : List Stage} {m : Message} :
    m ∈ Phase.reports l ↔ ∃ s ∈ l, .stageFinished s.ordinal .succeeded = m := List.mem_map

namespace Cut

variable {chain : List Stage}

theorem ordinal_lt (hc : Positional chain) (c : Cut chain) {s : Stage} (hs : s ∈ c.done) :
    s.ordinal < c.stage.ordinal := by
  rw [c.ordinal_stage hc]
  obtain ⟨i, hi, rfl⟩ := List.getElem_of_mem hs
  have hget : chain[i]? = some c.done[i] := by
    obtain ⟨done, stage, rest, rfl⟩ := c
    rw [List.getElem?_append_left hi, List.getElem?_eq_getElem hi]
  rw [hc i _ hget]
  exact hi

theorem ordinal_lt_length (hc : Positional chain) (c : Cut chain) :
    c.stage.ordinal < chain.length := by
  rw [c.ordinal_stage hc]
  obtain ⟨done, stage, rest, rfl⟩ := c
  simp

/-- The stage at the cut is not among those that succeeded. -/
theorem report_not_mem (hc : Positional chain) (c : Cut chain) (r : StageResult) :
    .stageFinished c.stage.ordinal r ∉ Phase.reports c.done := by
  intro hmem
  obtain ⟨s, hs, heq⟩ := mem_reports.mp hmem
  have hlt := c.ordinal_lt hc hs
  simp only [Message.stageFinished.injEq] at heq
  omega

end Cut

theorem reports_eq_successes {chain : List Stage} (hc : Positional chain) :
    Phase.reports chain = successes chain.length := by
  refine List.ext_getElem (by simp [Phase.reports, successes]) fun i hi hi' => ?_
  have hlen : i < chain.length := by simpa [Phase.reports] using hi
  have hord := hc i chain[i] (List.getElem?_eq_getElem hlen)
  simp [Phase.reports, successes, hord]

/-! ## Which criteria the messages of a phase meet -/

namespace Phase

variable {chain : List Stage}

/-- The reports of the stages before a cut, then wishes to stop, then something more. -/
def historyAt (c : Cut chain) (stops : Nat) (last : List Message) : List Message :=
  .start :: reports c.done ++ List.replicate stops .cancelRequested ++ last

/-- With a wish to stop among them, what stands before it stands in the reports. -/
theorem exists_eq_reports {c : Cut chain} {stops : Nat} {last earlier later : List Message}
    (h : historyAt c stops last = earlier ++ later) (hstop : .cancelRequested ∉ earlier)
    (hpos : stops ≠ 0) : ∃ d, .start :: reports c.done = earlier ++ d := by
  obtain ⟨k, rfl⟩ : ∃ k, stops = k + 1 := ⟨stops - 1, by omega⟩
  rw [historyAt, List.replicate_succ, List.append_assoc] at h
  exact exists_eq_append_of_not_mem h.symm hstop

theorem not_completed_at (hc : Positional chain) (c : Cut chain) (stops : Nat)
    (last : List Message)
    (hlast : stops = 0 → .stageFinished c.stage.ordinal .succeeded ∉ last) :
    ¬ Completed chain.length (historyAt c stops last) := by
  rintro ⟨-, earlier, later, hsplit, hsub, hstop⟩
  have hreport : .stageFinished c.stage.ordinal .succeeded ∈ earlier := by
    refine hsub.mem ?_
    exact List.mem_map.mpr ⟨_, List.mem_range.mpr (c.ordinal_lt_length hc), rfl⟩
  by_cases hpos : stops = 0
  · have hmem : .stageFinished c.stage.ordinal .succeeded ∈ historyAt c stops last := by
      rw [hsplit]
      exact List.mem_append_left later hreport
    simp [historyAt, hpos, c.report_not_mem hc, hlast hpos] at hmem
  · obtain ⟨d, hd⟩ := exists_eq_reports hsplit hstop hpos
    have hmem : .stageFinished c.stage.ordinal .succeeded ∈ .start :: reports c.done := by
      rw [hd]
      exact List.mem_append_left d hreport
    simp [c.report_not_mem hc] at hmem

theorem completed_iff (hc : Positional chain) (p : Phase chain) :
    Completed chain.length p.history ↔ p.outcome = some .succeeded := by
  cases p with
  | waiting => simp [Completed, history, outcome]
  | unstarted => simp [Completed, history, outcome]
  | succeeded =>
    refine iff_of_true ⟨List.mem_cons_self, .start :: reports chain, [], ?_, ?_, ?_⟩ rfl
    · rw [List.append_nil]
      rfl
    · rw [reports_eq_successes hc]
      exact List.sublist_cons_self _ _
    · simp [reports]
  | underway c stops =>
    refine iff_of_false ?_ (by simp [outcome])
    have hnot := not_completed_at hc c stops [] fun _ => List.not_mem_nil
    simpa [historyAt, history] using hnot
  | failed c oom message =>
    refine iff_of_false ?_ (by simp [outcome])
    have hnot := not_completed_at hc c 0
      [.stageFinished c.stage.ordinal (.failed oom message)] fun _ => by simp
    simpa [historyAt, history] using hnot
  | stopped c stops r cause =>
    refine iff_of_false ?_ (by simp [outcome])
    exact not_completed_at hc c stops [.stageFinished c.stage.ordinal r] fun h => by
      simp [cause h]

theorem not_broke_at (c : Cut chain) (stops : Nat) (last : List Message) (oom : Bool)
    (message : String)
    (hlast : stops = 0 → ∀ i, .stageFinished i (.failed oom message) ∉ last) :
    ¬ Broke oom message (historyAt c stops last) := by
  rintro ⟨earlier, later, i, hsplit, hstop⟩
  by_cases hpos : stops = 0
  · have hmem : .stageFinished i (.failed oom message) ∈ historyAt c stops last := by
      rw [hsplit]
      simp
    simp [historyAt, hpos, reports, hlast hpos i] at hmem
  · rw [List.append_cons] at hsplit
    obtain ⟨d, hd⟩ := exists_eq_reports hsplit (by simp [hstop]) hpos
    have hmem : .stageFinished i (.failed oom message) ∈ .start :: reports c.done := by
      rw [hd]
      simp
    simp [reports] at hmem

theorem broke_iff (p : Phase chain) (oom : Bool) (message : String) :
    Broke oom message p.history ↔ p.failure = some (oom, message) := by
  cases p with
  | waiting => simp [Broke, history, failure]
  | unstarted =>
    refine iff_of_false ?_ (by simp [failure])
    rintro ⟨earlier, later, i, hsplit, -⟩
    have hmem : .stageFinished i (.failed oom message) ∈ history (unstarted : Phase chain) := by
      rw [hsplit]
      simp
    simp [history] at hmem
  | succeeded =>
    refine iff_of_false ?_ (by simp [failure])
    rintro ⟨earlier, later, i, hsplit, -⟩
    have hmem : .stageFinished i (.failed oom message) ∈ history (succeeded : Phase chain) := by
      rw [hsplit]
      simp
    simp [history, reports] at hmem
  | underway c stops =>
    refine iff_of_false ?_ (by simp [failure])
    have hnot := not_broke_at c stops [] oom message fun _ i => List.not_mem_nil
    simpa [historyAt, history] using hnot
  | failed c oom' message' =>
    constructor
    · rintro ⟨earlier, later, i, hsplit, -⟩
      have hmem : .stageFinished i (.failed oom message) ∈
          history (failed c oom' message') := by
        rw [hsplit]
        simp
      obtain ⟨-, rfl, rfl⟩ : i = c.stage.ordinal ∧ oom = oom' ∧ message = message' := by
        simpa [history, reports] using hmem
      rfl
    · intro h
      obtain ⟨rfl, rfl⟩ : oom' = oom ∧ message' = message := by simpa [failure] using h
      refine ⟨.start :: reports c.done, [], c.stage.ordinal, ?_, ?_⟩
      · simp [history]
      · simp [reports]
  | stopped c stops r cause =>
    refine iff_of_false ?_ (by simp [failure])
    exact not_broke_at c stops [.stageFinished c.stage.ordinal r] oom message fun h i => by
      simp [cause h]

/-- Neither reports nor later wishes to stop end a job that runs by a wish to stop. -/
theorem not_halted {a : List Message} (stops : Nat)
    (hstop : ∀ m ∈ a, m ≠ .cancelRequested ∧ ∀ i, m ≠ .stageFinished i .cancelled) :
    ¬ Halted (.start :: a ++ List.replicate stops .cancelRequested) := by
  have hnone : .cancelRequested ∉ Message.start :: a := by
    intro hmem
    rcases List.mem_cons.mp hmem with hmem | hmem
    · cases hmem
    · exact (hstop _ hmem).1 rfl
  rintro (⟨earlier, later, hsplit, hstart⟩ | ⟨earlier, between, later, i, r, hsplit⟩ | ⟨i, hmem⟩)
  · cases earlier with
    | nil => cases hsplit
    | cons m earlier =>
      obtain rfl : Message.start = m := (List.cons.inj hsplit).1
      exact hstart List.mem_cons_self
  · -- the report comes after a wish to stop, where there are only wishes to stop
    rw [List.append_assoc, List.append_eq_append_iff] at hsplit
    have hreport : ∀ l : List Message, List.replicate stops .cancelRequested =
        l ++ Message.cancelRequested :: (between ++ .stageFinished i r :: later) → False := by
      intro l hl
      have hmem : .stageFinished i r ∈ List.replicate stops Message.cancelRequested := by
        rw [hl]
        simp
      cases List.eq_of_mem_replicate hmem
    rcases hsplit with ⟨d, -, hd⟩ | ⟨d, hd, hrest⟩
    · exact hreport d hd
    · cases d with
      | nil => exact hreport [] hrest.symm
      | cons m d =>
        obtain rfl : Message.cancelRequested = m := (List.cons.inj hrest).1
        exact hnone (by simp [hd])
  · rcases List.mem_append.mp hmem with hmem | hmem
    · rcases List.mem_cons.mp hmem with hmem | hmem
      · cases hmem
      · exact (hstop _ hmem).2 i rfl
    · cases List.eq_of_mem_replicate hmem

theorem halted_iff (p : Phase chain) : Halted p.history ↔ p.outcome = some .cancelled := by
  have hreports : ∀ l : List Stage, ∀ m ∈ reports l,
      m ≠ .cancelRequested ∧ ∀ i, m ≠ .stageFinished i .cancelled := by
    intro l m hm
    obtain ⟨s, -, rfl⟩ := mem_reports.mp hm
    simp
  cases p with
  | waiting => simp [Halted, history, outcome]
  | underway c stops =>
    exact iff_of_false (not_halted stops (hreports c.done)) (by simp [outcome])
  | succeeded =>
    refine iff_of_false ?_ (by simp [outcome])
    have hnot := not_halted 0 (hreports chain)
    simpa [history] using hnot
  | failed c oom message =>
    refine iff_of_false ?_ (by simp [outcome])
    have hnot := not_halted
      (a := reports c.done ++ [.stageFinished c.stage.ordinal (.failed oom message)]) 0 ?_
    · simpa [history] using hnot
    · intro m hm
      rcases List.mem_append.mp hm with hm | hm
      · exact hreports c.done m hm
      · obtain rfl := List.mem_singleton.mp hm
        simp
  | unstarted => exact iff_of_true (.inl ⟨[], [], rfl, List.not_mem_nil⟩) rfl
  | stopped c stops r cause =>
    refine iff_of_true ?_ rfl
    by_cases hpos : stops = 0
    · exact .inr (.inr ⟨c.stage.ordinal, by simp [history, cause hpos]⟩)
    · obtain ⟨k, rfl⟩ : ∃ k, stops = k + 1 := ⟨stops - 1, by omega⟩
      refine .inr (.inl ⟨.start :: reports c.done, List.replicate k .cancelRequested, [],
        c.stage.ordinal, r, ?_⟩)
      simp [history, List.replicate_succ]

/-- A job that failed says of what. -/
theorem outcome_eq_failed_iff (p : Phase chain) :
    p.outcome = some .failed ↔ ∃ oom message, p.failure = some (oom, message) := by
  cases p <;> simp [outcome, failure]

theorem failure_eq_none {p : Phase chain}
    (h : p.outcome = some .cancelled ∨ p.outcome = some .succeeded) : p.failure = none := by
  cases p <;> first | rfl | simp [outcome] at h

end Phase

/-! ## The law of outcomes -/

/-- How a job with `n` stages ended that has listened to `log` and asked for `effects`. -/
structure OutcomeLaw (n : Nat) (log : List Message) (j : JobState) (effects : List Effect) :
    Prop where
  succeeded_iff : j.outcome = some .succeeded ↔ Completed n log
  failed_iff : j.outcome = some .failed ↔ ∃ oom message, Broke oom message log
  cancelled_iff : j.outcome = some .cancelled ↔ Halted log
  /-- A failed job keeps what its stage reported, and tells nothing else of its end. -/
  failure : ∀ oom message, Broke oom message log →
    j.ranOutOfMemory = oom ∧ j.failure = some message ∧
      .finish .failed oom (some message) ∈ effects ∧
      ∀ o oom' message', .finish o oom' message' ∈ effects →
        o = .failed ∧ oom' = oom ∧ message' = some message
  /-- Other jobs tell of no failure, whatever was reported to them. -/
  quiet : j.outcome = some .cancelled ∨ j.outcome = some .succeeded →
    j.ranOutOfMemory = false ∧
      ∀ o oom message, .finish o oom message ∈ effects → oom = false ∧ message = none

theorem Phase.outcomeLaw {chain : List Stage} (hc : Positional chain) (key : String)
    (p : Phase chain) : OutcomeLaw chain.length p.history (p.job key) p.trace := by
  refine ⟨(completed_iff hc p).symm, ?_, (halted_iff p).symm, ?_, ?_⟩
  · simp only [broke_iff]
    exact outcome_eq_failed_iff p
  · intro oom message hbroke
    have hfail : p.failure = some (oom, message) := (broke_iff p oom message).mp hbroke
    have hover : p.outcome = some .failed := (outcome_eq_failed_iff p).mpr ⟨oom, message, hfail⟩
    refine ⟨?_, ?_, ?_, ?_⟩
    · simp [job, hfail]
    · simp [job, hfail]
    · simp [finish_mem_trace, hover, hfail]
    · intro o oom' message' hmem
      obtain ⟨ho, hoom, hmessage⟩ := finish_mem_trace.mp hmem
      rw [hover] at ho
      rw [hfail] at hoom hmessage
      exact ⟨(Option.some.inj ho).symm, hoom, hmessage⟩
  · intro hquiet
    have hfail : p.failure = none := failure_eq_none hquiet
    refine ⟨by simp [job, hfail], fun o oom message hmem => ?_⟩
    obtain ⟨-, hoom, hmessage⟩ := finish_mem_trace.mp hmem
    rw [hfail] at hoom hmessage
    exact ⟨hoom, hmessage⟩

/-- **The law of outcomes.** Whatever messages a new job was given, in any order: how it ended is
what those it listened to say, and once somebody wanted it to stop it starts no stage. -/
theorem run_outcome {chain : List Stage} (hc : Positional chain) (key : String)
    (ms : List Message) :
    OutcomeLaw chain.length ((JobState.new key chain).taken ms)
      ((JobState.new key chain).run ms).1 ((JobState.new key chain).run ms).2 ∧
    ∀ before after s, .startStage s ∉
      (((JobState.new key chain).run before).1.run (.cancelRequested :: after)).2 := by
  constructor
  · obtain ⟨p, hjob, htrace, hlog⟩ := Phase.run_phase hc key ms
    rw [hjob, htrace, hlog]
    exact p.outcomeLaw hc key
  · intro before after s hmem
    obtain ⟨p, hjob, -, -⟩ := Phase.run_phase hc key before
    obtain ⟨q, e, hq, hstep⟩ := Phase.handle_step hc key p .cancelRequested
    obtain ⟨hends, he⟩ := hstep.ends_of_stop
    rw [hjob, JobState.run, hq] at hmem
    rcases List.mem_append.mp hmem with hmem | hmem
    · exact he s hmem
    · exact Phase.run_of_ends hc hends after s hmem

/-- A wish to stop while the last stage but one runs, which then runs out of memory. -/
theorem run_outcome_stop_before_failure :
    let ms := [.start, .stageFinished 0 .succeeded, .cancelRequested,
      .stageFinished 1 (.failed true "heap"), .stageFinished 2 .succeeded]
    Positional (chainOf .jadx) ∧
      ((JobState.new "app" (chainOf .jadx)).run ms).1.outcome = some .cancelled ∧
      Halted ((JobState.new "app" (chainOf .jadx)).taken ms) ∧
      ((JobState.new "app" (chainOf .jadx)).run ms).1.ranOutOfMemory = false := by
  intro ms
  have hlaw := (run_outcome (positional_chainOf .jadx) "app" ms).1
  have hover : ((JobState.new "app" (chainOf .jadx)).run ms).1.outcome = some .cancelled := by
    decide
  exact ⟨positional_chainOf .jadx, hover, hlaw.cancelled_iff.mp hover, (hlaw.quiet (.inl hover)).1⟩

end Decompile
