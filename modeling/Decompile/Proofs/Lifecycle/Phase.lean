import Decompile.Job.State

/-!
# The phases of a job

A `JobState` has seven fields that could disagree. A job that began with `JobState.new` is always in
one of six phases, and its phase fixes all seven fields, everything it has asked for so far, and
everything it has listened to so far.

- `Positional`: each stage of a chain knows its position.
- `Cut`, `Phase`: a chain cut at one stage, and how far a job is.
- `Phase.job`, `Phase.trace`, `Phase.history`: what a phase says about the fields, the effects and
  the messages.
- `Phase.Step`: what a message can do, one constructor for each thing that can happen.
- `Phase.handle_step`, `Phase.run_phase`: `JobState.handle` takes such steps, so every job is in a
  phase.
-/

namespace Decompile

/-! ## Chains that know their positions -/

/-- Each stage of the chain carries its own position. -/
def Positional (chain : List Stage) : Prop :=
  ∀ (i : Nat) (s : Stage), chain[i]? = some s → s.ordinal = i

theorem ordinal_stagesFrom :
    ∀ (ks : List StageKind) (start i : Nat) (s : Stage),
      (stagesFrom start ks)[i]? = some s → s.ordinal = start + i
  | [], _, _, _, h => by simp [stagesFrom] at h
  | _ :: _, start, 0, s, h => by
    obtain rfl : _ = s := Option.some.inj h
    rfl
  | _ :: ks, start, i + 1, s, h => by
    have hrest := ordinal_stagesFrom ks (start + 1) i s h
    omega

/-- The chain of every backend is positional. -/
theorem positional_chainOf (b : Backend) : Positional (chainOf b) := by
  intro i s h
  have hs := ordinal_stagesFrom (stageKindsOf b) 0 i s h
  omega

/-- The first stages of such a chain carry the first numbers. -/
theorem map_ordinal_of_prefix {chain l : List Stage} (hc : Positional chain) (h : l <+: chain) :
    l.map Stage.ordinal = List.range l.length := by
  refine List.ext_getElem (by simp) fun i hi hi' => ?_
  have hlen : i < l.length := by simpa using hi
  obtain ⟨rest, rfl⟩ := h
  have hord : (l[i]).ordinal = i := by
    refine hc i l[i] ?_
    rw [List.getElem?_append_left hlen, List.getElem?_eq_getElem hlen]
  simp [hord]

/-- A chain cut at one of its stages. -/
structure Cut (chain : List Stage) where
  done : List Stage
  stage : Stage
  rest : List Stage
  whole : done ++ stage :: rest = chain

namespace Cut

variable {chain : List Stage}

theorem ordinal_stage (hc : Positional chain) (c : Cut chain) :
    c.stage.ordinal = c.done.length := by
  obtain ⟨done, stage, rest, rfl⟩ := c
  exact hc done.length stage (by simp)

theorem eq_of_last (c : Cut chain) (last : c.rest = []) : chain = c.done ++ [c.stage] := by
  rw [← last, c.whole]

theorem length_eq (c : Cut chain) : chain.length = c.done.length + c.rest.length + 1 := by
  have hlen := congrArg List.length c.whole
  rw [List.length_append, List.length_cons] at hlen
  omega

theorem take_eq (c : Cut chain) : chain.take (c.done.length + 1) = c.done ++ [c.stage] := by
  obtain ⟨done, stage, rest, rfl⟩ := c
  show (done ++ stage :: rest).take (done.length + 1) = done ++ [stage]
  rw [List.append_cons, List.take_left' (by simp)]

theorem drop_eq (c : Cut chain) : chain.drop (c.done.length + 1) = c.rest := by
  obtain ⟨done, stage, rest, rfl⟩ := c
  show (done ++ stage :: rest).drop (done.length + 1) = rest
  rw [List.append_cons, List.drop_left' (by simp)]

/-- The chain cut one stage further on. -/
def next (c : Cut chain) (s : Stage) (rest : List Stage) (h : c.rest = s :: rest) : Cut chain where
  done := c.done ++ [c.stage]
  stage := s
  rest := rest
  whole := by simpa [h] using c.whole

/-- The slots of the chain: those before the cut succeeded, the others as given. -/
def slots (c : Cut chain) (here later : StageState) : List Slot :=
  c.done.map (Slot.mk · .succeeded) ++ ⟨c.stage, here⟩ :: c.rest.map (Slot.mk · later)

end Cut

/-! ## Messages a job listens to -/

namespace JobState

/-- The job listens to the message now: it is not over, has not yet heard of its start, and hears
reports of the stage that runs only. -/
def takes (j : JobState) : Message → Bool
  | .start => j.outcome.isNone && !j.started
  | .cancelRequested => j.outcome.isNone
  | .stageFinished i _ => j.outcome.isNone && j.runningOrdinal? == some i

/-- The messages that a job listens to, among those it is given. -/
def taken (j : JobState) : List Message → List Message
  | [] => []
  | m :: ms => (if j.takes m then [m] else []) ++ (j.handle m).1.taken ms

/-- A message the job does not listen to changes nothing and asks for nothing. -/
theorem handle_of_not_takes {j : JobState} {m : Message} (h : j.takes m = false) :
    j.handle m = (j, []) := by
  unfold handle
  by_cases ho : j.outcome.isSome
  · rw [if_pos ho]
  · rw [if_neg ho]
    have hn : j.outcome.isNone = true := by simpa using ho
    cases m with
    | start =>
      have hs : j.started = true := by simpa [takes, hn] using h
      simp [hs]
    | cancelRequested => simp [takes, hn] at h
    | stageFinished i r =>
      have hr : j.runningOrdinal? ≠ some i := by simpa [takes, hn] using h
      simp [hr]

/-- A job that is over listens to nothing. -/
theorem handle_of_outcome {j : JobState} (h : j.outcome ≠ none) (m : Message) :
    j.handle m = (j, []) := by
  unfold handle
  rw [if_pos (Option.isSome_iff_ne_none.mpr h)]

end JobState

/-! ## Messages one after another -/

namespace JobState

theorem run_append (j : JobState) (before after : List Message) :
    j.run (before ++ after) =
      (((j.run before).1.run after).1, (j.run before).2 ++ ((j.run before).1.run after).2) := by
  induction before generalizing j with
  | nil => simp [run]
  | cons m before ih => simp [run, ih]

theorem run_concat (j : JobState) (ms : List Message) (m : Message) :
    j.run (ms ++ [m]) = (((j.run ms).1.handle m).1, (j.run ms).2 ++ ((j.run ms).1.handle m).2) := by
  simp [run_append, run]

/-- A job that is over stays as it is. -/
theorem run_of_outcome {j : JobState} (h : j.outcome ≠ none) (ms : List Message) :
    j.run ms = (j, []) := by
  induction ms with
  | nil => rfl
  | cons m ms ih => simp [run, handle_of_outcome h, ih]

end JobState

/-! ## Functions of the job on slots that are cut in two -/

namespace JobState

variable {j : JobState} {before after : List Slot} {slot : Slot}

theorem advance_append {target : StageState} (hs : j.slots = before ++ slot :: after)
    (ht : slot.state.canBecome target = true) :
    j.advance before.length target =
      some ({ j with slots := before ++ { slot with state := target } :: after }, slot.stage) := by
  have hget : j.slots[before.length]? = some slot := by
    rw [hs]
    simp
  rw [advance, hget]
  simp [ht, hs]

theorem startAt_append (hs : j.slots = before ++ slot :: after) (he : slot.state = .enqueued) :
    j.startAt before.length =
      ({ j with slots := before ++ { slot with state := .running } :: after },
        [.stageChanged slot.stage .running, .startStage slot.stage]) := by
  rw [startAt, advance_append hs (by rw [he]; rfl)]

/-- The first running stage, when none runs before it. -/
theorem runningOrdinal?_append (hs : j.slots = before ++ slot :: after)
    (hb : ∀ s ∈ before, s.state ≠ .running) (hr : slot.state = .running) :
    j.runningOrdinal? = some slot.stage.ordinal := by
  have hnone : before.find? (fun s => s.state == .running) = none := by
    rw [List.find?_eq_none]
    intro s hs
    simpa using hb s hs
  rw [runningOrdinal?, hs, List.find?_append, hnone]
  simp [hr]

theorem runningOrdinal?_eq_none (h : ∀ s ∈ j.slots, s.state ≠ .running) :
    j.runningOrdinal? = none := by
  have hnone : j.slots.find? (fun s => s.state == .running) = none := by
    rw [List.find?_eq_none]
    intro s hs
    simpa using h s hs
  rw [runningOrdinal?, hnone]
  rfl

/-- Slots that can be cancelled are, one after another. -/
theorem cancelSlots_of_open {l : List Slot} (h : ∀ s ∈ l, s.state.canBecome .cancelled = true) :
    cancelSlots l =
      (l.map fun s => { s with state := .cancelled },
        l.map fun s => .stageChanged s.stage .cancelled) := by
  induction l with
  | nil => rfl
  | cons s rest ih =>
    have hs := h s List.mem_cons_self
    have hrest := ih fun t ht => h t (List.mem_cons_of_mem s ht)
    simp [cancelSlots, hs, hrest]

/-- Slots that are over stay as they are. -/
theorem cancelSlots_append_of_over {l more : List Slot}
    (h : ∀ s ∈ l, s.state.canBecome .cancelled = false) :
    cancelSlots (l ++ more) = (l ++ (cancelSlots more).1, (cancelSlots more).2) := by
  induction l with
  | nil => rfl
  | cons s rest ih =>
    have hs := h s List.mem_cons_self
    have hrest := ih fun t ht => h t (List.mem_cons_of_mem s ht)
    simp [cancelSlots, hs, hrest]

end JobState

/-! ## Phases -/

/-- How far a job with the given chain is. -/
inductive Phase (chain : List Stage) where
  /-- It has not begun. -/
  | waiting
  /-- A stage runs, and so many wishes to stop have come meanwhile. -/
  | underway (c : Cut chain) (stops : Nat)
  | succeeded
  /-- A stage failed. -/
  | failed (c : Cut chain) (ranOutOfMemory : Bool) (message : String)
  /-- It was stopped before it began. -/
  | unstarted
  /-- It was stopped after the report of a stage, by a wish or by the report. -/
  | stopped (c : Cut chain) (stops : Nat) (result : StageResult)
    (cause : stops = 0 → result = .cancelled)

namespace Phase

variable {chain : List Stage} {key : String}

/-- How the job ended, if it is over. -/
def outcome : Phase chain → Option Outcome
  | waiting | underway _ _ => none
  | succeeded => some .succeeded
  | failed _ _ _ => some .failed
  | unstarted | stopped _ _ _ _ => some .cancelled

/-- The slots of the job. -/
def slots : Phase chain → List Slot
  | waiting => chain.map (Slot.mk · .enqueued)
  | underway c _ => c.slots .running .enqueued
  | succeeded => chain.map (Slot.mk · .succeeded)
  | failed c _ _ => c.slots .failed .enqueued
  | unstarted => chain.map (Slot.mk · .cancelled)
  | stopped c _ r _ => c.slots (JobState.stateAfter r) .cancelled

/-- The job has heard of its start. -/
def started : Phase chain → Bool
  | waiting | unstarted => false
  | _ => true

/-- Somebody wanted the job to stop. -/
def stopWanted : Phase chain → Bool
  | underway _ stops | stopped _ stops _ _ => stops != 0
  | unstarted => true
  | _ => false

/-- What a failed job failed of. -/
def failure : Phase chain → Option (Bool × String)
  | failed _ ranOutOfMemory message => some (ranOutOfMemory, message)
  | _ => none

/-- The job in a phase. -/
def job (key : String) (p : Phase chain) : JobState where
  key := key
  slots := p.slots
  started := p.started
  cancelRequested := p.stopWanted
  ranOutOfMemory := (p.failure.map Prod.fst).getD false
  outcome := p.outcome
  failure := p.failure.map Prod.snd

@[simp] theorem job_slots (p : Phase chain) : (p.job key).slots = p.slots := rfl

@[simp] theorem job_outcome (p : Phase chain) : (p.job key).outcome = p.outcome := rfl

@[simp] theorem job_started (p : Phase chain) : (p.job key).started = p.started := rfl

@[simp] theorem job_cancelRequested (p : Phase chain) :
    (p.job key).cancelRequested = p.stopWanted := rfl

/-! ### What a phase says about the past -/

/-- Reports of success by stages, one after another. -/
def reports (done : List Stage) : List Message :=
  done.map fun s => .stageFinished s.ordinal .succeeded

/-- The messages the job has listened to. -/
def history : Phase chain → List Message
  | waiting => []
  | underway c stops => .start :: reports c.done ++ List.replicate stops .cancelRequested
  | succeeded => .start :: reports chain
  | failed c oom message =>
    .start :: reports c.done ++ [.stageFinished c.stage.ordinal (.failed oom message)]
  | unstarted => [.cancelRequested]
  | stopped c stops r _ =>
    .start :: reports c.done ++ List.replicate stops .cancelRequested
      ++ [.stageFinished c.stage.ordinal r]

/-- What begins a stage. -/
def opening (s : Stage) : List Effect := [.stageChanged s .running, .startStage s]

/-- The effects of stages that ran to their success, one after another. -/
def rows (done : List Stage) : List Effect :=
  done.flatMap fun s => opening s ++ [.stageChanged s .succeeded]

/-- The stages are cancelled one after another. -/
def cancellations (rest : List Stage) : List Effect :=
  rest.map fun s => .stageChanged s .cancelled

/-- What the job has asked for, its end left out. -/
def changes : Phase chain → List Effect
  | waiting => []
  | underway c _ => rows c.done ++ opening c.stage
  | succeeded => rows chain
  | failed c _ _ => rows c.done ++ opening c.stage ++ [.stageChanged c.stage .failed]
  | unstarted => cancellations chain
  | stopped c _ r _ =>
    rows c.done ++ opening c.stage ++ [.stageChanged c.stage (JobState.stateAfter r)]
      ++ cancellations c.rest

/-- The end of the job, if it is over. -/
def closing (p : Phase chain) : List Effect :=
  match p.outcome with
  | none => []
  | some o =>
    [.finish o ((p.failure.map Prod.fst).getD false) (p.failure.map Prod.snd)]

/-- All that the job has asked for. -/
def trace (p : Phase chain) : List Effect := p.changes ++ p.closing

/-! ## Steps -/

/-- What a message can do to a job, and what the job asks for. -/
inductive Step : Phase chain → Message → Phase chain → List Effect → Prop where
  /-- The job does not listen. -/
  | ignored (p : Phase chain) (m : Message) (h : ∀ key, (p.job key).takes m = false) :
    Step p m p []
  | start (c : Cut chain) (first : c.done = []) :
    Step .waiting .start (.underway c 0) (opening c.stage)
  /-- There is nothing to do. -/
  | startEmpty (h : chain = []) :
    Step .waiting .start .succeeded [.finish .succeeded false none]
  | stopUnstarted :
    Step .waiting .cancelRequested .unstarted
      (cancellations chain ++ [.finish .cancelled false none])
  /-- The stage that runs is let run. -/
  | stop (c : Cut chain) (stops : Nat) :
    Step (.underway c stops) .cancelRequested (.underway c (stops + 1)) []
  | advance (c d : Cut chain) (later : d.done = c.done ++ [c.stage]) :
    Step (.underway c 0) (.stageFinished c.stage.ordinal .succeeded) (.underway d 0)
      (.stageChanged c.stage .succeeded :: opening d.stage)
  | complete (c : Cut chain) (last : c.rest = []) :
    Step (.underway c 0) (.stageFinished c.stage.ordinal .succeeded) .succeeded
      [.stageChanged c.stage .succeeded, .finish .succeeded false none]
  | fail (c : Cut chain) (oom : Bool) (message : String) :
    Step (.underway c 0) (.stageFinished c.stage.ordinal (.failed oom message))
      (.failed c oom message)
      [.stageChanged c.stage .failed, .finish .failed oom (some message)]
  | report (c : Cut chain) (stops : Nat) (r : StageResult) (cause : stops = 0 → r = .cancelled) :
    Step (.underway c stops) (.stageFinished c.stage.ordinal r) (.stopped c stops r cause)
      (.stageChanged c.stage (JobState.stateAfter r) :: cancellations c.rest
        ++ [.finish .cancelled false none])

/-! ### The job takes such steps -/

theorem runningOrdinal?_waiting :
    ((waiting : Phase chain).job key).runningOrdinal? = none := by
  refine JobState.runningOrdinal?_eq_none fun s hs => ?_
  obtain ⟨t, -, rfl⟩ := List.mem_map.mp hs
  simp

theorem runningOrdinal?_underway (c : Cut chain) (stops : Nat) :
    ((underway c stops).job key).runningOrdinal? = some c.stage.ordinal := by
  have hslots : ((underway c stops).job key).slots = c.done.map (Slot.mk · .succeeded) ++
      ⟨c.stage, .running⟩ :: c.rest.map (Slot.mk · .enqueued) := rfl
  refine JobState.runningOrdinal?_append hslots (fun s hs => ?_) rfl
  obtain ⟨t, -, rfl⟩ := List.mem_map.mp hs
  simp

/-- A job that is over listens to nothing. -/
theorem outcome_of_takes {p : Phase chain} {m : Message} (h : (p.job key).takes m = true) :
    p.outcome = none := by
  cases m with
  | start => exact (by simpa [JobState.takes] using h : p.outcome = none ∧ _).1
  | cancelRequested => simpa [JobState.takes] using h
  | stageFinished i r => exact (by simpa [JobState.takes] using h : p.outcome = none ∧ _).1

@[simp] theorem takes_report (c : Cut chain) (stops i : Nat) (r : StageResult) :
    ((underway c stops).job key).takes (.stageFinished i r) = (c.stage.ordinal == i) := by
  rw [JobState.takes, runningOrdinal?_underway]
  simp [outcome]

theorem handle_start :
    ∃ (q : Phase chain) (e : List Effect),
      ((waiting : Phase chain).job key).handle .start = (q.job key, e) ∧
        Step waiting .start q e := by
  cases chain with
  | nil => exact ⟨_, _, rfl, .startEmpty rfl⟩
  | cons s rest =>
    let c : Cut (s :: rest) := ⟨[], s, rest, rfl⟩
    exact ⟨.underway c 0, _, rfl, .start c rfl⟩

theorem finish_cancelled_waiting :
    ({ (waiting : Phase chain).job key with cancelRequested := true }).finish .cancelled =
      ((unstarted : Phase chain).job key,
        cancellations chain ++ [.finish .cancelled false none]) := by
  have hopen : ∀ s ∈ chain.map (Slot.mk · .enqueued), s.state.canBecome .cancelled = true := by
    intro s hs
    obtain ⟨t, -, rfl⟩ := List.mem_map.mp hs
    rfl
  simp [JobState.finish, job, slots, JobState.cancelSlots_of_open hopen, outcome, started,
    stopWanted, failure, cancellations, Function.comp_def]

/-- The job right after the report of the running stage was written down. -/
def reported (key : String) (c : Cut chain) (stops : Nat) (r : StageResult) : JobState :=
  { (underway c stops).job key with slots := c.slots (JobState.stateAfter r) .enqueued }

theorem advance_underway (hc : Positional chain) (c : Cut chain) (stops : Nat) (r : StageResult) :
    ((underway c stops).job key).advance c.stage.ordinal (JobState.stateAfter r) =
      some (reported key c stops r, c.stage) := by
  have hlen : c.stage.ordinal = (c.done.map (Slot.mk · .succeeded)).length := by
    rw [c.ordinal_stage hc, List.length_map]
  have hslots : ((underway c stops).job key).slots = c.done.map (Slot.mk · .succeeded) ++
      ⟨c.stage, .running⟩ :: c.rest.map (Slot.mk · .enqueued) := rfl
  rw [hlen]
  refine JobState.advance_append hslots ?_
  cases r <;> rfl

theorem finish_cancelled_reported (c : Cut chain) (stops : Nat) (r : StageResult)
    (cause : stops = 0 → r = .cancelled) :
    (reported key c stops r).finish .cancelled =
      ((stopped c stops r cause).job key,
        cancellations c.rest ++ [.finish .cancelled false none]) := by
  have hover : ∀ s ∈ c.done.map (Slot.mk · .succeeded) ++ [⟨c.stage, JobState.stateAfter r⟩],
      s.state.canBecome .cancelled = false := by
    intro s hs
    rcases List.mem_append.mp hs with hs | hs
    · obtain ⟨t, -, rfl⟩ := List.mem_map.mp hs
      rfl
    · obtain rfl := List.mem_singleton.mp hs
      cases r <;> rfl
  have hopen : ∀ s ∈ c.rest.map (Slot.mk · .enqueued), s.state.canBecome .cancelled = true := by
    intro s hs
    obtain ⟨t, -, rfl⟩ := List.mem_map.mp hs
    rfl
  have hcancel : JobState.cancelSlots (c.slots (JobState.stateAfter r) .enqueued) =
      (c.slots (JobState.stateAfter r) .cancelled, cancellations c.rest) := by
    rw [Cut.slots, List.append_cons, JobState.cancelSlots_append_of_over hover,
      JobState.cancelSlots_of_open hopen]
    simp [Cut.slots, cancellations, Function.comp_def]
  simp [JobState.finish, reported, job, slots, hcancel, outcome, started, stopWanted, failure]

theorem complete_reported (hc : Positional chain) (c : Cut chain) (last : c.rest = []) :
    (reported key c 0 .succeeded).proceed c.stage.ordinal .succeeded =
      ((succeeded : Phase chain).job key, [.finish .succeeded false none]) := by
  have hslots : (reported key c 0 .succeeded).slots =
      ((succeeded : Phase chain).job key).slots := by
    show c.slots .succeeded .enqueued = chain.map (Slot.mk · .succeeded)
    obtain ⟨done, stage, rest, rfl⟩ := c
    obtain rfl : rest = [] := last
    simp [Cut.slots]
  have hlen : (reported key c 0 .succeeded).slots.length = c.stage.ordinal + 1 := by
    rw [c.ordinal_stage hc]
    show (c.slots .succeeded .enqueued).length = c.done.length + 1
    simp [Cut.slots, last]
  rw [JobState.proceed, if_neg (by omega), JobState.finish, hslots]
  rfl

theorem advance_reported (hc : Positional chain) (c : Cut chain) (s : Stage) (rest : List Stage)
    (h : c.rest = s :: rest) :
    (reported key c 0 .succeeded).proceed c.stage.ordinal .succeeded =
      ((underway (c.next s rest h) 0).job key, opening s) := by
  have hslots : (reported key c 0 .succeeded).slots =
      (c.done ++ [c.stage]).map (Slot.mk · .succeeded) ++
        ⟨s, .enqueued⟩ :: rest.map (Slot.mk · .enqueued) := by
    show c.slots .succeeded .enqueued = _
    simp [Cut.slots, h]
  have hat : c.stage.ordinal + 1 = ((c.done ++ [c.stage]).map (Slot.mk · .succeeded)).length := by
    rw [c.ordinal_stage hc]
    simp
  have hlt : c.stage.ordinal + 1 < (reported key c 0 .succeeded).slots.length := by
    rw [hat, hslots, List.length_append, List.length_cons]
    omega
  rw [JobState.proceed, if_pos hlt, hat, JobState.startAt_append hslots rfl]
  rfl

/-- What follows a report that nobody's wish overrules. -/
theorem proceed_reported (hc : Positional chain) (key : String) (c : Cut chain) (r : StageResult) :
    ∃ (q : Phase chain) (e : List Effect),
      (reported key c 0 r).proceed c.stage.ordinal r = (q.job key, e) ∧
        Step (.underway c 0) (.stageFinished c.stage.ordinal r) q
          (.stageChanged c.stage (JobState.stateAfter r) :: e) := by
  cases r with
  | cancelled =>
    have hcause : 0 = 0 → StageResult.cancelled = .cancelled := fun _ => rfl
    exact ⟨_, _, finish_cancelled_reported c 0 .cancelled hcause, .report c 0 .cancelled hcause⟩
  | failed oom message => exact ⟨.failed c oom message, _, rfl, .fail c oom message⟩
  | succeeded =>
    cases hrest : c.rest with
    | nil => exact ⟨.succeeded, _, complete_reported hc c hrest, .complete c hrest⟩
    | cons s rest =>
      exact ⟨.underway (c.next s rest hrest) 0, _, advance_reported hc c s rest hrest,
        .advance c (c.next s rest hrest) rfl⟩

theorem handle_report (hc : Positional chain) (key : String) (c : Cut chain) (stops : Nat)
    (r : StageResult) :
    ∃ (q : Phase chain) (e : List Effect),
      ((underway c stops).job key).handle (.stageFinished c.stage.ordinal r) = (q.job key, e) ∧
        Step (.underway c stops) (.stageFinished c.stage.ordinal r) q e := by
  have hhandle : ((underway c stops).job key).handle (.stageFinished c.stage.ordinal r) =
      ((underway c stops).job key).takeResult c.stage.ordinal r := by
    simp [JobState.handle, runningOrdinal?_underway, outcome]
  rw [hhandle, JobState.takeResult, advance_underway hc]
  cases stops with
  | zero =>
    obtain ⟨q, e, hq, hstep⟩ := proceed_reported hc key c r
    have hwish : (reported key c 0 r).cancelRequested = false := rfl
    refine ⟨q, _, ?_, hstep⟩
    simp [hwish, hq]
  | succ stops =>
    have hwish : (reported key c (stops + 1) r).cancelRequested = true := rfl
    have hcause : stops + 1 = 0 → r = .cancelled := fun h => absurd h (by omega)
    refine ⟨_, _, ?_, .report c (stops + 1) r hcause⟩
    simp [hwish, finish_cancelled_reported c (stops + 1) r hcause]

/-- Whatever a message is, it makes one of the steps. -/
theorem handle_step (hc : Positional chain) (key : String) (p : Phase chain) (m : Message) :
    ∃ (q : Phase chain) (e : List Effect),
      (p.job key).handle m = (q.job key, e) ∧ Step p m q e := by
  by_cases ht : (p.job key).takes m = true
  · have hopen := outcome_of_takes ht
    cases p with
    | waiting =>
      cases m with
      | start => exact handle_start
      | cancelRequested => exact ⟨.unstarted, _, finish_cancelled_waiting, .stopUnstarted⟩
      | stageFinished i r => simp [JobState.takes, runningOrdinal?_waiting] at ht
    | underway c stops =>
      cases m with
      | start => simp [JobState.takes, started] at ht
      | cancelRequested => exact ⟨.underway c (stops + 1), _, rfl, .stop c stops⟩
      | stageFinished i r =>
        obtain rfl : c.stage.ordinal = i := by simpa using ht
        exact handle_report hc key c stops r
    | succeeded => cases hopen
    | failed _ _ _ => cases hopen
    | unstarted => cases hopen
    | stopped _ _ _ _ => cases hopen
  · have ht : (p.job key).takes m = false := by simpa using ht
    exact ⟨p, [], JobState.handle_of_not_takes ht, .ignored p m fun _ => ht⟩

/-! ### Steps extend the past -/

@[simp] theorem rows_nil : rows [] = [] := rfl

@[simp] theorem rows_append (a b : List Stage) : rows (a ++ b) = rows a ++ rows b :=
  List.flatMap_append

@[simp] theorem rows_cons (s : Stage) (rest : List Stage) :
    rows (s :: rest) = opening s ++ .stageChanged s .succeeded :: rows rest := by
  simp [rows]

@[simp] theorem reports_nil : reports [] = [] := rfl

@[simp] theorem reports_cons (s : Stage) (rest : List Stage) :
    reports (s :: rest) = .stageFinished s.ordinal .succeeded :: reports rest := rfl

@[simp] theorem reports_append (a b : List Stage) : reports (a ++ b) = reports a ++ reports b :=
  List.map_append

/-- What a step asks for is added to what the job has asked for. -/
theorem Step.trace_eq {p q : Phase chain} {m : Message} {e : List Effect} (h : Step p m q e) :
    q.trace = p.trace ++ e := by
  cases h with
  | ignored p m h => rw [List.append_nil]
  | start c first => simp [trace, changes, closing, outcome, first]
  | startEmpty h => simp [trace, changes, closing, outcome, failure, h]
  | stopUnstarted => simp [trace, changes, closing, outcome, failure]
  | stop c stops => simp [trace, changes, closing, outcome]
  | advance c d later => simp [trace, changes, closing, outcome, later]
  | complete c last =>
    have hrows : rows chain = rows c.done ++ rows [c.stage] := by
      rw [← rows_append, ← c.eq_of_last last]
    simp [trace, changes, closing, outcome, failure, hrows]
  | fail c oom message => simp [trace, changes, closing, outcome, failure]
  | report c stops r cause => simp [trace, changes, closing, outcome, failure]

/-- The messages listened to are added to those before. -/
theorem Step.history_eq {p q : Phase chain} {m : Message} {e : List Effect} (h : Step p m q e)
    (key : String) :
    q.history = p.history ++ if (p.job key).takes m then [m] else [] := by
  cases h with
  | ignored p m h => simp [h]
  | start c first => simp [history, JobState.takes, outcome, started, first]
  | startEmpty h => simp [history, JobState.takes, outcome, started, h]
  | stopUnstarted => simp [history, JobState.takes, outcome]
  | stop c stops => simp [history, JobState.takes, outcome, List.replicate_succ']
  | advance c d later => simp [history, later]
  | complete c last =>
    have hreports : reports chain = reports c.done ++ reports [c.stage] := by
      rw [← reports_append, ← c.eq_of_last last]
    simp [history, hreports]
  | fail c oom message => simp [history]
  | report c stops r cause => simp [history]

/-! ### The end of a job in what it asks for -/

theorem finish_not_mem_rows (l : List Stage) (o : Outcome) (oom : Bool) (message : Option String) :
    Effect.finish o oom message ∉ rows l := by
  simp [rows, opening]

theorem finish_not_mem_changes (p : Phase chain) (o : Outcome) (oom : Bool)
    (message : Option String) : Effect.finish o oom message ∉ p.changes := by
  cases p <;> simp [changes, finish_not_mem_rows, opening, cancellations]

/-- A job asks for one end, when it is over, and says how it ended. -/
theorem finish_mem_trace {p : Phase chain} {o : Outcome} {oom : Bool} {message : Option String} :
    .finish o oom message ∈ p.trace ↔ p.outcome = some o ∧
      oom = (p.failure.map Prod.fst).getD false ∧ message = p.failure.map Prod.snd := by
  rw [trace, List.mem_append, or_iff_right (finish_not_mem_changes p o oom message), closing]
  cases p.outcome with
  | none => simp
  | some x => simp [eq_comm]

/-! ### Wishes to stop -/

/-- The job starts no further stage: it is over, or somebody wants it to stop. -/
def Ends (p : Phase chain) : Prop := p.outcome ≠ none ∨ p.stopWanted = true

/-- A job that starts no further stage keeps to that. -/
theorem Step.ends {p q : Phase chain} {m : Message} {e : List Effect} (h : Step p m q e)
    (hp : p.Ends) : q.Ends ∧ ∀ s, .startStage s ∉ e := by
  cases h with
  | ignored p m h => exact ⟨hp, fun s => List.not_mem_nil⟩
  | stop c stops => exact ⟨.inr rfl, fun s => List.not_mem_nil⟩
  | report c stops r cause =>
    refine ⟨.inl (by simp [outcome]), fun s => ?_⟩
    simp [cancellations]
  | start c first | startEmpty h | stopUnstarted | advance c d later | complete c last
  | fail c oom message => simp [Ends, outcome, stopWanted] at hp

/-- A wish to stop makes it a job that starts no further stage. -/
theorem Step.ends_of_stop {p q : Phase chain} {e : List Effect}
    (h : Step p .cancelRequested q e) : q.Ends ∧ ∀ s, .startStage s ∉ e := by
  cases h with
  | ignored p m h =>
    have hover : p.outcome.isSome = true := by simpa [JobState.takes] using h ""
    exact ⟨.inl (Option.isSome_iff_ne_none.mp hover), fun s => List.not_mem_nil⟩
  | stopUnstarted =>
    refine ⟨.inl (by simp [outcome]), fun s => ?_⟩
    simp [cancellations]
  | stop c stops => exact ⟨.inr rfl, fun s => List.not_mem_nil⟩

/-- Of such a job no stage is told to run, nor of one that takes a wish to stop. -/
theorem Step.running_not_mem {p q : Phase chain} {m : Message} {e : List Effect}
    (h : Step p m q e) (hp : p.Ends ∨ m = .cancelRequested) (s : Stage) :
    .stageChanged s .running ∉ e := by
  cases h with
  | ignored p m h => exact List.not_mem_nil
  | stop c stops => exact List.not_mem_nil
  | stopUnstarted => simp [cancellations]
  | report c stops r cause => cases r <;> simp [cancellations, JobState.stateAfter]
  | start c first | startEmpty h | advance c d later | complete c last | fail c oom message =>
    simp [Ends, outcome, stopWanted] at hp

/-- The job is cancelled, or will be when the stage that runs is over. -/
def Stopping (p : Phase chain) : Prop :=
  p.outcome = some .cancelled ∨ p.outcome = none ∧ p.stopWanted = true

/-- A job that will be cancelled keeps to that. -/
theorem Step.stopping {p q : Phase chain} {m : Message} {e : List Effect} (h : Step p m q e)
    (hp : p.Stopping) : q.Stopping := by
  cases h with
  | ignored p m h => exact hp
  | stop c stops => exact .inr ⟨rfl, rfl⟩
  | report c stops r cause => exact .inl rfl
  | start c first | startEmpty h | stopUnstarted | advance c d later | complete c last
  | fail c oom message => simp [Stopping, outcome, stopWanted] at hp

/-- A wish to stop that a job takes before it is over decides how it ends. -/
theorem Step.stopping_of_stop {p q : Phase chain} {e : List Effect}
    (h : Step p .cancelRequested q e) (hp : p.outcome = none) : q.Stopping := by
  cases h with
  | ignored p m h =>
    have hover : p.outcome.isSome = true := by simpa [JobState.takes] using h ""
    rw [hp] at hover
    cases hover
  | stopUnstarted => exact .inl rfl
  | stop c stops => exact .inr ⟨rfl, rfl⟩

/-! ## The end among the effects -/

/-- The step of a job that is not over asks for an end after everything else, or the job is still
not over. -/
theorem Step.effects {p q : Phase chain} {m : Message} {e : List Effect} (h : Step p m q e)
    (hp : p.outcome = none) :
    (q.outcome = none ∧ ∀ o oom detail, .finish o oom detail ∉ e) ∨
    ∃ (changes : List (Stage × StageState)) (o : Outcome) (oom : Bool) (detail : Option String),
      q.outcome = some o ∧
        e = changes.map (fun x => .stageChanged x.1 x.2) ++ [.finish o oom detail] := by
  cases h with
  | ignored p m h => exact .inl ⟨hp, fun _ _ _ => List.not_mem_nil⟩
  | start c first => exact .inl ⟨rfl, by simp [opening]⟩
  | stop c stops => exact .inl ⟨rfl, fun _ _ _ => List.not_mem_nil⟩
  | advance c d later => exact .inl ⟨rfl, by simp [opening]⟩
  | startEmpty h => exact .inr ⟨[], _, _, _, rfl, rfl⟩
  | stopUnstarted =>
    refine .inr ⟨chain.map fun s => (s, .cancelled), .cancelled, false, none, rfl, ?_⟩
    rw [List.map_map]
    rfl
  | complete c last => exact .inr ⟨[(c.stage, .succeeded)], _, _, _, rfl, rfl⟩
  | fail c oom message => exact .inr ⟨[(c.stage, .failed)], _, _, _, rfl, rfl⟩
  | report c stops r cause =>
    refine .inr ⟨(c.stage, JobState.stateAfter r) :: c.rest.map fun s => (s, .cancelled),
      .cancelled, false, none, rfl, ?_⟩
    rw [List.map_cons, List.map_map]
    rfl

/-- A stage is started after everything else, to states that were told before. -/
theorem Step.effects_of_startStage {p q : Phase chain} {m : Message} {e : List Effect}
    (h : Step p m q e) {s : Stage} (hs : .startStage s ∈ e) :
    ∃ changes : List (Stage × StageState),
      e = changes.map (fun x => .stageChanged x.1 x.2) ++ [.startStage s] := by
  cases h with
  | ignored p m h => cases hs
  | stop c stops => cases hs
  | start c first =>
    obtain rfl : s = c.stage := by simpa [opening] using hs
    exact ⟨[(c.stage, .running)], rfl⟩
  | advance c d later =>
    obtain rfl : s = d.stage := by simpa [opening] using hs
    exact ⟨[(c.stage, .succeeded), (d.stage, .running)], rfl⟩
  | startEmpty h | stopUnstarted | complete c last | fail c oom message
  | report c stops r cause => simp [cancellations] at hs

/-- A step asks for nothing, or after changes that are told for a stage, or for the end of the job. -/
theorem Step.asks {p q : Phase chain} {m : Message} {e : List Effect} (h : Step p m q e) :
    e = [] ∨
    (m ≠ .cancelRequested ∧ ∃ (cut : Cut chain) (changes : List (Stage × StageState)),
      q = .underway cut 0 ∧
        e = changes.map (fun x => .stageChanged x.1 x.2) ++ [.startStage cut.stage]) ∨
    ∃ (changes : List (Stage × StageState)) (o : Outcome) (oom : Bool) (detail : Option String),
      q.outcome = some o ∧
        e = changes.map (fun x => .stageChanged x.1 x.2) ++ [.finish o oom detail] := by
  by_cases hp : p.outcome = none
  · rcases h.effects hp with ⟨hq, -⟩ | hend
    · cases h with
      | ignored | stop => exact .inl rfl
      | start c first => exact .inr (.inl ⟨nofun, c, [(c.stage, .running)], rfl, rfl⟩)
      | advance c d later =>
        exact .inr (.inl ⟨nofun, d, [(c.stage, .succeeded), (d.stage, .running)], rfl, rfl⟩)
      | startEmpty | stopUnstarted | complete | fail | report => cases hq
    · exact .inr (.inr hend)
  · cases h with
    | ignored => exact .inl rfl
    | start | startEmpty | stopUnstarted | stop | advance | complete | fail | report => exact absurd rfl hp

/-! ## Runs -/

/-- A job that is in a phase is in a phase after any messages. -/
theorem run_job (hc : Positional chain) (key : String) (p : Phase chain) (ms : List Message) :
    ∃ q : Phase chain, ((p.job key).run ms).1 = q.job key ∧
      q.trace = p.trace ++ ((p.job key).run ms).2 ∧
      q.history = p.history ++ (p.job key).taken ms := by
  induction ms generalizing p with
  | nil => exact ⟨p, rfl, (List.append_nil _).symm, (List.append_nil _).symm⟩
  | cons m ms ih =>
    obtain ⟨q, e, hq, hstep⟩ := handle_step hc key p m
    obtain ⟨r, hr, htrace, hhistory⟩ := ih q
    refine ⟨r, ?_, ?_, ?_⟩
    · simp only [JobState.run, hq, hr]
    · rw [htrace, hstep.trace_eq, JobState.run, hq, List.append_assoc]
    · rw [hhistory, hstep.history_eq key, JobState.taken, hq, List.append_assoc]

/-- **Every job is in a phase.** Whatever messages a new job was given, its fields, the effects it
asked for and the messages it listened to are those of one phase. -/
theorem run_phase (hc : Positional chain) (key : String) (ms : List Message) :
    ∃ p : Phase chain, ((JobState.new key chain).run ms).1 = p.job key ∧
      ((JobState.new key chain).run ms).2 = p.trace ∧
      (JobState.new key chain).taken ms = p.history := by
  obtain ⟨p, hjob, htrace, hhistory⟩ := run_job hc key .waiting ms
  exact ⟨p, hjob, htrace.symm, hhistory.symm⟩

/-- No stage is started by a job that starts no further stage, whatever it is told. -/
theorem run_of_ends (hc : Positional chain) {p : Phase chain} (hp : p.Ends) (ms : List Message)
    (s : Stage) : .startStage s ∉ ((p.job key).run ms).2 := by
  induction ms generalizing p with
  | nil => exact List.not_mem_nil
  | cons m ms ih =>
    obtain ⟨q, e, hq, hstep⟩ := handle_step hc key p m
    obtain ⟨hq', he⟩ := hstep.ends hp
    rw [JobState.run, hq]
    intro hmem
    rcases List.mem_append.mp hmem with hmem | hmem
    · exact he s hmem
    · exact ih hq' hmem

end Phase

end Decompile
