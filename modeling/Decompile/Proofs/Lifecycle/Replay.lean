import Decompile.Proofs.Lifecycle.Phase
import Mathlib.Data.List.Chain

/-!
# Replaying the effects of a job

The changes of stages that a job asks for are a log of the states of its stages. Nothing here is
about phases: what one message asks for takes the states before it to the states after it, for
every job whose stages know their positions.

- `replay`: the states of stages after a list of effects.
- `Legal`: each change in a list is one that its stage may make.
- `JobState.Logs`, `logs_handle`, `logs_run`: the effects of a message, and of several, are legal and
  replay to the states of the job.
- `changesOf`, `isChain_changesOf`: what legal effects say about a single stage.
-/

namespace Decompile

/-! ## Logs of states -/

/-- The states of stages after an effect. -/
def replayOne (states : List StageState) : Effect → List StageState
  | .stageChanged s st => states.set s.ordinal st
  | .startStage _ | .finish _ _ _ => states

/-- The states of stages after some effects. -/
def replay (states : List StageState) (effects : List Effect) : List StageState :=
  effects.foldl replayOne states

/-- The change is one that its stage may make now. -/
def MayFollow (states : List StageState) : Effect → Prop
  | .stageChanged s st => ∃ now, states[s.ordinal]? = some now ∧ now.canBecome st = true
  | .startStage _ | .finish _ _ _ => True

/-- Each change is one that its stage may make after those before it. -/
def Legal : List StageState → List Effect → Prop
  | _, [] => True
  | states, e :: rest => MayFollow states e ∧ Legal (replayOne states e) rest

theorem replay_append (states : List StageState) (a b : List Effect) :
    replay states (a ++ b) = replay (replay states a) b := List.foldl_append

theorem legal_append {states : List StageState} {a b : List Effect} :
    Legal states (a ++ b) ↔ Legal states a ∧ Legal (replay states a) b := by
  induction a generalizing states with
  | nil => exact ⟨fun h => ⟨trivial, h⟩, fun h => h.2⟩
  | cons e a ih =>
    show MayFollow states e ∧ Legal _ (a ++ b) ↔ (MayFollow states e ∧ Legal _ a) ∧ Legal _ b
    rw [ih, and_assoc]
    rfl

/-! ## The log of a single stage -/

/-- The states that the stage at position `i` takes, in order. -/
def changesOf (i : Nat) (effects : List Effect) : List StageState :=
  effects.filterMap fun e =>
    match e with
    | .stageChanged s st => if s.ordinal = i then some st else none
    | .startStage _ | .finish _ _ _ => none

/-- A stage takes the steps it may take, one after another. -/
theorem isChain_changesOf {states : List StageState} {effects : List Effect} {i : Nat}
    {now : StageState} (h : Legal states effects) (hnow : states[i]? = some now) :
    List.IsChain (fun a b => a.canBecome b = true) (now :: changesOf i effects) := by
  induction effects generalizing states now with
  | nil => exact List.isChain_singleton now
  | cons e rest ih =>
    obtain ⟨hfirst, hrest⟩ := h
    cases e with
    | startStage s => exact ih hrest hnow
    | finish o oom message => exact ih hrest hnow
    | stageChanged s st =>
      obtain ⟨was, hwas, hstep⟩ := hfirst
      by_cases hs : s.ordinal = i
      · obtain rfl : now = was := by
          rw [hs, hnow] at hwas
          exact Option.some.inj hwas
        have hlt : i < states.length := (List.getElem?_eq_some_iff.mp hnow).1
        have hset : (states.set s.ordinal st)[i]? = some st := by
          rw [hs, List.getElem?_set_self hlt]
        have hchanges : changesOf i (.stageChanged s st :: rest) = st :: changesOf i rest := by
          simp [changesOf, hs]
        rw [hchanges]
        exact List.isChain_cons_cons.mpr ⟨hstep, ih hrest hset⟩
      · have hset : (states.set s.ordinal st)[i]? = some now := by
          rw [List.getElem?_set_ne hs, hnow]
        have hchanges : changesOf i (.stageChanged s st :: rest) = changesOf i rest := by
          simp [changesOf, hs]
        rw [hchanges]
        exact ih hrest hset

/-- A position without a stage has no changes. -/
theorem changesOf_eq_nil {states : List StageState} {effects : List Effect} {i : Nat}
    (h : Legal states effects) (hi : states.length ≤ i) : changesOf i effects = [] := by
  induction effects generalizing states with
  | nil => rfl
  | cons e rest ih =>
    obtain ⟨hfirst, hrest⟩ := h
    cases e with
    | startStage s => exact ih hrest hi
    | finish o oom message => exact ih hrest hi
    | stageChanged s st =>
      obtain ⟨was, hwas, -⟩ := hfirst
      have hlt : s.ordinal < states.length := (List.getElem?_eq_some_iff.mp hwas).1
      have hs : s.ordinal ≠ i := by omega
      have hchanges : changesOf i (.stageChanged s st :: rest) = changesOf i rest := by
        simp [changesOf, hs]
      rw [hchanges]
      refine ih hrest ?_
      show (states.set s.ordinal st).length ≤ i
      rw [List.length_set]
      exact hi

/-- Nothing follows the end of a stage. -/
theorem eq_nil_of_isTerminal {now : StageState} {later : List StageState}
    (h : List.IsChain (fun a b => a.canBecome b = true) (now :: later))
    (ht : now.isTerminal = true) : later = [] := by
  cases later with
  | nil => rfl
  | cons st later =>
    have hstep := (List.isChain_cons_cons.mp h).1
    cases now <;> cases st <;> simp_all [StageState.canBecome, StageState.isTerminal]

/-- The logs that a stage can have: it runs at most once, and ends at most once. -/
theorem log_of_isChain {log : List StageState}
    (h : List.IsChain (fun a b => a.canBecome b = true) (.enqueued :: log)) :
    log = [] ∨ log = [.running] ∨ log = [.cancelled] ∨
      ∃ t, t.isTerminal = true ∧ log = [.running, t] := by
  cases log with
  | nil => exact .inl rfl
  | cons st log =>
    obtain ⟨hstep, hlog⟩ := List.isChain_cons_cons.mp h
    cases st with
    | enqueued | succeeded | failed => cases hstep
    | cancelled =>
      obtain rfl := eq_nil_of_isTerminal hlog rfl
      exact .inr (.inr (.inl rfl))
    | running =>
      cases log with
      | nil => exact .inr (.inl rfl)
      | cons t log =>
        obtain ⟨hend, hlog⟩ := List.isChain_cons_cons.mp hlog
        have ht : t.isTerminal = true := by
          cases t <;> simp_all [StageState.canBecome, StageState.isTerminal]
        obtain rfl := eq_nil_of_isTerminal hlog ht
        exact .inr (.inr (.inr ⟨t, ht, rfl⟩))

/-! ## The job keeps its log -/

namespace JobState

/-- The effects are a legal log of what became of the job, whose stages are the same. -/
structure Logs (j : JobState) (r : JobState × List Effect) : Prop where
  legal : Legal j.states r.2
  states : replay j.states r.2 = r.1.states
  stages : r.1.slots.map Slot.stage = j.slots.map Slot.stage

theorem Logs.refl (j : JobState) : Logs j (j, []) := ⟨trivial, rfl, rfl⟩

theorem Logs.append {j k l : JobState} {a b : List Effect} (h : Logs j (k, a))
    (h' : Logs k (l, b)) : Logs j (l, a ++ b) := by
  refine ⟨legal_append.mpr ⟨h.legal, ?_⟩, ?_, h'.stages.trans h.stages⟩
  · rw [h.states]
    exact h'.legal
  · rw [replay_append, h.states]
    exact h'.states

/-- An effect that is no change may stand anywhere. -/
theorem Logs.of_states_eq {j k : JobState} {e : Effect} (hs : k.slots = j.slots)
    (he : MayFollow j.states e ∧ replayOne j.states e = j.states) : Logs j (k, [e]) := by
  refine ⟨⟨he.1, trivial⟩, ?_, by rw [hs]⟩
  show replayOne j.states e = k.states
  rw [he.2, JobState.states, JobState.states, hs]

variable {j : JobState}

/-- The change of a stage is logged under its position. -/
theorem logs_advance (hj : Positional (j.slots.map Slot.stage)) {i : Nat} {target : StageState}
    {k : JobState} {s : Stage} (h : j.advance i target = some (k, s)) :
    Logs j (k, [.stageChanged s target]) := by
  rw [advance] at h
  cases hslot : j.slots[i]? with
  | none => simp [hslot] at h
  | some slot =>
    by_cases hstep : slot.state.canBecome target = true
    · simp only [hslot, hstep, if_true, Option.some.injEq, Prod.mk.injEq] at h
      obtain ⟨rfl, rfl⟩ := h
      have hord : slot.stage.ordinal = i := hj i slot.stage (by simp [hslot])
      have hnow : j.states[i]? = some slot.state := by simp [JobState.states, hslot]
      refine ⟨⟨⟨slot.state, by rw [hord, hnow], hstep⟩, trivial⟩, ?_, ?_⟩
      · show j.states.set slot.stage.ordinal target = _
        rw [hord, JobState.states, JobState.states, List.map_set]
      · have hstage : (j.slots.map Slot.stage)[i]? = some slot.stage := by simp [hslot]
        obtain ⟨hlt, hget⟩ := List.getElem?_eq_some_iff.mp hstage
        show (j.slots.set i { slot with state := target }).map Slot.stage = _
        rw [List.map_set]
        show (j.slots.map Slot.stage).set i slot.stage = _
        rw [← hget, List.set_getElem_self]
    · simp [hslot, hstep] at h

theorem logs_startAt (hj : Positional (j.slots.map Slot.stage)) (i : Nat) :
    Logs j (j.startAt i) := by
  rw [startAt]
  cases hadvance : j.advance i .running with
  | none => exact .refl j
  | some r =>
    obtain ⟨k, s⟩ := r
    have hstart : Logs k (k, [.startStage s]) := .of_states_eq rfl ⟨trivial, rfl⟩
    exact (logs_advance hj hadvance).append hstart

/-- Slots are cancelled in order; `before` are the states of the slots before them. -/
theorem legal_cancelSlots (before : List StageState) (l : List Slot)
    (hl : ∀ (i : Nat) (s : Slot), l[i]? = some s → s.stage.ordinal = before.length + i) :
    Legal (before ++ l.map Slot.state) (cancelSlots l).2 ∧
      replay (before ++ l.map Slot.state) (cancelSlots l).2 =
        before ++ (cancelSlots l).1.map Slot.state ∧
      (cancelSlots l).1.map Slot.stage = l.map Slot.stage := by
  induction l generalizing before with
  | nil => exact ⟨trivial, rfl, rfl⟩
  | cons slot l ih =>
    have hord : slot.stage.ordinal = before.length := hl 0 slot rfl
    have hrest : ∀ (st : StageState) (i : Nat) (s : Slot), l[i]? = some s →
        s.stage.ordinal = (before ++ [st]).length + i := by
      intro st i s hs
      have hnext := hl (i + 1) s hs
      simp only [List.length_append, List.length_singleton]
      omega
    by_cases hopen : slot.state.canBecome .cancelled = true
    · obtain ⟨hlegal, hreplay, hstages⟩ := ih (before ++ [.cancelled]) (hrest .cancelled)
      rw [List.append_assoc, List.singleton_append] at hlegal hreplay
      have hset : (before ++ slot.state :: l.map Slot.state).set slot.stage.ordinal .cancelled =
          before ++ .cancelled :: l.map Slot.state := by
        rw [hord]
        simp
      have hnow : (before ++ slot.state :: l.map Slot.state)[slot.stage.ordinal]? =
          some slot.state := by
        rw [hord]
        simp
      simp only [cancelSlots, hopen, if_true, List.map_cons]
      refine ⟨⟨⟨slot.state, hnow, hopen⟩, ?_⟩, ?_, by rw [hstages]⟩
      · show Legal ((before ++ slot.state :: l.map Slot.state).set _ _) _
        rw [hset]
        exact hlegal
      · show replay ((before ++ slot.state :: l.map Slot.state).set _ _) _ = _
        rw [hset, hreplay, List.append_assoc, List.singleton_append]
    · obtain ⟨hlegal, hreplay, hstages⟩ := ih (before ++ [slot.state]) (hrest slot.state)
      rw [List.append_assoc, List.singleton_append] at hlegal hreplay
      simp only [cancelSlots, hopen, Bool.false_eq_true, if_false, List.map_cons]
      refine ⟨hlegal, ?_, by simp [hstages]⟩
      rw [hreplay, List.append_assoc]
      rfl

theorem logs_finish (hj : Positional (j.slots.map Slot.stage)) (o : Outcome) :
    Logs j (j.finish o) := by
  have hend : ∀ k : JobState, ∀ oom message,
      Logs k ({ k with outcome := some o, ranOutOfMemory := oom }, [.finish o oom message]) :=
    fun k oom message => .of_states_eq rfl ⟨trivial, rfl⟩
  rw [finish]
  by_cases ho : o = .cancelled
  · have hl : ∀ (i : Nat) (s : Slot), j.slots[i]? = some s → s.stage.ordinal = 0 + i := by
      intro i s hs
      rw [Nat.zero_add]
      exact hj i s.stage (by simp [hs])
    obtain ⟨hlegal, hreplay, hstages⟩ := legal_cancelSlots [] j.slots hl
    have hcancel : Logs j ({ j with slots := (cancelSlots j.slots).1 }, (cancelSlots j.slots).2) :=
      ⟨hlegal, hreplay, hstages⟩
    rw [if_pos ho]
    exact hcancel.append (hend _ _ _)
  · rw [if_neg ho]
    exact hend j _ _

theorem logs_proceed (hj : Positional (j.slots.map Slot.stage)) (i : Nat) (r : StageResult) :
    Logs j (j.proceed i r) := by
  cases r with
  | succeeded =>
    rw [proceed]
    split
    · exact logs_startAt hj (i + 1)
    · exact logs_finish hj .succeeded
  | failed oom message =>
    let k : JobState := { j with ranOutOfMemory := oom, failure := some message }
    have hk : Positional (k.slots.map Slot.stage) := hj
    have hend : Logs k (k.finish .failed) := logs_finish hk .failed
    exact ⟨hend.legal, hend.states, hend.stages⟩
  | cancelled => exact logs_finish hj .cancelled

theorem logs_takeResult (hj : Positional (j.slots.map Slot.stage)) (i : Nat) (r : StageResult) :
    Logs j (j.takeResult i r) := by
  rw [takeResult]
  cases hadvance : j.advance i (stateAfter r) with
  | none => exact .refl j
  | some a =>
    obtain ⟨k, s⟩ := a
    have hfirst := logs_advance hj hadvance
    have hk : Positional (k.slots.map Slot.stage) := by
      rw [hfirst.stages]
      exact hj
    dsimp only
    split
    · exact hfirst.append (logs_finish hk .cancelled)
    · exact hfirst.append (logs_proceed hk i r)

/-- The effects of a message are a log of what became of the job. -/
theorem logs_handle (hj : Positional (j.slots.map Slot.stage)) (m : Message) :
    Logs j (j.handle m) := by
  -- the flags of the start and of the wish to stop are no part of the log
  have hflags : ∀ (k : JobState) (r : JobState × List Effect), k.slots = j.slots → Logs k r →
      Logs j r := by
    intro k r hk h
    have hstates : k.states = j.states := by rw [JobState.states, hk, JobState.states]
    exact ⟨hstates ▸ h.legal, hstates ▸ h.states, hk ▸ h.stages⟩
  unfold handle
  split
  · exact .refl j
  · cases m with
    | start =>
      dsimp only
      split
      · exact .refl j
      · let k : JobState := { j with started := true }
        have hk : Positional (k.slots.map Slot.stage) := hj
        refine hflags k _ rfl ?_
        split
        · exact logs_finish hk .cancelled
        · split
          · exact logs_finish hk .succeeded
          · exact logs_startAt hk 0
    | cancelRequested =>
      dsimp only
      let k : JobState := { j with cancelRequested := true }
      have hk : Positional (k.slots.map Slot.stage) := hj
      refine hflags k _ rfl ?_
      split
      · exact .refl k
      · exact logs_finish hk .cancelled
    | stageFinished i r =>
      dsimp only
      split
      · exact logs_takeResult hj i r
      · exact .refl j

/-- The effects of several messages are a log of what became of the job. -/
theorem logs_run (hj : Positional (j.slots.map Slot.stage)) (ms : List Message) :
    Logs j (j.run ms) := by
  induction ms generalizing j with
  | nil => exact .refl j
  | cons m ms ih =>
    have hfirst := logs_handle hj m
    have hnext : Positional ((j.handle m).1.slots.map Slot.stage) := by
      rw [hfirst.stages]
      exact hj
    exact hfirst.append (ih hnext)

end JobState

end Decompile
