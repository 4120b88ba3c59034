import Decompile.Proofs.Lifecycle.Phase
import Mathlib.Logic.ExistsUnique

/-!
# The shape of a job

How the fields of a job and the states of its stages go together, after any messages.

- `Shape`, `Shape.Fits`: five shapes, said of the fields alone and not through phases.
- `run_shape`: a job has exactly one of them. At most one stage runs, and only after all stages
  before it have succeeded.
-/

namespace Decompile

open List (replicate)

/-- The shapes of jobs. -/
inductive Shape where
  | waiting
  | underway
  | succeeded
  | failed
  | cancelled
  deriving DecidableEq, Repr

namespace Shape

/-- The job has the shape. -/
def Fits : Shape → JobState → Prop
  | waiting, j => j.started = false ∧ j.outcome = none ∧ j.cancelRequested = false ∧
      ∀ s ∈ j.states, s = .enqueued
  | underway, j => j.started = true ∧ j.outcome = none ∧
      ∃ k m, j.states = replicate k .succeeded ++ .running :: replicate m .enqueued
  | succeeded, j => j.outcome = some .succeeded ∧ ∀ s ∈ j.states, s = .succeeded
  | failed, j => j.outcome = some .failed ∧
      ∃ k m, j.states = replicate k .succeeded ++ .failed :: replicate m .enqueued
  | cancelled, j => j.outcome = some .cancelled ∧
      ∃ k f m, f ≤ 1 ∧
        j.states = replicate k .succeeded ++ replicate f .failed ++ replicate m .cancelled

/-- The flag of the start and the outcome tell the shapes apart. -/
theorem Fits.unique {s t : Shape} {j : JobState} (hs : s.Fits j) (ht : t.Fits j) : s = t := by
  cases s <;> cases t <;> simp_all [Fits]

/-- Where a stage runs, all before it have succeeded and none after it has begun. -/
theorem Fits.states_of_running {s : Shape} {j : JobState} (h : s.Fits j) {i : Nat}
    (hi : j.states[i]? = some .running) :
    ∃ m, j.states = replicate i .succeeded ++ .running :: replicate m .enqueued := by
  have hmem : StageState.running ∈ j.states := List.mem_of_getElem? hi
  cases s with
  | waiting => cases h.2.2.2 _ hmem
  | succeeded => cases h.2 _ hmem
  | failed =>
    obtain ⟨-, k, m, hstates⟩ := h
    simp [hstates] at hmem
  | cancelled =>
    obtain ⟨-, k, f, m, -, hstates⟩ := h
    simp [hstates] at hmem
  | underway =>
    obtain ⟨-, -, k, m, hstates⟩ := h
    rw [hstates] at hi
    rcases Nat.lt_trichotomy i k with hlt | rfl | hgt
    · rw [List.getElem?_append_left (by simpa using hlt)] at hi
      simp [hlt] at hi
    · exact ⟨m, hstates⟩
    · obtain ⟨d, rfl⟩ : ∃ d, i = k + (d + 1) := ⟨i - k - 1, by omega⟩
      rw [List.getElem?_append_right (by simp)] at hi
      simp [List.getElem?_replicate] at hi

/-- At most one stage runs. -/
theorem Fits.running_unique {s : Shape} {j : JobState} (h : s.Fits j) {i k : Nat}
    (hi : j.states[i]? = some .running) (hk : j.states[k]? = some .running) : i = k := by
  obtain ⟨m, hm⟩ := h.states_of_running hi
  obtain ⟨n, hn⟩ := h.states_of_running hk
  have hcount : ∀ a b : Nat, (replicate a StageState.succeeded ++ StageState.running ::
      replicate b StageState.enqueued).count .succeeded = a := by
    intro a b
    simp [List.count_replicate]
  rw [← hcount i m, ← hm, hn, hcount]

/-- A stage runs only when all stages before it have succeeded. -/
theorem Fits.succeeded_before {s : Shape} {j : JobState} (h : s.Fits j) {i k : Nat}
    (hi : j.states[i]? = some .running) (hk : k < i) : j.states[k]? = some .succeeded := by
  obtain ⟨m, hm⟩ := h.states_of_running hi
  rw [hm, List.getElem?_append_left (by simpa using hk)]
  simp [hk]

end Shape

namespace Phase

variable {chain : List Stage} {key : String}

/-- The shape of a job in a phase. -/
def shape : Phase chain → Shape
  | waiting => .waiting
  | underway _ _ => .underway
  | succeeded => .succeeded
  | failed _ _ _ => .failed
  | unstarted | stopped _ _ _ _ => .cancelled

theorem states_uniform (l : List Stage) (s : StageState) :
    (l.map (Slot.mk · s)).map Slot.state = replicate l.length s := by
  rw [List.map_map]
  exact List.map_const' ..

theorem states_cut (c : Cut chain) (here later : StageState) :
    (c.slots here later).map Slot.state =
      replicate c.done.length .succeeded ++ here :: replicate c.rest.length later := by
  rw [Cut.slots, List.map_append, List.map_cons, states_uniform, states_uniform]

theorem shape_fits (p : Phase chain) : p.shape.Fits (p.job key) := by
  cases p with
  | waiting =>
    refine ⟨rfl, rfl, rfl, fun s hs => ?_⟩
    rw [JobState.states, job_slots, slots, states_uniform] at hs
    exact List.eq_of_mem_replicate hs
  | underway c stops => exact ⟨rfl, rfl, _, _, states_cut c .running .enqueued⟩
  | succeeded =>
    refine ⟨rfl, fun s hs => ?_⟩
    rw [JobState.states, job_slots, slots, states_uniform] at hs
    exact List.eq_of_mem_replicate hs
  | failed c oom message => exact ⟨rfl, _, _, states_cut c .failed .enqueued⟩
  | unstarted => exact ⟨rfl, 0, 0, _, by omega, states_uniform chain .cancelled⟩
  | stopped c stops r cause =>
    have hstates := states_cut c (JobState.stateAfter r) .cancelled
    cases r with
    | succeeded =>
      refine ⟨rfl, c.done.length + 1, 0, c.rest.length, by omega, ?_⟩
      rw [JobState.states, job_slots, slots, hstates]
      simp [JobState.stateAfter, List.replicate_succ']
    | failed oom message =>
      refine ⟨rfl, c.done.length, 1, c.rest.length, by omega, ?_⟩
      rw [JobState.states, job_slots, slots, hstates]
      simp [JobState.stateAfter]
    | cancelled =>
      refine ⟨rfl, c.done.length, 0, c.rest.length + 1, by omega, ?_⟩
      rw [JobState.states, job_slots, slots, hstates]
      simp [JobState.stateAfter, List.replicate_succ]

/-- The stages themselves never change. -/
theorem slots_stages (p : Phase chain) : p.slots.map Slot.stage = chain := by
  have huniform : ∀ (l : List Stage) (s : StageState),
      (l.map (Slot.mk · s)).map Slot.stage = l := by
    intro l s
    rw [List.map_map]
    exact List.map_id l
  have hcut : ∀ (c : Cut chain) (here later : StageState),
      (c.slots here later).map Slot.stage = chain := by
    intro c here later
    rw [Cut.slots, List.map_append, List.map_cons, huniform, huniform, c.whole]
  cases p with
  | waiting | succeeded | unstarted => exact huniform chain _
  | underway c _ | failed c _ _ | stopped c _ _ _ => exact hcut c _ _

end Phase

/-- **The shape of a job.** Whatever messages a new job was given, in any order, it has exactly one
of the five shapes, its stages are those of its chain, at most one of them runs, and that only when
all before it have succeeded. -/
theorem run_shape {chain : List Stage} (hc : Positional chain) (key : String)
    (ms : List Message) :
    (∃! s : Shape, s.Fits ((JobState.new key chain).run ms).1) ∧
    ((JobState.new key chain).run ms).1.slots.map Slot.stage = chain ∧
    (∀ i k : Nat, ((JobState.new key chain).run ms).1.states[i]? = some .running →
      ((JobState.new key chain).run ms).1.states[k]? = some .running → i = k) ∧
    (∀ i k : Nat, ((JobState.new key chain).run ms).1.states[i + 1]? = some .running →
      k ≤ i → ((JobState.new key chain).run ms).1.states[k]? = some .succeeded) := by
  obtain ⟨p, hjob, -, -⟩ := Phase.run_phase hc key ms
  rw [hjob]
  have hfits : p.shape.Fits (p.job key) := p.shape_fits
  refine ⟨⟨p.shape, hfits, fun s hs => hs.unique hfits⟩, p.slots_stages, ?_, ?_⟩
  · intro i k hi hk
    exact hfits.running_unique hi hk
  · intro i k hi hk
    exact hfits.succeeded_before hi (Nat.lt_succ_of_le hk)

/-- Stray reports, a start heard twice and a wish to stop while the second stage runs. -/
theorem run_shape_stray_messages :
    let ms := [.stageFinished 0 .succeeded, .start, .start, .stageFinished 0 .succeeded,
      .cancelRequested, .stageFinished 2 .cancelled]
    let j := ((JobState.new "app" (chainOf .jadx)).run ms).1
    Positional (chainOf .jadx) ∧ j.states = [.succeeded, .running, .enqueued] ∧
      (∃! s : Shape, s.Fits j) ∧ j.states[0]? = some .succeeded := by
  intro ms j
  obtain ⟨hshape, -, -, hbefore⟩ := run_shape (positional_chainOf .jadx) "app" ms
  exact ⟨positional_chainOf .jadx, by decide, hshape, hbefore 0 0 (by decide) (Nat.le_refl 0)⟩

end Decompile
