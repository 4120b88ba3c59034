import Decompile.Proofs.Lifecycle.Replay

/-!
# Everything a job asks for

What holds of all effects of a job together, over any messages.

- `startsIn`, `Announced`: which stages are started, and what stands right before.
- `TraceLaw`, `run_trace`: the law of whole traces. Stages start in order, each stage changes along
  its steps, the end comes once and last, and the changes replay to the states of the job.
-/

namespace Decompile

open List (replicate)

/-- The stages that are started, in order. -/
def startsIn (effects : List Effect) : List Stage :=
  effects.filterMap fun e =>
    match e with
    | .startStage s => some s
    | .stageChanged _ _ | .finish _ _ _ => none

/-- The job is said to be over. -/
def Effect.isFinish : Effect → Bool
  | .finish _ _ _ => true
  | .stageChanged _ _ | .startStage _ => false

/-- Right before a stage is started, it is said to run. -/
def Announced (effects : List Effect) : Prop :=
  ∀ earlier later s, effects = earlier ++ .startStage s :: later →
    ∃ first, earlier = first ++ [.stageChanged s .running]

theorem Announced.of_not_mem {effects : List Effect} (h : ∀ s, .startStage s ∉ effects) :
    Announced effects := by
  intro earlier later s heq
  exact absurd (by simp [heq]) (h s)

theorem Announced.append {a b : List Effect} (ha : Announced a) (hb : Announced b) :
    Announced (a ++ b) := by
  intro earlier later s heq
  rcases List.append_eq_append_iff.mp heq with ⟨d, rfl, hd⟩ | ⟨d, rfl, hd⟩
  · obtain ⟨first, rfl⟩ := hb d later s hd
    exact ⟨a ++ first, by rw [List.append_assoc]⟩
  · cases d with
    | nil =>
      -- the started stage would be the first effect of `b`
      obtain ⟨first, hfirst⟩ := hb [] later s hd.symm
      simp at hfirst
    | cons e d =>
      obtain ⟨rfl, rfl⟩ := List.cons.inj hd
      exact ha earlier d s rfl

theorem startsIn_append (a b : List Effect) : startsIn (a ++ b) = startsIn a ++ startsIn b :=
  List.filterMap_append

namespace Phase

variable {chain : List Stage} {key : String}

theorem announced_opening (s : Stage) : Announced (opening s) := by
  intro earlier later t heq
  match earlier, heq with
  | [e], heq =>
    obtain ⟨rfl, rfl, -⟩ : e = .stageChanged s .running ∧ t = s ∧ later = [] := by
      simpa [opening, eq_comm] using heq
    exact ⟨[], rfl⟩
  | _ :: _ :: earlier, heq => simp [opening] at heq

theorem announced_rows (done : List Stage) : Announced (rows done) := by
  induction done with
  | nil => exact .of_not_mem fun s => List.not_mem_nil
  | cons s done ih =>
    rw [rows_cons, List.append_cons]
    refine ((announced_opening s).append (.of_not_mem ?_)).append ih
    simp

theorem startsIn_rows (done : List Stage) : startsIn (rows done) = done := by
  induction done with
  | nil => rfl
  | cons s done ih =>
    rw [rows_cons, startsIn_append]
    show [s] ++ startsIn (rows done) = s :: done
    rw [ih]
    rfl

theorem startsIn_cancellations (rest : List Stage) : startsIn (cancellations rest) = [] := by
  simp [startsIn, cancellations]

theorem startsIn_closing (p : Phase chain) : startsIn p.closing = [] := by
  rw [closing]
  cases p.outcome <;> rfl

theorem startStage_not_mem_closing (p : Phase chain) (s : Stage) : .startStage s ∉ p.closing := by
  rw [closing]
  cases p.outcome <;> simp

theorem announced_trace (p : Phase chain) : Announced p.trace := by
  refine Announced.append ?_ (.of_not_mem p.startStage_not_mem_closing)
  have hopened : ∀ c : Cut chain, Announced (rows c.done ++ opening c.stage) := fun c =>
    (announced_rows c.done).append (announced_opening c.stage)
  cases p with
  | waiting => exact .of_not_mem fun s => List.not_mem_nil
  | underway c stops => exact hopened c
  | succeeded => exact announced_rows chain
  | failed c oom message => exact (hopened c).append (.of_not_mem (by simp))
  | unstarted => exact .of_not_mem (by simp [changes, cancellations])
  | stopped c stops r cause =>
    exact ((hopened c).append (.of_not_mem (by simp))).append
      (.of_not_mem (by simp [cancellations]))

/-- The started stages are the first ones of the chain. -/
theorem startsIn_trace (p : Phase chain) : startsIn p.trace <+: chain := by
  have hcut : ∀ c : Cut chain, c.done ++ [c.stage] <+: chain := fun c =>
    ⟨c.rest, by rw [← List.append_cons, c.whole]⟩
  have hopened : ∀ c : Cut chain,
      startsIn (rows c.done ++ opening c.stage) = c.done ++ [c.stage] := by
    intro c
    rw [startsIn_append, startsIn_rows]
    rfl
  rw [trace, startsIn_append, startsIn_closing, List.append_nil]
  cases p with
  | waiting => exact List.nil_prefix
  | underway c stops =>
    rw [changes, hopened]
    exact hcut c
  | succeeded =>
    have hrows : startsIn (rows chain) = chain := startsIn_rows chain
    exact ⟨[], by rw [changes, hrows, List.append_nil]⟩
  | failed c oom message =>
    have hnone : startsIn [.stageChanged c.stage .failed] = [] := rfl
    rw [changes, startsIn_append, hopened, hnone, List.append_nil]
    exact hcut c
  | unstarted =>
    rw [changes, startsIn_cancellations]
    exact List.nil_prefix
  | stopped c stops r cause =>
    have hnone : startsIn [.stageChanged c.stage (JobState.stateAfter r)] = [] := rfl
    rw [changes, startsIn_append, startsIn_cancellations, List.append_nil, startsIn_append,
      hopened, hnone, List.append_nil]
    exact hcut c

/-- Only stages of the chain change. -/
theorem changed_mem {p : Phase chain} {s : Stage} {st : StageState}
    (h : .stageChanged s st ∈ p.trace) : s ∈ chain := by
  have hchanges : .stageChanged s st ∈ p.changes := by
    rcases List.mem_append.mp h with h | h
    · exact h
    · rw [closing] at h
      cases ho : p.outcome with
      | none => simp [ho] at h
      | some o => simp [ho] at h
  have hcut : ∀ c : Cut chain, s ∈ c.done ∨ s = c.stage ∨ s ∈ c.rest → s ∈ chain := by
    intro c hs
    rw [← c.whole]
    simpa using hs
  have hrows : ∀ l : List Stage, .stageChanged s st ∈ rows l → s ∈ l := by
    intro l hl
    obtain ⟨t, ht, hmem⟩ := List.mem_flatMap.mp hl
    have hst : s = t := by
      rcases List.mem_append.mp hmem with hmem | hmem
      · exact (by simpa [opening] using hmem : s = t ∧ _).1
      · exact (by simpa using hmem : s = t ∧ _).1
    rw [hst]
    exact ht
  cases p with
  | waiting => exact absurd hchanges List.not_mem_nil
  | succeeded => exact hrows chain hchanges
  | unstarted =>
    obtain ⟨t, ht, heq⟩ := List.mem_map.mp hchanges
    exact (Effect.stageChanged.inj heq).1 ▸ ht
  | underway c stops =>
    rcases List.mem_append.mp hchanges with hmem | hmem
    · exact hcut c (.inl (hrows _ hmem))
    · exact hcut c (.inr (.inl (by simpa [opening] using hmem : s = c.stage ∧ _).1))
  | failed c oom message =>
    simp only [changes, List.mem_append] at hchanges
    rcases hchanges with (hmem | hmem) | hmem
    · exact hcut c (.inl (hrows _ hmem))
    · exact hcut c (.inr (.inl (by simpa [opening] using hmem : s = c.stage ∧ _).1))
    · exact hcut c (.inr (.inl (by simpa using hmem : s = c.stage ∧ _).1))
  | stopped c stops r cause =>
    simp only [changes, List.mem_append] at hchanges
    rcases hchanges with ((hmem | hmem) | hmem) | hmem
    · exact hcut c (.inl (hrows _ hmem))
    · exact hcut c (.inr (.inl (by simpa [opening] using hmem : s = c.stage ∧ _).1))
    · exact hcut c (.inr (.inl (by simpa using hmem : s = c.stage ∧ _).1))
    · obtain ⟨t, ht, heq⟩ := List.mem_map.mp hmem
      exact hcut c (.inr (.inr ((Effect.stageChanged.inj heq).1 ▸ ht)))

theorem filter_isFinish_trace (p : Phase chain) : p.trace.filter Effect.isFinish = p.closing := by
  have hnone : p.changes.filter Effect.isFinish = [] := by
    refine List.filter_eq_nil_iff.mpr fun e he => ?_
    cases e with
    | finish o oom message => exact absurd he (finish_not_mem_changes p o oom message)
    | stageChanged s st => simp [Effect.isFinish]
    | startStage s => simp [Effect.isFinish]
  rw [trace, List.filter_append, hnone, List.nil_append, closing]
  cases p.outcome <;> rfl

/-- Nothing follows the end. -/
theorem finish_last {p : Phase chain} {earlier later : List Effect} {o : Outcome} {oom : Bool}
    {message : Option String} (h : p.trace = earlier ++ .finish o oom message :: later) :
    later = [] := by
  rcases List.eq_nil_or_concat later with hnil | ⟨front, last, rfl⟩
  · exact hnil
  · have hmem : .finish o oom message ∈ p.changes := by
      rw [trace, closing] at h
      cases ho : p.outcome with
      | none =>
        rw [ho, List.append_nil] at h
        rw [h]
        simp
      | some x =>
        rw [ho] at h
        have hsplit : p.changes = earlier ++ .finish o oom message :: front := by
          rw [List.concat_eq_append, ← List.cons_append, ← List.append_assoc] at h
          exact (List.append_inj' h rfl).1
        rw [hsplit]
        simp
    exact absurd hmem (finish_not_mem_changes p o oom message)

/-- A message makes the job say that it is over exactly if it ends the job. -/
theorem Step.finish_mem_iff {p q : Phase chain} {m : Message} {e : List Effect}
    (h : Step p m q e) (o : Outcome) :
    (∃ oom message, .finish o oom message ∈ e) ↔ p.outcome = none ∧ q.outcome = some o := by
  have hopen : e ≠ [] → p.outcome = none := by
    intro hne
    cases h <;> first | rfl | exact absurd rfl hne
  have hmem : ∀ oom message, .finish o oom message ∈ q.trace ↔
      .finish o oom message ∈ p.trace ∨ .finish o oom message ∈ e := by
    intro oom message
    rw [h.trace_eq, List.mem_append]
  constructor
  · rintro ⟨oom, message, he⟩
    refine ⟨hopen (List.ne_nil_of_mem he), ?_⟩
    exact (finish_mem_trace.mp ((hmem oom message).mpr (.inr he))).1
  · rintro ⟨hp, hq⟩
    refine ⟨_, _, ((hmem _ _).mp (finish_mem_trace.mpr ⟨hq, rfl, rfl⟩)).resolve_left ?_⟩
    intro hbefore
    rw [(finish_mem_trace.mp hbefore).1] at hp
    cases hp

end Phase

/-! ## The law of traces -/

/-- What holds of all effects of a job together. -/
structure TraceLaw (chain : List Stage) (j : JobState) (effects : List Effect) : Prop where
  /-- Stages are started in order, from the first on, without gap or repetition. -/
  starts_ordinals : (startsIn effects).map Stage.ordinal = List.range (startsIn effects).length
  starts_prefix : startsIn effects <+: chain
  announced : Announced effects
  /-- Only stages of the chain change, each along its steps. -/
  changed_mem : ∀ s st, .stageChanged s st ∈ effects → s ∈ chain
  steps : ∀ i < chain.length,
    List.IsChain (fun a b => a.canBecome b = true) (.enqueued :: changesOf i effects)
  runs_once : ∀ i, (changesOf i effects).count .running ≤ 1
  ends_once : ∀ i, (changesOf i effects).countP StageState.isTerminal ≤ 1
  finish_once : (effects.filter Effect.isFinish).length ≤ 1
  finish_iff : ∀ o, (∃ oom message, .finish o oom message ∈ effects) ↔ j.outcome = some o
  finish_last : ∀ earlier later o oom message,
    effects = earlier ++ .finish o oom message :: later → later = []
  replay_eq : replay (replicate chain.length .enqueued) effects = j.states

theorem states_new (key : String) (chain : List Stage) :
    (JobState.new key chain).states = replicate chain.length .enqueued := by
  simp [JobState.states, JobState.new, Function.comp_def, List.map_const']

theorem slots_new (key : String) (chain : List Stage) :
    (JobState.new key chain).slots.map Slot.stage = chain := by
  simp [JobState.new, Function.comp_def]

/-- What a single stage logs is short: it runs once and ends once. -/
theorem log_counts {log : List StageState}
    (h : List.IsChain (fun a b => a.canBecome b = true) (.enqueued :: log)) :
    log.count .running ≤ 1 ∧ log.countP StageState.isTerminal ≤ 1 := by
  rcases log_of_isChain h with rfl | rfl | rfl | ⟨t, ht, rfl⟩
  · decide
  · decide
  · decide
  · cases t <;> first | decide | cases ht

/-- **The law of traces.** Whatever messages a new job was given, in any order: all effects together
obey the law, and of each message's effects exactly those end the job with which its outcome
becomes known. -/
theorem run_trace {chain : List Stage} (hc : Positional chain) (key : String)
    (ms : List Message) :
    TraceLaw chain ((JobState.new key chain).run ms).1 ((JobState.new key chain).run ms).2 ∧
    ∀ before m o, (∃ oom message, .finish o oom message ∈
        (((JobState.new key chain).run before).1.handle m).2) ↔
      ((JobState.new key chain).run before).1.outcome = none ∧
        (((JobState.new key chain).run before).1.handle m).1.outcome = some o := by
  constructor
  · obtain ⟨p, hjob, htrace, -⟩ := Phase.run_phase hc key ms
    have hnew : Positional ((JobState.new key chain).slots.map Slot.stage) := by
      rw [slots_new]
      exact hc
    have hlogs := JobState.logs_run hnew ms
    have hlegal : Legal (replicate chain.length .enqueued) p.trace := by
      rw [← states_new key, ← htrace]
      exact hlogs.legal
    have hchain : ∀ i < chain.length,
        List.IsChain (fun a b => a.canBecome b = true) (.enqueued :: changesOf i p.trace) :=
      fun i hi => isChain_changesOf hlegal (by simp [hi])
    have hcounts : ∀ i, (changesOf i p.trace).count .running ≤ 1 ∧
        (changesOf i p.trace).countP StageState.isTerminal ≤ 1 := by
      intro i
      by_cases hi : i < chain.length
      · exact log_counts (hchain i hi)
      · rw [changesOf_eq_nil hlegal (by simpa using hi)]
        decide
    rw [hjob, htrace]
    refine
      { starts_ordinals := map_ordinal_of_prefix hc p.startsIn_trace
        starts_prefix := p.startsIn_trace
        announced := p.announced_trace
        changed_mem := fun s st h => Phase.changed_mem h
        steps := hchain
        runs_once := fun i => (hcounts i).1
        ends_once := fun i => (hcounts i).2
        finish_once := ?_
        finish_iff := fun o => ?_
        finish_last := fun _ _ _ _ _ h => Phase.finish_last h
        replay_eq := ?_ }
    · rw [p.filter_isFinish_trace, Phase.closing]
      cases p.outcome <;> simp
    · constructor
      · rintro ⟨oom, message, hmem⟩
        exact (Phase.finish_mem_trace.mp hmem).1
      · intro ho
        exact ⟨_, _, Phase.finish_mem_trace.mpr ⟨ho, rfl, rfl⟩⟩
    · rw [← states_new key, ← htrace, ← hjob]
      exact hlogs.states
  · intro before m o
    obtain ⟨p, hjob, -, -⟩ := Phase.run_phase hc key before
    obtain ⟨q, e, hq, hstep⟩ := Phase.handle_step hc key p m
    rw [hjob, hq]
    exact hstep.finish_mem_iff o

/-- A start heard twice, a report of a stage that does not run, and two wishes to stop. -/
theorem run_trace_repeated_messages :
    let ms := [.start, .start, .stageFinished 0 .succeeded, .stageFinished 3 .succeeded,
      .cancelRequested, .cancelRequested, .stageFinished 1 .succeeded, .start]
    let r := (JobState.new "app" (chainOf .cfr)).run ms
    Positional (chainOf .cfr) ∧ (startsIn r.2).map Stage.ordinal = [0, 1] ∧
      (r.2.filter Effect.isFinish).length ≤ 1 ∧
      replay (replicate 4 .enqueued) r.2 = [.succeeded, .succeeded, .cancelled, .cancelled] := by
  intro ms r
  have hlaw := (run_trace (positional_chainOf .cfr) "app" ms).1
  exact ⟨positional_chainOf .cfr, by decide, hlaw.finish_once, hlaw.replay_eq.trans (by decide)⟩

end Decompile
