import Decompile.Proofs.Cancellation.Run
import Decompile.Proofs.Protocol.Bus

/-!
# Wishes to stop

What it does to the run of a job that somebody asks it to stop: while it waits, while a stage works
on a chunk or calls a tool, or between two messages.

- `EndsCancelled`: a job is heard to be cancelled, and of no failure.
- `Engine.StopLaw`: a wish to stop decides how the job ends, and nothing is begun after it.
- `Engine.runJob_stopLaw`: every job that an engine has taken on obeys it.
-/

namespace Decompile

/-- A job is heard to be cancelled, once and at the end, and of no failure. -/
structure EndsCancelled (told : List BusMessage) : Prop where
  ends : ∃ (before : List BusMessage) (r : TerminalResult), told = before ++ [.terminal r] ∧
    (∀ r', .terminal r' ∉ before) ∧ r.outcome = .cancelled ∧ r.ranOutOfMemory = false
  noFailure : ∀ key e, .status key e ∈ told → e.kind ≠ .error

/-- The transcript of a job that was cancelled. -/
theorem Transcript.endsCancelled {j : Job} {t : Transcript} (ht : t.Lawful j)
    (ho : t.result.outcome = .cancelled) (hoom : t.result.ranOutOfMemory = false) :
    EndsCancelled (t.messages j.targetKey) := by
  have hnotice : t.result.notice = [] := by
    have hnone : ¬ t.result.userMessage?.isSome := by
      rw [ht.notice, ho]
      nofun
    rw [TerminalResult.notice, Option.not_isSome_iff_eq_none.mp hnone]
    rfl
  have hstages : ∀ m ∈ t.intervals.flatMap (Interval.messages j.targetKey) ++
      t.unreached.map (fun s => .stageChanged j.targetKey s .cancelled),
      (∃ s state, m = .stageChanged j.targetKey s state) ∨
        ∃ e : ProgressEvent, e.isProgress = true ∧ m = .status j.targetKey e := by
    intro m hm
    rcases List.mem_append.mp hm with hm | hm
    · obtain ⟨i, hi, hm⟩ := List.mem_flatMap.mp hm
      rcases List.mem_cons.mp hm with rfl | hm
      · exact .inl ⟨_, _, rfl⟩
      · rcases List.mem_append.mp hm with hm | hm
        · obtain ⟨e, he, rfl⟩ := List.mem_map.mp hm
          exact .inr ⟨e, ht.progress i hi e he, rfl⟩
        · exact .inl ⟨_, _, List.mem_singleton.mp hm⟩
    · obtain ⟨s, -, rfl⟩ := List.mem_map.mp hm
      exact .inl ⟨_, _, rfl⟩
  rw [messages, hnotice, List.append_nil]
  constructor
  · refine ⟨_, t.result, rfl, fun r' hr' => ?_, ho, hoom⟩
    rcases hstages _ hr' with ⟨s, state, heq⟩ | ⟨e, -, heq⟩
    · cases heq
    · cases heq
  · intro key e he herror
    rcases List.mem_append.mp he with he | he
    · rcases hstages _ he with ⟨s, state, heq⟩ | ⟨e', hprogress, heq⟩
      · cases heq
      · obtain ⟨-, rfl⟩ := BusMessage.status.inj heq
        rw [ProgressEvent.isProgress, herror] at hprogress
        cases hprogress
    · cases List.mem_singleton.mp he

namespace Engine

open World (messagesOn)

variable {h : Host} {a : Accepted} {w : World}

/-- The world in which a job that has taken `n` messages looks whether it has to stop. -/
def pollAfter (h : Host) (a : Accepted) (w : World) (n : Nat) : World :=
  ((World.pause h).run (((Task.ofAccepted a).runFor h n).run w).2).2

/-- What a wish to stop does to the run of a job that begins in a world. -/
structure StopLaw (h : Host) (a : Accepted) (w : World) : Prop where
  /-- As long as the job is not over its token says whether it was asked to stop. -/
  token : ∀ n, (((Task.ofAccepted a).runFor h n).run w).1.state.outcome = none →
    ((pollAfter h a w n).registry.isCancelled a.ticket = true ↔
      Asked a.job.targetKey a.ticket w (w.since (pollAfter h a w n)))
  /-- A wish to stop that comes at any point before the job takes the message that ends it decides:
  the job is cancelled, without a word of failure or of memory, and after the message during which
  the wish came no stage is told to run. -/
  heeded : ∀ (n : Nat) (past : List Occurrence),
    (((Task.ofAccepted a).runFor h n).run w).1.state.outcome = none →
    past <+: w.since (pollAfter h a w n) → Asked a.job.targetKey a.ticket w past →
    EndsCancelled (messagesOn a.job.targetKey (w.since ((runJob h a).run w).2)) ∧
      ∀ s, .stageChanged a.job.targetKey s .running ∉ messagesOn a.job.targetKey
        ((((Task.ofAccepted a).runFor h n).run w).2.since ((runJob h a).run w).2)
  /-- A message that starts a stage is done when that stage is, so that a wish which comes while a
  stage runs comes before the next message. -/
  staged : ∀ (n : Nat) (m : Message) (rest : List Message) (s : Stage),
    (((Task.ofAccepted a).runFor h n).run w).1.queue = m :: rest →
    .startStage s ∈ ((((Task.ofAccepted a).runFor h n).run w).1.taken
      ((pollAfter h a w n).registry.isCancelled a.ticket) m rest).2 →
    ∃ u : World, (((Task.ofAccepted a).runFor h (n + 1)).run w).2 =
      ((runStage h ⟨a.job, .of h.settings.storage a.job.targetKey, a.ticket⟩ s).run u).2
  /-- After the wish no attempt at a chunk is begun, be it the first or a further one. -/
  attempts : Obeys a.job.targetKey a.ticket w (w.since ((runJob h a).run w).2)
  /-- To ask again, at any time, does nothing but say so in the log. -/
  again : ∀ v : World, ∃ said : List LogRecord,
    ((cancelJob a.job.targetKey).run ((cancelJob a.job.targetKey).run v).2).2 =
      { ((cancelJob a.job.targetKey).run v).2 with
        journal := ((cancelJob a.job.targetKey).run v).2.journal ++ said.map .logged }
  /-- To ask when the job is over does nothing. -/
  ended : ((cancelJob a.job.targetKey).run ((runJob h a).run w).2).2 = ((runJob h a).run w).2

/-- After any number of messages a job that is not over has heeded wishes to stop, up to where it
looks the next time. -/
theorem pollAfter_heeds (hc : Positional a.job.chain) (n : Nat)
    (hopen : (((Task.ofAccepted a).runFor h n).run w).1.state.outcome = none) :
    Heeds a.job.targetKey a.ticket w (pollAfter h a w n) := by
  have hrun := (Task.runFor_heeds (h := h) hc n (t := .ofAccepted a) rfl (p := .waiting) rfl rfl
    (Heeds.refl w)).1 hopen
  exact hrun.trans (World.pause_moves.heeds _)

theorem stopLaw_token (hc : Positional a.job.chain) (hsound : w.registry.Sound)
    (hheld : w.registry.holder? a.job.targetKey = some a.ticket) (n : Nat)
    (hopen : (((Task.ofAccepted a).runFor h n).run w).1.state.outcome = none) :
    (pollAfter h a w n).registry.isCancelled a.ticket = true ↔
      Asked a.job.targetKey a.ticket w (w.since (pollAfter h a w n)) := by
  obtain ⟨new, hnew, hlaw⟩ := (pollAfter_heeds hc n hopen).journal
  rw [World.since_eq hnew]
  exact (hlaw hsound hheld).1

/-- The next message of a job that finds its token set tells it to stop, and decides how it ends. -/
theorem step_of_isCancelled {j : Job} (hc : Positional j.chain) {told : List BusMessage} {t : Task}
    {n : Nat} {p : Phase j.chain} (ht : Standing j told t n p) {m : Message}
    {rest : List Message} (hq : t.queue = m :: rest) {v : World} (hidle : v.monitor = none)
    (hstop : ((World.pause h).run v).2.registry.isCancelled t.ticket = true) :
    ∃ (ms : List BusMessage) (k : Nat) (q : Phase j.chain), k < n ∧ q.Stopping ∧
      Standing j (told ++ ms) ((t.step h m rest).run v).1 k q ∧
      ((t.step h m rest).run v).2.monitor = none ∧
      ((t.step h m rest).run v).1.stopTold = true := by
  obtain ⟨hidle', -⟩ := (World.pause_moves (h := h) (N := fun _ => False) v).silent hidle
  simp only [Task.run_step]
  generalize ((World.pause h).run v).2 = paused at hstop hidle' ⊢
  rw [hstop]
  obtain ⟨ms, ⟨⟨k, hk, q, hstanding, -, hstopping⟩, -⟩, hlast, -⟩ :=
    Task.taken_tells (h := h) hc ht hq true paused hidle'
  have htold : (t.taken true m rest).1.stopTold = true := by
    unfold Task.taken Task.next
    split
    · rfl
    · next hold => simpa using hold
  obtain ⟨r, queue, hfst⟩ := Task.performAll_fst (h := h)
    ((t.taken true m rest).2.flatMap (Effect.actions (t.taken true m rest).1.job))
    (t.taken true m rest).1 paused
  refine ⟨ms, k, q, hk, hstopping rfl, hstanding, hlast, ?_⟩
  rw [hfst]
  exact htold

/-- A job that finds its token set is cancelled in the end. -/
theorem outcome_of_isCancelled (hc : Positional a.job.chain) (hidle : w.monitor = none) (n : Nat)
    (hopen : (((Task.ofAccepted a).runFor h n).run w).1.state.outcome = none)
    (hstop : (pollAfter h a w n).registry.isCancelled a.ticket = true) :
    (((Task.ofAccepted a).runFor h (Task.ofAccepted a).messageBound).run w).1.state.outcome =
        some .cancelled ∧
      (((Task.ofAccepted a).runFor h (n + 1)).run w).1.stopTold = true := by
  let bound := (Task.ofAccepted a).messageBound
  obtain ⟨ms, ⟨⟨k, hk, p, hp, -⟩, -⟩, hidle', -⟩ :=
    Task.runFor_tells (h := h) hc n (Task.standing_ofAccepted a) w hidle
  have hticket := (Task.runFor_fst (h := h) n (.ofAccepted a) w).2
  have hwhole := (runFor_ends (h := h) (a := a) (w := w) hc hidle
    (show bound ≤ n + (1 + bound) by omega)).2
  rw [← hwhole]
  unfold pollAfter at hstop
  rw [Task.runFor_add, Task.runFor_add, Act.run_bind, Act.run_bind]
  generalize ((Task.ofAccepted a).runFor h n).run w = s at hopen hstop hp hidle' hticket ⊢
  have hphase : p.outcome = none := by
    rw [hp.state] at hopen
    exact hopen
  cases hq : s.1.queue with
  | nil =>
    have hawaits := hp.awaits
    rw [hq] at hawaits
    obtain rfl := hawaits.eq_zero
    exact absurd hphase hawaits.outcome_ne_none.1
  | cons m rest =>
    have hone : s.1.runFor h 1 = s.1.step h m rest := by
      rw [Task.runFor_succ, hq]
      exact bind_pure _
    have hbound : bound = a.job.chain.length + 3 := rfl
    rw [Task.runFor_add, Act.run_bind, hone]
    obtain ⟨more, l, q, hl, hstopping, hstanding, hidle'', htold⟩ :=
      step_of_isCancelled (h := h) hc hp hq hidle' (by rw [hticket]; exact hstop)
    refine ⟨?_, htold⟩
    obtain ⟨last, ⟨⟨l', hl', r, hr, hlast⟩, -⟩, -⟩ :=
      Task.runFor_tells (h := h) hc bound hstanding _ hidle''
    obtain rfl : l' = 0 := by omega
    rw [hr.state]
    rcases hlast hstopping with hcancelled | ⟨hnone, -⟩
    · exact hcancelled
    · exact absurd hnone hr.awaits.outcome_ne_none.1

/-- A message that starts a stage is done when that stage is. -/
theorem runFor_staged (hc : Positional a.job.chain) (hidle : w.monitor = none) (n : Nat)
    (m : Message) (rest : List Message) (s : Stage)
    (hq : (((Task.ofAccepted a).runFor h n).run w).1.queue = m :: rest)
    (hs : .startStage s ∈ ((((Task.ofAccepted a).runFor h n).run w).1.taken
      ((pollAfter h a w n).registry.isCancelled a.ticket) m rest).2) :
    ∃ u : World, (((Task.ofAccepted a).runFor h (n + 1)).run w).2 =
      ((runStage h ⟨a.job, .of h.settings.storage a.job.targetKey, a.ticket⟩ s).run u).2 := by
  obtain ⟨ms, ⟨⟨k, -, p, hp, -⟩, -⟩, -⟩ :=
    Task.runFor_tells (h := h) hc n (Task.standing_ofAccepted a) w hidle
  obtain ⟨hjob, hticket⟩ := Task.runFor_fst (h := h) n (.ofAccepted a) w
  rw [Task.runFor_add, Act.run_bind]
  unfold pollAfter at hs
  generalize ((Task.ofAccepted a).runFor h n).run w = t at hq hs hp hjob hticket ⊢
  have hone : t.1.runFor h 1 = t.1.step h m rest := by
    rw [Task.runFor_succ, hq]
    exact bind_pure _
  rw [hone]
  simp only [Task.run_step]
  generalize ((World.pause h).run t.2).2 = v at hs ⊢
  replace hticket : t.1.ticket = a.ticket := hticket
  rw [hticket]
  obtain ⟨hjob', hticket', msg, hhandle⟩ := t.1.taken_eq (v.registry.isCancelled a.ticket) m rest
  generalize t.1.taken (v.registry.isCancelled a.ticket) m rest = taken at hs hjob' hticket' hhandle ⊢
  obtain ⟨q, es, hphase, hstep⟩ := Phase.handle_step hc a.job.targetKey p msg
  rw [← hp.state, hhandle] at hphase
  obtain ⟨-, rfl⟩ := Prod.mk.inj hphase
  obtain ⟨changes, hchanges⟩ := hstep.effects_of_startStage hs
  rw [hchanges, List.flatMap_append, Task.performAll_append, Act.run_bind, List.flatMap_singleton]
  let before := (changes.map fun x => Effect.stageChanged x.1 x.2).flatMap
    (Effect.actions taken.1.job)
  obtain ⟨r, queue, hfst⟩ := Task.performAll_fst (h := h) before taken.1 v
  rw [hfst]
  refine ⟨((taken.1.performAll h before).run v).2, ?_⟩
  have hcontext : Task.context h { taken.1 with record := r, queue := queue } =
      ⟨a.job, .of h.settings.storage a.job.targetKey, a.ticket⟩ := by
    replace hjob : t.1.job = a.job := hjob
    rw [Task.context, Task.layout]
    simp only [hjob', hjob, hticket', hticket]
  rw [← hcontext]
  rfl

/-- What is heard of a job that was cancelled. -/
theorem endsCancelled_of_outcome (hc : Positional a.job.chain) (hidle : w.monitor = none)
    (ho : (((Task.ofAccepted a).runFor h (Task.ofAccepted a).messageBound).run w).1.state.outcome =
      some .cancelled) :
    EndsCancelled (messagesOn a.job.targetKey (w.since ((runJob h a).run w).2)) := by
  obtain ⟨ms, ⟨-, t, rfl, hlawful, houtcome, hsober⟩, -, htold⟩ :=
    Task.runFor_transcript (h := h) hc (Nat.le_refl _) w hidle
  obtain ⟨new, hjournal, hpublished⟩ := (htold.append (runJob_told w)).journal
  rw [List.append_nil] at hpublished
  rw [World.since_eq hjournal, World.messagesOn_of_publishedIn hpublished]
  have hcancelled : t.result.outcome = .cancelled := Option.some.inj (houtcome.symm.trans ho)
  exact t.endsCancelled hlawful hcancelled (hsober (by rw [hcancelled]; nofun))

/-- Of a key that nobody holds nobody can be asked to stop. -/
theorem cancelJob_of_free {key : String} {v : World} (hfree : v.registry.holder? key = none) :
    ((cancelJob key).run v).2 = v := by
  have hidle : v.registry.isActive key = false := Registry.isActive_eq_false.mpr hfree
  show ((World.cancel key).run v).2 = v
  unfold World.cancel
  rw [Act.run_get_bind, if_neg (by rw [hidle]; nofun)]
  show { v with registry := v.registry.cancel key } = v
  rw [Registry.cancel_of_none hfree]

/-- **Wishes to stop.** In every world that an engine can come to, every job that waits obeys the law
when it is run, for every host: whatever its tools, its memory and its files do. -/
theorem runJob_stopLaw (hw : Reached h w) {before after : List Accepted}
    (waits : w.waiting = before ++ a :: after) :
    StopLaw h a { w with waiting := before ++ after } := by
  have hrest := hw.atRest
  have hc : Positional a.job.chain := (hrest.planned a (by simp [waits])).positional
  have hidle : { w with waiting := before ++ after }.monitor = none := hrest.idle
  obtain ⟨hsound, hheld⟩ := hw.held waits
  generalize hw' : { w with waiting := before ++ after } = w' at hidle ⊢
  replace hsound : w'.registry.Sound := hw' ▸ hsound
  replace hheld : w'.registry.holder? a.job.targetKey = some a.ticket := hw' ▸ hheld
  have hfreed := runJob_freed (h := h) hc hidle hsound hheld
  constructor
  case token => exact stopLaw_token hc hsound hheld
  case heeded =>
    intro n past hopen hpast hasked
    -- the token was set by the time the job looks at it
    have hstop : (pollAfter h a w' n).registry.isCancelled a.ticket = true := by
      rw [stopLaw_token hc hsound hheld n hopen]
      exact hasked.imp id fun hmem => hpast.subset hmem
    obtain ⟨houtcome, htold⟩ := outcome_of_isCancelled hc hidle n hopen hstop
    constructor
    · exact endsCancelled_of_outcome hc hidle houtcome
    · obtain ⟨later, hlater, hquiet⟩ := runFor_stops hc hidle n htold
      rw [World.since_eq hlater]
      exact hquiet
  case staged => exact runFor_staged hc hidle
  case attempts =>
    obtain ⟨new, hnew, hobeys⟩ := hfreed.journal
    rw [World.since_eq hnew]
    exact hobeys
  case again =>
    intro v
    obtain ⟨said, hsaid⟩ := World.run_cancel a.job.targetKey v
    obtain ⟨more, hmore⟩ := World.run_cancel a.job.targetKey
      ((cancelJob a.job.targetKey).run v).2
    refine ⟨more, ?_⟩
    have hagain : ((cancelJob a.job.targetKey).run v).2.registry.cancel a.job.targetKey =
        ((cancelJob a.job.targetKey).run v).2.registry := by
      show ((World.cancel a.job.targetKey).run v).2.registry.cancel _ =
        ((World.cancel a.job.targetKey).run v).2.registry
      rw [hsaid]
      exact Registry.cancel_cancel
    rw [hagain] at hmore
    exact hmore
  case ended => exact cancelJob_of_free hfreed.free

/-- A job that is asked to stop while its first stage runs. -/
theorem runJob_stopLaw_underway :
    ∃ a, (afterRequest 12).waiting = [a] ∧ Reached (stoppingHost 12) (afterRequest 12) ∧
      StopLaw (stoppingHost 12) a { afterRequest 12 with waiting := [] } := by
  have hlen : (afterRequest 12).waiting.length = 1 := by decide +kernel
  obtain ⟨a, ha⟩ := List.length_eq_one_iff.mp hlen
  have hreached : Reached (stoppingHost 12) (afterRequest 12) := .submit (.new _ []) _
  have hwaits : (afterRequest 12).waiting = [] ++ a :: [] := ha
  exact ⟨a, ha, hreached, runJob_stopLaw hreached hwaits⟩

end Engine

end Decompile
