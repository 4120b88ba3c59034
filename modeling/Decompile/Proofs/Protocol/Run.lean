import Decompile.Proofs.Protocol.Effects

/-!
# The messages of a run

- `Awaits`: in each phase, the messages that a job still has to take, and how many they are at most.
- `Standing`: how a task stands after certain messages were heard.
- `Task.step_tells`, `Task.runFor_tells`: one message, and several.
-/

namespace Decompile

variable {h : Host}

/-! ## The messages a job still has to take -/

/-- In each phase, the messages that a job still has to take, whether it was told to stop, and how
many more messages it takes at most. -/
inductive Awaits {chain : List Stage} : Phase chain → List Message → Bool → Nat → Prop where
  | waiting : Awaits .waiting [.start] false (chain.length + 2)
  | underway (c : Cut chain) (r : StageResult) :
    Awaits (.underway c 0) [.stageFinished c.stage.ordinal r] false (c.rest.length + 2)
  /-- The job was told to stop while a stage ran. -/
  | stopping (c : Cut chain) (r : StageResult) :
    Awaits (.underway c 1) [.stageFinished c.stage.ordinal r] true (c.rest.length + 1)
  /-- The job was told to stop before its start, which it takes nevertheless. -/
  | unstarted : Awaits .unstarted [.start] true 1
  | closed {p : Phase chain} (told : Bool) (ended : p.outcome ≠ none) : Awaits p [] told 0

namespace Awaits

variable {chain : List Stage} {p q : Phase chain} {queue : List Message} {told : Bool} {n : Nat}

/-- A job with nothing to take is over. -/
theorem outcome_ne_none (ha : Awaits p queue told 0) : p.outcome ≠ none ∧ queue = [] := by
  cases ha with
  | closed _ ended => exact ⟨ended, rfl⟩

/-- A job that awaits nothing is at its end. -/
theorem eq_zero (ha : Awaits p [] told n) : n = 0 := by
  cases ha with
  | closed _ _ => rfl

/-- A job that awaits something before it is told to stop is not over. -/
theorem outcome_eq_none {m : Message} {rest : List Message} (ha : Awaits p (m :: rest) false n) :
    p.outcome = none := by
  cases ha with
  | waiting => rfl
  | underway c r => rfl

/-- A job that was told to stop and still awaits something is cancelled in the end. -/
theorem phase_stopping {m : Message} {rest : List Message} (ha : Awaits p (m :: rest) true n) :
    p.Stopping := by
  cases ha with
  | stopping c r => exact .inr ⟨rfl, rfl⟩
  | unstarted => exact .inl rfl

/-- A job that was told to stop starts no further stage. -/
theorem ends (ha : Awaits p queue true n) : p.Ends := by
  cases ha with
  | stopping c r => exact .inr rfl
  | unstarted => exact .inr rfl
  | closed _ ended => exact .inl ended

variable {j : Job} {m : Message} {rest reports : List Message} {es : List Effect}
  {ms : List BusMessage}

/-- The wish to stop is taken before what the job awaits. -/
theorem stop (ha : Awaits p (m :: rest) false n) (hs : Phase.Step p .cancelRequested q es)
    (hf : Follows j es reports ms) : ∃ k < n, Awaits q (m :: rest ++ reports) true k := by
  cases ha with
  | waiting =>
    cases hs with
    | ignored _ _ h => cases h ""
    | stopUnstarted =>
      obtain ⟨more, hmore, -⟩ := hf.of_cancellations
      obtain ⟨rfl, -⟩ := hmore.of_finish
      exact ⟨1, by omega, .unstarted⟩
  | underway c r =>
    cases hs with
    | ignored _ _ h => cases h ""
    | stop _ _ =>
      obtain ⟨rfl, -⟩ := hf.of_nil
      exact ⟨c.rest.length + 1, by omega, .stopping c r⟩

/-- The job takes the message it awaits. -/
theorem take (ha : Awaits p (m :: rest) told n) (hs : Phase.Step p m q es)
    (hf : Follows j es reports ms) : ∃ k < n, Awaits q (rest ++ reports) told k := by
  cases ha with
  | waiting =>
    cases hs with
    | ignored _ _ h => cases h ""
    | start c first =>
      obtain ⟨r, events, -, rfl, -⟩ := hf.of_opening
      have hlen := c.length_eq
      rw [first, List.length_nil] at hlen
      exact ⟨c.rest.length + 2, by omega, .underway c r⟩
    | startEmpty h =>
      obtain ⟨rfl, -⟩ := hf.of_finish
      exact ⟨0, by omega, .closed false (by simp [Phase.outcome])⟩
  | underway c r =>
    cases hs with
    | ignored _ _ h =>
      have htakes := h ""
      simp at htakes
    | advance _ d later =>
      obtain ⟨more, hmore, -⟩ := hf.of_changed
      obtain ⟨r, events, -, rfl, -⟩ := hmore.of_opening
      have hlen := d.length_eq
      rw [later, List.length_append, List.length_singleton, c.length_eq] at hlen
      exact ⟨d.rest.length + 2, by omega, .underway d r⟩
    | complete _ last =>
      obtain ⟨rfl, -⟩ := hf.of_stopped []
      exact ⟨0, by omega, .closed false (by simp [Phase.outcome])⟩
    | fail _ oom message =>
      obtain ⟨rfl, -⟩ := hf.of_stopped []
      exact ⟨0, by omega, .closed false (by simp [Phase.outcome])⟩
    | report _ _ _ cause =>
      obtain ⟨rfl, -⟩ := hf.of_stopped c.rest
      exact ⟨0, by omega, .closed false (by simp [Phase.outcome])⟩
  | stopping c r =>
    cases hs with
    | ignored _ _ h =>
      have htakes := h ""
      simp at htakes
    | report _ _ _ cause =>
      obtain ⟨rfl, -⟩ := hf.of_stopped c.rest
      exact ⟨0, by omega, .closed true (by simp [Phase.outcome])⟩
  | unstarted =>
    cases hs with
    | ignored _ _ h =>
      obtain ⟨rfl, -⟩ := hf.of_nil
      exact ⟨0, by omega, .closed true (by simp [Phase.outcome])⟩

end Awaits

/-! ## Tasks -/

/-- How a task stands after `told` was heard of its job: it is in a phase, and has at most `n`
messages to take. -/
structure Standing (j : Job) (told : List BusMessage) (t : Task) (n : Nat) (p : Phase j.chain) :
    Prop where
  job : t.job = j
  state : t.state = p.job j.targetKey
  awaits : Awaits p t.queue t.stopTold n
  heard : Heard j p told

namespace Task

variable {j : Job}

/-- The task that handles what it takes next, and the effects of that. -/
def taken (t : Task) (stop : Bool) (m : Message) (rest : List Message) : Task × List Effect :=
  let u := (t.next stop m rest).2
  let handled := u.state.handle (t.next stop m rest).1
  ({ u with state := handled.1 }, handled.2)

/-- One message is a poll, and then the actions of some effects. -/
theorem run_step (t : Task) (m : Message) (rest : List Message) (w : World) :
    (t.step h m rest).run w =
      let v := ((World.pause h).run w).2
      let u := t.taken (v.registry.isCancelled t.ticket) m rest
      (performAll h u.1 (u.2.flatMap (Effect.actions u.1.job))).run v := rfl

/-- Whatever message a task handles, it makes a step, and sees to the effects. -/
theorem handle_tells (hc : Positional j.chain) (p : Phase j.chain) (t : Task) (hj : t.job = j)
    (hp : t.state = p.job j.targetKey) (m : Message) :
    ∃ (q : Phase j.chain) (es : List Effect), Phase.Step p m q es ∧
      Tells h j.targetKey
        (performAll h { t with state := (t.state.handle m).1 }
          ((t.state.handle m).2.flatMap (Effect.actions t.job)))
        fun u ms => ∃ r reports, Follows j es reports ms ∧
          u = { t with state := q.job j.targetKey, record := r, queue := t.queue ++ reports } := by
  subst hj
  obtain ⟨q, es, hhandle, hstep⟩ := Phase.handle_step hc t.job.targetKey p m
  refine ⟨q, es, hstep, ?_⟩
  rw [hp, hhandle]
  refine (performAll_tells { t with state := q.job t.job.targetKey } es).mono ?_
  rintro u ms ⟨r, reports, rfl, hf⟩
  exact ⟨r, reports, hf, rfl⟩

/-- **One message**, once the task has looked whether it has to stop. It brings the task nearer to
its end, and what is told continues what was heard before. Once the job was told to stop no stage is
told to run, and the job is cancelled in the end. -/
theorem taken_tells (hc : Positional j.chain) {told : List BusMessage} {t : Task} {n : Nat}
    {p : Phase j.chain} (ht : Standing j told t n p) {m : Message} {rest : List Message}
    (hq : t.queue = m :: rest) (stop : Bool) :
    Tells h j.targetKey
      (performAll h (t.taken stop m rest).1
        ((t.taken stop m rest).2.flatMap (Effect.actions (t.taken stop m rest).1.job)))
      fun u ms =>
        (∃ k < n, ∃ q, Standing j (told ++ ms) u k q ∧ (p.Stopping → q.Stopping) ∧
            (stop = true → q.Stopping)) ∧
          (t.stopTold = true → u.stopTold = true) ∧
          (u.stopTold = true → ∀ s, .stageChanged j.targetKey s .running ∉ ms) := by
  have hawaits := ht.awaits
  rw [hq] at hawaits
  by_cases hstop : (stop && !t.stopTold) = true
  · -- the wish to stop overtakes the message
    rw [taken, next, if_pos hstop]
    have htold : t.stopTold = false := by
      rw [Bool.and_eq_true, Bool.not_eq_true'] at hstop
      exact hstop.2
    rw [htold] at hawaits
    obtain ⟨q, es, hstep, htells⟩ :=
      handle_tells hc p { t with stopTold := true } ht.job ht.state .cancelRequested
    refine htells.mono ?_
    rintro u ms ⟨r, reports, hf, rfl⟩
    obtain ⟨k, hk, hnext⟩ := hawaits.stop hstep hf
    rw [← hq] at hnext
    have hstopping := hstep.stopping_of_stop hawaits.outcome_eq_none
    refine ⟨⟨k, hk, q, ⟨ht.job, rfl, hnext, ht.heard.step hstep hf⟩, fun _ => hstopping,
      fun _ => hstopping⟩, fun _ => rfl, fun _ s hs => ?_⟩
    exact hstep.running_not_mem (.inr rfl) s (hf.running_mem hs)
  · rw [taken, next, if_neg hstop]
    obtain ⟨q, es, hstep, htells⟩ :=
      handle_tells hc p { t with queue := rest } ht.job ht.state m
    refine htells.mono ?_
    rintro u ms ⟨r, reports, hf, rfl⟩
    obtain ⟨k, hk, hnext⟩ := hawaits.take hstep hf
    refine ⟨⟨k, hk, q, ⟨ht.job, rfl, hnext, ht.heard.step hstep hf⟩, hstep.stopping, fun hwish => ?_⟩,
      id, fun htold s hs => ?_⟩
    · -- the job was told before
      have htold : t.stopTold = true := by
        simpa [hwish] using hstop
      rw [htold] at hawaits
      exact hstep.stopping hawaits.phase_stopping
    · have htold : t.stopTold = true := htold
      rw [htold] at hawaits
      exact hstep.running_not_mem (.inl hawaits.ends) s (hf.running_mem hs)

theorem step_tells (hc : Positional j.chain) {told : List BusMessage} {t : Task} {n : Nat}
    {p : Phase j.chain} (ht : Standing j told t n p) {m : Message} {rest : List Message}
    (hq : t.queue = m :: rest) :
    Tells h j.targetKey (t.step h m rest) fun u ms =>
      (∃ k < n, ∃ q, Standing j (told ++ ms) u k q ∧ (p.Stopping → q.Stopping)) ∧
        (t.stopTold = true → u.stopTold = true) ∧
        (u.stopTold = true → ∀ s, .stageChanged j.targetKey s .running ∉ ms) := by
  unfold step
  refine .silent_bind (pollCancelled_moves t.ticket) fun stop => ?_
  refine (taken_tells hc ht hq stop).mono ?_
  rintro u ms ⟨⟨k, hk, q, hstanding, hstopping, -⟩, hrest⟩
  exact ⟨⟨k, hk, q, hstanding, hstopping⟩, hrest⟩

/-- **Several messages.** With enough of them the task comes to its end. -/
theorem runFor_tells (hc : Positional j.chain) (fuel : Nat) {told : List BusMessage} {t : Task}
    {n : Nat} {p : Phase j.chain} (ht : Standing j told t n p) :
    Tells h j.targetKey (t.runFor h fuel) fun u ms =>
      (∃ k, (k = 0 ∨ k + fuel ≤ n) ∧ ∃ q, Standing j (told ++ ms) u k q ∧
          (p.Stopping → q.Stopping)) ∧
        (t.stopTold = true → ∀ s, .stageChanged j.targetKey s .running ∉ ms) := by
  induction fuel generalizing told t n p with
  | zero =>
    refine .pure ⟨⟨n, .inr (Nat.le_refl n), p, ?_, id⟩, fun _ _ => List.not_mem_nil⟩
    rwa [List.append_nil]
  | succ fuel ih =>
    unfold runFor
    cases hq : t.queue with
    | nil =>
      have hawaits := ht.awaits
      rw [hq] at hawaits
      obtain rfl := hawaits.eq_zero
      refine .pure ⟨⟨0, .inl rfl, p, ?_, id⟩, fun _ _ => List.not_mem_nil⟩
      rwa [List.append_nil]
    | cons m rest =>
      refine (step_tells hc ht hq).bind ?_
      rintro u ms ⟨⟨k, hk, q, hstanding, hstopping⟩, hkept, hquiet⟩
      refine (ih hstanding).mono ?_
      rintro v more ⟨⟨l, hl, r, hr, hlast⟩, hlater⟩
      rw [← List.append_assoc]
      refine ⟨⟨l, by omega, r, hr, hlast ∘ hstopping⟩, fun htold s hs => ?_⟩
      have htold' := hkept htold
      rcases List.mem_append.mp hs with hs | hs
      · exact hquiet htold' s hs
      · exact hlater htold' s hs

theorem standing_ofAccepted (a : Accepted) :
    Standing a.job [] (.ofAccepted a) (a.job.chain.length + 2) .waiting where
  job := rfl
  state := rfl
  awaits := .waiting
  heard := .waiting

/-! ### Runs in parts -/

theorem runFor_succ (t : Task) (n : Nat) :
    t.runFor h (n + 1) =
      match t.queue with
      | [] => pure t
      | m :: rest => t.step h m rest >>= fun u => u.runFor h n := rfl

/-- A task with nothing to take stays as it is. -/
theorem runFor_of_queue_eq_nil {t : Task} (hq : t.queue = []) (n : Nat) :
    t.runFor h n = pure t := by
  cases n with
  | zero => rfl
  | succ n => rw [runFor_succ, hq]

/-- A task takes its first message, and then the others. -/
theorem run_runFor_cons {t : Task} {m : Message} {rest : List Message}
    (hq : t.queue = m :: rest) (fuel : Nat) (w : World) :
    (t.runFor h (fuel + 1)).run w =
      (((t.step h m rest).run w).1.runFor h fuel).run ((t.step h m rest).run w).2 := by
  rw [runFor_succ, hq]
  rfl

theorem runFor_add (t : Task) (n k : Nat) :
    t.runFor h (n + k) = t.runFor h n >>= fun u => u.runFor h k := by
  induction n generalizing t with
  | zero =>
    rw [Nat.zero_add]
    rfl
  | succ n ih =>
    rw [Nat.succ_add, runFor_succ, runFor_succ]
    cases hq : t.queue with
    | nil =>
      show pure t = t.runFor h k
      rw [runFor_of_queue_eq_nil hq]
    | cons m rest => simp only [ih, bind_assoc]

/-- **A stop is final.** When the next message leaves a task told to stop, neither that message nor
any later one starts a stage. -/
theorem runFor_stopped (hc : Positional j.chain) {told : List BusMessage} {t : Task} {n : Nat}
    {p : Phase j.chain} (ht : Standing j told t n p) (fuel : Nat) {w : World}
    (hw : w.monitor = none) (hstop : ((t.runFor h 1).run w).1.stopTold = true) :
    ∃ ms, Told h j.targetKey ms w ((t.runFor h (1 + fuel)).run w).2 ∧
      ∀ s, .stageChanged j.targetKey s .running ∉ ms := by
  rw [runFor_add, Act.run_bind]
  cases hq : t.queue with
  | nil =>
    rw [runFor_of_queue_eq_nil hq]
    refine ⟨[], ?_, fun _ => List.not_mem_nil⟩
    show Told h j.targetKey [] w ((t.runFor h fuel).run w).2
    rw [runFor_of_queue_eq_nil hq]
    exact .refl w
  | cons m rest =>
    have hone : t.runFor h 1 = t.step h m rest := by
      rw [runFor_succ, hq]
      exact bind_pure _
    rw [hone] at hstop ⊢
    obtain ⟨ms, ⟨⟨k, -, q, hq, -⟩, -, hquiet⟩, hidle, htold⟩ := step_tells hc ht hq w hw
    obtain ⟨more, ⟨-, hlater⟩, -, hmore⟩ := runFor_tells hc fuel hq _ hidle
    refine ⟨ms ++ more, htold.append hmore, fun s hs => ?_⟩
    rcases List.mem_append.mp hs with hs | hs
    · exact hquiet hstop s hs
    · exact hlater hstop s hs

end Task

/-! ## Jobs -/

/-- A job that is run takes its messages, and gives back its key. -/
theorem Engine.run_runJob (a : Accepted) (w : World) :
    (runJob h a).run w = (release a.job.targetKey a.ticket).run
      (((Task.ofAccepted a).runFor h (Task.ofAccepted a).messageBound).run w).2 := rfl

variable {a : Accepted}

/-- With the messages it is allowed, or more, a job comes to its end and has a transcript. -/
theorem Task.runFor_transcript (hc : Positional a.job.chain) {fuel : Nat}
    (hfuel : (ofAccepted a).messageBound ≤ fuel) :
    Tells h a.job.targetKey ((ofAccepted a).runFor h fuel) fun u ms =>
      u.queue = [] ∧ ∃ t : Transcript, ms = t.messages a.job.targetKey ∧ t.Lawful a.job ∧
        u.state.outcome = some t.result.outcome ∧
        (t.result.outcome ≠ .failed → t.result.ranOutOfMemory = false) := by
  refine (runFor_tells hc fuel (standing_ofAccepted a)).mono ?_
  rintro u ms ⟨⟨k, hk, q, hq, -⟩, -⟩
  have hbound : (ofAccepted a).messageBound = a.job.chain.length + 3 := rfl
  obtain rfl : k = 0 := by omega
  obtain ⟨hclosed, hqueue⟩ := hq.awaits.outcome_ne_none
  obtain ⟨t, hmessages, hlawful, houtcome, hsober⟩ := hq.heard.transcript hclosed
  refine ⟨hqueue, t, hmessages, hlawful, ?_, hsober⟩
  rw [hq.state]
  exact houtcome

/-- After its messages a job gives its key back, and nobody is told. -/
theorem Engine.runJob_tells (hc : Positional a.job.chain) :
    Tells h a.job.targetKey (runJob h a) fun _ ms =>
      ∃ t : Transcript, ms = t.messages a.job.targetKey ∧ t.Lawful a.job := by
  unfold runJob
  refine (Task.runFor_transcript hc (Nat.le_refl _)).bind ?_
  rintro u ms ⟨-, t, rfl, hlawful, -⟩
  refine (Tells.release _ _).mono fun _ more hmore => ?_
  obtain rfl := hmore
  exact ⟨t, List.append_nil _, hlawful⟩

end Decompile
