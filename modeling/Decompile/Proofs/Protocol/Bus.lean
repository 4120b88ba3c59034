import Decompile.Proofs.Session

/-!
# The protocol of a run

What listeners of a key hear of a job, whatever its tools do and print, whatever memory readings
show, whenever somebody wants it to stop, and whichever file operation fails.

- `Engine.RunProtocol`: the run ends, what is told is a lawful transcript, and a stop is final.
- `Engine.runJob_protocol`: every job that an engine has taken on is run so.
-/

namespace Decompile.Engine

open World (messagesOn)

variable {h : Host}

/-- The protocol of the run of a job that begins in a world. -/
structure RunProtocol (h : Host) (a : Accepted) (w : World) : Prop where
  /-- The job takes finitely many messages: a run that is allowed more of them takes no more. -/
  ends : ∀ fuel, (Task.ofAccepted a).messageBound ≤ fuel →
    (((Task.ofAccepted a).runFor h fuel).run w).1.queue = [] ∧
      ((Task.ofAccepted a).runFor h fuel).run w =
        ((Task.ofAccepted a).runFor h (Task.ofAccepted a).messageBound).run w
  /-- What is told on the key is a lawful transcript that ends as the job ends. The stages it starts
  are those numbered 0, 1, 2 and so on. On no other key is anything told. -/
  transcript : ∃ (t : Transcript) (new : List Occurrence),
    ((runJob h a).run w).2.journal = w.journal ++ new ∧
      messagesOn a.job.targetKey new = t.messages a.job.targetKey ∧
      (∀ key, key ≠ a.job.targetKey → messagesOn key new = []) ∧
      t.Lawful a.job ∧
      t.intervals.map (fun i => i.stage.ordinal) = List.range t.intervals.length ∧
      (((Task.ofAccepted a).runFor h (Task.ofAccepted a).messageBound).run w).1.state.outcome =
        some t.result.outcome
  /-- Neither the message that tells the job to stop nor any later one starts a stage. -/
  stops : ∀ n, (((Task.ofAccepted a).runFor h (n + 1)).run w).1.stopTold = true →
    ∃ later, ((runJob h a).run w).2.journal =
        (((Task.ofAccepted a).runFor h n).run w).2.journal ++ later ∧
      ∀ s, .stageChanged a.job.targetKey s .running ∉ messagesOn a.job.targetKey later

variable {a : Accepted} {w : World}

theorem runFor_ends (hc : Positional a.job.chain) (hidle : w.monitor = none) {fuel : Nat}
    (hfuel : (Task.ofAccepted a).messageBound ≤ fuel) :
    (((Task.ofAccepted a).runFor h fuel).run w).1.queue = [] ∧
      ((Task.ofAccepted a).runFor h fuel).run w =
        ((Task.ofAccepted a).runFor h (Task.ofAccepted a).messageBound).run w := by
  obtain ⟨ms, ⟨hqueue, -⟩, -⟩ := Task.runFor_transcript (h := h) hc hfuel w hidle
  obtain ⟨more, ⟨hbound, -⟩, -⟩ := Task.runFor_transcript (h := h) hc (Nat.le_refl _) w hidle
  refine ⟨hqueue, ?_⟩
  obtain ⟨k, rfl⟩ := Nat.exists_eq_add_of_le hfuel
  rw [Task.runFor_add, Act.run_bind, Task.runFor_of_queue_eq_nil hbound]
  rfl

/-- When its messages are done a job only gives its key back. -/
theorem runJob_told (w : World) :
    Told h a.job.targetKey []
      (((Task.ofAccepted a).runFor h (Task.ofAccepted a).messageBound).run w).2
      ((runJob h a).run w).2 :=
  .of_note rfl rfl rfl

theorem runJob_transcript (hc : Positional a.job.chain) (hidle : w.monitor = none) :
    ∃ (t : Transcript) (new : List Occurrence),
      ((runJob h a).run w).2.journal = w.journal ++ new ∧
        messagesOn a.job.targetKey new = t.messages a.job.targetKey ∧
        (∀ key, key ≠ a.job.targetKey → messagesOn key new = []) ∧
        t.Lawful a.job ∧
        t.intervals.map (fun i => i.stage.ordinal) = List.range t.intervals.length ∧
        (((Task.ofAccepted a).runFor h (Task.ofAccepted a).messageBound).run w).1.state.outcome =
          some t.result.outcome := by
  obtain ⟨ms, ⟨-, t, rfl, hlawful, houtcome, -⟩, -, htold⟩ :=
    Task.runFor_transcript (h := h) hc (Nat.le_refl _) w hidle
  obtain ⟨new, hjournal, hpublished⟩ := (htold.append (runJob_told w)).journal
  rw [List.append_nil] at hpublished
  have hprefix : t.intervals.map Interval.stage <+: a.job.chain := by
    rw [hlawful.order]
    exact List.take_prefix _ _
  have hordinals := map_ordinal_of_prefix hc hprefix
  rw [List.map_map, List.length_map] at hordinals
  exact ⟨t, new, hjournal, World.messagesOn_of_publishedIn hpublished,
    fun key hne => World.messagesOn_of_ne hpublished hne, hlawful, hordinals, houtcome⟩

theorem runFor_stops (hc : Positional a.job.chain) (hidle : w.monitor = none) (n : Nat)
    (hstop : (((Task.ofAccepted a).runFor h (n + 1)).run w).1.stopTold = true) :
    ∃ later, ((runJob h a).run w).2.journal =
        (((Task.ofAccepted a).runFor h n).run w).2.journal ++ later ∧
      ∀ s, .stageChanged a.job.targetKey s .running ∉ messagesOn a.job.targetKey later := by
  let t := Task.ofAccepted a
  -- the first `n` messages
  obtain ⟨ms, ⟨⟨k, -, q, hq, -⟩, -⟩, hidle', -⟩ :=
    Task.runFor_tells (h := h) hc n (Task.standing_ofAccepted a) w hidle
  rw [Task.runFor_add, Act.run_bind] at hstop
  -- the next one, and more than there can be after it
  obtain ⟨more, htold, hquiet⟩ := Task.runFor_stopped hc hq t.messageBound hidle' hstop
  have hwhole : ((t.runFor h (n + (1 + t.messageBound))).run w).2 =
      ((t.runFor h t.messageBound).run w).2 := by
    have hends := runFor_ends (h := h) (a := a) (w := w) hc hidle
      (show t.messageBound ≤ n + (1 + t.messageBound) by omega)
    exact congrArg Prod.snd hends.2
  rw [Task.runFor_add, Act.run_bind] at hwhole
  rw [hwhole] at htold
  obtain ⟨later, hjournal, hpublished⟩ := (htold.append (runJob_told w)).journal
  rw [List.append_nil] at hpublished
  refine ⟨later, hjournal, fun s => ?_⟩
  rw [World.messagesOn_of_publishedIn hpublished]
  exact hquiet s

/-- **The bus protocol.** In every world that an engine can come to, every job that waits is run by
the protocol, for every host. -/
theorem runJob_protocol (hw : Reached h w) {before after : List Accepted}
    (waits : w.waiting = before ++ a :: after) :
    RunProtocol h a { w with waiting := before ++ after } := by
  have hrest := hw.atRest
  have hc : Positional a.job.chain := (hrest.planned a (by simp [waits])).positional
  have hidle : { w with waiting := before ++ after }.monitor = none := hrest.idle
  exact ⟨fun fuel => runFor_ends hc hidle, runJob_transcript hc hidle,
    fun n => runFor_stops hc hidle n⟩

/-- A host with all tools, on which nothing fails, and on which the job of `app` is asked to stop at
one moment. -/
def stoppingHost (moment : Nat) : Host where
  settings := .forStorage ⟨"store"⟩
  catalog := .complete 17
  memoryCeiling := 100
  interlude n := if n = moment then [.cancel "app"] else []
  fault _ := none
  tool _ _ _ := ⟨[.line "processing Main"], .ok ()⟩
  time n := .ofEpoch 0 n

/-- An engine after its first request. -/
def afterRequest (moment : Nat) : World :=
  ((submit (stoppingHost moment)
    ⟨"jadx", false, 1, 1, 90, false, "app", "App", ⟨"app.dex"⟩, .dex⟩).settle.run
    (.new (Disk.empty.put ["app.dex"] (.file [] false)) [])).2

/-- A job that is asked to stop while its first stage runs. -/
theorem runJob_protocol_stop_underway :
    ∃ a, (afterRequest 12).waiting = [a] ∧ Reached (stoppingHost 12) (afterRequest 12) ∧
      RunProtocol (stoppingHost 12) a { afterRequest 12 with waiting := [] } := by
  have hlen : (afterRequest 12).waiting.length = 1 := by decide +kernel
  obtain ⟨a, ha⟩ := List.length_eq_one_iff.mp hlen
  have hreached : Reached (stoppingHost 12) (afterRequest 12) := .submit (.new _ []) _
  have hwaits : (afterRequest 12).waiting = [] ++ a :: [] := ha
  exact ⟨a, ha, hreached, runJob_protocol hreached hwaits⟩

end Decompile.Engine
