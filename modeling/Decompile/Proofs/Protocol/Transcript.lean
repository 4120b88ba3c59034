import Decompile.Engine.Run
import Decompile.Proofs.Lifecycle.Phase

/-!
# Transcripts

What listeners of a key hear of one job, from its first message to its last.

- `Interval`: a stage from its start to its end.
- `Transcript`, `Transcript.messages`: the intervals one after another, the stages that were never
  reached, and the end of the job.
- `Transcript.Lawful`: what holds of every transcript of a job.
- `Follows`: the messages that the effects of a job may come to, and the reports they bring.
- `Heard`, `Heard.step`: what has been heard of a job in each of its phases.
-/

namespace Decompile

/-- A notice of progress, as opposed to one of failure. -/
def ProgressEvent.isProgress (e : ProgressEvent) : Bool :=
  match e.kind with
  | .status | .memory => true
  | .error => false

/-- What is heard of a stage that ran. -/
structure Interval where
  stage : Stage
  events : List ProgressEvent
  /-- The state it ended in. -/
  ending : StageState

/-- The stage starts, tells of its progress, and ends. -/
def Interval.messages (key : String) (i : Interval) : List BusMessage :=
  .stageChanged key i.stage .running ::
    (i.events.map (.status key) ++ [.stageChanged key i.stage i.ending])

/-- The notice of failure that goes with a result, if it is a failure. -/
def TerminalResult.notice (r : TerminalResult) : List BusMessage :=
  r.userMessage?.toList.map fun text => .status r.key (.error r.label text)

/-- What is heard of a job. -/
structure Transcript where
  intervals : List Interval
  /-- The stages that were cancelled unstarted. -/
  unreached : List Stage
  result : TerminalResult

/-- The messages of a transcript, in order. -/
def Transcript.messages (key : String) (t : Transcript) : List BusMessage :=
  t.intervals.flatMap (Interval.messages key) ++
    t.unreached.map (fun s => .stageChanged key s .cancelled) ++
    t.result.notice ++ [.terminal t.result]

/-- The rules that the transcript of a job obeys. -/
structure Transcript.Lawful (j : Job) (t : Transcript) : Prop where
  /-- Stages start in the order of the chain, from its first on. -/
  order : t.intervals.map Interval.stage = j.chain.take t.intervals.length
  /-- A stage that runs tells of progress, never of failure. -/
  progress : ∀ i ∈ t.intervals, ∀ e ∈ i.events, e.isProgress = true
  /-- A stage that ran is over. -/
  ended : ∀ i ∈ t.intervals, i.ending.isTerminal = true
  /-- A stage starts only after the one before it has succeeded. -/
  earlier : ∀ i ∈ t.intervals.dropLast, i.ending = .succeeded
  /-- All stages of a job that succeeds have succeeded. -/
  complete : t.result.outcome = .succeeded →
    t.intervals.length = j.chain.length ∧ ∀ i ∈ t.intervals, i.ending = .succeeded
  /-- A job fails by its last stage. -/
  broken : t.result.outcome = .failed → ∃ i, t.intervals.getLast? = some i ∧ i.ending = .failed
  /-- The stages left over are told if the job is cancelled, and only then. -/
  leftOver : t.unreached =
    if t.result.outcome = .cancelled then j.chain.drop t.intervals.length else []
  /-- There is a text for the user if the job fails, and only then. -/
  notice : t.result.userMessage?.isSome ↔ t.result.outcome = .failed
  key : t.result.key = j.targetKey
  label : t.result.label = j.submission.label

/-! ## Effects and messages -/

/-- The messages that effects come to, given what stages tell while they run, and the reports that
stages bring. -/
inductive Follows (j : Job) : List Effect → List Message → List BusMessage → Prop where
  | nothing : Follows j [] [] []
  | changed (s : Stage) (state : StageState) {es : List Effect} {reports : List Message}
    {ms : List BusMessage} (rest : Follows j es reports ms) :
    Follows j (.stageChanged s state :: es) reports (.stageChanged j.targetKey s state :: ms)
  | started (s : Stage) (r : StageResult) (events : List ProgressEvent)
    (progress : ∀ e ∈ events, e.isProgress = true) {es : List Effect} {reports : List Message}
    {ms : List BusMessage} (rest : Follows j es reports ms) :
    Follows j (.startStage s :: es) (.stageFinished s.ordinal r :: reports)
      (events.map (.status j.targetKey) ++ ms)
  | finished (o : Outcome) (oom : Bool) (detail : Option String) {es : List Effect}
    {reports : List Message} {ms : List BusMessage} (rest : Follows j es reports ms) :
    Follows j (.finish o oom detail :: es) reports
      ((terminalOf j o oom detail).notice ++ .terminal (terminalOf j o oom detail) :: ms)

namespace Follows

variable {j : Job} {reports : List Message} {ms : List BusMessage}

theorem of_nil (hf : Follows j [] reports ms) : reports = [] ∧ ms = [] := by
  cases hf
  exact ⟨rfl, rfl⟩

/-- One effect, and those after it. -/
theorem cons {e : Effect} {es : List Effect} {more : List Message} {later : List BusMessage}
    (hf : Follows j [e] reports ms) (hrest : Follows j es more later) :
    Follows j (e :: es) (reports ++ more) (ms ++ later) := by
  cases hf with
  | changed s state rest =>
    obtain ⟨rfl, rfl⟩ := rest.of_nil
    exact .changed s state hrest
  | started s r events progress rest =>
    obtain ⟨rfl, rfl⟩ := rest.of_nil
    rw [List.append_nil]
    exact .started s r events progress hrest
  | finished o oom detail rest =>
    obtain ⟨rfl, rfl⟩ := rest.of_nil
    rw [List.append_assoc]
    exact .finished o oom detail hrest

/-- The end of a job, after which it asks for nothing more. -/
theorem of_finish {o : Outcome} {oom : Bool} {detail : Option String}
    (hf : Follows j [.finish o oom detail] reports ms) :
    reports = [] ∧
      ms = (terminalOf j o oom detail).notice ++ [.terminal (terminalOf j o oom detail)] := by
  cases hf with
  | finished _ _ _ rest =>
    obtain ⟨rfl, rfl⟩ := rest.of_nil
    exact ⟨rfl, rfl⟩

theorem of_changed {s : Stage} {state : StageState} {es : List Effect}
    (hf : Follows j (.stageChanged s state :: es) reports ms) :
    ∃ more, Follows j es reports more ∧ ms = .stageChanged j.targetKey s state :: more := by
  cases hf with
  | changed _ _ rest => exact ⟨_, rest, rfl⟩

theorem of_opening {s : Stage} (hf : Follows j (Phase.opening s) reports ms) :
    ∃ (r : StageResult) (events : List ProgressEvent), (∀ e ∈ events, e.isProgress = true) ∧
      reports = [.stageFinished s.ordinal r] ∧
      ms = .stageChanged j.targetKey s .running :: events.map (.status j.targetKey) := by
  cases hf with
  | changed _ _ rest =>
    cases rest with
    | started _ r events progress rest =>
      obtain ⟨rfl, rfl⟩ := rest.of_nil
      exact ⟨r, events, progress, rfl, by rw [List.append_nil]⟩

theorem of_cancellations {rest : List Stage} {es : List Effect}
    (hf : Follows j (Phase.cancellations rest ++ es) reports ms) :
    ∃ more, Follows j es reports more ∧
      ms = rest.map (fun s => .stageChanged j.targetKey s .cancelled) ++ more := by
  induction rest generalizing ms with
  | nil => exact ⟨ms, hf, rfl⟩
  | cons s rest ih =>
    cases hf with
    | changed _ _ hrest =>
      obtain ⟨more, hmore, rfl⟩ := ih hrest
      exact ⟨more, hmore, rfl⟩

/-- A stage is told to run only by an effect. -/
theorem running_mem {es : List Effect} (hf : Follows j es reports ms) {s : Stage}
    (hs : .stageChanged j.targetKey s .running ∈ ms) : .stageChanged s .running ∈ es := by
  induction hf with
  | nothing => exact absurd hs List.not_mem_nil
  | changed s' state rest ih =>
    rcases List.mem_cons.mp hs with heq | hs
    · obtain ⟨-, rfl, rfl⟩ := BusMessage.stageChanged.inj heq
      exact List.mem_cons_self
    · exact List.mem_cons_of_mem _ (ih hs)
  | started s' r events progress rest ih =>
    rcases List.mem_append.mp hs with hs | hs
    · obtain ⟨e, -, he⟩ := List.mem_map.mp hs
      cases he
    · exact List.mem_cons_of_mem _ (ih hs)
  | finished o oom detail rest ih =>
    rcases List.mem_append.mp hs with hs | hs
    · obtain ⟨text, -, htext⟩ := List.mem_map.mp hs
      cases htext
    · rcases List.mem_cons.mp hs with heq | hs
      · cases heq
      · exact List.mem_cons_of_mem _ (ih hs)

/-- A stage that ends, and the job with it. -/
theorem of_stopped {s : Stage} {state : StageState} (rest : List Stage) {o : Outcome} {oom : Bool}
    {detail : Option String}
    (hf : Follows j (.stageChanged s state :: Phase.cancellations rest ++ [.finish o oom detail])
      reports ms) :
    reports = [] ∧ ms = .stageChanged j.targetKey s state ::
      (rest.map (fun s => .stageChanged j.targetKey s .cancelled) ++
        ((terminalOf j o oom detail).notice ++ [.terminal (terminalOf j o oom detail)])) := by
  obtain ⟨more, hmore, rfl⟩ := hf.of_changed
  obtain ⟨last, hlast, rfl⟩ := hmore.of_cancellations
  obtain ⟨rfl, rfl⟩ := hlast.of_finish
  exact ⟨rfl, rfl⟩

end Follows

/-! ## Lawful transcripts -/

/-- The intervals are those of stages that ran to their success. -/
structure Ran (done : List Stage) (past : List Interval) : Prop where
  stages : past.map Interval.stage = done
  progress : ∀ i ∈ past, ∀ e ∈ i.events, e.isProgress = true
  succeeded : ∀ i ∈ past, i.ending = .succeeded

theorem Ran.nil : Ran [] [] where
  stages := rfl
  progress _ hi := absurd hi List.not_mem_nil
  succeeded _ hi := absurd hi List.not_mem_nil

theorem Ran.snoc {done : List Stage} {past : List Interval} (hr : Ran done past) {s : Stage}
    {events : List ProgressEvent} (he : ∀ e ∈ events, e.isProgress = true) :
    Ran (done ++ [s]) (past ++ [⟨s, events, .succeeded⟩]) where
  stages := by rw [List.map_append, hr.stages]; rfl
  progress := List.forall_mem_append.mpr ⟨hr.progress, List.forall_mem_singleton.mpr he⟩
  succeeded := List.forall_mem_append.mpr ⟨hr.succeeded, List.forall_mem_singleton.mpr rfl⟩

theorem userMessage?_isSome (r : TerminalResult) :
    r.userMessage?.isSome ↔ r.outcome = .failed := by
  unfold TerminalResult.userMessage?
  cases r.outcome with
  | succeeded => simp
  | cancelled => simp
  | failed => cases r.ranOutOfMemory <;> simp

namespace Transcript

variable {j : Job} (oom : Bool) (detail : Option String)

/-- A job of which no stage ran. -/
theorem lawful_unstarted {o : Outcome} (ho : o ≠ .failed) (hs : o = .succeeded → j.chain = []) :
    Lawful j ⟨[], if o = .cancelled then j.chain else [], terminalOf j o oom detail⟩ where
  order := rfl
  progress _ hi := absurd hi List.not_mem_nil
  ended _ hi := absurd hi List.not_mem_nil
  earlier _ hi := absurd hi List.not_mem_nil
  complete hsucc := ⟨by rw [hs hsucc]; rfl, fun _ hi => absurd hi List.not_mem_nil⟩
  broken hfail := absurd hfail ho
  leftOver := rfl
  notice := userMessage?_isSome _
  key := rfl
  label := rfl

/-- A job that was ended by the end of a stage. -/
theorem lawful_ended (c : Cut j.chain) {past : List Interval} (hr : Ran c.done past)
    {events : List ProgressEvent} (he : ∀ e ∈ events, e.isProgress = true) {ending : StageState}
    (hend : ending.isTerminal = true) {o : Outcome}
    (hsucc : o = .succeeded → ending = .succeeded ∧ c.rest = [])
    (hfail : o = .failed → ending = .failed) :
    Lawful j ⟨past ++ [⟨c.stage, events, ending⟩], if o = .cancelled then c.rest else [],
      terminalOf j o oom detail⟩ := by
  have hcount : (past ++ [⟨c.stage, events, ending⟩] : List Interval).length =
      c.done.length + 1 := by
    rw [List.length_append, ← hr.stages, List.length_map]
    rfl
  constructor
  case order =>
    rw [hcount, c.take_eq, List.map_append, hr.stages]
    rfl
  case progress =>
    exact List.forall_mem_append.mpr ⟨hr.progress, List.forall_mem_singleton.mpr he⟩
  case ended =>
    refine List.forall_mem_append.mpr ⟨fun i hi => ?_, List.forall_mem_singleton.mpr hend⟩
    rw [hr.succeeded i hi]
    rfl
  case earlier =>
    intro i hi
    rw [List.dropLast_concat] at hi
    exact hr.succeeded i hi
  case complete =>
    intro ho
    obtain ⟨hlast, hrest⟩ := hsucc ho
    constructor
    · have hchain := congrArg List.length (c.eq_of_last hrest)
      rw [hcount, hchain, List.length_append]
      rfl
    · exact List.forall_mem_append.mpr ⟨hr.succeeded, List.forall_mem_singleton.mpr hlast⟩
  case broken =>
    intro ho
    exact ⟨_, List.getLast?_concat, hfail ho⟩
  case leftOver =>
    rw [hcount, c.drop_eq]
    rfl
  case notice => exact userMessage?_isSome _
  case key => rfl
  case label => rfl

end Transcript

/-! ## What has been heard of a job -/

/-- What has been heard of a job that is in a phase. -/
inductive Heard (j : Job) : Phase j.chain → List BusMessage → Prop where
  | waiting : Heard j .waiting []
  | underway (c : Cut j.chain) (stops : Nat) (past : List Interval) (events : List ProgressEvent)
    (ran : Ran c.done past) (progress : ∀ e ∈ events, e.isProgress = true) :
    Heard j (.underway c stops) (past.flatMap (Interval.messages j.targetKey) ++
      .stageChanged j.targetKey c.stage .running :: events.map (.status j.targetKey))
  | closed {p : Phase j.chain} (t : Transcript) (lawful : t.Lawful j)
    (outcome : p.outcome = some t.result.outcome)
    (sober : t.result.outcome ≠ .failed → t.result.ranOutOfMemory = false) :
    Heard j p (t.messages j.targetKey)

variable {j : Job} {p q : Phase j.chain}

/-- A job that is over has a lawful transcript. Only of a job that failed it may say that it ran out
of memory. -/
theorem Heard.transcript {told : List BusMessage} (ht : Heard j p told) (hp : p.outcome ≠ none) :
    ∃ t : Transcript, told = t.messages j.targetKey ∧ t.Lawful j ∧
      p.outcome = some t.result.outcome ∧
      (t.result.outcome ≠ .failed → t.result.ranOutOfMemory = false) := by
  cases ht with
  | waiting => exact absurd rfl hp
  | underway c stops past events ran progress => exact absurd rfl hp
  | closed t lawful outcome sober => exact ⟨t, rfl, lawful, outcome, sober⟩

/-- The end of the stage that runs ends the job. -/
theorem Heard.ended {c : Cut j.chain} {stops : Nat} {told : List BusMessage}
    (ht : Heard j (.underway c stops) told) {o : Outcome} (hq : q.outcome = some o)
    {ending : StageState} (hend : ending.isTerminal = true)
    (hsucc : o = .succeeded → ending = .succeeded ∧ c.rest = [])
    (hfail : o = .failed → ending = .failed) (oom : Bool) (detail : Option String)
    (hoom : o ≠ .failed → oom = false) :
    Heard j q (told ++ .stageChanged j.targetKey c.stage ending ::
      ((if o = .cancelled then c.rest else []).map (.stageChanged j.targetKey · .cancelled) ++
        ((terminalOf j o oom detail).notice ++ [.terminal (terminalOf j o oom detail)]))) := by
  cases ht with
  | closed t lawful outcome sober => cases outcome
  | underway _ _ past events ran progress =>
    have hlawful := Transcript.lawful_ended oom detail c ran progress hend hsucc hfail
    have hclosed := Heard.closed (p := q) _ hlawful hq hoom
    simpa [Transcript.messages, Interval.messages] using hclosed

/-- The messages of a step continue what has been heard. -/
theorem Heard.step {m : Message} {es : List Effect} (hs : Phase.Step p m q es)
    {told ms : List BusMessage} (ht : Heard j p told) {reports : List Message}
    (hf : Follows j es reports ms) : Heard j q (told ++ ms) := by
  cases hs with
  | ignored p m h =>
    obtain ⟨-, rfl⟩ := hf.of_nil
    rwa [List.append_nil]
  | start c first =>
    obtain ⟨r, events, he, -, rfl⟩ := hf.of_opening
    cases ht with
    | waiting => exact .underway c 0 [] events (by rw [first]; exact .nil) he
    | closed t lawful outcome sober => cases outcome
  | startEmpty h =>
    obtain ⟨-, rfl⟩ := hf.of_finish
    cases ht with
    | waiting =>
      have hsucc : Outcome.succeeded ≠ .failed := by decide
      exact .closed _ (Transcript.lawful_unstarted false none hsucc fun _ => h) rfl fun _ => rfl
    | closed t lawful outcome sober => cases outcome
  | stopUnstarted =>
    obtain ⟨more, hmore, rfl⟩ := hf.of_cancellations
    obtain ⟨-, rfl⟩ := hmore.of_finish
    cases ht with
    | waiting =>
      have hcanc : Outcome.cancelled ≠ .failed := by decide
      have hlawful := Transcript.lawful_unstarted (j := j) false none hcanc nofun
      have hclosed := Heard.closed (p := .unstarted) _ hlawful rfl fun _ => rfl
      simpa [Transcript.messages] using hclosed
    | closed t lawful outcome sober => cases outcome
  | stop c stops =>
    obtain ⟨-, rfl⟩ := hf.of_nil
    rw [List.append_nil]
    cases ht with
    | underway _ _ past events ran progress =>
      exact .underway c (stops + 1) past events ran progress
    | closed t lawful outcome sober => cases outcome
  | advance c d later =>
    obtain ⟨more, hmore, rfl⟩ := hf.of_changed
    obtain ⟨r, events, he, -, rfl⟩ := hmore.of_opening
    cases ht with
    | underway _ _ past before ran progress =>
      have hran : Ran d.done (past ++ [⟨c.stage, before, .succeeded⟩]) := by
        rw [later]
        exact ran.snoc progress
      have hunder := Heard.underway (j := j) d 0 _ events hran he
      simpa [Interval.messages] using hunder
    | closed t lawful outcome sober => cases outcome
  | complete c last =>
    obtain ⟨-, rfl⟩ := hf.of_stopped []
    exact ht.ended (q := .succeeded) rfl rfl (fun _ => ⟨rfl, last⟩) nofun false none
      fun _ => rfl
  | fail c oom message =>
    obtain ⟨-, rfl⟩ := hf.of_stopped []
    exact ht.ended (q := .failed c oom message) rfl rfl nofun (fun _ => rfl) oom (some message)
      fun hfail => absurd rfl hfail
  | report c stops r cause =>
    obtain ⟨-, rfl⟩ := hf.of_stopped c.rest
    have hend : (JobState.stateAfter r).isTerminal = true := by cases r <;> rfl
    exact ht.ended (q := .stopped c stops r cause) rfl hend nofun nofun false none
      fun _ => rfl

end Decompile
