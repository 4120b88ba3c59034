import Decompile.Job.State
import Decompile.Stage.Run

/-!
# Running jobs

A job that was taken on is run by its messages: each is given to its `JobState`, and what has to be
done about it is a list of `Action`s, each of them one step for everybody else.

- `Action`, `Effect.actions`: what an effect means. A new state is stored before it is told, and a
  job that is over gives back its key before it is told.
- `Task`: a job that runs, with the messages it has not taken yet.
- `perform`, `Task.step`: one action, one message.
- `runJob`, `runWaiting`: one job, and all that wait.
-/

namespace Decompile

/-- A change of a job's record. -/
inductive RecordEdit where
  | stage (ordinal : Nat) (state : StageState)
  | finish (outcome : Outcome) (ranOutOfMemory : Bool)
  deriving DecidableEq, Repr

/-- The record after a change. -/
def RecordEdit.apply (e : RecordEdit) (r : JobRecord) (now : Timestamp) : JobRecord :=
  match e with
  | stage ordinal state => r.setStage ordinal state now
  | finish outcome ranOutOfMemory => r.finish outcome ranOutOfMemory now

/-- One step of a job that runs. -/
inductive Action where
  /-- Change the record and store it. -/
  | record (e : RecordEdit)
  /-- Tell the listeners. -/
  | tell (m : BusMessage)
  /-- Run a stage; its result is the job's next message. -/
  | run (s : Stage)
  /-- Give the key back. -/
  | release
  /-- Write to the log. -/
  | log (r : LogRecord)

/-- How a job ended, for its listeners. -/
def terminalOf (j : Job) (o : Outcome) (ranOutOfMemory : Bool) (detail : Option String) :
    TerminalResult :=
  ⟨j.targetKey, o, ranOutOfMemory, j.submission.label, detail⟩

/-- The only notice of failure that a job gives; it belongs to a failed end. -/
def failureNotice (j : Job) (r : TerminalResult) : List Action :=
  match r.userMessage? with
  | some text => [.tell (.status j.targetKey (.error j.submission.label text))]
  | none => []

/-- What has to be done about an effect, in order. -/
def Effect.actions (j : Job) : Effect → List Action
  | .stageChanged stage state =>
    [.record (.stage stage.ordinal state), .tell (.stageChanged j.targetKey stage state)]
  | .startStage stage => [.run stage]
  | .finish o ranOutOfMemory message =>
    -- the key is free before anybody can hear of the end and submit again
    let result := terminalOf j o ranOutOfMemory message
    [.record (.finish o ranOutOfMemory), .release,
      .log ⟨.info, Engine.logTarget, j.targetKey ++ " finished: " ++ o.label⟩]
      ++ failureNotice j result ++ [.tell (.terminal result)]

/-- A job that runs. -/
structure Task where
  job : Job
  ticket : Nat
  record : JobRecord
  state : JobState
  /-- Messages not taken yet, oldest first. -/
  queue : List Message
  /-- The job knows that it has to stop. -/
  stopTold : Bool

namespace Task

/-- A job that begins. -/
def ofAccepted (a : Accepted) : Task where
  job := a.job
  ticket := a.ticket
  record := a.record
  state := .new a.job.targetKey a.job.chain
  queue := [.start]
  stopTold := false

/-- The directories of the job's target. -/
def layout (h : Host) (t : Task) : Layout := .of h.settings.storage t.job.targetKey

/-- What its stages know about the job. -/
def context (h : Host) (t : Task) : StageContext := ⟨t.job, t.layout h, t.ticket⟩

/-- Stores the record. A record that cannot be stored does not stop the job. -/
def saveRecord (h : Host) (t : Task) : Act Unit := do
  let l := t.layout h
  match ← (t.record.save h l).settle with
  | .ok () => pure ()
  | .error e =>
    World.log .error Engine.logTarget ("Failed to save job record in " ++
      Text.quote .plain l.root.text ++ ": " ++ e.message)

/-- One action. -/
def perform (h : Host) (t : Task) : Action → Act Task
  | .record e => do
    let t := { t with record := e.apply t.record (← World.now h) }
    t.saveRecord h
    return t
  | .tell m => do
    World.publish t.job.targetKey m
    return t
  | .run s => do
    let result ← runStage h (t.context h) s
    return { t with queue := t.queue ++ [.stageFinished s.ordinal result] }
  | .release => do
    Engine.release t.job.targetKey t.ticket
    return t
  | .log r => do
    World.note (.logged r)
    return t

/-- Several actions. -/
def performAll (h : Host) (t : Task) : List Action → Act Task
  | [] => return t
  | a :: as => do
    let t ← t.perform h a
    t.performAll h as

/-- The message to be taken, and the task without it. A wish to stop comes before all others, once. -/
def next (t : Task) (stop : Bool) (m : Message) (rest : List Message) : Message × Task :=
  if stop && !t.stopTold then (.cancelRequested, { t with stopTold := true })
  else (m, { t with queue := rest })

/-- Takes one message, and does what has to be done about it. -/
def step (h : Host) (t : Task) (m : Message) (rest : List Message) : Act Task := do
  let stop ← pollCancelled h t.ticket
  -- a wish to stop that came meanwhile overtakes the message
  let (m, t) := t.next stop m rest
  let (state, effects) := t.state.handle m
  performAll h { t with state := state } (effects.flatMap (Effect.actions t.job))

/-- Takes messages until there are none, at most `fuel`. -/
def runFor (h : Host) : (fuel : Nat) → Task → Act Task
  | 0, t => return t
  | fuel + 1, t =>
    match t.queue with
    | [] => return t
    | m :: rest => do
      let t ← t.step h m rest
      t.runFor h fuel

/-- More messages than a job can be given: its start, a wish to stop, and one for each stage. -/
def messageBound (t : Task) : Nat := t.job.chain.length + 3

end Task

namespace Engine

/-- Runs a job to its end. However that comes about, it gives back its key. -/
def runJob (h : Host) (a : Accepted) : Act Unit := do
  let t := Task.ofAccepted a
  let _ ← t.runFor h t.messageBound
  -- a job that came to its end has done this already
  release a.job.targetKey a.ticket

/-- Runs jobs that wait, in order, at most `fuel` of them. -/
def runWaiting (h : Host) : (fuel : Nat) → Act Unit
  | 0 => pure ()
  | fuel + 1 => do
    let w ← get
    match w.waiting with
    | [] => pure ()
    | a :: rest => do
      set { w with waiting := rest }
      runJob h a
      runWaiting h fuel

end Engine

end Decompile
