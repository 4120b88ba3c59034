import Decompile.Stage

/-!
# The life of a job

A job is a row of stages, started one after another. It changes only by messages, and what has to
be done about a change is returned as data.

- `JobState`: the stages with their states, and how the job stands.
- `Message`, `StageResult`: what can happen to a job.
- `Effect`: what has to be done.
- `JobState.handle`: one message; `JobState.run`: several.
-/

namespace Decompile

/-- What a stage reports when it is over. -/
inductive StageResult where
  | succeeded
  | failed (ranOutOfMemory : Bool) (message : String)
  | cancelled
  deriving DecidableEq, Repr

/-- What can happen to a job. -/
inductive Message where
  /-- The job may begin. -/
  | start
  /-- The stage at `ordinal` is over. -/
  | stageFinished (ordinal : Nat) (result : StageResult)
  /-- Somebody wants the job to stop. -/
  | cancelRequested
  deriving DecidableEq, Repr

/-- What has to be done after a message. -/
inductive Effect where
  /-- A stage has a new state: write it down and tell it. -/
  | stageChanged (stage : Stage) (state : StageState)
  /-- Run the stage. -/
  | startStage (stage : Stage)
  /-- The job is over. -/
  | finish (outcome : Outcome) (ranOutOfMemory : Bool) (message : Option String)
  deriving DecidableEq, Repr

/-- A stage of a job with its state. -/
structure Slot where
  stage : Stage
  state : StageState
  deriving DecidableEq, Repr

/-- How a job stands. -/
structure JobState where
  key : String
  slots : List Slot
  started : Bool
  cancelRequested : Bool
  ranOutOfMemory : Bool
  outcome : Option Outcome
  failure : Option String
  deriving DecidableEq, Repr

namespace JobState

/-- A job before its first message. -/
def new (key : String) (chain : List Stage) : JobState where
  key := key
  slots := chain.map fun s => ⟨s, .enqueued⟩
  started := false
  cancelRequested := false
  ranOutOfMemory := false
  outcome := none
  failure := none

/-- The states of the stages in order. -/
def states (j : JobState) : List StageState := j.slots.map Slot.state

/-- The state of the first stage of a kind. -/
def stateOf? (j : JobState) (k : StageKind) : Option StageState :=
  (j.slots.find? fun s => s.stage.kind == k).map Slot.state

/-- The state of the chain. -/
def status (j : JobState) : ChainStatus := .ofStates j.states

/-- The ordinal of the first stage that runs. -/
def runningOrdinal? (j : JobState) : Option Nat :=
  (j.slots.find? fun s => s.state == .running).map fun s => s.stage.ordinal

/-- Moves the stage at position `i` to a state it may take, and says which stage that was. -/
def advance (j : JobState) (i : Nat) (target : StageState) : Option (JobState × Stage) :=
  match j.slots[i]? with
  | none => none
  | some slot =>
    if slot.state.canBecome target then
      some ({ j with slots := j.slots.set i { slot with state := target } }, slot.stage)
    else none

/-- Starts the stage at position `i`. -/
def startAt (j : JobState) (i : Nat) : JobState × List Effect :=
  match j.advance i .running with
  | none => (j, [])
  | some (j, stage) => (j, [.stageChanged stage .running, .startStage stage])

/-- Cancels every stage that can still be cancelled. -/
def cancelSlots : List Slot → List Slot × List Effect
  | [] => ([], [])
  | slot :: rest =>
    let (done, effects) := cancelSlots rest
    if slot.state.canBecome .cancelled then
      ({ slot with state := .cancelled } :: done, .stageChanged slot.stage .cancelled :: effects)
    else (slot :: done, effects)

/-- Ends the job. Only a failed job keeps what it failed of. -/
def finish (j : JobState) (o : Outcome) : JobState × List Effect :=
  let (slots, changes) := if o = .cancelled then cancelSlots j.slots else (j.slots, [])
  let outOfMemory := if o = .failed then j.ranOutOfMemory else false
  let message := if o = .failed then j.failure else none
  ({ j with slots := slots, outcome := some o, ranOutOfMemory := outOfMemory },
    changes ++ [.finish o outOfMemory message])

/-- Goes on after the stage at position `i` reported `result` and nobody wants the job to stop. -/
def proceed (j : JobState) (i : Nat) : StageResult → JobState × List Effect
  | .succeeded => if i + 1 < j.slots.length then j.startAt (i + 1) else j.finish .succeeded
  | .failed outOfMemory message =>
    { j with ranOutOfMemory := outOfMemory, failure := some message }.finish .failed
  | .cancelled => j.finish .cancelled

/-- The state of a stage that reported `result`. -/
def stateAfter : StageResult → StageState
  | .succeeded => .succeeded
  | .failed _ _ => .failed
  | .cancelled => .cancelled

/-- Takes the report of the running stage. A wish to stop decides, whatever was reported. -/
def takeResult (j : JobState) (i : Nat) (result : StageResult) : JobState × List Effect :=
  match j.advance i (stateAfter result) with
  | none => (j, [])
  | some (j, stage) =>
    let (j, effects) := if j.cancelRequested then j.finish .cancelled else j.proceed i result
    (j, .stageChanged stage (stateAfter result) :: effects)

/-- Takes one message. A job that is over ignores all of them, and so does a job that has started
ignore another start and the reports of stages that do not run. -/
def handle (j : JobState) (m : Message) : JobState × List Effect :=
  if j.outcome.isSome then (j, [])
  else
    match m with
    | .start =>
      if j.started then (j, [])
      else
        let j := { j with started := true }
        if j.cancelRequested then j.finish .cancelled
        else if j.slots.isEmpty then j.finish .succeeded
        else j.startAt 0
    | .cancelRequested =>
      -- a stage that runs is let run to its end, which then ends the job
      let j := { j with cancelRequested := true }
      if j.started then (j, []) else j.finish .cancelled
    | .stageFinished i result =>
      if j.runningOrdinal? = some i then j.takeResult i result else (j, [])

/-- Takes several messages, and gathers what has to be done. -/
def run (j : JobState) : List Message → JobState × List Effect
  | [] => (j, [])
  | m :: ms =>
    let (next, effects) := j.handle m
    let (last, more) := next.run ms
    (last, effects ++ more)

end JobState

end Decompile
