import Decompile.Job.Submission
import Decompile.Timestamp

/-!
# Job records

The durable account of a job: what was asked for, how far every stage is, and how the job ended.

- `JobRecord`: the account; `setStage` and `finish` are its only changes.
- `JobRecord.isPending`: the job was never finished.
-/

namespace Decompile

/-- A stage and how far it is. -/
structure StageRecord where
  kind : StageKind
  state : StageState
  deriving DecidableEq, Repr

/-- The account of a job. -/
structure JobRecord where
  submission : Submission
  backend : Backend
  stages : List StageRecord
  outcome : Option Outcome
  ranOutOfMemory : Bool
  created : Timestamp
  updated : Timestamp
  deriving DecidableEq, Repr

namespace JobRecord

/-- The account of a job that has not begun. -/
def new (j : Job) (now : Timestamp) : JobRecord where
  submission := j.submission
  backend := j.backend
  stages := j.chain.map fun s => ⟨s.kind, .enqueued⟩
  outcome := none
  ranOutOfMemory := false
  created := now
  updated := now

/-- The stage at a position has a new state. There may be no such stage. -/
def setStage (r : JobRecord) (ordinal : Nat) (state : StageState) (now : Timestamp) : JobRecord :=
  match r.stages[ordinal]? with
  | none => r
  | some s => { r with stages := r.stages.set ordinal { s with state := state }, updated := now }

/-- The job is over. -/
def finish (r : JobRecord) (o : Outcome) (ranOutOfMemory : Bool) (now : Timestamp) : JobRecord :=
  { r with outcome := some o, ranOutOfMemory := ranOutOfMemory, updated := now }

/-- The job is not over: whoever ran it stopped too soon. -/
def isPending (r : JobRecord) : Bool := r.outcome.isNone

end JobRecord

end Decompile
