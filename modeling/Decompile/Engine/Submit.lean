import Decompile.Record.Store

/-!
# Taking on jobs

A request that passes its checks claims its key, then its record is stored, then it waits to be run.
A request that is turned down leaves no claim behind.

- `accept`, `enqueue`: the two halves of taking on a request.
- `submit`: one request; `submitTo`: one to an engine that may have stopped.
- `cancelJob`, `isActive`: the job of a key.
-/

namespace Decompile.Engine

/-- The part of the program that speaks here. -/
def logTarget : String := "decaf_engine::runner"

/-- Claims a key for a new job. -/
def claim (key : String) : Try SubmitError Nat := do
  let w ← get
  match w.registry.claim key with
  | none => throw (.alreadyActive key)
  | some (ticket, registry) =>
    set { w with registry := registry }
    World.note (.claimed key ticket)
    return ticket

/-- Gives a key back, if the ticket still holds it. -/
def release (key : String) (ticket : Nat) : Act Unit := do
  modify fun w => { w with registry := w.registry.release key ticket }
  World.note (.released key ticket)

/-- Plans a job, claims its key and stores its record. -/
def accept (h : Host) (s : Submission) : Try SubmitError Accepted := do
  match Job.plan s h.catalog.has with
  | .error e => throw (.configuration e)
  | .ok job =>
    let key := job.targetKey
    let ticket ← claim key
    let record := JobRecord.new job (← World.now h)
    match ← (record.save h (Layout.of h.settings.storage key)).outcome with
    | .error e =>
      -- a job that nobody could take up again must not hold its key
      release key ticket
      throw (.persist e)
    | .ok () =>
      World.log .info logTarget ("Submitted " ++ key ++ " (" ++ job.backend.name ++ ", "
        ++ countText job.chain.length ++ " stages)")
      return ⟨job, record, ticket⟩

/-- A job gets in line. -/
def enqueue (a : Accepted) : Act Unit := modify fun w => { w with waiting := w.waiting ++ [a] }

/-- Takes on a request. -/
def submit (h : Host) (s : Submission) : Try SubmitError Unit := do
  enqueue (← accept h s)

/-- Why a request comes to nothing at an engine that may have stopped. -/
inductive Refusal where
  | refused (e : SubmitError)
  /-- Nobody is left to run the job. -/
  | engineStopped
  deriving DecidableEq, Repr

/-- The text of a refusal. -/
def Refusal.message : Refusal → String
  | .refused e => e.message
  | .engineStopped => "engine is no longer running"

/-- A request to an engine that may have stopped: a job that nobody will run gives its key back,
though its record is stored by then. -/
def submitTo (h : Host) (running : Bool) (s : Submission) : Try Refusal Unit := do
  let a ← (accept h s).mapError .refused
  if running then enqueue a
  else
    release a.job.targetKey a.ticket
    throw .engineStopped

/-- Some job of the key is active. -/
def isActive (key : String) : Act Bool := do return (← get).registry.isActive key

/-- Asks the job of a key to stop; there may be none. -/
def cancelJob (key : String) : Act Unit := World.cancel key

end Decompile.Engine
