import Decompile.Engine.Run

/-!
# Resuming jobs

Jobs whose records have no outcome were interrupted. They are submitted again, in ascending order of
their keys.
-/

namespace Decompile.Engine

/-- Submits requests again, and returns the keys of those that were taken on. -/
def resubmitAll (h : Host) : List JobRecord → Act (List String)
  | [] => return []
  | r :: rs => do
    let key := r.submission.targetKey
    match ← (submit h r.submission).settle with
    | .ok () => return key :: (← resubmitAll h rs)
    | .error e =>
      World.log .warn logTarget ("Could not resume " ++ key ++ ": " ++ e.message)
      resubmitAll h rs

/-- Notes in the log. -/
def logAll : List LogRecord → Act Unit
  | [] => pure ()
  | r :: rs => do
    World.note (.logged r)
    logAll rs

/-- The records of interrupted jobs; those that cannot be read are noted. -/
def findPending (h : Host) : Act (List JobRecord) := do
  let w ← get
  logAll (unreadableRecords w.disk w.cwd h.settings.storage)
  return pendingRecords w.disk w.cwd h.settings.storage

/-- Takes on interrupted jobs again, and returns their keys. -/
def resumePending (h : Host) : Act (List String) := do
  resubmitAll h (← findPending h)

end Decompile.Engine
