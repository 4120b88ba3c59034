import Decompile.Job.State
import Decompile.Stage.Work

/-!
# Running a stage

A stage prepares its output, works through its items chunk by chunk while memory is watched, marks
its output as finished, and discards what it has consumed.

- `attempt`: one attempt at a chunk; memory that has run out decides its result.
- `runChunk`: attempts at one chunk. The number of attempts of a whole stage that may fail is given
  once, and shared by its chunks.
- `runChunks`: all chunks; whether the job has to stop is looked up before and after each, and
  before each further attempt.
- `runStage`: the whole stage. Its failures are its result.
-/

namespace Decompile

open Work (logTarget onDisk)

/-- Others may act; then: has the job to stop? -/
def pollCancelled (h : Host) (ticket : Nat) : Act Bool := do
  World.pause h
  World.isCancelled ticket

/-- One attempt at a chunk. -/
def attempt (h : Host) (c : StageContext) (kind : StageKind) (index : Nat) (items : Items)
    (chunk : Chunk) : Try StageError Unit := do
  World.note (.attempted c.ticket kind index)
  Work.breakOff
  match ← (Work.processChunk h c kind index items chunk).outcome with
  -- memory that has run out counts more than what the work came to
  | .ok () => Work.breakOff
  | .error e =>
    Work.breakOff
    throw e

/-- The start of what a stage logs. -/
def stageLogHead (c : StageContext) (kind : StageKind) : String :=
  c.job.targetKey ++ " [" ++ kind.word ++ "] "

/-- Attempts at one chunk until one succeeds. `failures` attempts of the stage have failed, and
`left` more may fail before the next one that does ends the stage. Returns both. -/
def runChunk (h : Host) (c : StageContext) (kind : StageKind) (index : Nat) (items : Items)
    (chunk : Chunk) : (left : Nat) → UInt32 → Try StageError (Nat × UInt32)
  | left, failures => do
    match ← (attempt h c kind index items chunk).outcome with
    | .ok () => return (left, failures)
    | .error e =>
      -- what will not pass is not tried again
      if !e.isTransient then throw e
      if ← pollCancelled h c.ticket then throw .cancelled
      match left with
      | 0 => throw e
      | left + 1 =>
        let failures := failures + 1
        World.log .warn logTarget (stageLogHead c kind ++ "chunk " ++ countText (index + 1)
          ++ " failed, retrying: " ++ e.message)
        World.emit c.job.targetKey (.status kind.title
          ("Retrying " ++ String.ofList (Text.lower kind.title.toList) ++ " (attempt "
            ++ countText (failures + 1).toNat ++ " of "
            ++ countText c.job.submission.maxAttempts.toNat ++ ")"))
        runChunk h c kind index items chunk left failures

/-- Works through chunks, of which there are `total` and the first has the number `index`. -/
def runChunks (h : Host) (c : StageContext) (kind : StageKind) (items : Items) (total : Nat) :
    (index left : Nat) → UInt32 → List Chunk → Try StageError Unit
  | _, _, _, [] => pure ()
  | index, left, failures, chunk :: rest => do
    if ← pollCancelled h c.ticket then throw .cancelled
    World.emit c.job.targetKey (.status kind.title
      ("Chunk " ++ countText (index + 1) ++ " of " ++ countText total))
    let (left, failures) ← runChunk h c kind index items chunk left failures
    if ← pollCancelled h c.ticket then throw .cancelled
    runChunks h c kind items total (index + 1) left failures rest

/-- Works through all items. -/
def runItems (h : Host) (c : StageContext) (kind : StageKind) (items : Items) :
    Try StageError Unit :=
  let chunks := chunksOf items.count c.job.submission.chunkSize
  runChunks h c kind items chunks.length 0 (c.job.submission.maxAttempts.toNat - 1) 0 chunks

/-- Makes the directory a stage writes, with the mark of its start if it carries marks. -/
def prepareOutput (h : Host) (c : StageContext) (kind : StageKind) : Try StageError Unit :=
  let dir := outputOf c.layout kind
  if kind.hasMarkers then (Target.markStarted h dir).mapError .ofPersist
  else (World.ensureDirectory h dir).mapError .ofPersist

/-- Unpacks the archives of sources among the names of a directory. -/
def expandSources (h : Host) (dir : FilePath) : List String → Try StageError Unit
  | [] => pure ()
  | n :: ns => do
    let p := dir.child n
    if (← World.isFile p) && p.hasExtension "jar" then Work.expand h p dir
    expandSources h dir ns

/-- Unpacks sources that the backend packed, and marks the output as finished. -/
def finishOutput (h : Host) (c : StageContext) (kind : StageKind) : Try StageError Unit := do
  let dir := outputOf c.layout kind
  if kind = .convert ∧ c.job.backend.packsSources then
    let entries ← onDisk (World.listDirectory h dir)
    expandSources h dir (entries.map Prod.fst)
  if kind.hasMarkers then (Target.markComplete h dir).mapError .ofPersist

/-- Removes files, each of which may be gone already. -/
def removeFiles (h : Host) : List FilePath → Try IoError Unit
  | [] => pure ()
  | p :: ps => do
    World.ifPresent (World.removeFile h p)
    removeFiles h ps

/-- Discards what a stage has consumed. -/
def discardConsumed (h : Host) (c : StageContext) (kind : StageKind) (items : Items) :
    Try IoError Unit :=
  match kind with
  | .unpack => pure ()
  | .resources => World.ifPresent (World.removeTree h c.layout.unpacked)
  | .convert | .intermediateConvert =>
    if kind = .convert ∧ !c.job.backend.isDirect then
      World.ifPresent (World.removeTree h c.layout.intermediate)
    else
      match items with
      | .files paths => removeFiles h paths
      | .members _ => pure ()

/-- Starts to watch memory for a job. -/
def startMonitor (h : Host) (c : StageContext) : Act Unit :=
  modify fun w => { w with
    monitor := some ⟨c.job.targetKey,
      MemoryWatch.new c.job.submission.memoryThreshold h.settings.samplesToTrip, false⟩ }

/-- Stops to watch memory. -/
def stopMonitor : Act Unit := modify fun w => { w with monitor := none }

/-- Finds the items of a stage and works through them. -/
def collectAndRun (h : Host) (c : StageContext) (kind : StageKind) : Try StageError Items := do
  let items ← Items.collect h c kind
  runItems h c kind items
  return items

/-- The work of a stage with memory watched, and what follows once it has succeeded. -/
def runWatched (h : Host) (c : StageContext) (kind : StageKind) : Try StageError Unit := do
  startMonitor h c
  World.pause h
  let result ← (collectAndRun h c kind).outcome
  -- the last reading may come after the last chunk
  World.pause h
  stopMonitor
  match result with
  | .error e => throw e
  | .ok items =>
    -- the output is marked first: what was consumed may go only once nothing needs it
    finishOutput h c kind
    if !c.job.submission.keepIntermediate then
      match ← (discardConsumed h c kind items).outcome with
      | .ok () => pure ()
      | .error e =>
        World.log .warn logTarget
          (stageLogHead c kind ++ "could not remove consumed input: " ++ e.message)

/-- All that can fail in a stage. -/
def workOfStage (h : Host) (c : StageContext) (kind : StageKind) : Try StageError Unit := do
  prepareOutput h c kind
  runWatched h c kind

/-- Runs a stage to its end. -/
def runStage (h : Host) (c : StageContext) (stage : Stage) : Act StageResult := do
  let kind := stage.kind
  World.log .info logTarget
    (stageLogHead c kind ++ "stage " ++ countText stage.ordinal ++ " started")
  World.emit c.job.targetKey
    ((ProgressEvent.status kind.title "Started").withSecondary c.job.submission.label)
  match ← (workOfStage h c kind).settle with
  | .ok () =>
    World.log .info logTarget (stageLogHead c kind ++ "succeeded")
    return .succeeded
  | .error .cancelled =>
    World.log .info logTarget (stageLogHead c kind ++ "cancelled")
    return .cancelled
  | .error e =>
    World.log .warn logTarget (stageLogHead c kind ++ "failed: " ++ e.message)
    return .failed e.isOutOfMemory e.message

end Decompile
