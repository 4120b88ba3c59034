import Decompile.Bus
import Decompile.Config
import Decompile.Disk.Change
import Decompile.Log
import Decompile.Memory
import Decompile.Record.Basic
import Decompile.Registry
import Decompile.Tool.Invocation

/-!
# The world of the engine

The engine acts on a `World`: a disk, the active jobs, the listeners, and a journal of everything
that has happened. What it cannot know beforehand is the `Host`: when somebody wants a job to stop,
what a memory reading shows, which file operation fails, what a tool does. Every statement about the
engine is about all hosts.

- `Host`: the settings and tools of an engine, and everything outside it.
- `Happening`, `ToolRun`: what others do, at any moment and inside a call of a tool.
- `Occurrence`: an entry of the journal.
- `World`, `Act`, `Try`: the state, and actions on it that cannot and can fail. An action that fails
  keeps what it has done.
- `pause`: a moment at which others may act. It stands before every poll and every file operation.
-/

namespace Decompile

/-- Something that others do at any moment. -/
inductive Happening where
  /-- Somebody wants the job of a key to stop. -/
  | cancel (key : String)
  /-- The memory in use is read. -/
  | sample (used : UInt64)
  deriving DecidableEq, Repr

/-- Why a request is not taken on. -/
inductive SubmitError where
  | configuration (e : ConfigurationError)
  /-- A job of the key is active. -/
  | alreadyActive (key : String)
  /-- The record of the job cannot be stored. -/
  | persist (e : PersistError)
  deriving DecidableEq, Repr

/-- The text of a refusal. -/
def SubmitError.message : SubmitError → String
  | .configuration e => e.message
  | .alreadyActive key => "a job for " ++ key ++ " is already active"
  | .persist e => "failed to record job: " ++ e.message

/-- One thing a tool does while it runs. -/
inductive Activity where
  /-- It prints a line. -/
  | line (raw : String)
  /-- Meanwhile others act. -/
  | happening (h : Happening)
  /-- Meanwhile somebody submits a request. -/
  | submit (s : Submission)
  /-- It makes a directory and those above it. -/
  | makeDirectories (p : FilePath)
  /-- It writes a file. -/
  | writeFile (p : FilePath) (contents : Bytes)
  deriving DecidableEq, Repr

/-- What a call of a tool does, in order, and what comes of it. -/
structure ToolRun where
  activities : List Activity
  result : Except StageError Unit

/-- The settings and tools of an engine, and everything outside it. -/
structure Host where
  settings : Settings
  catalog : Catalog
  /-- The memory that counts as all of it. -/
  memoryCeiling : UInt64
  /-- What others do at a moment. -/
  interlude : Nat → List Happening
  /-- The failure that the file operation at a moment meets, whatever the disk holds. -/
  fault : Nat → Option IoError
  /-- What a call does, given the calls before it and the disk. -/
  tool : List Invocation → Disk → Invocation → ToolRun
  /-- The time at a moment. -/
  time : Nat → Timestamp

/-- An entry of the journal. -/
inductive Occurrence where
  /-- The disk changed. -/
  | changed (c : Change)
  /-- Listeners of a key were told something. -/
  | published (key : String) (m : BusMessage)
  | logged (r : LogRecord)
  /-- A line was printed for the user. -/
  | printed (c : Channel) (line : String)
  /-- A tool was called. -/
  | called (i : Invocation)
  /-- A job began an attempt of a chunk. -/
  | attempted (ticket : Nat) (kind : StageKind) (chunk : Nat)
  /-- Others acted. -/
  | happened (h : Happening)
  /-- A key was claimed with a ticket. -/
  | claimed (key : String) (ticket : Nat)
  /-- A ticket gave its key back. -/
  | released (key : String) (ticket : Nat)
  /-- A request was answered inside a call of a tool; `active` says whether its key was active
  before. -/
  | answered (active : Bool) (r : Option SubmitError)

/-- Watches memory while a stage of a job runs. -/
structure Monitor where
  /-- The key on which readings are published. -/
  key : String
  watch : MemoryWatch
  /-- The stage has to give up. -/
  tripped : Bool

/-- The monitor after a reading. Once tripped it stays so. -/
def Monitor.observe (m : Monitor) (percent : Float) : Monitor :=
  let (watch, verdict) := m.watch.observe percent
  { m with watch := watch, tripped := m.tripped || verdict == .tripped }

/-- A job that was taken on. -/
structure Accepted where
  job : Job
  record : JobRecord
  ticket : Nat

/-- What the engine acts on. -/
structure World where
  disk : Disk
  /-- The directory that relative paths start from. -/
  cwd : Place
  /-- The number of moments that have passed. -/
  clock : Nat
  /-- Everything that has happened, oldest first. -/
  journal : List Occurrence
  registry : Registry
  bus : Bus
  /-- Jobs that were taken on and have not begun. -/
  waiting : List Accepted
  monitor : Option Monitor

/-- A world in which nothing has happened. -/
def World.new (disk : Disk) (cwd : Place) : World where
  disk := disk
  cwd := cwd
  clock := 0
  journal := []
  registry := .empty
  bus := .empty
  waiting := []
  monitor := none

/-- An action that cannot fail. -/
abbrev Act (α : Type) := StateM World α

/-- An action that may fail. -/
abbrev Try (ε α : Type) := ExceptT ε (StateM World) α

/-- The action, with its failure seen otherwise. -/
def Try.mapError {ε ε' α : Type} (f : ε → ε') (t : Try ε α) : Try ε' α := ExceptT.adapt f t

/-- The action, with its failure as a value. -/
def Try.settle {ε α : Type} (t : Try ε α) : Act (Except ε α) := ExceptT.run t

/-- The action inside one that fails otherwise, with its failure as a value. -/
def Try.outcome {ε ε' α : Type} (t : Try ε α) : Try ε' (Except ε α) := ExceptT.lift t.settle

namespace World

/-- Adds to the journal. -/
def note (o : Occurrence) : Act Unit :=
  modify fun w => { w with journal := w.journal ++ [o] }

/-- Changes the disk. -/
def change (c : Change) : Act Unit := do
  modify fun w => { w with disk := w.disk.apply c }
  note (.changed c)

/-- Tells the listeners of a key. -/
def publish (key : String) (m : BusMessage) : Act Unit := do
  modify fun w => { w with bus := w.bus.publish key m }
  note (.published key m)

/-- A new listener of a key, and its number. -/
def subscribe (key : String) : Act Nat := do
  let w ← get
  let (id, bus) := w.bus.subscribe key
  set { w with bus := bus }
  return id

/-- A listener takes its messages. -/
def drain (id : Nat) : Act (List BusMessage) := do
  let w ← get
  let (messages, bus) := w.bus.drain id
  set { w with bus := bus }
  return messages

/-- A listener leaves. -/
def unsubscribe (id : Nat) : Act Unit := modify fun w => { w with bus := w.bus.drop id }

/-- Tells the listeners of a key about progress. -/
def emit (key : String) (e : ProgressEvent) : Act Unit := publish key (.status key e)

/-- Writes to the log. -/
def log (level : LogLevel) (target text : String) : Act Unit := note (.logged ⟨level, target, text⟩)

/-- Prints a line for the user. -/
def print (c : Channel) (line : String) : Act Unit := note (.printed c line)

/-- Reads the memory in use. Nothing comes of it unless a stage is watched. -/
def sample (h : Host) (used : UInt64) : Act Unit := do
  match (← get).monitor with
  | none => pure ()
  | some m =>
    let percent := percentUsed used h.memoryCeiling
    emit m.key (.memory percent)
    let after := m.observe percent
    -- noted once, when the watch trips
    modify fun w => { w with monitor := some after }
    if after.tripped && !m.tripped then
      log .warn "decaf_engine::memory"
        ("Memory above threshold for " ++ countText after.watch.streak.toNat ++
          " consecutive samples")

/-- Asks the job of a key to stop. -/
def cancel (key : String) : Act Unit := do
  let w ← get
  if w.registry.isActive key then
    log .info "decaf_engine::runner" ("Cancellation requested for " ++ key)
  modify fun w => { w with registry := w.registry.cancel key }

/-- Others act. -/
def happen (h : Host) (x : Happening) : Act Unit := do
  note (.happened x)
  match x with
  | .cancel key => cancel key
  | .sample used => sample h used

/-- Others act several times. -/
def happenAll (h : Host) : List Happening → Act Unit
  | [] => pure ()
  | x :: xs => do
    happen h x
    happenAll h xs

/-- A moment passes, in which others may act. -/
def pause (h : Host) : Act Unit := do
  let w ← get
  set { w with clock := w.clock + 1 }
  happenAll h (h.interlude w.clock)

/-- The time. -/
def now (h : Host) : Act Timestamp := do return h.time (← get).clock

/-- The job with the ticket was asked to stop. -/
def isCancelled (ticket : Nat) : Act Bool := do return (← get).registry.isCancelled ticket

/-- The stage that is watched has to give up. -/
def isTripped : Act Bool := do
  match (← get).monitor with
  | some m => return m.tripped
  | none => return false

/-! ## Views of the journal -/

/-- The messages on a key, oldest first. -/
def messagesOn (key : String) (journal : List Occurrence) : List BusMessage :=
  journal.filterMap fun o =>
    match o with
    | .published k m => if k = key then some m else none
    | _ => none

/-- The changes of the disk, oldest first. -/
def changesIn (journal : List Occurrence) : List Change :=
  journal.filterMap fun o =>
    match o with
    | .changed c => some c
    | _ => none

/-- The calls of tools, oldest first. -/
def callsIn (journal : List Occurrence) : List Invocation :=
  journal.filterMap fun o =>
    match o with
    | .called i => some i
    | _ => none

/-- What was logged, oldest first. -/
def recordsIn (journal : List Occurrence) : List LogRecord :=
  journal.filterMap fun o =>
    match o with
    | .logged r => some r
    | _ => none

end World

end Decompile
