import Decompile.Backend

/-!
# Stages

A job runs through a chain of stages. Which kinds it has depends on the backend: one that is not
direct needs its Java archives made first.

- `StageKind`, `Stage`: what a stage does, and its position in the chain.
- `StageState`: how far a stage is; `canBecome` says which steps it may take.
- `chainOf`: the chain of a backend.
- `ChainStatus.ofStates`: the state of a whole chain.
-/

namespace Decompile

/-- What a stage does. -/
inductive StageKind where
  /-- Writes the contents of the input to a directory. -/
  | unpack
  /-- Makes Java archives of the bytecode. -/
  | intermediateConvert
  /-- Runs the backend. -/
  | convert
  /-- Copies what is not bytecode. -/
  | resources
  deriving DecidableEq, Repr

namespace StageKind

/-- All kinds. -/
def all : List StageKind := [unpack, intermediateConvert, convert, resources]

/-- The word for a kind. -/
def word : StageKind → String
  | unpack => "unpack"
  | intermediateConvert => "intermediate-convert"
  | convert => "convert"
  | resources => "resources"

/-- The heading of what a stage reports. -/
def title : StageKind → String
  | unpack => "Unpacking archive"
  | intermediateConvert => "Converting bytecode containers"
  | convert => "Decompiling to java"
  | resources => "Extracting resources"

/-- The output of the stage carries markers of its start and its completion. -/
def hasMarkers : StageKind → Bool
  | convert | resources => true
  | unpack | intermediateConvert => false

/-- The kind with this word. -/
def ofWord? (s : String) : Option StageKind := all.find? fun k => k.word == s

theorem ofWord?_word (k : StageKind) : ofWord? k.word = some k := by cases k <;> decide +kernel

end StageKind

/-- A stage of a chain. -/
structure Stage where
  /-- The position in the chain, from zero. -/
  ordinal : Nat
  kind : StageKind
  deriving DecidableEq, Repr

/-- How far a stage is. -/
inductive StageState where
  | enqueued
  | running
  | succeeded
  | failed
  | cancelled
  deriving DecidableEq, Repr

namespace StageState

/-- All states. -/
def all : List StageState := [enqueued, running, succeeded, failed, cancelled]

/-- The word for a state. -/
def word : StageState → String
  | enqueued => "enqueued"
  | running => "running"
  | succeeded => "succeeded"
  | failed => "failed"
  | cancelled => "cancelled"

/-- The state as a name. -/
def label : StageState → String
  | enqueued => "Enqueued"
  | running => "Running"
  | succeeded => "Succeeded"
  | failed => "Failed"
  | cancelled => "Cancelled"

/-- The stage is over. -/
def isTerminal : StageState → Bool
  | succeeded | failed | cancelled => true
  | enqueued | running => false

/-- A stage moves forward only: it may start, end once it runs, or be cancelled unstarted. -/
def canBecome : StageState → StageState → Bool
  | enqueued, running | enqueued, cancelled => true
  | running, succeeded | running, failed | running, cancelled => true
  | _, _ => false

/-- The state with this word. -/
def ofWord? (s : String) : Option StageState := all.find? fun k => k.word == s

theorem ofWord?_word (s : StageState) : ofWord? s.word = some s := by cases s <;> decide +kernel

end StageState

/-- How a job ends. -/
inductive Outcome where
  | succeeded
  | failed
  | cancelled
  deriving DecidableEq, Repr

namespace Outcome

/-- All outcomes. -/
def all : List Outcome := [succeeded, failed, cancelled]

/-- The word for an outcome. -/
def word : Outcome → String
  | succeeded => "succeeded"
  | failed => "failed"
  | cancelled => "cancelled"

/-- The outcome as a name. -/
def label : Outcome → String
  | succeeded => "Succeeded"
  | failed => "Failed"
  | cancelled => "Cancelled"

/-- The outcome with this word. -/
def ofWord? (s : String) : Option Outcome := all.find? fun k => k.word == s

theorem ofWord?_word (o : Outcome) : ofWord? o.word = some o := by cases o <;> decide +kernel

end Outcome

/-! ## Chains -/

/-- The kinds of stages that a backend needs, in order. -/
def stageKindsOf (b : Backend) : List StageKind :=
  if b.isDirect then [.unpack, .convert, .resources]
  else [.unpack, .intermediateConvert, .convert, .resources]

/-- Kinds as stages that know their positions, from `start` on. -/
def stagesFrom (start : Nat) : List StageKind → List Stage
  | [] => []
  | k :: ks => ⟨start, k⟩ :: stagesFrom (start + 1) ks

/-- The chain of a backend. -/
def chainOf (b : Backend) : List Stage := stagesFrom 0 (stageKindsOf b)

/-- The state of a whole chain. -/
inductive ChainStatus where
  | waiting
  | running
  | succeeded
  | failed
  | cancelled
  deriving DecidableEq, Repr

namespace ChainStatus

/-- The status as a name. -/
def label : ChainStatus → String
  | waiting => "Waiting"
  | running => "Running"
  | succeeded => "Succeeded"
  | failed => "Failed"
  | cancelled => "Cancelled"

/-- A cancelled stage decides before a failed one, and that before success. A chain without
stages waits. -/
def ofStates (states : List StageState) : ChainStatus :=
  if states.contains .cancelled then cancelled
  else if states.contains .failed then failed
  else if !states.isEmpty && states.all (· == .succeeded) then succeeded
  else if states.all (· == .enqueued) then waiting
  else running

end ChainStatus

end Decompile
