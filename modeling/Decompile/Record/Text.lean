import Decompile.Record.Basic
import Decompile.Ron.Access

/-!
# The stored form of job records

- `JobRecord.toValue`, `JobRecord.render`: writes a record.
- `JobRecord.ofValue?`, `JobRecord.read?`: reads one, its fields in any order and with others that
  are not known. Each known field must be given once; only the outcome may be left out.
-/

namespace Decompile

open Ron (Value)

/-- A request in its stored form. -/
def Submission.toValue (s : Submission) : Value :=
  .fields (some "JobSubmission")
    [("decompilerBackend", .text s.backend), ("ignoreLibraries", .bool s.ignoreLibraries),
     ("maxAttempts", .ofNat s.maxAttempts.toNat), ("chunkSize", .ofNat s.chunkSize.toNat),
     ("memoryThreshold", .ofNat s.memoryThreshold.toNat),
     ("keepIntermediateFiles", .bool s.keepIntermediate), ("targetKey", .text s.targetKey),
     ("label", .text s.label), ("inputFilePath", .text s.inputPath.text),
     ("inputType", .word s.inputType.word)]

/-- A stage in its stored form. -/
def StageRecord.toValue (s : StageRecord) : Value :=
  .fields (some "StageRecord") [("kind", .word s.kind.word), ("state", .word s.state.word)]

/-- A point in time in its stored form. -/
def Timestamp.toValue (t : Timestamp) : Value := .text (String.ofList t.render)

/-- An account in its stored form. -/
def JobRecord.toValue (r : JobRecord) : Value :=
  .fields (some "JobRecord")
    [("submission", r.submission.toValue), ("backend", .word r.backend.name),
     ("stages", .list (r.stages.map StageRecord.toValue)),
     ("outcome", .option (r.outcome.map fun o => .word o.word)),
     ("ran_out_of_memory", .bool r.ranOutOfMemory), ("created_utc", r.created.toValue),
     ("updated_utc", r.updated.toValue)]

/-- The text that is stored. -/
def JobRecord.render (r : JobRecord) : String := String.ofList (Ron.render 0 r.toValue)

/-! ## Reading -/

/-- A request from its stored form. -/
def Submission.ofValue? (e : Ron.Extensions) (v : Value) : Option Submission := do
  let fs ← v.asFields e "JobSubmission"
  let names := ["decompilerBackend", "ignoreLibraries", "maxAttempts", "chunkSize",
    "memoryThreshold", "keepIntermediateFiles", "targetKey", "label", "inputFilePath", "inputType"]
  if !Ron.givenOnce names fs then none
  let get (n : String) := Ron.field? n fs
  return {
    backend := ← (← get "decompilerBackend").asText
    ignoreLibraries := ← (← get "ignoreLibraries").asBool
    maxAttempts := UInt32.ofNat (← (← get "maxAttempts").asNat "u32" UInt32.size)
    chunkSize := UInt64.ofNat (← (← get "chunkSize").asNat "u64" UInt64.size)
    memoryThreshold := UInt8.ofNat (← (← get "memoryThreshold").asNat "u8" 256)
    keepIntermediate := ← (← get "keepIntermediateFiles").asBool
    targetKey := ← (← get "targetKey").asText
    label := ← (← get "label").asText
    inputPath := ⟨← (← get "inputFilePath").asText⟩
    inputType := ← (← get "inputType").asWord InputType.ofWord? }

/-- A stage from its stored form. -/
def StageRecord.ofValue? (e : Ron.Extensions) (v : Value) : Option StageRecord := do
  let fs ← v.asFields e "StageRecord"
  if !Ron.givenOnce ["kind", "state"] fs then none
  return ⟨← (← Ron.field? "kind" fs).asWord StageKind.ofWord?,
    ← (← Ron.field? "state" fs).asWord StageState.ofWord?⟩

/-- A point in time from its stored form. -/
def Timestamp.ofValue? (v : Value) : Option Timestamp := do Timestamp.read? (← v.asText).toList

namespace JobRecord

/-- An outcome from its stored form; a record need not have one. -/
def outcomeOf? (e : Ron.Extensions) (v : Option Value) : Option (Option Outcome) :=
  match v with
  | none => some none
  | some v => do
    match ← v.asOption e with
    | none => return none
    | some w => return some (← w.asWord Outcome.ofWord?)

/-- An account from its stored form. -/
def ofValue? (e : Ron.Extensions) (v : Value) : Option JobRecord := do
  let fs ← v.asFields e "JobRecord"
  let names := ["submission", "backend", "stages", "outcome", "ran_out_of_memory", "created_utc",
    "updated_utc"]
  if !Ron.givenOnce names fs then none
  let get (n : String) := Ron.field? n fs
  return {
    submission := ← Submission.ofValue? e (← get "submission")
    backend := ← (← get "backend").asWord Backend.ofWord?
    stages := ← (← (← get "stages").asList).mapM (StageRecord.ofValue? e)
    outcome := ← outcomeOf? e (get "outcome")
    ranOutOfMemory := ← (← get "ran_out_of_memory").asBool
    created := ← Timestamp.ofValue? (← get "created_utc")
    updated := ← Timestamp.ofValue? (← get "updated_utc") }

/-- The account that a stored text gives. -/
def read? (text : String) : Option JobRecord := do
  let (e, v) ← Ron.read text.toList
  ofValue? e v

end JobRecord

end Decompile
