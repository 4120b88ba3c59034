import Decompile.Ron.Access
import Decompile.World.Storage

/-!
# Preferences

What jobs are given unless told otherwise, kept between runs.

- `Preferences`: the values, with their defaults.
- `Preferences.render`, `Preferences.read?`: the stored form. A stored text may leave out any field;
  the default stands in for it.
- `Preferences.load`, `Preferences.save`: a storage directory that holds none, or holds what cannot
  be read, gives the defaults.
-/

namespace Decompile

/-- What jobs are given unless told otherwise. -/
structure Preferences where
  backend : String
  maxAttempts : UInt32
  chunkSize : UInt64
  memoryThreshold : UInt8
  ignoreLibraries : Bool
  keepIntermediate : Bool
  runtime : UInt32
  deriving DecidableEq, Repr

namespace Preferences

/-- The values before anything was stored. -/
def default : Preferences where
  backend := "jadx"
  maxAttempts := 3
  chunkSize := 500
  memoryThreshold := 80
  ignoreLibraries := true
  keepIntermediate := false
  runtime := 17

/-- The name of the file that holds them. -/
def fileName : String := "preferences.ron"

/-- Their stored form. -/
def toValue (p : Preferences) : Ron.Value :=
  .fields (some "Preferences")
    [("decompiler_backend", .text p.backend), ("max_attempts", .ofNat p.maxAttempts.toNat),
     ("chunk_size", .ofNat p.chunkSize.toNat), ("memory_threshold", .ofNat p.memoryThreshold.toNat),
     ("ignore_libraries", .bool p.ignoreLibraries),
     ("keep_intermediate_files", .bool p.keepIntermediate),
     ("runtime_version", .ofNat p.runtime.toNat)]

/-- The text that is stored. -/
def render (p : Preferences) : String := String.ofList (Ron.render 0 p.toValue)

/-- The value of a field, or the default if it is left out; none if it is no such value. -/
def fieldOr {α : Type} (fs : List (String × Ron.Value)) (name : String) (default : α)
    (as : Ron.Value → Option α) : Option α :=
  match Ron.field? name fs with
  | none => some default
  | some v => as v

/-- Preferences from their stored form. -/
def ofValue? (e : Ron.Extensions) (v : Ron.Value) : Option Preferences := do
  let fs ← v.asFields e "Preferences"
  let names := ["decompiler_backend", "max_attempts", "chunk_size", "memory_threshold",
    "ignore_libraries", "keep_intermediate_files", "runtime_version"]
  if !Ron.givenOnce names fs then none
  let nat (name : String) (given : Nat) (type : String) (bound : Nat) :=
    fieldOr fs name given (Ron.Value.asNat type bound)
  return {
    backend := ← fieldOr fs "decompiler_backend" default.backend Ron.Value.asText
    maxAttempts := UInt32.ofNat (← nat "max_attempts" default.maxAttempts.toNat "u32" UInt32.size)
    chunkSize := UInt64.ofNat (← nat "chunk_size" default.chunkSize.toNat "u64" UInt64.size)
    memoryThreshold := UInt8.ofNat (← nat "memory_threshold" default.memoryThreshold.toNat "u8" 256)
    ignoreLibraries := ← fieldOr fs "ignore_libraries" default.ignoreLibraries Ron.Value.asBool
    keepIntermediate :=
      ← fieldOr fs "keep_intermediate_files" default.keepIntermediate Ron.Value.asBool
    runtime := UInt32.ofNat (← nat "runtime_version" default.runtime.toNat "u32" UInt32.size) }

/-- The preferences that a stored text gives. -/
def read? (text : String) : Option Preferences := do
  let (e, v) ← Ron.read text.toList
  ofValue? e v

/-- The part of the program that speaks about preferences. -/
def logTarget : String := "decaf::preferences"

/-- The preferences of a storage directory, and what there is to note about them. -/
def load (d : Disk) (cwd : Place) (storage : FilePath) : Preferences × Option LogRecord :=
  let path := storage.join ⟨fileName⟩
  let quoted := Text.quote .plain path.text
  let unreadable (e : IoError) : Preferences × Option LogRecord :=
    (default, some ⟨.warn, logTarget,
      "Failed to read preferences from " ++ quoted ++ ": " ++ e.message⟩)
  match d.read cwd path with
  | .error e => if e.kind = .notFound then (default, none) else unreadable e
  | .ok bytes =>
    match Text.decode? bytes with
    | none => unreadable .notText
    | some text =>
      match read? text with
      | some p => (p, some ⟨.info, logTarget, "Loaded preferences from " ++ quoted⟩)
      | none => (default, some ⟨.warn, logTarget,
          "Failed to parse preferences from " ++ quoted ++ ": unreadable text"⟩)

/-- Stores preferences. What goes wrong is only noted. -/
def save (h : Host) (storage : FilePath) (p : Preferences) : Act Unit := do
  let quoted := Text.quote .plain storage.text
  match ← (World.ensureDirectory h storage).settle with
  | .error e =>
    World.log .error logTarget ("Failed to ensure storage dir " ++ quoted ++ ": " ++ e.message)
  | .ok () =>
    match ← (World.store h storage fileName (Text.encode p.render)).settle with
    | .error e =>
      World.log .error logTarget ("Failed to write preferences to " ++ quoted ++ ": " ++ e.message)
    | .ok _ => pure ()

end Preferences

end Decompile
