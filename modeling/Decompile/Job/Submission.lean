import Decompile.Path
import Decompile.Stage
import Decompile.Text.Decimal

/-!
# Submissions

What a user asks for, and the checks it passes before anything runs.

- `Submission`: the request.
- `ConfigurationError`: why a request is turned down, with its `message`.
- `Submission.check`: the checks that do not depend on the machine.
- `Job.plan`: a request with its backend and its chain.
-/

namespace Decompile

/-- The kind of file to be decompiled. -/
inductive InputType where
  | apk
  | jar
  | dex
  deriving DecidableEq, Repr

namespace InputType

/-- All kinds. -/
def all : List InputType := [apk, jar, dex]

/-- The word for a kind. -/
def word : InputType → String
  | apk => "apk"
  | jar => "jar"
  | dex => "dex"

/-- The input is an archive with members; the only other kind is copied as it is. -/
def isArchive : InputType → Bool
  | apk | jar => true
  | dex => false

/-- The kind with this word. -/
def ofWord? (s : String) : Option InputType := all.find? fun k => k.word == s

theorem ofWord?_word (t : InputType) : ofWord? t.word = some t := by cases t <;> decide +kernel

end InputType

/-- A request to decompile one input. -/
structure Submission where
  /-- The backend as the user spelled it. -/
  backend : String
  /-- Bundled libraries are left out. -/
  ignoreLibraries : Bool
  /-- How many attempts of a stage may fail before it gives up. -/
  maxAttempts : UInt32
  /-- How many items are worked on at a time. -/
  chunkSize : UInt64
  /-- The memory use in percent above which a stage gives up. -/
  memoryThreshold : UInt8
  /-- What a stage has consumed is kept. -/
  keepIntermediate : Bool
  /-- The name of the target's directory. -/
  targetKey : String
  /-- What the input is called in messages. -/
  label : String
  inputPath : FilePath
  inputType : InputType
  deriving DecidableEq, Repr

/-- Why a request is turned down before any stage runs. -/
inductive ConfigurationError where
  | unknownBackend (name : String)
  | backendUnavailable (backend : Backend)
  | invalidTargetKey (key : String)
  | missingInput
  | zeroAttempts
  | zeroChunkSize
  | thresholdOutOfRange (threshold : UInt8)
  deriving DecidableEq, Repr

/-- The text of a refusal. -/
def ConfigurationError.message : ConfigurationError → String
  | .unknownBackend name => "unknown decompiler backend '" ++ name ++ "'"
  | .backendUnavailable b =>
    "decompiler backend '" ++ b.name ++ "' is not available on this runtime"
  | .invalidTargetKey key => "target key '" ++ key ++ "' is not usable as a directory name"
  | .missingInput => "input file path is empty"
  | .zeroAttempts => "max attempts must be at least 1"
  | .zeroChunkSize => "chunk size must be at least 1"
  | .thresholdOutOfRange t =>
    "memory threshold " ++ String.ofList (Text.decimal t.toNat) ++ " is outside 0..=100"

/-- The key is a single name that a directory can have. -/
def isTargetKey (key : String) : Bool :=
  key ≠ "" && key ≠ "." && key ≠ ".." &&
    !key.toList.any fun c => c == '/' || c == '\\' || c == '\x00'

/-- The first fault of a request that shows without looking at the machine. -/
def Submission.check (s : Submission) : Except ConfigurationError Unit :=
  if !isTargetKey s.targetKey then .error (.invalidTargetKey s.targetKey)
  else if s.inputPath.text = "" then .error .missingInput
  else if s.maxAttempts = 0 then .error .zeroAttempts
  else if s.chunkSize = 0 then .error .zeroChunkSize
  else if 100 < s.memoryThreshold then .error (.thresholdOutOfRange s.memoryThreshold)
  else .ok ()

/-- The chain of a backend that can run. -/
def chainIfAvailable (b : Backend) (available : Backend → Bool) :
    Except ConfigurationError (List Stage) :=
  if available b then .ok (chainOf b) else .error (.backendUnavailable b)

/-- The backend of a name, or the refusal. -/
def backendNamed (name : String) : Except ConfigurationError Backend :=
  match Backend.ofName? name with
  | some b => .ok b
  | none => .error (.unknownBackend name)

/-- A request that has passed all checks. -/
structure Job where
  submission : Submission
  backend : Backend
  chain : List Stage
  deriving DecidableEq, Repr

/-- The key of the job's target. -/
def Job.targetKey (j : Job) : String := j.submission.targetKey

/-- Checks a request, and finds its backend and chain. -/
def Job.plan (s : Submission) (available : Backend → Bool) : Except ConfigurationError Job := do
  s.check
  let b ← backendNamed s.backend
  let chain ← chainIfAvailable b available
  return ⟨s, b, chain⟩

end Decompile
