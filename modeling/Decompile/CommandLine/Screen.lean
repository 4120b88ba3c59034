import Decompile.Memory
import Decompile.Preferences
import Decompile.Target.Info
import Decompile.Text.Json
import Decompile.Tool.Catalog

/-!
# What users see

The lines that commands print.

- `Screen`, `Screen.lines`: messages of a job as they arrive. As text, a reading of memory is shown
  only if its band is a new one.
- `messageJson`, `infoJson`: messages and targets as JSON.
- `historyLines`, `catalogLines`, `preferenceLines`: the answers of the other commands.
-/

namespace Decompile.CommandLine

open Text (Json)

/-- A text before blanks, so that it fills a column. -/
def column (width : Nat) (s : String) : String := String.ofList (Text.padEnd width s.toList)

/-- A text behind blanks, so that it fills a column. -/
def rightColumn (width : Nat) (s : String) : String :=
  String.ofList (Text.padStart width ' ' s.toList)

/-- A truth value as a word. -/
def boolText (b : Bool) : String := if b then "true" else "false"

/-- A text in quotes. -/
def quoted (s : String) : String := Text.quote .plain s

/-! ## Messages -/

/-- A member that may be missing. -/
def optionalMember (name : String) (s : Option String) : List (String × Json) :=
  (s.map fun t => (name, Json.text t)).toList

/-- A message as JSON. -/
def messageJson : BusMessage → Json
  | .status key e =>
    .object ([("type", .text "status"), ("targetKey", .text key), ("kind", .text e.kind.word)]
      ++ optionalMember "title" e.title ++ optionalMember "message" e.message
      ++ optionalMember "secondaryMessage" e.secondary
      ++ (e.percent.map fun p => ("percent", Json.float p)).toList)
  | .stageChanged key stage state =>
    .object [("type", .text "stageChanged"), ("targetKey", .text key),
      ("ordinal", .nat stage.ordinal), ("stage", .text stage.kind.word),
      ("state", .text state.word)]
  | .terminal r =>
    .object ([("type", .text "terminal"), ("targetKey", .text r.key),
      ("outcome", .text r.outcome.word), ("ranOutOfMemory", .bool r.ranOutOfMemory),
      ("label", .text r.label)] ++ optionalMember "detail" r.detail)

/-- A reading of memory as a line. -/
def memoryLine (percent : Float) : String :=
  "memory: " ++ String.ofList (Text.fixed 1 percent) ++ "% ("
    ++ (MemoryBand.ofPercent percent).label ++ ")"

/-- How messages are shown. -/
structure Screen where
  /-- As JSON, each on a line. -/
  json : Bool
  /-- The band of the last reading of memory that was shown. -/
  lastBand : Option MemoryBand
  deriving DecidableEq, Repr

namespace Screen

/-- Nothing has been shown. -/
def new (json : Bool) : Screen := ⟨json, none⟩

/-- A notice as text. -/
def showEvent (s : Screen) (e : ProgressEvent) : Screen × List (Channel × String) :=
  match e.kind with
  | .status => (s, [(.output, e.title.getD "-" ++ ": " ++ e.message.getD "")])
  | .error => (s, [(.complaint, e.message.getD "")])
  | .memory =>
    let percent := e.percent.getD 0.0
    let band := MemoryBand.ofPercent percent
    if s.lastBand = some band then (s, [])
    else ({ s with lastBand := some band }, [(.output, memoryLine percent)])

/-- A message: the lines it makes, and the screen after them. -/
def display (s : Screen) (m : BusMessage) : Screen × List (Channel × String) :=
  if s.json then (s, [(.output, String.ofList (messageJson m).compact)])
  else
    match m with
    | .status _ e => s.showEvent e
    | .stageChanged _ stage state =>
      if state = .enqueued then (s, [])
      else (s, [(.output, "[" ++ countText (stage.ordinal + 1) ++ "] " ++ stage.kind.word ++ " "
        ++ state.label)])
    | .terminal r => (s, [(.output, r.label ++ ": " ++ r.outcome.label)])

/-- The lines of several messages. -/
def lines (s : Screen) : List BusMessage → List (Channel × String)
  | [] => []
  | m :: ms =>
    let (next, shown) := s.display m
    shown ++ next.lines ms

end Screen

/-! ## Targets -/

/-- A target as JSON. -/
def infoJson (i : Target.Info) : Json :=
  .object [("targetKey", .text i.key), ("label", (i.label.map Json.text).getD .null),
    ("sourceDirectory", .text i.directory.text), ("hasJavaSource", .bool i.hasJava),
    ("hasResources", .bool i.hasResources), ("isCorrupted", .bool i.isCorrupted),
    ("sizeBytes", .nat i.sizeBytes.toNat)]

/-- How a target stands, in a word. -/
def standing (i : Target.Info) : String :=
  if i.isCorrupted then "incomplete" else if i.isUsable then "ready" else "partial"

/-- A target as a line. -/
def infoLine (i : Target.Info) : String :=
  column 40 i.key ++ " " ++ column 10 (standing i) ++ " java=" ++ boolText i.hasJava
    ++ " resources=" ++ boolText i.hasResources ++ " "
    ++ rightColumn 10 (countText i.sizeBytes.toNat) ++ " bytes  " ++ i.label.getD ""

/-- An interrupted job as a line. -/
def pendingLine (r : JobRecord) : String :=
  column 40 r.submission.targetKey ++ " interrupted ("
    ++ (ChainStatus.ofStates (r.stages.map StageRecord.state)).label
    ++ "); run \x60decaf resume\x60 to restart"

/-- All targets and interrupted jobs of a storage directory. -/
def historyLines (storage : FilePath) (infos : List Target.Info) (pending : List JobRecord) :
    List String :=
  if infos.isEmpty then ["No decompiled targets in " ++ quoted storage.text]
  else infos.map infoLine ++ pending.map pendingLine

/-! ## Tools -/

/-- A backend as a line. -/
def backendLine (c : Catalog) (b : Backend) : String :=
  let tool := c.tool b
  column 12 b.name ++ " " ++ column 12 (if c.has b then "available" else "unavailable")
    ++ " min runtime " ++ column 3 (countText b.leastRuntime.toNat) ++ " "
    ++ column 8 (if b.isDirect then "direct" else "split") ++ " "
    ++ (tool.path.map FilePath.text).getD (tool.name ++ " not found")

/-- The tools of the machine. -/
def catalogLines (c : Catalog) : List String :=
  ("java runtime: " ++ countText c.runtime.toNat) :: Backend.all.map (backendLine c)
    ++ if c.dexToJar.available then []
      else ["split backends need " ++ c.dexToJar.name ++ " on PATH"]

/-! ## Preferences -/

/-- The fields of preferences as texts. -/
def preferenceFields (p : Preferences) : List (String × String) :=
  [("decompiler_backend", quoted p.backend), ("max_attempts", countText p.maxAttempts.toNat),
   ("chunk_size", countText p.chunkSize.toNat),
   ("memory_threshold", countText p.memoryThreshold.toNat),
   ("ignore_libraries", boolText p.ignoreLibraries),
   ("keep_intermediate_files", boolText p.keepIntermediate),
   ("runtime_version", countText p.runtime.toNat)]

/-- Preferences, each field on a line. -/
def preferenceLines (p : Preferences) : List String :=
  "Preferences \x7b" :: (preferenceFields p).map (fun f => "    " ++ f.1 ++ ": " ++ f.2 ++ ",")
    ++ ["\x7d"]

end Decompile.CommandLine
