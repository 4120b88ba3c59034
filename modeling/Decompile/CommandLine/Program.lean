import Decompile.CommandLine.Arguments
import Decompile.CommandLine.Screen
import Decompile.Engine.Resume
import Decompile.Target.Key
import Decompile.World.Logging

/-!
# The program

What each command does. What is printed and logged is noted in the journal.

- `engineHost`: a host whose engine has the preferred runtime and the tools on the search path.
- `runInput`, `showHistory`, `showBackends`, `resumeJobs`, `configure`: the commands. A command
  that fails gives a text.
- `perform`: any command.
- `program`: a whole command line, with its exit status.
-/

namespace Decompile.CommandLine

/-- The part of the program that speaks here. -/
def logTarget : String := "decaf"

/-- What a program runs in. -/
structure Setting where
  host : Host
  /-- The search path for tools. -/
  search : Option String

/-- The host of an engine for a storage directory. -/
def engineHost (s : Setting) (storage : FilePath) (p : Preferences) : Act Host := do
  let w ← get
  return { s.host with
    settings := { Settings.forStorage storage with runtime := p.runtime }
    catalog := Catalog.detect w.disk w.cwd s.search p.runtime }

/-- Prints lines. -/
def printAll : List (Channel × String) → Act Unit
  | [] => pure ()
  | (c, line) :: rest => do
    World.print c line
    printAll rest

/-- Prints lines of output. -/
def printOutput (lines : List String) : Act Unit := printAll (lines.map fun l => (.output, l))

/-! ## Following jobs -/

/-- The messages up to the end of a job, and that end. -/
def upToEnd : List BusMessage → List BusMessage × Option TerminalResult
  | [] => ([], none)
  | .terminal r :: _ => ([.terminal r], some r)
  | m :: ms =>
    let (shown, result) := upToEnd ms
    (m :: shown, result)

/-- Prints what a listener was told, up to the end of a job. -/
def follow (key : String) (id : Nat) (json : Bool) : Try String TerminalResult := do
  let (messages, result) := upToEnd (← World.drain id)
  printAll ((Screen.new json).lines messages)
  match result with
  | some r => return r
  | none => throw ("engine stopped before " ++ key ++ " finished")

/-- The exit status for the end of a job. -/
def statusOf : Outcome → Nat
  | .succeeded => 0
  | .failed => 1
  | .cancelled => 130

/-! ## Running one input -/

/-- The type of an input, by its extension. -/
def inputTypeOf? (p : FilePath) : Option InputType :=
  p.extension?.bind fun e => InputType.ofWord? (String.ofList (Text.lower e.toList))

/-- The request for an input. -/
def submissionFor (p : Preferences) (o : RunOptions) : Except String Submission :=
  match o.input.fileName?, inputTypeOf? o.input with
  | none, _ => .error "input path has no file name"
  | some _, none =>
    .error ("unsupported input " ++ quoted o.input.text ++ ": expected .apk, .jar or .dex")
  | some name, some type => .ok {
      backend := o.backend.getD p.backend
      ignoreLibraries := p.ignoreLibraries && !o.includeLibraries
      maxAttempts := o.maxAttempts.getD p.maxAttempts
      chunkSize := o.chunkSize.getD p.chunkSize
      memoryThreshold := o.memoryThreshold.getD p.memoryThreshold
      keepIntermediate := p.keepIntermediate || o.keepIntermediate
      targetKey := o.targetKey.getD (Target.keyOf name)
      label := o.label.getD name
      inputPath := o.input
      inputType := type }

/-- The failures behind a refusal, each in words. -/
def causesOf : SubmitError → List String
  | .configuration _ | .alreadyActive _ => []
  | .persist (.io e) => [(PersistError.io e).message, e.message]
  | .persist e => [e.message]

/-- The text of a refusal, with what is behind it. -/
def startFailure (key : String) (e : SubmitError) : String :=
  String.intercalate ": " (("could not start job for " ++ key) :: e.message :: causesOf e)

/-- Runs the jobs that wait. -/
def runJobs (h : Host) : Act Unit := do
  let w ← get
  Engine.runWaiting h w.waiting.length

/-- Runs a job and prints what happens. -/
def runSubmission (h : Host) (s : Submission) (json : Bool) : Try String Nat := do
  let key := s.targetKey
  -- before the request is taken on, so that no message is missed
  let id ← World.subscribe key
  match ← (Engine.submit h s).outcome with
  | .error e => throw (startFailure key e)
  | .ok () =>
    World.log .info logTarget
      ("Decompiling into " ++ quoted (h.settings.sources.join ⟨key⟩).text)
    runJobs h
    return statusOf (← follow key id json).outcome

/-- Decompiles one input. -/
def runInput (s : Setting) (storage : FilePath) (p : Preferences) (o : RunOptions) :
    Try String Nat := do
  match submissionFor p o with
  | .error e => throw e
  | .ok submission =>
    let h ← engineHost s storage p
    runSubmission h submission o.json

/-! ## The other commands -/

/-- Prints the targets of a storage directory. -/
def showHistory (s : Setting) (storage : FilePath) (json : Bool) : Act Unit := do
  let w ← get
  let infos := Target.history w.disk w.cwd storage
  if json then
    printOutput [String.ofList (Text.Json.list (infos.map infoJson)).pretty]
  else
    let pending ←
      if infos.isEmpty then pure []
      else Engine.findPending { s.host with settings := .forStorage storage }
    printOutput (historyLines storage infos pending)

/-- Prints the tools of the machine. -/
def showBackends (s : Setting) (p : Preferences) : Act Unit := do
  let w ← get
  printOutput (catalogLines (Catalog.detect w.disk w.cwd s.search p.runtime))

/-- One listener for each key. -/
def subscribeAll : List String → Act (List (String × Nat))
  | [] => return []
  | key :: keys => do
    let id ← World.subscribe key
    return (key, id) :: (← subscribeAll keys)

/-- Prints what happens to resumed jobs. The last that does not succeed gives the exit status. -/
def followAll (resumed : List String) (status : Nat) : List (String × Nat) → Try String Nat
  | [] => return status
  | (key, id) :: rest => do
    if !resumed.contains key then followAll resumed status rest
    else
      World.print .output ("Resuming " ++ key)
      let result ← follow key id false
      followAll resumed
        (if result.outcome = .succeeded then status else statusOf result.outcome) rest

/-- Takes on interrupted jobs again. -/
def resumeJobs (s : Setting) (storage : FilePath) (p : Preferences) : Try String Nat := do
  let h ← engineHost s storage p
  let pending ← Engine.findPending h
  if pending.isEmpty then
    World.print .output "Nothing to resume"
    return 0
  else
    -- before anything is taken on, so that no message is missed
    let listeners ← subscribeAll (pending.map fun r => r.submission.targetKey)
    let resumed ← Engine.resumePending h
    runJobs h
    followAll resumed 0 listeners

/-- Preferences with new values. -/
def updated (p : Preferences) (n : NewPreferences) : Except ConfigurationError Preferences := do
  let backend ← match n.backend with
    | none => pure p.backend
    | some name => (backendNamed name).map Backend.name
  return { p with
    backend := backend
    chunkSize := n.chunkSize.getD p.chunkSize
    maxAttempts := n.maxAttempts.getD p.maxAttempts
    memoryThreshold := n.memoryThreshold.getD p.memoryThreshold
    runtime := n.runtime.getD p.runtime }

/-- Stores new preferences and prints all of them. -/
def configure (s : Setting) (storage : FilePath) (p : Preferences) (n : NewPreferences) :
    Try String Unit := do
  match updated p n with
  | .error e => throw e.message
  | .ok new =>
    new.save s.host storage
    printOutput (preferenceLines new)

/-! ## The whole program -/

/-- The preferences of a storage directory. -/
def loadPreferences (storage : FilePath) : Act Preferences := do
  let w ← get
  let (p, note) := Preferences.load w.disk w.cwd storage
  match note with
  | some r => World.note (.logged r)
  | none => pure ()
  return p

/-- Does what a user wants. -/
def perform (s : Setting) (r : Request) : Try String Nat := do
  let p ← loadPreferences r.storage
  match r.command with
  | .run o => runInput s r.storage p o
  | .history json =>
    showHistory s r.storage json
    return 0
  | .backends =>
    showBackends s p
    return 0
  | .resume => resumeJobs s r.storage p
  | .configure n =>
    configure s r.storage p n
    return 0

/-- The name of the log file in a storage directory. -/
def logName : String := "decaf.log"

/-- Begins the log: on the terminal, and in the storage directory if there can be one. -/
def startLog (s : Setting) (r : Request) : Act OpenLog := do
  let level : LogFilter := some (if r.verbose then .debug else .info)
  match ← (World.ensureDirectory s.host r.storage).settle with
  | .ok () => World.openLog s.host (.both (r.storage.join ⟨logName⟩)) level
  | .error _ => World.openLog s.host .terminal level

/-- What a program leaves behind besides the journal: its exit status, and where its log went. -/
structure Finished where
  status : Nat
  logger : Logger
  deriving DecidableEq, Repr

/-- Does what a user wants, with a log. -/
def runRequest (s : Setting) (c : LineContext) (r : Request) : Act Finished := do
  let log ← startLog s r
  let result ← (perform s r).settle
  let status ← match result with
    | .ok status => pure status
    | .error text => do
      World.print .complaint ("error: " ++ text)
      pure 1
  World.closeLog log c
  return ⟨status, log.logger⟩

/-- How the program is called. -/
def usage : String :=
  "Usage: decaf [--storage <DIR>] [-v] <run|history|backends|resume|configure> [OPTIONS]"

/-- The version of the program. -/
def version : String := "decaf 0.1.0"

/-- Runs a command line. -/
def program (s : Setting) (c : LineContext) (words : List String) : Act Finished := do
  match read words with
  | .ok r => runRequest s c r
  | .error .version =>
    World.print .output version
    return ⟨0, .silent⟩
  | .error .help =>
    World.print .output usage
    return ⟨0, .silent⟩
  | .error .refused =>
    World.print .complaint usage
    return ⟨2, .silent⟩

end Decompile.CommandLine
