import Decompile.Engine.Submit
import Decompile.ProgressLine
import Decompile.Stage.Chunks
import Decompile.Stage.Items
import Decompile.Tool.ProgramRun

/-!
# Work on a chunk

What a stage does to the items of one chunk. File work looks between two files whether memory has
run out; a call of a tool is broken off as soon as it has.

- `extract`, `pack`, `expand`: members of archives as files, and files as members.
- `copyInto`, `copyBelow`: files as they are.
- `callTool`: one call of a tool, its output told as progress.
- `processChunk`: the work of a stage on one chunk.
-/

namespace Decompile.Work

/-- The part of the program that speaks about stages. -/
def logTarget : String := "decaf_engine::stage"

/-- The part of the program that speaks about archives. -/
def archiveLogTarget : String := "decaf_engine::archive"

/-- Stops file work once memory has run out. -/
def checkMemory (h : Host) : Try StageError Unit := do
  World.pause h
  if ← World.isTripped then throw (.outOfMemory "aborted before the chunk finished")

/-- A file operation inside a stage. -/
def onDisk {α : Type} (t : Try IoError α) : Try StageError α := t.mapError .ofIo

/-! ## Archives -/

/-- Writes one member below `dest`. Names that would leave it are skipped. -/
def extractMember (h : Host) (bytes : Bytes) (dest : FilePath) (l : Zip.Listed) :
    Try StageError Unit := do
  match Zip.openMember bytes l with
  | .error e => throw (.ofArchive e)
  | .ok opened =>
    if Zip.namesDirectory l.name then pure ()
    else if !Zip.isEnclosed l.name then
      World.log .warn archiveLogTarget ("Skipping unsafe archive entry " ++ l.name)
    else
      -- the name is not cleaned: what it passes through must exist
      let target := dest.join ⟨l.name⟩
      match target.parent? with
      | some parent => onDisk (World.makeDirectories h parent)
      | none => pure ()
      let place ← onDisk (World.createFile h target false)
      onDisk (World.appendTo h place opened.contents)
      match opened.failure with
      | some e => throw (.ofIo e)
      | none => pure ()

/-- Writes the named members below `dest`, one after another. -/
def extractEach (h : Host) (bytes : Bytes) (ls : List Zip.Listed) (dest : FilePath)
    (checked : Bool) : List String → Try StageError Unit
  | [] => pure ()
  | n :: ns => do
    if checked then checkMemory h
    match Zip.find? n ls with
    | none => throw (.ofArchive .noSuchMember)
    | some l => extractMember h bytes dest l
    extractEach h bytes ls dest checked ns

/-- Writes the named members of an archive below `dest`. -/
def extract (h : Host) (archive : FilePath) (names : List String) (dest : FilePath)
    (checked : Bool) : Try StageError Unit := do
  let bytes ← onDisk (World.readBytes h archive)
  match Zip.read bytes with
  | .error e => throw (.ofArchive e)
  | .ok ls => extractEach h bytes ls dest checked names

/-- Writes all members of an archive below `dest`, and removes the archive. -/
def expand (h : Host) (jar dest : FilePath) : Try StageError Unit := do
  let names ← Items.listMembers h jar
  extract h jar names dest false
  onDisk (World.removeFile h jar)

/-- The part of a path below `root`. -/
def below (root p : FilePath) : Try StageError (List FilePath.Component) :=
  match p.relativeTo? root with
  | some cs => pure cs
  | none => throw (.fatal (p.text ++ " is outside " ++ root.text))

/-- Adds files to the archive at `place`, each under its path below `root`. Returns the members
written so far, and the failure that ended the work. -/
def packEach (h : Host) (root : FilePath) (place : Place) (done : List Zip.Member) :
    List FilePath → Act (List Zip.Member × Option StageError)
  | [] => return (done, none)
  | p :: ps => do
    match ← (do checkMemory h; below root p : Try StageError _).settle with
    | .error e => return (done, some e)
    | .ok relative =>
      let name := FilePath.textOfComponents relative
      match ← (World.readBytes h p).settle with
      -- the member was begun, so the directory lists it without contents
      | .error e => return (done ++ [⟨name, [], true⟩], some (.ofIo e))
      | .ok contents =>
        let m : Zip.Member := ⟨name, contents, true⟩
        match ← (World.appendTo h place (Zip.entryBytes m)).settle with
        | .error e => return (done, some (.ofIo e))
        | .ok () => packEach h root place (done ++ [m]) ps

/-- Packs files into a new archive, each under its path below `root`. An archive that is not
finished still ends with a directory of what it holds. -/
def pack (h : Host) (files : List FilePath) (root jar : FilePath) : Try StageError Unit := do
  match jar.parent? with
  | some parent => onDisk (World.makeDirectories h parent)
  | none => pure ()
  let place ← onDisk (World.createFile h jar false)
  let (members, failure) ← packEach h root place [] files
  -- also after a failure: what is left behind is an archive
  onDisk (World.appendTo h place (Zip.ending members))
  match failure with
  | some e => throw e
  | none => pure ()

/-! ## Files -/

/-- Copies files into a directory, each under its own name. -/
def copyInto (h : Host) (dest : FilePath) : List FilePath → Try StageError Unit
  | [] => pure ()
  | p :: ps => do
    checkMemory h
    match p.fileName? with
    | none => throw (.fatal (p.text ++ " has no file name"))
    | some n => onDisk (World.copyFile h p (dest.join ⟨n⟩))
    copyInto h dest ps

/-- Copies files to the same paths below `dest` that they have below `root`. -/
def copyBelow (h : Host) (root dest : FilePath) : List FilePath → Try StageError Unit
  | [] => pure ()
  | p :: ps => do
    checkMemory h
    let relative ← below root p
    let target := dest.join ⟨FilePath.textOfComponents relative⟩
    match target.parent? with
    | some parent => onDisk (World.makeDirectories h parent)
    | none => pure ()
    onDisk (World.copyFile h p target)
    copyBelow h root dest ps

/-! ## Tools -/

/-- The failure of a stage that has used too much memory. -/
def memoryFailure : StageError := .outOfMemory "memory stayed above the configured threshold"

/-- Breaks a call off once memory has run out. -/
def breakOff : Try StageError Unit := do
  if ← World.isTripped then throw memoryFailure

/-- Tells a line of a tool as progress, if it says something. -/
def tellLine (key title raw : String) : Act Unit := do
  match ProgressLine.normalize raw with
  | some clean =>
    World.log .debug logTarget (title ++ ": " ++ clean)
    World.emit key (.status title clean)
  | none =>
    World.log .trace logTarget
      ("dropped backend line: " ++ String.ofList (Text.trimEnd raw.toList))

/-- A request inside a call of a tool. -/
def answer (h : Host) (s : Submission) : Act Unit := do
  let active ← Engine.isActive s.targetKey
  match ← (Engine.submit h s).settle with
  | .ok () => World.note (.answered active none)
  | .error e => World.note (.answered active (some e))

/-- One thing a tool does. Its own file operations may fail without anybody noticing. -/
def act (h : Host) (key title : String) : Activity → Act Unit
  | .line raw => tellLine key title raw
  | .happening x => World.happen h x
  | .submit s => answer h s
  | .makeDirectories p => do
    let _ ← (World.makeDirectories h p).settle
  | .writeFile p contents => do
    let _ ← (World.writeFile h p contents).settle

/-- What a tool does, until memory has run out. -/
def actAll (h : Host) (key title : String) : List Activity → Try StageError Unit
  | [] => pure ()
  | a :: as => do
    act h key title a
    -- the rest of what the tool would have done never happens
    breakOff
    actAll h key title as

/-- The part of the program that speaks about calls of tools. -/
def toolLogTarget : String := "decaf_engine::executor"

/-- Calls a tool. -/
def callTool (h : Host) (key title : String) (i : Invocation) : Try StageError Unit := do
  World.pause h
  breakOff
  World.log .debug toolLogTarget (launchNotice i)
  let w ← get
  let run := h.tool (World.callsIn w.journal) w.disk i
  World.note (.called i)
  actAll h key title run.activities
  match run.result with
  | .ok () => pure ()
  | .error e => throw e

/-- Calls tools one after another, as long as they succeed. -/
def callAll (h : Host) (key title : String) : List Invocation → Try StageError Unit
  | [] => pure ()
  | i :: is => do
    callTool h key title i
    callAll h key title is

/-! ## Chunks -/

/-- The archive that a chunk of class files is packed into. -/
def chunkJar (l : Layout) (index : Nat) : FilePath :=
  l.intermediate.join
    ⟨"classes-" ++ String.ofList (Text.decimalPadded 4 index) ++ ".jar"⟩

/-- The work of a stage on one chunk. -/
def processChunk (h : Host) (c : StageContext) (kind : StageKind) (index : Nat) (items : Items)
    (chunk : Chunk) : Try StageError Unit :=
  let s := c.job.submission
  let l := c.layout
  match kind, items with
  | .unpack, .members names => extract h s.inputPath (chunk.slice names) l.unpacked true
  | .unpack, .files files => copyInto h l.unpacked (chunk.slice files)
  | .intermediateConvert, .files files =>
    if s.inputType = .jar then pack h (chunk.slice files) l.unpacked (chunkJar l index)
    else
      match planIntermediate c.job.backend h.catalog (chunk.slice files) l.intermediate with
      | .error e => throw e
      | .ok calls => callAll h s.targetKey kind.title calls
  | .convert, .files files =>
    callAll h s.targetKey kind.title
      (planConvert c.job.backend h.catalog (chunk.slice files) l.java)
  | .resources, .files files => copyBelow h l.unpacked l.resources (chunk.slice files)
  | kind, .members _ => throw (.fatal ("no work plan for stage " ++ kind.word))

end Decompile.Work
