import Decompile.Proofs.Locality.Files
import Decompile.Proofs.Twins.Run

/-!
# Stages and jobs at the moments they live through

- `Host.Coincides.processChunk`, `collectAndRun`, `runStage`: the work of a stage.
- `Host.Coincides.discardConsumed`: what is done once a stage has succeeded.
- `Host.Coincides.step`: a message that a job takes.
-/

namespace Decompile

variable {a b : Nat} {h k : Host}

namespace Work

theorem breakOff_coincides : Try.Coincides a b breakOff breakOff := by
  unfold breakOff
  refine .bind (.lift (.of_reads World.isTripped_reads)) fun tripped => ?_
  exact .branch (.throw _) (.pure ())

theorem below_coincides (root p : FilePath) : Try.Coincides a b (below root p) (below root p) := by
  unfold below
  cases p.relativeTo? root with
  | some cs => exact .pure cs
  | none => exact .throw _

theorem tellLine_coincides (key title raw : String) :
    Act.Coincides a b (tellLine key title raw) (tellLine key title raw) := by
  unfold tellLine
  cases ProgressLine.normalize raw with
  | none => exact World.log_coincides _ _ _
  | some clean => exact (World.log_coincides _ _ _).bind fun _ => World.publish_coincides _ _

end Work

theorem Items.filesBelow_coincides (root : FilePath) (keep : FilePath → Bool) :
    Act.Coincides a b (filesBelow root keep) (filesBelow root keep) :=
  .of_reads (filesBelow_reads root keep)

namespace Host.Coincides

variable (H : h.Coincides k a b)
include H

/-! ## Work on a chunk -/

theorem checkMemory : Try.Coincides a b (Work.checkMemory h) (Work.checkMemory k) := by
  unfold Work.checkMemory
  refine .bind (.lift H.pause) fun _ => .bind (.lift (.of_reads World.isTripped_reads)) fun _ => ?_
  exact .branch (.throw _) (.pure ())

/-- A directory is made first, if there is one to make. -/
theorem parent {α : Type} (dir : Option FilePath) {f g : Unit → Try StageError α}
    (hf : Try.Coincides a b (f ()) (g ())) :
    Try.Coincides a b (match dir with
      | some parent => Work.onDisk (World.makeDirectories h parent) >>= f
      | none => f ())
      (match dir with
      | some parent => Work.onDisk (World.makeDirectories k parent) >>= g
      | none => g ()) := by
  cases dir with
  | some parent => exact (H.makeDirectories parent).mapError.bind fun _ => hf
  | none => exact hf

theorem extractMember (bytes : Bytes) (dest : FilePath) (l : Zip.Listed) :
    Try.Coincides a b (Work.extractMember h bytes dest l) (Work.extractMember k bytes dest l) := by
  unfold Work.extractMember
  cases Zip.openMember bytes l with
  | error e => exact .throw _
  | ok opened =>
    refine .branch (.pure ()) (.branch (.lift (World.log_coincides _ _ _)) ?_)
    refine H.parent _ (f := fun _ => _) (g := fun _ => _) ?_
    refine (H.createFile _ false).mapError.bind fun place => ?_
    refine (H.appendTo place _).mapError.bind fun _ => ?_
    cases opened.failure with
    | some e => exact .throw _
    | none => exact .pure ()

/-- A member is looked up and written. -/
theorem found (bytes : Bytes) (dest : FilePath) (found : Option Zip.Listed)
    {f g : Unit → Try StageError Unit} (hf : ∀ u, Try.Coincides a b (f u) (g u)) :
    Try.Coincides a b (match found with
      | none => throw (.ofArchive .noSuchMember) >>= f
      | some l => Work.extractMember h bytes dest l >>= f)
      (match found with
      | none => throw (.ofArchive .noSuchMember) >>= g
      | some l => Work.extractMember k bytes dest l >>= g) := by
  cases found with
  | none => exact (Try.Coincides.throw _).bind hf
  | some l => exact (H.extractMember bytes dest l).bind hf

theorem extractEach (bytes : Bytes) (ls : List Zip.Listed) (dest : FilePath) (checked : Bool) :
    ∀ ns : List String, Try.Coincides a b (Work.extractEach h bytes ls dest checked ns)
      (Work.extractEach k bytes ls dest checked ns)
  | [] => .pure ()
  | n :: ns => by
    unfold Work.extractEach
    have hrest := extractEach bytes ls dest checked ns
    cases checked with
    | false => exact H.found bytes dest (Zip.find? n ls) fun _ => hrest
    | true =>
      exact H.checkMemory.bind fun _ => H.found bytes dest (Zip.find? n ls) fun _ => hrest

theorem extract (archive : FilePath) (names : List String) (dest : FilePath) (checked : Bool) :
    Try.Coincides a b (Work.extract h archive names dest checked)
      (Work.extract k archive names dest checked) := by
  unfold Work.extract
  refine (H.readBytes archive).mapError.bind fun bytes => ?_
  cases Zip.read bytes with
  | error e => exact .throw _
  | ok ls => exact H.extractEach bytes ls dest checked names

theorem listMembers (archive : FilePath) :
    Try.Coincides a b (Items.listMembers h archive) (Items.listMembers k archive) := by
  unfold Items.listMembers
  refine (H.readBytes archive).mapError.bind fun bytes => ?_
  cases Zip.read bytes with
  | error e => exact .throw _
  | ok ls => exact .pure _

theorem expand (jar dest : FilePath) :
    Try.Coincides a b (Work.expand h jar dest) (Work.expand k jar dest) := by
  unfold Work.expand
  refine (H.listMembers jar).bind fun names => ?_
  exact (H.extract jar names dest false).bind fun _ => (H.removeFile jar).mapError

theorem packEach (root : FilePath) (place : Place) :
    ∀ (done : List Zip.Member) (ps : List FilePath),
      Act.Coincides a b (Work.packEach h root place done ps) (Work.packEach k root place done ps)
  | done, [] => .pure _
  | done, p :: ps => by
    unfold Work.packEach
    have hbelow : Try.Coincides a b (do Work.checkMemory h; Work.below root p)
        (do Work.checkMemory k; Work.below root p) :=
      H.checkMemory.bind fun _ => Work.below_coincides root p
    refine hbelow.settle.bind fun r => ?_
    cases r with
    | error e => exact .pure _
    | ok relative =>
      refine (H.readBytes p).settle.bind fun r => ?_
      cases r with
      | error e => exact .pure _
      | ok contents =>
        refine (H.appendTo place _).settle.bind fun r => ?_
        cases r with
        | error e => exact .pure _
        | ok _ => exact packEach root place _ ps

theorem pack (files : List FilePath) (root jar : FilePath) :
    Try.Coincides a b (Work.pack h files root jar) (Work.pack k files root jar) := by
  unfold Work.pack
  refine H.parent _ (f := fun _ => _) (g := fun _ => _) ?_
  refine (H.createFile jar false).mapError.bind fun place => ?_
  refine .bind (.lift (H.packEach root place [] files)) fun packed => ?_
  refine (H.appendTo place _).mapError.bind fun _ => ?_
  cases packed.2 with
  | some e => exact .throw e
  | none => exact .pure ()

theorem copyInto (dest : FilePath) : ∀ ps : List FilePath,
    Try.Coincides a b (Work.copyInto h dest ps) (Work.copyInto k dest ps)
  | [] => .pure ()
  | p :: ps => by
    unfold Work.copyInto
    refine H.checkMemory.bind fun _ => ?_
    cases p.fileName? with
    | none => exact (Try.Coincides.throw _).bind fun _ => copyInto dest ps
    | some n => exact (H.copyFile p _).mapError.bind fun _ => copyInto dest ps

theorem copyBelow (root dest : FilePath) : ∀ ps : List FilePath,
    Try.Coincides a b (Work.copyBelow h root dest ps) (Work.copyBelow k root dest ps)
  | [] => .pure ()
  | p :: ps => by
    show Try.Coincides a b (Work.checkMemory h >>= _) (Work.checkMemory k >>= _)
    refine H.checkMemory.bind fun _ => (Work.below_coincides root p).bind fun relative => ?_
    refine H.parent _ (f := fun _ => _) (g := fun _ => _) ?_
    exact (H.copyFile p _).mapError.bind fun _ => copyBelow root dest ps

/-! ### Tools -/

theorem answer (s : Submission) : Act.Coincides a b (Work.answer h s) (Work.answer k s) := by
  unfold Work.answer
  have hactive : Act.Coincides a b (Engine.isActive s.targetKey) (Engine.isActive s.targetKey) :=
    .refl fun _ => Nat.le_refl _
  refine hactive.bind fun active => (H.submit s).settle.bind fun r => ?_
  cases r with
  | ok _ => exact World.note_coincides _
  | error e => exact World.note_coincides _

theorem act (key title : String) (x : Activity) :
    Act.Coincides a b (Work.act h key title x) (Work.act k key title x) := by
  cases x with
  | line raw => exact Work.tellLine_coincides key title raw
  | happening x => exact H.happen x
  | submit s => exact H.answer s
  | makeDirectories p => exact (H.makeDirectories p).settle.bind fun _ => .pure ()
  | writeFile p contents => exact (H.writeFile p contents).settle.bind fun _ => .pure ()

theorem actAll (key title : String) : ∀ as : List Activity,
    Try.Coincides a b (Work.actAll h key title as) (Work.actAll k key title as)
  | [] => .pure ()
  | x :: as => by
    unfold Work.actAll
    refine .bind (.lift (H.act key title x)) fun _ => Work.breakOff_coincides.bind fun _ => ?_
    exact actAll key title as

variable (htool : k.tool = h.tool)
include htool

theorem callTool (key title : String) (i : Invocation) :
    Try.Coincides a b (Work.callTool h key title i) (Work.callTool k key title i) := by
  unfold Work.callTool
  rw [htool]
  refine .bind (.lift H.pause) fun _ => Work.breakOff_coincides.bind fun _ => ?_
  refine .bind (.lift (World.log_coincides _ _ _)) fun _ => .get_bind fun w => ?_
  refine .bind (.lift (World.note_coincides _)) fun _ => (H.actAll key title _).bind fun _ => ?_
  cases (h.tool (World.callsIn w.journal) w.disk i).result with
  | ok _ => exact .pure ()
  | error e => exact .throw e

theorem callAll (key title : String) : ∀ is : List Invocation,
    Try.Coincides a b (Work.callAll h key title is) (Work.callAll k key title is)
  | [] => .pure ()
  | i :: is => by
    unfold Work.callAll
    exact (H.callTool htool key title i).bind fun _ => callAll key title is

/-- The work of a stage on one chunk. -/
theorem processChunk (c : StageContext) (kind : StageKind) (index : Nat) (items : Items)
    (chunk : Chunk) : Try.Coincides a b (Work.processChunk h c kind index items chunk)
      (Work.processChunk k c kind index items chunk) := by
  unfold Work.processChunk
  rw [H.catalog]
  cases items with
  | members names =>
    cases kind with
    | unpack => exact H.extract _ _ _ true
    | intermediateConvert | convert | resources => exact .throw _
  | files ps =>
    cases kind with
    | unpack => exact H.copyInto _ _
    | intermediateConvert =>
      refine .branch (H.pack _ _ _) ?_
      cases planIntermediate c.job.backend h.catalog (chunk.slice ps) c.layout.intermediate with
      | error e => exact .throw e
      | ok calls => exact H.callAll htool _ _ calls
    | convert => exact H.callAll htool _ _ _
    | resources => exact H.copyBelow _ _ _

/-! ## Running a stage -/

omit htool in
theorem input (s : Submission) : Try.Coincides a b (Items.input h s) (Items.input k s) := by
  unfold Items.input
  rw [H.settings]
  refine .bind (.lift (.of_reads (World.isFile_reads _))) fun there => .throwIf fun _ => ?_
  refine .branch (.pure _) ((H.listMembers s.inputPath).bind fun names => ?_)
  exact .branch (.pure _) (.pure _)

omit htool in
theorem collect (c : StageContext) (kind : StageKind) :
    Try.Coincides a b (Items.collect h c kind) (Items.collect k c kind) := by
  have hsome : ∀ (root : FilePath) (keep : FilePath → Bool) (e : StageError),
      Try.Coincides a b (do
        let files ← Items.filesBelow root keep
        if files.isEmpty then throw e
        return .files files : Try StageError Items)
      (do
        let files ← Items.filesBelow root keep
        if files.isEmpty then throw e
        return .files files) := fun root keep e =>
    .bind (.lift (Items.filesBelow_coincides root keep)) fun _ => .throwIf fun _ => .pure _
  cases kind with
  | unpack => exact H.input _
  | intermediateConvert => exact hsome _ _ _
  | convert => exact .branch (hsome _ _ _) (hsome _ _ _)
  | resources => exact .bind (.lift (Items.filesBelow_coincides _ _)) fun _ => .pure _

omit htool in
theorem pollCancelled (ticket : Nat) :
    Act.Coincides a b (pollCancelled h ticket) (pollCancelled k ticket) :=
  H.pause.bind fun _ => .of_reads (World.isCancelled_reads ticket)

theorem attempt (c : StageContext) (kind : StageKind) (index : Nat) (items : Items)
    (chunk : Chunk) : Try.Coincides a b (attempt h c kind index items chunk)
      (attempt k c kind index items chunk) := by
  unfold Decompile.attempt
  refine .bind (.lift (World.note_coincides _)) fun _ => Work.breakOff_coincides.bind fun _ => ?_
  refine (H.processChunk htool c kind index items chunk).outcome.bind fun r => ?_
  cases r with
  | ok _ => exact Work.breakOff_coincides
  | error e => exact Work.breakOff_coincides.bind fun _ => .throw e

theorem runChunk (c : StageContext) (kind : StageKind) (index : Nat) (items : Items)
    (chunk : Chunk) (left : Nat) (failures : UInt32) :
    Try.Coincides a b (runChunk h c kind index items chunk left failures)
      (runChunk k c kind index items chunk left failures) := by
  induction left generalizing failures with
  | zero =>
    unfold Decompile.runChunk
    refine (H.attempt htool c kind index items chunk).outcome.bind fun r => ?_
    cases r with
    | ok _ => exact .pure _
    | error e =>
      refine .throwIf fun _ => .bind (.lift (H.pollCancelled c.ticket)) fun _ => ?_
      exact .throwIf fun _ => .throw e
  | succ left ih =>
    unfold Decompile.runChunk
    refine (H.attempt htool c kind index items chunk).outcome.bind fun r => ?_
    cases r with
    | ok _ => exact .pure _
    | error e =>
      refine .throwIf fun _ => .bind (.lift (H.pollCancelled c.ticket)) fun _ => ?_
      refine .throwIf fun _ => .bind (.lift (World.log_coincides _ _ _)) fun _ => ?_
      exact .bind (.lift (World.publish_coincides _ _)) fun _ => ih (failures + 1)

theorem runChunks (c : StageContext) (kind : StageKind) (items : Items) (total : Nat) :
    ∀ (index left : Nat) (failures : UInt32) (chunks : List Chunk),
      Try.Coincides a b (runChunks h c kind items total index left failures chunks)
        (runChunks k c kind items total index left failures chunks)
  | _, _, _, [] => .pure ()
  | index, left, failures, chunk :: rest => by
    unfold Decompile.runChunks
    refine .bind (.lift (H.pollCancelled c.ticket)) fun _ => .throwIf fun _ => ?_
    refine .bind (.lift (World.publish_coincides _ _)) fun _ => ?_
    refine (H.runChunk htool c kind index items chunk left failures).bind fun spent => ?_
    refine .bind (.lift (H.pollCancelled c.ticket)) fun _ => .throwIf fun _ => ?_
    exact runChunks c kind items total (index + 1) spent.1 spent.2 rest

theorem collectAndRun (c : StageContext) (kind : StageKind) :
    Try.Coincides a b (collectAndRun h c kind) (collectAndRun k c kind) := by
  unfold Decompile.collectAndRun
  refine (H.collect c kind).bind fun items => ?_
  have hrun : Try.Coincides a b (runItems h c kind items) (runItems k c kind items) :=
    H.runChunks htool c kind items _ 0 _ 0 _
  exact hrun.bind fun _ => .pure items

omit htool in
theorem prepareOutput (c : StageContext) (kind : StageKind) :
    Try.Coincides a b (prepareOutput h c kind) (prepareOutput k c kind) := by
  unfold Decompile.prepareOutput
  exact .branch (H.markStarted _).mapError (H.ensureDirectory _).mapError

omit htool in
theorem expandSources (dir : FilePath) : ∀ ns : List String,
    Try.Coincides a b (expandSources h dir ns) (expandSources k dir ns)
  | [] => .pure ()
  | n :: ns => by
    unfold Decompile.expandSources
    refine .bind (.lift (.of_reads (World.isFile_reads _))) fun there => ?_
    split
    · exact (H.expand _ dir).bind fun _ => expandSources dir ns
    · exact expandSources dir ns

omit htool in
theorem finishOutput (c : StageContext) (kind : StageKind) :
    Try.Coincides a b (finishOutput h c kind) (finishOutput k c kind) := by
  rw [finishOutput_eq, finishOutput_eq]
  unfold expandPacked
  refine .bind (.branch ?_ (.pure ())) fun _ => .branch (H.markComplete _).mapError (.pure ())
  exact (H.listDirectory _).mapError.bind fun entries => H.expandSources _ _

omit htool in
theorem removeFiles : ∀ ps : List FilePath,
    Try.Coincides a b (removeFiles h ps) (removeFiles k ps)
  | [] => .pure ()
  | p :: ps => by
    unfold Decompile.removeFiles
    exact (World.ifPresent_coincides (H.removeFile p)).bind fun _ => removeFiles ps

omit htool in
theorem discardConsumed (c : StageContext) (kind : StageKind) (items : Items) :
    Try.Coincides a b (discardConsumed h c kind items) (discardConsumed k c kind items) := by
  have htree : ∀ p, Try.Coincides a b (World.ifPresent (World.removeTree h p))
      (World.ifPresent (World.removeTree k p)) := fun p =>
    World.ifPresent_coincides (H.removeTree p)
  cases kind with
  | unpack => exact .pure ()
  | resources => exact htree _
  | intermediateConvert | convert =>
    refine .branch (htree _) ?_
    cases items with
    | files paths => exact H.removeFiles paths
    | members _ => exact .pure ()

omit htool in
theorem clearAway (c : StageContext) (kind : StageKind) (items : Items) :
    Try.Coincides a b (clearAway h c kind items) (clearAway k c kind items) := by
  unfold Decompile.clearAway
  refine .branch ((H.discardConsumed c kind items).outcome.bind fun r => ?_) (.pure ())
  cases r with
  | ok _ => exact .pure ()
  | error e => exact .lift (World.log_coincides _ _ _)

theorem finishedWork (c : StageContext) (kind : StageKind) :
    Try.Coincides a b (finishedWork h c kind) (finishedWork k c kind) := by
  have hstart : Act.Coincides a b (startMonitor h c) (startMonitor k c) := by
    unfold startMonitor
    rw [H.settings]
    exact .refl fun _ => Nat.le_refl _
  have hstop : Act.Coincides a b stopMonitor stopMonitor := .refl fun _ => Nat.le_refl _
  unfold Decompile.finishedWork
  refine .bind (.lift hstart) fun _ => .bind (.lift H.pause) fun _ => ?_
  refine (H.collectAndRun htool c kind).outcome.bind fun r => .bind (.lift H.pause) fun _ => ?_
  refine .bind (.lift hstop) fun _ => ?_
  cases r with
  | error e => exact .throw e
  | ok items => exact (H.finishOutput c kind).bind fun _ => .pure items

theorem runStage (c : StageContext) (stage : Stage) :
    Act.Coincides a b (runStage h c stage) (runStage k c stage) := by
  have hwork : Try.Coincides a b (workOfStage h c stage.kind) (workOfStage k c stage.kind) := by
    unfold workOfStage
    rw [runWatched_eq, runWatched_eq]
    refine (H.prepareOutput c stage.kind).bind fun _ => ?_
    exact (H.finishedWork htool c stage.kind).bind fun items => H.clearAway c stage.kind items
  unfold Decompile.runStage
  refine (World.log_coincides _ _ _).bind fun _ => (World.publish_coincides _ _).bind fun _ => ?_
  refine hwork.settle.bind fun r => ?_
  split
  · exact (World.log_coincides _ _ _).bind fun _ => .pure _
  · exact (World.log_coincides _ _ _).bind fun _ => .pure _
  · exact (World.log_coincides _ _ _).bind fun _ => .pure _

/-! ## Running a job -/

omit htool in
theorem saveRecord (t : Task) : Act.Coincides a b (t.saveRecord h) (t.saveRecord k) := by
  unfold Task.saveRecord Task.layout
  rw [H.settings]
  refine (H.save t.record _).settle.bind fun r => ?_
  cases r with
  | ok _ => exact .pure ()
  | error e => exact World.log_coincides _ _ _

theorem perform (t : Task) (x : Action) : Act.Coincides a b (t.perform h x) (t.perform k x) := by
  cases x with
  | record e => exact H.now.bind fun time => (H.saveRecord _).bind fun _ => .pure _
  | tell m => exact (World.publish_coincides _ _).bind fun _ => .pure _
  | run s =>
    have hcontext : t.context k = t.context h := by
      unfold Task.context Task.layout
      rw [H.settings]
    unfold Task.perform
    rw [hcontext]
    exact (H.runStage htool _ s).bind fun result => .pure _
  | release => exact .refl fun _ => Nat.le_refl _
  | log r => exact (World.note_coincides _).bind fun _ => .pure _

theorem performAll : ∀ (xs : List Action) (t : Task),
    Act.Coincides a b (t.performAll h xs) (t.performAll k xs)
  | [], t => .pure t
  | x :: xs, t => (H.perform htool t x).bind fun t' => performAll xs t'

/-- One message. -/
theorem step (t : Task) (m : Message) (rest : List Message) :
    Act.Coincides a b (t.step h m rest) (t.step k m rest) :=
  (H.pollCancelled t.ticket).bind fun _ => H.performAll htool _ _

end Host.Coincides

end Decompile
