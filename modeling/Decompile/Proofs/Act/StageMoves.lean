import Decompile.Proofs.Act.Moves
import Decompile.Stage.Run

/-!
# What a stage does to a world

The work of a stage, begun while memory is watched or not, is a row of moves that call tools, begin
attempts and tell of progress.

- `Admits`: what the work has to be free to do.
- `processChunk_moves`: the work on one chunk.
- `runChunks_moves`: the loop over the chunks, with its attempts.
- `collectAndRun_moves`, `prepareOutput_moves`, `finishOutput_moves`, `discardConsumed_moves`: the
  parts of a stage between which the watch begins and ends.
-/

namespace Decompile

/-- Tools may be called, requests answered meanwhile, and progress told on a key. -/
structure Admits (N : Occurrence → Prop) (key : String) : Prop where
  call : ∀ i, N (.called i)
  answer : ∀ active r, N (.answered active r)
  status : ∀ e : ProgressEvent, e.kind = .status → N (.published key (.status key e))

variable {h : Host} {N : Occurrence → Prop}

/-! ## The items of a stage -/

namespace Items

theorem filesBelow_reads (root : FilePath) (keep : FilePath → Bool) :
    Act.Reads (filesBelow root keep) := fun _ => rfl

section

variable {R : World → World → Prop} [Std.Refl R] [IsTrans World R]

theorem code_keep (l : Layout) (t : InputType) : Try.Keeps R (code l t) := by
  unfold code
  exact .bind (.lift (filesBelow_reads _ _).keeps) fun files => .throwIf fun _ => .pure _

theorem jars_keep (l : Layout) : Try.Keeps R (jars l) := by
  unfold jars
  exact .bind (.lift (filesBelow_reads _ _).keeps) fun files => .throwIf fun _ => .pure _

theorem resources_keep (l : Layout) : Try.Keeps R (resources l) := by
  unfold resources
  exact .bind (.lift (filesBelow_reads _ _).keeps) fun files => .pure _

variable (hread : ∀ p, Try.Keeps R (World.readBytes h p))
include hread

theorem listMembers_keep (archive : FilePath) : Try.Keeps R (listMembers h archive) := by
  unfold listMembers
  refine (hread archive).mapError.bind fun bytes => ?_
  cases Zip.read bytes with
  | error e => exact .throw _
  | ok ls => exact .pure _

theorem input_keep (s : Submission) : Try.Keeps R (input h s) := by
  have hmembers : Try.Keeps R (do
      let names ← listMembers h s.inputPath
      if s.ignoreLibraries then
        return .members (names.filter fun n => !isLibraryPath h.settings.libraryRoots n)
      return .members names : Try StageError Items) := by
    refine (listMembers_keep hread s.inputPath).bind fun names => ?_
    split
    · exact .pure _
    · exact .pure _
  unfold input
  refine .bind (.lift (World.isFile_reads _).keeps) fun there => .throwIf fun _ => ?_
  split
  · exact .pure _
  · exact hmembers

/-- Items are found by reading. -/
theorem collect_keep (c : StageContext) (kind : StageKind) : Try.Keeps R (collect h c kind) := by
  cases kind with
  | unpack => exact input_keep hread _
  | intermediateConvert => exact code_keep _ _
  | convert =>
    show Try.Keeps _ (ite _ _ _)
    split
    · exact code_keep _ _
    · exact jars_keep _
  | resources => exact resources_keep _

end

end Items

/-! ## Work on a chunk -/

namespace Work

theorem checkMemory_moves : Try.Keeps (Moves h N) (checkMemory h) := by
  unfold checkMemory
  refine .bind (.lift World.pause_moves) fun _ => .bind (.lift World.isTripped_reads.keeps) ?_
  intro tripped
  split
  · exact .throw _
  · exact .pure ()

theorem breakOff_moves : Try.Keeps (Moves h N) breakOff := by
  unfold breakOff
  refine .bind (.lift World.isTripped_reads.keeps) fun tripped => ?_
  split
  · exact .throw _
  · exact .pure ()

theorem onDisk_moves {α : Type} {t : Try IoError α} (ht : Try.Keeps (Moves h N) t) :
    Try.Keeps (Moves h N) (onDisk t) :=
  ht.mapError

/-- A directory is made first, if there is one to make. -/
theorem parent_moves {α : Type} (dir : Option FilePath) {k : Unit → Try StageError α}
    (hk : Try.Keeps (Moves h N) (k ())) :
    Try.Keeps (Moves h N) (match dir with
      | some parent => onDisk (World.makeDirectories h parent) >>= k
      | none => k ()) := by
  cases dir with
  | some parent => exact (onDisk_moves (World.makeDirectories_moves parent)).bind fun _ => hk
  | none => exact hk

theorem extractMember_moves (bytes : Bytes) (dest : FilePath) (l : Zip.Listed) :
    Try.Keeps (Moves h N) (extractMember h bytes dest l) := by
  unfold extractMember
  cases Zip.openMember bytes l with
  | error e => exact .throw _
  | ok opened =>
    show Try.Keeps _ (ite _ _ (ite _ _ _))
    split
    · exact .pure ()
    · split
      · exact .lift (World.log_moves _ _ _)
      · refine parent_moves _ (k := fun _ => _) ?_
        refine (onDisk_moves (World.createFile_moves _ false)).bind fun place => ?_
        refine (onDisk_moves (World.appendTo_moves place _)).bind fun _ => ?_
        cases opened.failure with
        | some e => exact .throw _
        | none => exact .pure ()

/-- A member is looked up and written. -/
theorem found_moves (bytes : Bytes) (dest : FilePath) (found : Option Zip.Listed)
    {k : Unit → Try StageError Unit} (hk : ∀ u, Try.Keeps (Moves h N) (k u)) :
    Try.Keeps (Moves h N) (match found with
      | none => throw (.ofArchive .noSuchMember) >>= k
      | some l => extractMember h bytes dest l >>= k) := by
  cases found with
  | none => exact (Try.Keeps.throw _).bind hk
  | some l => exact (extractMember_moves bytes dest l).bind hk

theorem extractEach_moves (bytes : Bytes) (ls : List Zip.Listed) (dest : FilePath)
    (checked : Bool) :
    ∀ ns : List String, Try.Keeps (Moves h N) (extractEach h bytes ls dest checked ns)
  | [] => .pure ()
  | n :: ns => by
    unfold extractEach
    have hrest := extractEach_moves bytes ls dest checked ns
    cases checked with
    | false => exact found_moves bytes dest (Zip.find? n ls) fun _ => hrest
    | true =>
      exact checkMemory_moves.bind fun _ => found_moves bytes dest (Zip.find? n ls) fun _ => hrest

theorem extract_moves (archive : FilePath) (names : List String) (dest : FilePath)
    (checked : Bool) : Try.Keeps (Moves h N) (extract h archive names dest checked) := by
  unfold extract
  refine (onDisk_moves (World.readBytes_moves archive)).bind fun bytes => ?_
  cases Zip.read bytes with
  | error e => exact .throw _
  | ok ls => exact extractEach_moves bytes ls dest checked names

theorem expand_moves (jar dest : FilePath) : Try.Keeps (Moves h N) (expand h jar dest) := by
  unfold expand
  refine (Items.listMembers_keep World.readBytes_moves jar).bind fun names => ?_
  exact (extract_moves jar names dest false).bind fun _ => onDisk_moves (World.removeFile_moves jar)

theorem below_moves (root p : FilePath) : Try.Keeps (Moves h N) (below root p) := by
  unfold below
  cases p.relativeTo? root with
  | some cs => exact .pure cs
  | none => exact .throw _

theorem packEach_moves (root : FilePath) (place : Place) :
    ∀ (done : List Zip.Member) (ps : List FilePath),
      Act.Keeps (Moves h N) (packEach h root place done ps)
  | done, [] => .pure _
  | done, p :: ps => by
    unfold packEach
    have hbelow : Try.Keeps (Moves h N) (do checkMemory h; below root p) :=
      checkMemory_moves.bind fun _ => below_moves root p
    refine hbelow.settle.bind fun r => ?_
    cases r with
    | error e => exact .pure _
    | ok relative =>
      refine (World.readBytes_moves p).settle.bind fun r => ?_
      cases r with
      | error e => exact .pure _
      | ok contents =>
        refine (World.appendTo_moves place _).settle.bind fun r => ?_
        cases r with
        | error e => exact .pure _
        | ok _ => exact packEach_moves root place _ ps

theorem pack_moves (files : List FilePath) (root jar : FilePath) :
    Try.Keeps (Moves h N) (pack h files root jar) := by
  unfold pack
  refine parent_moves _ (k := fun _ => _) ?_
  refine (onDisk_moves (World.createFile_moves jar false)).bind fun place => ?_
  refine .bind (.lift (packEach_moves root place [] files)) fun packed => ?_
  refine (onDisk_moves (World.appendTo_moves place _)).bind fun _ => ?_
  cases packed.2 with
  | some e => exact .throw e
  | none => exact .pure ()

theorem copyInto_moves (dest : FilePath) :
    ∀ ps : List FilePath, Try.Keeps (Moves h N) (copyInto h dest ps)
  | [] => .pure ()
  | p :: ps => by
    unfold copyInto
    refine checkMemory_moves.bind fun _ => ?_
    cases p.fileName? with
    | none => exact (Try.Keeps.throw _).bind fun _ => copyInto_moves dest ps
    | some n =>
      exact (onDisk_moves (World.copyFile_moves p _)).bind fun _ => copyInto_moves dest ps

theorem copyBelow_moves (root dest : FilePath) :
    ∀ ps : List FilePath, Try.Keeps (Moves h N) (copyBelow h root dest ps)
  | [] => .pure ()
  | p :: ps => by
    show Try.Keeps _ (checkMemory h >>= _)
    refine checkMemory_moves.bind fun _ => (below_moves root p).bind fun relative => ?_
    refine parent_moves _ (k := fun _ => _) ?_
    exact (onDisk_moves (World.copyFile_moves p _)).bind fun _ => copyBelow_moves root dest ps

/-! ### Tools -/

variable {key : String} (hN : Admits N key)
include hN

theorem tellLine_moves (title raw : String) : Act.Keeps (Moves h N) (tellLine key title raw) := by
  unfold tellLine
  cases ProgressLine.normalize raw with
  | none => exact World.log_moves _ _ _
  | some clean =>
    exact (World.log_moves _ _ _).bind fun _ => World.emit_moves (hN.status _ rfl)

theorem act_moves (title : String) (a : Activity) : Act.Keeps (Moves h N) (act h key title a) := by
  cases a with
  | line raw => exact tellLine_moves hN title raw
  | happening x => exact World.happen_moves x
  | submit s => exact fun _ => .single (.answer s hN.answer)
  | makeDirectories p => exact (World.makeDirectories_moves p).settle.bind fun _ => .pure ()
  | writeFile p contents => exact (World.writeFile_moves p contents).settle.bind fun _ => .pure ()

theorem actAll_moves (title : String) :
    ∀ as : List Activity, Try.Keeps (Moves h N) (actAll h key title as)
  | [] => .pure ()
  | a :: as => by
    unfold actAll
    refine .bind (.lift (act_moves hN title a)) fun _ => breakOff_moves.bind fun _ => ?_
    exact actAll_moves title as

theorem callTool_moves (title : String) (i : Invocation) :
    Try.Keeps (Moves h N) (callTool h key title i) := by
  unfold callTool
  refine .bind (.lift World.pause_moves) fun _ => breakOff_moves.bind fun _ => ?_
  refine .bind (.lift (World.log_moves _ _ _)) fun _ => .bind .get fun w => ?_
  have hcall : Act.Keeps (Moves h N) (World.note (.called i)) := fun _ => .single (.call i (hN.call i))
  refine .bind (.lift hcall) fun _ => (actAll_moves hN title _).bind fun _ => ?_
  cases (h.tool (World.callsIn w.journal) w.disk i).result with
  | ok _ => exact .pure ()
  | error e => exact .throw e

theorem callAll_moves (title : String) :
    ∀ is : List Invocation, Try.Keeps (Moves h N) (callAll h key title is)
  | [] => .pure ()
  | i :: is => by
    unfold callAll
    exact (callTool_moves hN title i).bind fun _ => callAll_moves title is

omit hN

/-- The work of a stage on one chunk. -/
theorem processChunk_moves {c : StageContext} (hN : Admits N c.job.targetKey) (kind : StageKind)
    (index : Nat) (items : Items) (chunk : Chunk) :
    Try.Keeps (Moves h N) (processChunk h c kind index items chunk) := by
  unfold processChunk
  split
  · exact extract_moves _ _ _ true
  · exact copyInto_moves _ _
  · show Try.Keeps _ (ite _ _ _)
    split
    · exact pack_moves _ _ _
    · cases planIntermediate c.job.backend h.catalog (chunk.slice _) c.layout.intermediate with
      | error e => exact .throw e
      | ok calls => exact callAll_moves hN _ calls
  · exact callAll_moves hN _ _
  · exact copyBelow_moves _ _ _
  · exact .throw _

end Work

/-! ## Running a stage -/

theorem pollCancelled_moves (ticket : Nat) : Act.Keeps (Moves h N) (pollCancelled h ticket) := by
  unfold pollCancelled
  exact World.pause_moves.bind fun _ => (World.isCancelled_reads ticket).keeps

section

variable {c : StageContext} (hN : Admits N c.job.targetKey)
  (hattempt : ∀ kind chunk, N (.attempted c.ticket kind chunk))
include hN hattempt

omit hattempt in
/-- An attempt is begun, and what follows is a row of moves. -/
theorem attempt_comp {R S : World → World → Prop} (kind : StageKind) (index : Nat) (items : Items)
    (chunk : Chunk) (hbegin : Act.Keeps S (World.note (.attempted c.ticket kind index)))
    (hR : ∀ u v w, S u v → Moves h N v w → R u w) :
    Try.Keeps R (attempt h c kind index items chunk) := by
  unfold attempt
  refine .lift_comp (T := Moves h N) hbegin (fun _ => Work.breakOff_moves.bind fun _ => ?_) hR
  refine (Work.processChunk_moves hN kind index items chunk).outcome.bind fun r => ?_
  cases r with
  | ok _ => exact Work.breakOff_moves
  | error e => exact Work.breakOff_moves.bind fun _ => .throw e

theorem attempt_moves (kind : StageKind) (index : Nat) (items : Items) (chunk : Chunk) :
    Try.Keeps (Moves h N) (attempt h c kind index items chunk) := by
  have hbegin : Act.Keeps (Moves h N) (World.note (.attempted c.ticket kind index)) :=
    fun _ => .single (.attempt _ kind index (hattempt kind index))
  exact attempt_comp hN kind index items chunk hbegin fun _ _ _ => Relation.ReflTransGen.trans

theorem runChunk_moves (kind : StageKind) (index : Nat) (items : Items) (chunk : Chunk) :
    ∀ (left : Nat) (failures : UInt32),
      Try.Keeps (Moves h N) (runChunk h c kind index items chunk left failures) := by
  intro left
  induction left with
  | zero =>
    intro failures
    unfold runChunk
    refine (attempt_moves hN hattempt kind index items chunk).outcome.bind fun r => ?_
    cases r with
    | ok _ => exact .pure _
    | error e =>
      refine .throwIf fun _ => .bind (.lift (pollCancelled_moves c.ticket)) fun _ => ?_
      exact .throwIf fun _ => .throw e
  | succ left ih =>
    intro failures
    unfold runChunk
    refine (attempt_moves hN hattempt kind index items chunk).outcome.bind fun r => ?_
    cases r with
    | ok _ => exact .pure _
    | error e =>
      refine .throwIf fun _ => .bind (.lift (pollCancelled_moves c.ticket)) fun _ => ?_
      refine .throwIf fun _ => .bind (.lift (World.log_moves _ _ _)) fun _ => ?_
      exact .bind (.lift (World.emit_moves (hN.status _ rfl))) fun _ => ih (failures + 1)

theorem runChunks_moves (kind : StageKind) (items : Items) (total : Nat) :
    ∀ (index left : Nat) (failures : UInt32) (chunks : List Chunk),
      Try.Keeps (Moves h N) (runChunks h c kind items total index left failures chunks)
  | _, _, _, [] => .pure ()
  | index, left, failures, chunk :: rest => by
    unfold runChunks
    refine .bind (.lift (pollCancelled_moves c.ticket)) fun _ => .throwIf fun _ => ?_
    refine .bind (.lift (World.emit_moves (hN.status _ rfl))) fun _ => ?_
    refine (runChunk_moves hN hattempt kind index items chunk left failures).bind fun spent => ?_
    refine .bind (.lift (pollCancelled_moves c.ticket)) fun _ => .throwIf fun _ => ?_
    exact runChunks_moves kind items total (index + 1) spent.1 spent.2 rest

/-- All that happens while memory is watched. -/
theorem collectAndRun_moves (kind : StageKind) :
    Try.Keeps (Moves h N) (collectAndRun h c kind) := by
  unfold collectAndRun
  refine (Items.collect_keep World.readBytes_moves c kind).bind fun items => ?_
  have hitems : Try.Keeps (Moves h N) (runItems h c kind items) :=
    runChunks_moves hN hattempt kind items _ 0 _ 0 _
  exact hitems.bind fun _ => .pure items

end

/-! ### Before and after the work -/

theorem prepareOutput_moves (c : StageContext) (kind : StageKind) :
    Try.Keeps (Moves h N) (prepareOutput h c kind) := by
  unfold prepareOutput
  show Try.Keeps _ (ite _ _ _)
  split
  · exact (Target.markStarted_moves _).mapError
  · exact (World.ensureDirectory_moves _).mapError

theorem expandSources_moves (dir : FilePath) :
    ∀ ns : List String, Try.Keeps (Moves h N) (expandSources h dir ns)
  | [] => .pure ()
  | n :: ns => by
    unfold expandSources
    refine .bind (.lift (World.isFile_reads _).keeps) fun there => ?_
    split
    · exact (Work.expand_moves _ dir).bind fun _ => expandSources_moves dir ns
    · exact expandSources_moves dir ns

theorem finishOutput_moves (c : StageContext) (kind : StageKind) :
    Try.Keeps (Moves h N) (finishOutput h c kind) := by
  have hmark : Try.Keeps (Moves h N)
      (if kind.hasMarkers then
        (Target.markComplete h (outputOf c.layout kind)).mapError StageError.ofPersist
      else pure ()) := by
    split
    · exact (Target.markComplete_moves _).mapError
    · exact .pure ()
  unfold finishOutput
  show Try.Keeps _ (ite _ _ _)
  split
  · refine (Work.onDisk_moves (World.listDirectory_moves _)).bind fun entries => ?_
    exact (expandSources_moves _ _).bind fun _ => hmark
  · exact hmark

theorem removeFiles_moves : ∀ ps : List FilePath, Try.Keeps (Moves h N) (removeFiles h ps)
  | [] => .pure ()
  | p :: ps => by
    unfold removeFiles
    exact (World.ifPresent_moves (World.removeFile_moves p)).bind fun _ => removeFiles_moves ps

theorem discardConsumed_moves (c : StageContext) (kind : StageKind) (items : Items) :
    Try.Keeps (Moves h N) (discardConsumed h c kind items) := by
  unfold discardConsumed
  split
  · exact .pure ()
  · exact World.ifPresent_moves (World.removeTree_moves _)
  all_goals
    split
    · exact World.ifPresent_moves (World.removeTree_moves _)
    · split
      · exact removeFiles_moves _
      · exact .pure ()

/-! ### All of a stage -/

/-- What files, the watch, notices of progress and the work on the items keep, a stage keeps. -/
theorem runStage_keep {R : World → World → Prop} [Std.Refl R] [IsTrans World R] {c : StageContext}
    {stage : Stage} (hfiles : ∀ u v, Moves h (fun _ => False) u v → R u v)
    (hwatch : ∀ (u : World) (m : Option Monitor), R u { u with monitor := m })
    (hstatus : ∀ e : ProgressEvent, e.kind = .status → Act.Keeps R (World.emit c.job.targetKey e))
    (hwork : Try.Keeps R (collectAndRun h c stage.kind)) : Act.Keeps R (runStage h c stage) := by
  have hlog : ∀ level target text, Act.Keeps R (World.log level target text) :=
    fun _ _ _ => (World.log_moves _ _ _).mono hfiles
  have hpause : Act.Keeps R (World.pause h) := World.pause_moves.mono hfiles
  have hwatched : Try.Keeps R (runWatched h c stage.kind) := by
    unfold runWatched
    refine .bind (.lift fun w => hwatch w _) fun _ => .bind (.lift hpause) fun _ => ?_
    refine hwork.outcome.bind fun r => .bind (.lift hpause) fun _ => ?_
    refine .bind (.lift fun w => hwatch w none) fun _ => ?_
    cases r with
    | error e => exact .throw e
    | ok items =>
      refine .bind (Act.Keeps.mono (finishOutput_moves c stage.kind) hfiles) fun _ => ?_
      split
      · have hdiscard : Try.Keeps R (discardConsumed h c stage.kind items) :=
          Act.Keeps.mono (discardConsumed_moves c stage.kind items) hfiles
        refine hdiscard.outcome.bind fun r => ?_
        cases r with
        | ok _ => exact .pure ()
        | error e => exact .lift (hlog _ _ _)
      · exact .pure ()
  have hall : Try.Keeps R (workOfStage h c stage.kind) := by
    unfold workOfStage
    exact .bind (Act.Keeps.mono (prepareOutput_moves c stage.kind) hfiles) fun _ => hwatched
  unfold runStage
  refine (hlog _ _ _).bind fun _ => (hstatus _ rfl).bind fun _ => hall.settle.bind fun r => ?_
  split
  · exact (hlog _ _ _).bind fun _ => .pure _
  · exact (hlog _ _ _).bind fun _ => .pure _
  · exact (hlog _ _ _).bind fun _ => .pure _

end Decompile
