import Decompile.Proofs.Twins.Work

/-!
# Two runs of a stage

- `Items.On`: what the work of a stage on its items looks at, writes and calls.
- `Twins.prepareOutput`, `collectAndRun`, `finishOutput`, `clearAway`: the parts of a stage.
- `finishedWork`: a stage up to the mark of its end; `finishedWork_gain`: the items it has found.
- `Twins.runStage`: its result.
-/

namespace Decompile

/-! ## Running a stage -/

/-- Unpacks sources that the backend packed. -/
def expandPacked (h : Host) (c : StageContext) (kind : StageKind) : Try StageError Unit :=
  if kind = .convert ∧ c.job.backend.packsSources then
    Work.onDisk (World.listDirectory h (outputOf c.layout kind)) >>= fun entries =>
      expandSources h (outputOf c.layout kind) (entries.map Prod.fst)
  else pure ()

/-- An output is marked as finished once all sources are unpacked. -/
theorem finishOutput_eq (h : Host) (c : StageContext) (kind : StageKind) :
    finishOutput h c kind = expandPacked h c kind >>= fun _ =>
      if kind.hasMarkers then (Target.markComplete h (outputOf c.layout kind)).mapError .ofPersist
      else pure () := by
  unfold finishOutput expandPacked
  by_cases hpacks : kind = .convert ∧ c.job.backend.packsSources
  · simp only [if_pos hpacks, bind_assoc]
  · simp only [if_neg hpacks, pure_bind]

/-- What the work of a stage on its items looks at, writes and calls. -/
def Items.On (P : Realm) (C : Invocation → Prop) (cat : Catalog) (c : StageContext) :
    StageKind → Items → Prop
  | .unpack, .members _ => P.look c.job.submission.inputPath ∧
    ∀ n, Zip.isEnclosed n = true → P.write (c.layout.unpacked.join ⟨n⟩)
  | .unpack, .files ps => ∀ p ∈ ps, P.look p ∧
    ∀ n, p.fileName? = some n → P.write (c.layout.unpacked.join ⟨n⟩)
  | .intermediateConvert, .files ps => (∀ index, P.write (Work.chunkJar c.layout index)) ∧
    ∀ p ∈ ps, P.look p ∧ C (dexToJarCall cat c.layout.intermediate p)
  | .convert, .files ps => ∀ qs, (∀ q ∈ qs, q ∈ ps) →
    ∀ i ∈ planConvert c.job.backend cat qs c.layout.java, C i
  | .resources, .files ps => ∀ p ∈ ps, P.look p ∧
    ∀ cs, p.relativeTo? c.layout.unpacked = some cs →
      P.write (c.layout.resources.join ⟨FilePath.textOfComponents cs⟩)
  | _, .members _ => True

namespace Twins

variable {h k : Host} {R : World → World → Prop} {P : Realm} {At : World → Change → Prop}
  (T : Twins h k R P At) {c : StageContext} (keep : Option Bool)
include T

theorem pollCancelled (ticket : Nat) :
    Act.Pairs R R (pollCancelled h ticket) (pollCancelled k ticket) :=
  T.pause.bind fun _ => T.cancelled ticket

variable {C : Invocation → Prop} (hcall : ∀ title i, C i →
  Try.Pairs R (Work.callTool h c.job.targetKey title i) (Work.callTool k c.job.targetKey title i))
include hcall

omit T in
/-- The calls of a plan, if there is one. -/
theorem planned (title : String) (plan : Except StageError (List Invocation)) :
    (∀ calls, plan = .ok calls → ∀ i ∈ calls, C i) → Try.Pairs R (match plan with
      | .error e => throw e
      | .ok calls => Work.callAll h c.job.targetKey title calls)
      (match plan with
      | .error e => throw e
      | .ok calls => Work.callAll k c.job.targetKey title calls) := by
  intro hplan
  cases plan with
  | error e => exact .throw e
  | ok calls => exact callAll hcall title calls (hplan calls rfl)

/-- The work of a stage on one chunk. -/
theorem processChunk (kind : StageKind) (index : Nat) {items : Items} (chunk : Chunk)
    (hitems : items.On P C h.catalog c kind) :
    Try.Pairs R (Work.processChunk h c kind index items chunk)
      (Work.processChunk k (c.keeping keep) kind index items chunk) := by
  unfold Work.processChunk
  cases items with
  | members names =>
    cases kind with
    | unpack => exact T.extract hitems.2 hitems.1 _ true
    | intermediateConvert => exact .throw _
    | convert => exact .throw _
    | resources => exact .throw _
  | files ps =>
    have hmem : ∀ p ∈ chunk.slice ps, p ∈ ps := fun p hp =>
      List.drop_subset _ _ (List.take_subset _ _ hp)
    cases kind with
    | unpack => exact T.copyInto _ _ fun p hp => hitems p (hmem p hp)
    | intermediateConvert =>
      refine .branch (fun _ => ?_) fun _ => ?_
      · exact T.pack (fun p hp => (hitems.2 p (hmem p hp)).1) _ (hitems.1 index)
      · rw [show planIntermediate (c.keeping keep).job.backend k.catalog _ _ =
          planIntermediate c.job.backend h.catalog _ _ by rw [T.catalog]; rfl]
        refine planned hcall _ _ fun calls hplan i hi => ?_
        unfold planIntermediate at hplan
        split at hplan
        · cases hplan
        · cases hplan
          obtain ⟨p, hp, rfl⟩ := List.mem_map.mp hi
          exact (hitems.2 p (hmem p hp)).2
    | convert =>
      show Try.Pairs R _ (Work.callAll k _ _ (planConvert c.job.backend k.catalog _ _))
      rw [T.catalog]
      exact callAll hcall _ _ (hitems _ hmem)
    | resources => exact T.copyBelow _ _ _ fun p hp => hitems p (hmem p hp)

theorem attempt (kind : StageKind) (index : Nat) {items : Items} (chunk : Chunk)
    (hitems : items.On P C h.catalog c kind) :
    Try.Pairs R (attempt h c kind index items chunk)
      (attempt k (c.keeping keep) kind index items chunk) := by
  unfold Decompile.attempt
  refine .bind (.lift (T.note _ rfl)) fun _ => T.breakOff.bind fun _ => ?_
  refine (T.processChunk keep hcall kind index chunk hitems).outcome.bind fun r => ?_
  cases r with
  | ok _ => exact T.breakOff
  | error e => exact T.breakOff.bind fun _ => .throw e

theorem runChunk (kind : StageKind) (index : Nat) {items : Items} (chunk : Chunk)
    (hitems : items.On P C h.catalog c kind) :
    ∀ (left : Nat) (failures : UInt32),
      Try.Pairs R (runChunk h c kind index items chunk left failures)
        (runChunk k (c.keeping keep) kind index items chunk left failures) := by
  intro left
  induction left with
  | zero =>
    intro failures
    unfold Decompile.runChunk
    refine (T.attempt keep hcall kind index chunk hitems).outcome.bind fun r => ?_
    cases r with
    | ok _ => exact .pure _
    | error e =>
      refine .throwIf fun _ => .bind (.lift (T.pollCancelled c.ticket)) fun _ => ?_
      exact .throwIf fun _ => .throw e
  | succ left ih =>
    intro failures
    unfold Decompile.runChunk
    refine (T.attempt keep hcall kind index chunk hitems).outcome.bind fun r => ?_
    cases r with
    | ok _ => exact .pure _
    | error e =>
      refine .throwIf fun _ => .bind (.lift (T.pollCancelled c.ticket)) fun _ => ?_
      refine .throwIf fun _ => .bind (.lift (T.log _ _ _)) fun _ => ?_
      exact .bind (.lift (T.emit _ _)) fun _ => ih (failures + 1)

theorem runChunks (kind : StageKind) {items : Items} (total : Nat)
    (hitems : items.On P C h.catalog c kind) :
    ∀ (index left : Nat) (failures : UInt32) (chunks : List Chunk),
      Try.Pairs R (runChunks h c kind items total index left failures chunks)
        (runChunks k (c.keeping keep) kind items total index left failures chunks)
  | _, _, _, [] => .pure ()
  | index, left, failures, chunk :: rest => by
    unfold Decompile.runChunks
    refine .bind (.lift (T.pollCancelled c.ticket)) fun _ => .throwIf fun _ => ?_
    refine .bind (.lift (T.emit _ _)) fun _ => ?_
    refine (T.runChunk keep hcall kind index chunk hitems left failures).bind fun spent => ?_
    refine .bind (.lift (T.pollCancelled c.ticket)) fun _ => .throwIf fun _ => ?_
    exact runChunks kind total hitems (index + 1) spent.1 spent.2 rest

/-- The items that a stage finds are worked through alike. -/
theorem collectAndRun (kind : StageKind)
    (hcollect : Try.Pairs R (Items.collect h c kind) (Items.collect k (c.keeping keep) kind))
    (hitems : ∀ u v items w, R u v → (Items.collect h c kind).settle.run u = (.ok items, w) →
      items.On P C h.catalog c kind) :
    Try.Pairs R (collectAndRun h c kind) (collectAndRun k (c.keeping keep) kind) := by
  unfold Decompile.collectAndRun
  refine hcollect.bind_gain hitems fun items hon => ?_
  have hrun : Try.Pairs R (runItems h c kind items) (runItems k (c.keeping keep) kind items) :=
    T.runChunks keep hcall kind _ hon 0 _ 0 _
  exact hrun.bind fun _ => .pure items

omit hcall

/-! ### Before and after the work -/

theorem markStarted {dir : FilePath} (hdir : P.make dir)
    (hnames : ∀ n, Target.isMarkerName n = true → P.take (dir.join ⟨n⟩)) : Try.Pairs R (Target.markStarted h dir) (Target.markStarted k dir) := by
  unfold Target.markStarted
  refine (T.store hdir (hnames _ rfl) []).bind fun _ => ?_
  exact (ifPresent (T.removeFile (hnames _ rfl))).mapError

theorem markComplete {dir : FilePath} (hdir : P.make dir)
    (hnames : ∀ n, Target.isMarkerName n = true → P.take (dir.join ⟨n⟩)) : Try.Pairs R (Target.markComplete h dir) (Target.markComplete k dir) := by
  unfold Target.markComplete
  exact (T.store hdir (hnames _ rfl) []).bind fun _ => .pure ()

theorem prepareOutput (kind : StageKind) (hdir : P.make (outputOf c.layout kind))
    (hnames : ∀ n, Target.isMarkerName n = true → P.take ((outputOf c.layout kind).join ⟨n⟩)) :
    Try.Pairs R (prepareOutput h c kind) (prepareOutput k (c.keeping keep) kind) := by
  unfold Decompile.prepareOutput
  show Try.Pairs R (ite _ _ _) (ite _ _ _)
  split
  · exact (T.markStarted hdir hnames).mapError
  · exact (T.ensureDirectory hdir).mapError

theorem expandSources {dir : FilePath}
    (hdir : ∀ n, Zip.isEnclosed n = true → P.write (dir.join ⟨n⟩)) :
    ∀ ns : List String, (∀ n ∈ ns, P.look (dir.child n) ∧
        ((dir.child n).hasExtension "jar" = true → P.take (dir.child n))) →
      Try.Pairs R (expandSources h dir ns) (expandSources k dir ns)
  | [], _ => .pure ()
  | n :: ns, hns => by
    obtain ⟨hn, hns⟩ := List.forall_mem_cons.mp hns
    unfold Decompile.expandSources
    refine .bind (.lift (T.isFile hn.1)) fun there => ?_
    split
    · next hjar =>
      rw [Bool.and_eq_true] at hjar
      exact (T.expand hdir hn.1 (hn.2 hjar.2)).bind fun _ => expandSources hdir ns hns
    · exact expandSources hdir ns hns

/-- Sources are unpacked alike that the backend packed. -/
theorem expandPacked (kind : StageKind)
    (hsources : kind = .convert → ∀ n, Zip.isEnclosed n = true →
      P.write (c.layout.java.join ⟨n⟩))
    (hlist : kind = .convert → ∀ u v, R u v →
      u.disk.list u.cwd c.layout.java = v.disk.list v.cwd c.layout.java ∧
      ∀ entries, u.disk.list u.cwd c.layout.java = .ok entries → ∀ n ∈ entries.map Prod.fst,
        P.look (c.layout.java.child n) ∧
          ((c.layout.java.child n).hasExtension "jar" = true → P.take (c.layout.java.child n))) :
    Try.Pairs R (expandPacked h c kind) (expandPacked k (c.keeping keep) kind) := by
  unfold Decompile.expandPacked
  refine .branch (fun hconvert => ?_) fun _ => .pure ()
  obtain ⟨rfl, -⟩ := hconvert
  have hentries : Try.Pairs R (Work.onDisk (World.listDirectory h c.layout.java))
      (Work.onDisk (World.listDirectory k c.layout.java)) := by
    unfold World.listDirectory
    exact (T.access.bind fun _ => plan fun u v huv => (hlist rfl u v huv).1).mapError
  refine hentries.bind_gain (φ := fun entries => ∀ n ∈ entries.map Prod.fst,
    P.look (c.layout.java.child n) ∧
      ((c.layout.java.child n).hasExtension "jar" = true → P.take (c.layout.java.child n)))
    (fun u v entries w huv hrun => ?_) fun entries hentries => T.expandSources (hsources rfl) _ hentries
  obtain ⟨_, u', haccess, hplan⟩ := Try.Succeeds.bind (Try.Succeeds.mapError hrun)
  have hrel := (T.access u v huv).2
  replace haccess : (World.access h).settle.run u = (.ok (), u') := haccess
  rw [haccess] at hrel
  replace hplan : (World.plan _).settle.run u' = _ := hplan
  rw [World.run_plan] at hplan
  exact (hlist rfl u' _ hrel).2 entries (Prod.mk.inj hplan).1

theorem finishOutput (kind : StageKind) (hdir : P.make (outputOf c.layout kind))
    (hnames : ∀ n, Target.isMarkerName n = true → P.take ((outputOf c.layout kind).join ⟨n⟩))
    (hsources : kind = .convert → ∀ n, Zip.isEnclosed n = true →
      P.write (c.layout.java.join ⟨n⟩))
    (hlist : kind = .convert → ∀ u v, R u v →
      u.disk.list u.cwd c.layout.java = v.disk.list v.cwd c.layout.java ∧
      ∀ entries, u.disk.list u.cwd c.layout.java = .ok entries → ∀ n ∈ entries.map Prod.fst,
        P.look (c.layout.java.child n) ∧
          ((c.layout.java.child n).hasExtension "jar" = true → P.take (c.layout.java.child n))) :
    Try.Pairs R (finishOutput h c kind) (finishOutput k (c.keeping keep) kind) := by
  rw [finishOutput_eq, finishOutput_eq]
  refine (T.expandPacked keep kind hsources hlist).bind fun _ => .branch (fun _ => ?_) fun _ => .pure ()
  exact (T.markComplete hdir hnames).mapError

end Twins

/-- The work of a stage with memory watched, up to the mark of its end. -/
def finishedWork (h : Host) (c : StageContext) (kind : StageKind) : Try StageError Items := do
  startMonitor h c
  World.pause h
  let result ← (collectAndRun h c kind).outcome
  World.pause h
  stopMonitor
  match result with
  | .error e => throw e
  | .ok items =>
    finishOutput h c kind
    return items

/-- The same, before the mark. -/
def unmarkedWork (h : Host) (c : StageContext) (kind : StageKind) : Try StageError Items := do
  startMonitor h c
  World.pause h
  let result ← (collectAndRun h c kind).outcome
  World.pause h
  stopMonitor
  match result with
  | .error e => throw e
  | .ok items =>
    expandPacked h c kind
    return items

theorem finishedWork_eq (h : Host) (c : StageContext) (kind : StageKind) :
    finishedWork h c kind = unmarkedWork h c kind >>= fun items =>
      (if kind.hasMarkers then (Target.markComplete h (outputOf c.layout kind)).mapError .ofPersist
      else pure ()) >>= fun _ => pure items := by
  unfold finishedWork unmarkedWork
  simp only [bind_assoc]
  refine congrArg _ (funext fun _ => congrArg _ (funext fun _ => congrArg _ (funext fun r => ?_)))
  refine congrArg _ (funext fun _ => congrArg _ (funext fun _ => ?_))
  cases r with
  | error e => rfl
  | ok items => simp only [finishOutput_eq, bind_assoc, pure_bind]

/-- What follows the mark of a stage's end. -/
def clearAway (h : Host) (c : StageContext) (kind : StageKind) (items : Items) :
    Try StageError Unit := do
  if !c.job.submission.keepIntermediate then
    match ← (discardConsumed h c kind items).outcome with
    | .ok () => pure ()
    | .error e =>
      World.log .warn Work.logTarget
        (stageLogHead c kind ++ "could not remove consumed input: " ++ e.message)

/-- What is cleared away does not make a stage fail. -/
theorem clearAway_ok (h : Host) (c : StageContext) (kind : StageKind) (items : Items) (w : World) :
    ((clearAway h c kind items).settle.run w).1 = .ok () := by
  unfold clearAway
  split
  · rw [Try.run_settle_outcome_bind]
    rcases (discardConsumed h c kind items).settle.run w with ⟨e | _, v⟩
    · rfl
    · rfl
  · rfl

/-- A stage is finished before anything is cleared away. -/
theorem runWatched_eq (h : Host) (c : StageContext) (kind : StageKind) :
    runWatched h c kind = finishedWork h c kind >>= clearAway h c kind := by
  unfold runWatched finishedWork
  simp only [bind_assoc]
  refine congrArg _ (funext fun _ => congrArg _ (funext fun _ => congrArg _ (funext fun r => ?_)))
  refine congrArg _ (funext fun _ => congrArg _ (funext fun _ => ?_))
  cases r with
  | error e => rfl
  | ok items =>
    simp only [bind_assoc, pure_bind]
    rfl

namespace Twins

variable {h k : Host} {R : World → World → Prop} {P : Realm} {At : World → Change → Prop}
  (T : Twins h k R P At) {c : StageContext} (keep : Option Bool)
include T

/-- Work with memory watched, and what follows it. -/
theorem watched {kind : StageKind} {f g : Items → Try StageError Items}
    (hwork : Try.Pairs R (Decompile.collectAndRun h c kind) (Decompile.collectAndRun k (c.keeping keep) kind))
    (hfollows : ∀ items, Try.Pairs R (f items) (g items)) :
    Try.Pairs R
      (do
        startMonitor h c
        World.pause h
        let result ← (Decompile.collectAndRun h c kind).outcome
        World.pause h
        stopMonitor
        match result with
        | .error e => throw e
        | .ok items => f items : Try StageError Items)
      (do
        startMonitor k (c.keeping keep)
        World.pause k
        let result ← (Decompile.collectAndRun k (c.keeping keep) kind).outcome
        World.pause k
        stopMonitor
        match result with
        | .error e => throw e
        | .ok items => g items) := by
  have hstart : Act.Pairs R R (startMonitor h c) (startMonitor k (c.keeping keep)) := by
    unfold startMonitor
    rw [T.settings]
    exact T.watch _
  refine .bind (.lift hstart) fun _ => .bind (.lift T.pause) fun _ => ?_
  refine hwork.outcome.bind fun r => .bind (.lift T.pause) fun _ => ?_
  refine .bind (.lift (T.watch none)) fun _ => ?_
  cases r with
  | error e => exact .throw e
  | ok items => exact hfollows items

theorem finishedWork (kind : StageKind)
    (hwork : Try.Pairs R (Decompile.collectAndRun h c kind) (Decompile.collectAndRun k (c.keeping keep) kind))
    (hfinish : Try.Pairs R (Decompile.finishOutput h c kind) (Decompile.finishOutput k (c.keeping keep) kind)) :
    Try.Pairs R (Decompile.finishedWork h c kind)
      (Decompile.finishedWork k (c.keeping keep) kind) :=
  T.watched keep hwork fun items => hfinish.bind fun _ => .pure items

/-- Up to the mark of its end. -/
theorem unmarkedWork (kind : StageKind)
    (hwork : Try.Pairs R (Decompile.collectAndRun h c kind) (Decompile.collectAndRun k (c.keeping keep) kind))
    (hexpand : Try.Pairs R (Decompile.expandPacked h c kind) (Decompile.expandPacked k (c.keeping keep) kind)) :
    Try.Pairs R (Decompile.unmarkedWork h c kind)
      (Decompile.unmarkedWork k (c.keeping keep) kind) :=
  T.watched keep hwork fun items => hexpand.bind fun _ => .pure items

omit T in
/-- The items that are worked through are those that were found. -/
theorem collectAndRun_found {kind : StageKind} {items : Items} {u w : World}
    (hrun : (Decompile.collectAndRun h c kind).Succeeds u items w) :
    ∃ u', (Items.collect h c kind).Succeeds u items u' := by
  unfold Decompile.collectAndRun at hrun
  obtain ⟨found, u', hcollect, hrun⟩ := Try.Succeeds.bind hrun
  obtain ⟨_, _, -, hrun⟩ := Try.Succeeds.bind hrun
  obtain ⟨rfl, -⟩ := Try.Succeeds.pure hrun
  exact ⟨u', hcollect⟩

/-- The items of a stage that is finished were found when its work began, in related worlds. -/
theorem finishedWork_gain {kind : StageKind} {φ : Items → Prop}
    (hfound : ∀ u v items w, R u v → (Items.collect h c kind).Succeeds u items w → φ items)
    {u v : World} (huv : R u v) {items : Items} {w : World}
    (hrun : (Decompile.finishedWork h c kind).Succeeds u items w) : φ items := by
  unfold Decompile.finishedWork at hrun
  replace hrun := Try.Succeeds.lift hrun
  replace hrun := Try.Succeeds.lift hrun
  have hbegun := (T.pause _ _ (T.watch (some ⟨c.job.targetKey,
    MemoryWatch.new c.job.submission.memoryThreshold h.settings.samplesToTrip, false⟩) u v huv).2).2
  replace hrun := Try.Succeeds.outcome hrun
  replace hrun := Try.Succeeds.lift hrun
  replace hrun := Try.Succeeds.lift hrun
  rcases hwork : (Decompile.collectAndRun h c kind).settle.run
      ((World.pause h).run ((startMonitor h c).run u).2).2 with ⟨e | found, u'⟩
  · rw [hwork] at hrun
    exact absurd hrun Try.Succeeds.not_throw
  · rw [hwork] at hrun
    obtain ⟨_, _, -, hrun⟩ := Try.Succeeds.bind hrun
    obtain ⟨rfl, -⟩ := Try.Succeeds.pure hrun
    obtain ⟨u'', hcollect⟩ := collectAndRun_found hwork
    exact hfound _ _ _ _ hbegun hcollect

theorem removeItems (items : Items) :
    (∀ ps, items = .files ps → ∀ p ∈ ps, P.take p) → Try.Pairs R
      (match items with
        | .files paths => Decompile.removeFiles h paths
        | .members _ => pure ())
      (match items with
        | .files paths => Decompile.removeFiles k paths
        | .members _ => pure ()) := by
  intro hfiles
  cases items with
  | members _ => exact .pure ()
  | files ps => exact T.removeFiles ps (hfiles ps rfl)

/-- What a stage has consumed is cleared away alike. -/
theorem clearAway (kind : StageKind) {items : Items}
    (hfiles : kind = .intermediateConvert ∨ kind = .convert → ∀ ps, items = .files ps → ∀ p ∈ ps, P.take p)
    (htrees : ∀ p, p = c.layout.unpacked ∨ p = c.layout.intermediate → ∀ u v, R u v →
      u.disk.planRemoveTree u.cwd p = v.disk.planRemoveTree v.cwd p ∧
        ∀ cs, u.disk.planRemoveTree u.cwd p = .ok cs → ∀ x ∈ cs, ∀ u' v', R u' v' → At u' x) :
    Try.Pairs R (Decompile.clearAway h c kind items)
      (Decompile.clearAway k (c.keeping none) kind items) := by
  have htree : ∀ p, p = c.layout.unpacked ∨ p = c.layout.intermediate →
      Try.Pairs R (World.ifPresent (World.removeTree h p)) (World.ifPresent (World.removeTree k p)) :=
    fun p hp => ifPresent (T.removeTree (htrees p hp))
  have hdiscard : Try.Pairs R (discardConsumed h c kind items)
      (discardConsumed k (c.keeping none) kind items) := by
    cases kind with
    | unpack => exact .pure ()
    | resources => exact htree _ (.inl rfl)
    | intermediateConvert => exact .branch (fun _ => htree _ (.inr rfl)) fun _ => T.removeItems items (hfiles (.inl rfl))
    | convert => exact .branch (fun _ => htree _ (.inr rfl)) fun _ => T.removeItems items (hfiles (.inr rfl))
  unfold Decompile.clearAway
  refine .branch (fun _ => hdiscard.outcome.bind fun r => ?_) fun _ => .pure ()
  cases r with
  | ok _ => exact .pure ()
  | error e => exact .lift (T.log _ _ _)

end Twins

/-! ## The result of a stage -/

/-- What the work of a stage comes to, as a result. -/
def resultOf : Except StageError Unit → StageResult
  | .ok () => .succeeded
  | .error .cancelled => .cancelled
  | .error e => .failed e.isOutOfMemory e.message

namespace Twins

variable {h k : Host} {R : World → World → Prop} {S : StageResult → World → World → Prop}

/-- A stage comes to the same in both worlds if its work does, and what is related after it does not
mind another line in the log. -/
theorem runStage {c c' : StageContext} {stage : Stage} (hkey : c'.job.targetKey = c.job.targetKey)
    (hlabel : c'.job.submission.label = c.job.submission.label)
    (hlog : ∀ r, Act.Pairs R R (World.note (.logged r)) (World.note (.logged r)))
    (hpublish : ∀ key m, Act.Pairs R R (World.publish key m) (World.publish key m))
    (hwork : Act.PairsTo R (fun r => S (resultOf r)) (workOfStage h c stage.kind).settle
      (workOfStage k c' stage.kind).settle)
    (hlast : ∀ r l, Act.Pairs (S r) (S r) (World.note (.logged l)) (World.note (.logged l))) :
    Act.PairsTo R S (Decompile.runStage h c stage) (Decompile.runStage k c' stage) := by
  have hhead : stageLogHead c' stage.kind = stageLogHead c stage.kind := by
    unfold stageLogHead
    rw [hkey]
  unfold Decompile.runStage
  simp only [hhead, hkey, hlabel]
  refine Act.PairsTo.bind (.of_pairs (hlog _)) fun _ => .bind (.of_pairs (hpublish _ _)) fun _ => ?_
  refine hwork.bind fun r => ?_
  rcases r with e | _
  · cases e with
    | cancelled => exact .bind (.of_pairs (hlast .cancelled _)) fun _ => .pure fun _ _ => id
    | _ => exact .bind (.of_pairs (hlast (.failed _ _) _)) fun _ => .pure fun _ _ => id
  · exact .bind (.of_pairs (hlast .succeeded _)) fun _ => .pure fun _ _ => id

/-- What is asked of a realm so that a stage stays in it, whatever items it finds. -/
structure Covers (R : World → World → Prop) (P : Realm) (At : World → Change → Prop)
    (C : Invocation → Prop) (h : Host) (c : StageContext) (kind : StageKind) : Prop where
  output : P.make (outputOf c.layout kind)
  markers : ∀ n, Target.isMarkerName n = true → P.take ((outputOf c.layout kind).join ⟨n⟩)
  sources : kind = .convert → ∀ n, Zip.isEnclosed n = true → P.write (c.layout.java.join ⟨n⟩)
  packed : kind = .convert → ∀ u v, R u v →
    u.disk.list u.cwd c.layout.java = v.disk.list v.cwd c.layout.java ∧
      ∀ entries, u.disk.list u.cwd c.layout.java = .ok entries → ∀ n ∈ entries.map Prod.fst,
        P.look (c.layout.java.child n) ∧ P.take (c.layout.java.child n)
  items : ∀ u v items w, R u v → (Items.collect h c kind).Succeeds u items w →
    items.On P C h.catalog c kind ∧ (kind = .intermediateConvert ∨ kind = .convert →
      ∀ ps, items = .files ps → ∀ p ∈ ps, P.take p)
  trees : ∀ p, p = c.layout.unpacked ∨ p = c.layout.intermediate → ∀ u v, R u v →
    u.disk.planRemoveTree u.cwd p = v.disk.planRemoveTree v.cwd p ∧
      ∀ cs, u.disk.planRemoveTree u.cwd p = .ok cs → ∀ x ∈ cs, ∀ u' v', R u' v' → At u' x

/-- A stage runs alike in both worlds if the realm covers it, the same items are found and its calls
go together. -/
theorem stage {R : World → World → Prop} {P : Realm} {At : World → Change → Prop}
    {C : Invocation → Prop} (T : Twins h k R P At) {c : StageContext} {stage : Stage}
    (hcovers : Covers R P At C h c stage.kind)
    (hcall : ∀ title i, C i → Try.Pairs R (Work.callTool h c.job.targetKey title i)
      (Work.callTool k c.job.targetKey title i))
    (hcollect : Try.Pairs R (Items.collect h c stage.kind)
      (Items.collect k (c.keeping none) stage.kind)) :
    Act.Pairs R R (Decompile.runStage h c stage) (Decompile.runStage k (c.keeping none) stage) := by
  refine runStage (S := fun _ => R) rfl rfl (fun _ => T.note _ rfl) T.publish ?_
    fun _ _ => T.note _ rfl
  unfold workOfStage
  simp only [runWatched_eq]
  refine Act.PairsTo.of_pairs ((T.prepareOutput none _ hcovers.output hcovers.markers).bind fun _ => ?_)
  have hwork := T.collectAndRun none hcall _ hcollect fun u v items w huv hrun =>
    (hcovers.items u v items w huv hrun).1
  have hfinish := T.finishOutput none _ hcovers.output hcovers.markers hcovers.sources fun hconvert u v huv =>
    ⟨(hcovers.packed hconvert u v huv).1, fun entries hentries n hn =>
      ((hcovers.packed hconvert u v huv).2 entries hentries n hn).imp_right fun htake _ => htake⟩
  refine (T.finishedWork none _ hwork hfinish).bind_gain (fun u v items w huv hrun =>
    T.finishedWork_gain hcovers.items huv hrun) fun items hitems => ?_
  exact T.clearAway _ hitems.2 hcovers.trees

end Twins

end Decompile
