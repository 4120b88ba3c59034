import Decompile.Proofs.Provenance.Work

/-!
# A stage has its sources

- `ItemsFound`, `Items.collect_found`: what a stage knows of its items.
- `Work.processChunk_goes`: the work of a stage on one chunk.
- `runStage_goes`: whatever a stage writes, and whatever it gives to a tool, has its source.
-/

namespace Decompile

variable {h : Host} {c : StageContext} {own : Prop} {w₀ : World} {φ : List Occurrence → Prop}

/-! ## Items -/

/-- What a stage knows of its items. -/
def ItemsFound (c : StageContext) (w₀ : World) (past : List Occurrence) : StageKind → Items → Prop
  | _, .members _ => True
  | .unpack, .files ps => ∀ p ∈ ps, p = c.job.submission.inputPath
  | .intermediateConvert, .files ps => ∀ p ∈ ps, Found w₀ c.layout.unpacked past p
  | .convert, .files ps =>
    ∀ p ∈ ps, Found w₀ c.layout.unpacked past p ∨ Found w₀ c.layout.intermediate past p
  | .resources, .files ps => ∀ p ∈ ps, Found w₀ c.layout.unpacked past p

namespace Items

theorem filesBelow_found {w : World} (hw : Tracked h c own w₀ w) {root : FilePath}
    {keep : FilePath → Bool} {p : FilePath} (hp : p ∈ ((filesBelow root keep).run w).1) :
    Found w₀ root (w₀.since w) p := by
  have hmem : p ∈ ((w.disk.walk w.cwd root).map Disk.Found.path).filter keep := hp
  obtain ⟨f, hf, rfl⟩ := List.mem_map.mp (List.mem_filter.mp hmem).1
  obtain ⟨hpath, hnames, x, hfound⟩ := hw.plain.walk hf
  rw [hw.disk, hw.cwd] at hfound
  exact ⟨f.names, f.contents, x, hpath, hnames, hfound⟩

/-- Files that have to be there are those that are found. -/
theorem someBelow_run {w v : World} {root : FilePath} {keep : FilePath → Bool} {e : StageError}
    {items : Items}
    (hrun : (Try.settle (do
      let files ← filesBelow root keep
      if files.isEmpty then throw e
      return .files files : Try StageError Items)).run w = (.ok items, v)) :
    v = w ∧ items = .files ((filesBelow root keep).run w).1 := by
  rw [Try.run_settle_lift_bind] at hrun
  revert hrun
  show (Try.settle (ite _ _ _)).run w = _ → _
  split
  · exact fun hrun => by cases (Prod.mk.inj hrun).1
  · intro hrun
    obtain ⟨hitems, hworld⟩ := Prod.mk.inj hrun
    exact ⟨hworld.symm, (Except.ok.inj hitems).symm⟩

/-- Once the input is unpacked, a stage works through the files below a directory of the target. -/
theorem collect_run {w v : World} {kind : StageKind} (hkind : kind ≠ .unpack) {items : Items}
    (hrun : (collect h c kind).settle.run w = (.ok items, v)) :
    v = w ∧ ∃ root keep, items = .files ((filesBelow root keep).run w).1 ∧
      (root = c.layout.unpacked ∨ kind = .convert ∧ root = c.layout.intermediate) := by
  cases kind with
  | unpack => exact absurd rfl hkind
  | intermediateConvert =>
    obtain ⟨hv, hitems⟩ := someBelow_run hrun
    exact ⟨hv, _, _, hitems, .inl rfl⟩
  | convert =>
    revert hrun
    show (Try.settle (ite _ _ _)).run w = _ → _
    split
    · intro hrun
      obtain ⟨hv, hitems⟩ := someBelow_run hrun
      exact ⟨hv, _, _, hitems, .inl rfl⟩
    · intro hrun
      obtain ⟨hv, hitems⟩ := someBelow_run hrun
      exact ⟨hv, _, _, hitems, .inr ⟨rfl, rfl⟩⟩
  | resources =>
    obtain ⟨hitems, hv⟩ := Prod.mk.inj hrun
    exact ⟨hv.symm, _, _, (Except.ok.inj hitems).symm, .inl rfl⟩

/-- The only file that unpacking works on is the input. -/
theorem input_yields (s : Submission) :
    Try.Yields (fun items => ∀ ps, items = .files ps → ps = [s.inputPath]) (input h s) := by
  have hmembers : Try.Yields (fun items => ∀ ps, items = .files ps → ps = [s.inputPath]) (do
      let names ← listMembers h s.inputPath
      if s.ignoreLibraries then
        return .members (names.filter fun n => !isLibraryPath h.settings.libraryRoots n)
      return .members names : Try StageError Items) := by
    refine .bind fun names => ?_
    split
    · exact .pure nofun
    · exact .pure nofun
  unfold input
  refine .bind fun there => .throwIf fun _ => ?_
  split
  · exact .pure fun ps hps => (Items.files.inj hps).symm
  · exact hmembers

/-- What a stage works through it has found, or it is the input. -/
theorem collect_found {w v : World} (hw : Tracked h c own w₀ w) {kind : StageKind} {items : Items}
    (hrun : (collect h c kind).settle.run w = (.ok items, v)) :
    ItemsFound c w₀ (w₀.since v) kind items := by
  by_cases hkind : kind = .unpack
  · subst hkind
    have hinput := input_yields _ _ _ _ hrun
    cases items with
    | members names => trivial
    | files ps => exact fun p hp => List.mem_singleton.mp (hinput ps rfl ▸ hp)
  · obtain ⟨rfl, root, keep, rfl, hroot⟩ := collect_run hkind hrun
    have hfound : ∀ p ∈ ((filesBelow root keep).run v).1, Found w₀ root (w₀.since v) p :=
      fun p hp => filesBelow_found hw hp
    rcases hroot with rfl | ⟨rfl, rfl⟩
    · cases kind with
      | unpack => exact absurd rfl hkind
      | convert => exact fun p hp => .inl (hfound p hp)
      | intermediateConvert | resources => exact hfound
    · exact fun p hp => .inr (hfound p hp)

end Items

/-! ## A chunk -/

theorem Chunk.mem_of_mem_slice {α : Type} {chunk : Chunk} {items : List α} {a : α}
    (ha : a ∈ chunk.slice items) : a ∈ items :=
  List.mem_of_mem_drop (List.mem_of_mem_take ha)

section

variable (hcwd : ∀ n ∈ w₀.cwd, IsEntryName n)

include hcwd

/-- The work of a stage on one chunk of what it has found. -/
theorem Work.processChunk_goes {kind : StageKind} {items : Items}
    (hitems : ∀ past, φ past → ItemsFound c w₀ past kind items) (index : Nat) (chunk : Chunk) :
    Try.Keeps (Goes h c own w₀ φ) (processChunk h c kind index items chunk) := by
  unfold processChunk
  split
  · next names =>
    refine extract_goes hcwd _ _ _ true
      fun past bytes ls l opened hknown hread hl henclosed hopen => ?_
    obtain ⟨earlier, hearlier, -, hheld⟩ := hknown
    exact .unpacked (.member hearlier hheld hread hl henclosed hopen)
  · next files =>
    refine .known (P := ∀ p ∈ files, p = c.job.submission.inputPath) hitems fun hinput => ?_
    exact copyInto_goes hcwd _ fun p hp => hinput p (Chunk.mem_of_mem_slice hp)
  · next files =>
    show Try.Keeps _ (ite _ _ _)
    split
    · exact pack_goes hcwd _ _ rfl fun e hφ p hp => hitems e hφ p (Chunk.mem_of_mem_slice hp)
    · cases hplan : planIntermediate c.job.backend h.catalog (chunk.slice files)
        c.layout.intermediate with
      | error e => exact .throw e
      | ok calls =>
        refine callAll_goes hcwd _ _ calls fun i hi past hφ => ?_
        obtain ⟨earlier, hearlier, hφ⟩ := hφ
        refine ⟨earlier, chunk.slice files, hearlier, .inr ?_, fun p hp => .inl ?_⟩
        · unfold planIntermediate at hplan
          split at hplan
          · cases hplan
          · obtain rfl := Except.ok.inj hplan
            exact hi
        · exact hitems earlier hφ p (Chunk.mem_of_mem_slice hp)
  · next files =>
    refine callAll_goes hcwd _ _ _ fun i hi past hφ => ?_
    obtain ⟨earlier, hearlier, hφ⟩ := hφ
    refine ⟨earlier, chunk.slice files, hearlier, .inl hi, fun p hp => ?_⟩
    exact hitems earlier hφ p (Chunk.mem_of_mem_slice hp)
  · next files =>
    exact copyBelow_goes hcwd _ fun e hφ p hp => hitems e hφ p (Chunk.mem_of_mem_slice hp)
  · exact .throw _

/-! ## The chunks of a stage -/

theorem attempt_goes {kind : StageKind} {items : Items}
    (hitems : ∀ past, φ past → ItemsFound c w₀ past kind items) (index : Nat) (chunk : Chunk) :
    Try.Keeps (Goes h c own w₀ φ) (attempt h c kind index items chunk) := by
  unfold attempt
  refine .bind (.lift (World.note_still rfl).goes) fun _ => ?_
  refine Work.breakOff_still.goes.bind fun _ => ?_
  refine (Work.processChunk_goes hcwd hitems index chunk).outcome.bind fun r => ?_
  cases r with
  | ok _ => exact Work.breakOff_still.goes
  | error e => exact Work.breakOff_still.goes.bind fun _ => .throw e

omit hcwd in
theorem pollCancelled_still (ticket : Nat) : Act.Keeps Still (pollCancelled h ticket) := by
  unfold pollCancelled
  exact World.pause_still.bind fun _ => (World.isCancelled_reads ticket).keeps

theorem runChunk_goes {kind : StageKind} {items : Items}
    (hitems : ∀ past, φ past → ItemsFound c w₀ past kind items) (index : Nat) (chunk : Chunk) :
    ∀ (left : Nat) (failures : UInt32),
      Try.Keeps (Goes h c own w₀ φ) (runChunk h c kind index items chunk left failures) := by
  have hattempt : Try.Keeps (Goes h c own w₀ φ) (attempt h c kind index items chunk) :=
    attempt_goes hcwd hitems index chunk
  intro left
  induction left with
  | zero =>
    intro failures
    unfold runChunk
    refine hattempt.outcome.bind fun r => ?_
    cases r with
    | ok _ => exact .pure _
    | error e =>
      refine .throwIf fun _ => .bind (.lift (pollCancelled_still c.ticket).goes) fun _ => ?_
      exact .throwIf fun _ => .throw e
  | succ left ih =>
    intro failures
    unfold runChunk
    refine hattempt.outcome.bind fun r => ?_
    cases r with
    | ok _ => exact .pure _
    | error e =>
      refine .throwIf fun _ => .bind (.lift (pollCancelled_still c.ticket).goes) fun _ => ?_
      refine .throwIf fun _ => .bind (.lift (World.log_still _ _ _).goes) fun _ => ?_
      exact .bind (.lift (World.publish_still _ _).goes) fun _ => ih (failures + 1)

theorem runChunks_goes {kind : StageKind} {items : Items}
    (hitems : ∀ past, φ past → ItemsFound c w₀ past kind items) (total : Nat) :
    ∀ (index left : Nat) (failures : UInt32) (chunks : List Chunk),
      Try.Keeps (Goes h c own w₀ φ) (runChunks h c kind items total index left failures chunks)
  | _, _, _, [] => .pure ()
  | index, left, failures, chunk :: rest => by
    unfold runChunks
    refine .bind (.lift (pollCancelled_still c.ticket).goes) fun _ => .throwIf fun _ => ?_
    refine .bind (.lift (World.publish_still _ _).goes) fun _ => ?_
    refine (runChunk_goes hcwd hitems index chunk left failures).bind fun spent => ?_
    refine .bind (.lift (pollCancelled_still c.ticket).goes) fun _ => .throwIf fun _ => ?_
    exact runChunks_goes hitems total (index + 1) spent.1 spent.2 rest

theorem runItems_goes {kind : StageKind} {items : Items}
    (hitems : ∀ past, φ past → ItemsFound c w₀ past kind items) :
    Try.Keeps (Goes h c own w₀ φ) (runItems h c kind items) :=
  runChunks_goes hcwd hitems _ 0 _ 0 _

/-- The items that were worked through had been found. -/
theorem collectAndRun_found {kind : StageKind} {items : Items} {w v : World}
    (hw : Tracked h c own w₀ w) (hheld : w.registry.holder? c.job.targetKey = some c.ticket)
    (hrun : (collectAndRun h c kind).settle.run w = (.ok items, v)) :
    Once (fun past => ItemsFound c w₀ past kind items) (w₀.since v) := by
  unfold collectAndRun at hrun
  rw [Try.run_settle_bind] at hrun
  rcases hcollect : (Items.collect h c kind).settle.run w with ⟨e | found, u⟩
  · rw [hcollect] at hrun
    cases (Prod.mk.inj hrun).1
  · have hs := (Items.collect_keep World.readBytes_still c kind).of_run hcollect
    have hfound := Items.collect_found hw hcollect
    rw [hcollect] at hrun
    have hitems : Try.Keeps (Goes h c own w₀ fun past => ItemsFound c w₀ past kind found)
        (runItems h c kind found) := runItems_goes hcwd fun _ => id
    replace hrun : (Try.settle (runItems h c kind found >>= fun _ => pure found)).run u =
      (.ok items, v) := hrun
    rw [Try.run_settle_bind] at hrun
    rcases hwork : (runItems h c kind found).settle.run u with ⟨e | _, u'⟩
    · rw [hwork] at hrun
      cases (Prod.mk.inj hrun).1
    · rw [hwork] at hrun
      obtain ⟨hsame, rfl⟩ := Prod.mk.inj hrun
      obtain rfl := Except.ok.inj hsame
      obtain ⟨-, -, hlater⟩ := hitems.of_run hwork (hw.still hs) ((hs.holder _).trans hheld)
        (.here hfound)
      exact ⟨_, hlater, hfound⟩

/-! ## Before and after -/

omit hcwd in
/-- What was found in a directory of the job may be discarded. -/
theorem Found.discards (kind : StageKind) {past : List Occurrence} {p : FilePath}
    (hp : Found w₀ (outputOf c.layout kind) past p) : Discards c w₀ (p.place w₀.cwd) := by
  obtain ⟨names, -, -, rfl, hnames, -⟩ := hp
  exact ⟨kind, names, FilePath.place_childPath hnames⟩

end

end Decompile
