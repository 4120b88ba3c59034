import Decompile.Proofs.Conservation.Unpack
import Decompile.Proofs.Unpacking.Chunks

/-!
# Unpacking does not depend on the chunks

On a host without faults, how the input is cut into chunks and how often a chunk may be tried makes
no difference to what unpacking leaves behind.

- `StageContext.Unpackable`: an archive outside the directory it is unpacked to, which has no links.
- `prepareOutput_comes`, `Items.input_comes`, `runItems_reaches`: the parts of the stage.
- `Work.unpackAll`: the members that are wanted are written one after the other, once.
- `StageContext.Unpackable.runStage_steady`: the stage leaves what this leaves, and reports it.
- `way_back_changes_failure`: a second attempt may meet a file in the way from elsewhere.
-/

namespace Decompile

/-! ## The stage -/

/-- What the stage has to find: an archive that lies outside the directory it is unpacked to, and no
links in this directory, which may be missing. -/
structure StageContext.Unpackable (c : StageContext) (d : Disk) (cwd root : Place) (bytes : Bytes) :
    Prop where
  isArchive : c.job.submission.inputType.isArchive = true
  target : d.entryAt cwd true c.layout.root = .ok (root, .directory)
  linkless : ∀ rest t, d.find? (root ++ [areaOf .unpack] ++ rest) ≠ some (.link t)
  rooted : d.Rooted (root ++ [areaOf .unpack])
  archive : ∃ q x, d.entryAt cwd true c.job.submission.inputPath = .ok (q, .file bytes x) ∧
    ¬ root ++ [areaOf .unpack] <+: q

namespace StageContext.Unpackable

variable {c : StageContext} {d : Disk} {cwd root : Place} {bytes : Bytes}

/-- Where the directory to be written stands. -/
theorem locate_unpacked (hc : c.Unpackable d cwd root bytes) (through : Bool) :
    d.locate cwd through c.layout.unpacked = .ok (root ++ [areaOf .unpack], .plain) := by
  refine Disk.locate_name hc.target (isEntryName_areaOf .unpack) (by decide) (by decide) (fun t hlink => ?_)
    through
  exact hc.linkless [] t (by rwa [List.append_nil])

theorem exists_unpacked (hc : c.Unpackable d cwd root bytes) :
    d.exists? cwd c.layout.unpacked = (d.find? (root ++ [areaOf .unpack])).isSome := by
  rw [Disk.exists?, Disk.entryAt, hc.locate_unpacked]
  cases hthere : d.find? (root ++ [areaOf .unpack]) with
  | none =>
    simp only [hthere]
    rfl
  | some e =>
    cases e with
    | directory | link | file =>
      simp only [hthere]
      rfl

theorem isDirectory_unpacked (hc : c.Unpackable d cwd root bytes) {e : Entry}
    (hthere : d.find? (root ++ [areaOf .unpack]) = some e) (he : e ≠ .directory) :
    d.isDirectory cwd c.layout.unpacked = false := by
  rw [Disk.isDirectory, Disk.entryAt, hc.locate_unpacked]
  cases e with
  | directory => exact absurd rfl he
  | link | file => simp [hthere]

/-- A directory that is there can be written. -/
theorem offers (hc : c.Unpackable d cwd root bytes)
    (hthere : d.find? (root ++ [areaOf .unpack]) = some .directory) : d.Offers cwd c root bytes where
  leads := Disk.entryAt_eq (hc.locate_unpacked true) hthere nofun
  linkless := hc.linkless
  rooted := hc.rooted
  outer := hc.target
  archive := hc.archive

/-- A directory that was missing can be written once it is made. -/
theorem put (hc : c.Unpackable d cwd root bytes)
    (hnone : d.find? (root ++ [areaOf .unpack]) = none) :
    (d.put (root ++ [areaOf .unpack]) .directory).Offers cwd c root bytes := by
  have hgrows : d.GrowsTo (d.put (root ++ [areaOf .unpack]) .directory) :=
    .put fun f hf => by rw [hnone] at hf; cases hf
  obtain ⟨q, x, hentry, hq⟩ := hc.archive
  obtain ⟨-, -, hfile, -⟩ := Disk.entryAt_of_locate hentry
  obtain ⟨-, -, hroot, -⟩ := Disk.entryAt_of_locate hc.target
  have hne : q ≠ root ++ [areaOf .unpack] := by
    rintro rfl
    exact hq (List.prefix_refl _)
  have hafter : c.Unpackable (d.put (root ++ [areaOf .unpack]) .directory) cwd root bytes := by
    refine ⟨hc.isArchive, Disk.entryAt_of_keeps hgrows.keeps hc.target (hgrows.directory hroot),
      fun rest t hlink => ?_, fun rest n e he => ?_, q, x, ?_, hq⟩
    · rw [Disk.find?_put] at hlink
      split at hlink
      · cases hlink
      · exact hc.linkless rest t hlink
    · rw [Disk.find?_put] at he
      split at he
      · next heq =>
        rw [List.append_assoc, List.append_right_eq_self] at heq
        exact absurd heq (List.append_ne_nil_of_right_ne_nil _ (List.cons_ne_nil _ _))
      · exact hgrows.directory (hc.rooted rest n e he)
    · refine Disk.entryAt_of_keeps hgrows.keeps hentry ?_
      rw [Disk.find?_put, if_neg hne, hfile]
  exact hafter.offers (by rw [Disk.find?_put, if_pos rfl])

end StageContext.Unpackable

section

variable {c : StageContext} {d : Disk} {cwd root : Place} {bytes : Bytes}

/-- A directory that is missing is made in the one of the target. -/
theorem makeUnpacked_comes (hc : c.Unpackable d cwd root bytes)
    (hnone : d.find? (root ++ [areaOf .unpack]) = none) {h : Host} (hcalm : h.Calm) {w : World}
    (hw : w.disk = d) (hcwd : w.cwd = cwd) :
    (World.makeDirectories h c.layout.unpacked).Comes w (.ok ()) (d.put (root ++ [areaOf .unpack]) .directory) := by
  subst hw hcwd
  have hplan : w.disk.planMakeDirectory w.cwd c.layout.unpacked =
      .ok (.makeDirectory (root ++ [areaOf .unpack])) := by
    rw [Disk.planMakeDirectory, hc.locate_unpacked]
    simp [hnone]
  obtain ⟨parent, hparent⟩ := FilePath.exists_parent? c.layout.steps_unpacked_ne
  have hlowest : (World.makeLowest h [] (World.ancestors (c.layout.unpacked.text.length + 1)
      c.layout.unpacked)).Comes w (.ok []) (w.disk.apply (.makeDirectory (root ++ [areaOf .unpack]))) := by
    rw [World.ancestors, hparent]
    simp only [FilePath.text_ne_of_steps c.layout.steps_unpacked_ne, if_false]
    exact World.makeLowest_made hcalm hplan
  refine hlowest.bind fun v hv _ => ?_
  have hdone := Try.Comes.pure (ε := IoError) () v
  rwa [hv] at hdone

/-- Preparing the output comes to what the disk says, and leaves a directory that can be written if it
succeeds. -/
theorem prepareOutput_comes (hc : c.Unpackable d cwd root bytes) :
    ∃ r d', (∀ h : Host, h.Calm → ∀ w : World, w.disk = d → w.cwd = cwd →
        (prepareOutput h c .unpack).Comes w r d') ∧
      (r = .ok () → d'.Offers cwd c root bytes) := by
  cases hthere : d.find? (root ++ [areaOf .unpack]) with
  | none =>
    refine ⟨.ok (), _, fun h hcalm w hw hcwd => ?_, fun _ => hc.put hthere⟩
    refine (World.ensureDirectory_missing ?_ (makeUnpacked_comes hc hthere hcalm hw hcwd)).mapError
      StageError.ofPersist
    rw [hw, hcwd, hc.exists_unpacked, hthere]
    rfl
  | some e =>
    refine ⟨Except.mapError StageError.ofPersist (if d.isDirectory cwd c.layout.unpacked = true then .ok ()
      else .error (.outputDirectory (c.layout.unpacked.text ++ " is not a directory"))), d,
      fun h _ w hw hcwd => ?_, fun hok => ?_⟩
    · have hexists : w.disk.exists? w.cwd c.layout.unpacked = true := by
        rw [hw, hcwd, hc.exists_unpacked, hthere]
        rfl
      have hprepared := (World.ensureDirectory_there h hexists).mapError StageError.ofPersist
      rw [hw, hcwd] at hprepared
      exact hprepared
    · by_cases he : e = .directory
      · exact hc.offers (he ▸ hthere)
      · rw [hc.isDirectory_unpacked hthere he] at hok
        cases hok

/-- The members of the archive that are wanted. -/
theorem Items.input_comes {h : Host} (hcalm : h.Calm) (hd : d.Offers cwd c root bytes)
    (harchive : c.job.submission.inputType.isArchive = true) {w : World} (hw : w.disk = d)
    (hcwd : w.cwd = cwd) :
    (Items.input h c.job.submission).Comes w
      (match Zip.read bytes with
        | .error e => .error (.ofArchive e)
        | .ok ls => .ok (.members
            (Zip.wanted h.settings.libraryRoots c.job.submission.ignoreLibraries ls))) d := by
  subst hw hcwd
  obtain ⟨q, x, hentry, -⟩ := hd.archive
  have hfile : ((World.isFile c.job.submission.inputPath).run w).1 = true := by
    show w.disk.isFile w.cwd c.job.submission.inputPath = true
    rw [Disk.isFile, hentry]
  have hbytes := (World.readBytes_comes hcalm c.job.submission.inputPath w).mapError StageError.ofIo
  rw [hd.read] at hbytes
  unfold Items.input
  refine .lift_read (World.isFile_reads _) ?_
  simp only [hfile, harchive, Bool.not_true, Bool.false_eq_true, if_false]
  cases hlist : Zip.read bytes with
  | error e =>
    have hnames : (Items.listMembers h c.job.submission.inputPath).Comes w (.error (.ofArchive e)) w.disk := by
      refine hbytes.bind fun v hv _ => ?_
      simp only [hlist]
      exact hv ▸ .throw _ v
    exact hnames.bind_error
  | ok ls =>
    have hnames : (Items.listMembers h c.job.submission.inputPath).Comes w
        (.ok ((ls.map Zip.Listed.name).filter fun n => n.toList.getLast? ≠ some '/')) w.disk := by
      refine hbytes.bind fun v hv _ => ?_
      simp only [hlist]
      exact hv ▸ .pure _ v
    refine hnames.bind fun v hv _ => ?_
    unfold Zip.wanted
    cases c.job.submission.ignoreLibraries with
    | true => exact hv ▸ .pure _ v
    | false => exact hv ▸ .pure _ v

/-- What writing the members comes to that are wanted, at the first attempt and at the second. -/
theorem runItems_reaches {h : Host} (hcalm : h.Calm) (hd : d.Offers cwd c root bytes)
    {ls : List Zip.Listed} (hlist : Zip.read bytes = .ok ls) {names : List String}
    (hnames : names.length ≤ itemLimit) {w : World} (hw : w.disk = d) (hcwd : w.cwd = cwd) :
    (runItems h c .unpack (.members names)).Reaches w
      (if c.job.submission.maxAttempts.toNat ≤ 1 then (d.unpackEach cwd c.layout root bytes ls names).1
      else d.unpackTwice cwd c.layout root bytes ls names)
      (d.unpackEach cwd c.layout root bytes ls names).2 := by
  subst hw hcwd
  have hchunks := runChunks_reaches hcalm hlist names hd
    (chunksOf names.length c.job.submission.chunkSize).length 0
    (c.job.submission.maxAttempts.toNat - 1) 0 (chunksOf names.length c.job.submission.chunkSize)
  rw [flatten_slices hnames] at hchunks
  simp only [Nat.sub_eq_zero_iff_le] at hchunks
  exact hchunks

/-- Items that are found are worked through. -/
theorem collectAndRun_reaches {h : Host} {w : World} {items : Items} {r : Except StageError Unit}
    {d' : Disk} (hcollect : (Items.collect h c .unpack).Comes w (.ok items) d)
    (hrun : ∀ v : World, v.disk = d → v.cwd = w.cwd → (runItems h c .unpack items).Reaches v r d') :
    (collectAndRun h c .unpack).Reaches w (r.map fun _ => items) d' := by
  refine Try.Reaches.bind (.inr hcollect) fun v hv hcwd => (hrun v hv hcwd).bind_cases
    (fun e he => ?_) fun a ha u hu _ => ?_
  · subst he
    exact ⟨rfl, rfl⟩
  · subst ha
    exact .inr (hu ▸ .pure items u)

/-- Memory is watched while the items are worked through, and nothing is discarded after it. -/
theorem runWatched_reaches {h : Host} {w : World} {r : Except StageError Items}
    (hrun : ∀ v : World, v.disk = w.disk → v.cwd = w.cwd → (collectAndRun h c .unpack).Reaches v r d) :
    (runWatched h c .unpack).Reaches w (r.map fun _ => ()) d := by
  unfold runWatched
  refine .lift rfl rfl fun _ v hv hcwd => .lift (World.pause_comes h v).1 (World.pause_comes h v).2
    fun _ u hu hucwd => (hrun u (hu.trans hv) (hucwd.trans hcwd)).outcome
      (fun e he x => .lift fun _ _ => .lift fun _ _ => .throw he _) fun x hx _ =>
        .lift (World.pause_comes h x).1 (World.pause_comes h x).2 fun _ y hy _ =>
          .lift rfl rfl fun _ z hz _ => ?_
  replace hz : z.disk = d := hz.trans (hy.trans hx)
  cases r with
  | error e => exact .inr (hz ▸ .throw e z)
  | ok items =>
    refine .inr ⟨?_, ?_, ?_⟩
    all_goals
      simp only [finishOutput]
      cases c.job.submission.keepIntermediate
      all_goals first | rfl | exact hz

end

/-! ## The stage as a whole -/

/-- What a stage reports. -/
def StageResult.of : Except StageError Unit → StageResult
  | .ok () => .succeeded
  | .error .cancelled => .cancelled
  | .error e => .failed e.isOutOfMemory e.message

/-- The stage was broken off: the job had to stop, or memory had run out. -/
def StageResult.isBrokenOff : StageResult → Bool
  | cancelled | failed true _ => true
  | succeeded | failed false _ => false

/-- A stage that is not broken off reports what its work came to. -/
theorem runStage_reaches {h : Host} {c : StageContext} {stage : Stage} {w : World}
    {r : Except StageError Unit} {d : Disk}
    (hwork : ∀ v : World, v.disk = w.disk → v.cwd = w.cwd → (workOfStage h c stage.kind).Reaches v r d)
    (hend : ((runStage h c stage).run w).1.isBrokenOff = false) :
    ((runStage h c stage).run w).1 = .of r ∧ ((runStage h c stage).run w).2.disk = d := by
  unfold runStage at hend ⊢
  simp only [Act.run_bind] at hend ⊢
  generalize hv : ((World.emit _ _).run _).2 = v at hend ⊢
  have hdisk : v.disk = w.disk := by rw [← hv]; rfl
  have hcwd : v.cwd = w.cwd := by rw [← hv]; rfl
  rcases hwork v hdisk hcwd with ⟨e, hrun, he⟩ | hcomes
  · rw [hrun] at hend
    cases e with
    | transient | fatal => cases he
    | outOfMemory | cancelled => cases hend
  · obtain ⟨u, hrun, rfl, -⟩ := hcomes.run
    rw [hrun]
    cases r with
    | ok => exact ⟨rfl, rfl⟩
    | error e => cases e <;> exact ⟨rfl, rfl⟩

/-- The same job with chunks of another size and another number of attempts. -/
def StageContext.limited (c : StageContext) (size : UInt64) (attempts : UInt32) : StageContext :=
  { c with job := { c.job with
      submission := { c.job.submission with chunkSize := size, maxAttempts := attempts } } }

/-- Writes the members that are wanted one after the other, once each. -/
def Work.unpackAll (h : Host) (c : StageContext) : Try StageError Unit := do
  prepareOutput h c .unpack
  match ← Items.input h c.job.submission with
  | .members names => extract h c.job.submission.inputPath names c.layout.unpacked false
  | .files _ => pure ()

/-- A member that is wanted has parent steps in its name. -/
def Zip.SomeTurnsBack (roots : List String) (ignoreLibraries : Bool) (bytes : Bytes) : Prop :=
  ∃ ls, read bytes = .ok ls ∧ ∃ n ∈ wanted roots ignoreLibraries ls, TurnsBack n

section

variable {c : StageContext} {d : Disk} {cwd root : Place} {bytes : Bytes}

/-- Chunks of another size do not change what the stage has to find. -/
theorem StageContext.Unpackable.limited (hc : c.Unpackable d cwd root bytes) (size : UInt64)
    (attempts : UInt32) : (c.limited size attempts).Unpackable d cwd root bytes :=
  ⟨hc.isArchive, hc.target, hc.linkless, hc.rooted, hc.archive⟩

/-- Unpacking comes to `once` where every chunk is tried once, and to `again` where a chunk may be tried
more often. It leaves the disk `z`. -/
structure StageContext.Steady (c : StageContext) (roots : List String) (d : Disk) (cwd : Place)
    (once again : Except StageError Unit) (z : Disk) : Prop where
  all : ∀ h : Host, h.Calm → h.settings.libraryRoots = roots → ∀ w : World, w.disk = d → w.cwd = cwd →
    (Work.unpackAll h c).Comes w once z
  chunked : ∀ h : Host, h.Calm → h.settings.libraryRoots = roots → ∀ size attempts, ∀ w : World,
    w.disk = d → w.cwd = cwd →
      (workOfStage h (c.limited size attempts) .unpack).Reaches w
        (if attempts.toNat ≤ 1 then once else again) z

namespace StageContext.Unpackable

/-- Where the output cannot be prepared, or the archive cannot be read, nothing is tried. -/
theorem steady_of_error {roots : List String} {e : StageError} {z : Disk}
    (hall : ∀ h : Host, h.Calm → h.settings.libraryRoots = roots → ∀ w : World, w.disk = d → w.cwd = cwd →
      (Work.unpackAll h c).Comes w (.error e) z)
    (hchunked : ∀ h : Host, h.Calm → h.settings.libraryRoots = roots → ∀ size attempts, ∀ w : World,
      w.disk = d → w.cwd = cwd →
        (workOfStage h (c.limited size attempts) .unpack).Reaches w (.error e) z) :
    c.Steady roots d cwd (.error e) (.error e) z :=
  ⟨hall, fun h hcalm hroots size attempts w hw hcwd => by
    rw [ite_self]
    exact hchunked h hcalm hroots size attempts w hw hcwd⟩

/-- Neither the size of the chunks nor the number of attempts makes a difference. -/
theorem steady (hc : c.Unpackable d cwd root bytes) (roots : List String) :
    ∃ once again z, c.Steady roots d cwd once again z ∧
      MetAgain (Zip.SomeTurnsBack roots c.job.submission.ignoreLibraries bytes) once again := by
  obtain ⟨r, d₀, hprepare, hoffers⟩ := prepareOutput_comes hc
  have hprepared : ∀ h : Host, h.Calm → ∀ size attempts, ∀ w : World, w.disk = d → w.cwd = cwd →
      (prepareOutput h (c.limited size attempts) .unpack).Comes w r d₀ := fun h hcalm _ _ => hprepare h hcalm
  cases r with
  | error e =>
    refine ⟨.error e, .error e, d₀, steady_of_error ?_ ?_, .refl _ _⟩
    · exact fun h hcalm _ w hw hcwd => (hprepare h hcalm w hw hcwd).bind_error
    · exact fun h hcalm _ size attempts w hw hcwd =>
        .inr (hprepared h hcalm size attempts w hw hcwd).bind_error
  | ok =>
    have hd := hoffers rfl
    have hlimited : ∀ size attempts, d₀.Offers cwd (c.limited size attempts) root bytes :=
      fun _ _ => ⟨hd.toReceives, hd.archive⟩
    cases hlist : Zip.read bytes with
    | error e =>
      refine ⟨_, _, d₀, steady_of_error (e := .ofArchive e) ?_ ?_, .refl _ _⟩
      · intro h hcalm _ w hw hcwd
        refine (hprepare h hcalm w hw hcwd).bind fun v hv hvcwd => ?_
        have hinput := Items.input_comes hcalm hd hc.isArchive hv (hvcwd.trans hcwd)
        rw [hlist] at hinput
        exact hinput.bind_error
      · intro h hcalm _ size attempts w hw hcwd
        refine Try.Reaches.bind (.inr (hprepared h hcalm size attempts w hw hcwd)) fun v hv hvcwd =>
          runWatched_reaches (r := .error (.ofArchive e)) fun u hu hucwd => .inr ?_
        have hinput := Items.input_comes hcalm (hlimited size attempts) hc.isArchive (hu.trans hv)
          (hucwd.trans (hvcwd.trans hcwd))
        rw [hlist] at hinput
        exact hinput.bind_error
    | ok ls =>
      have hnames : (Zip.wanted roots c.job.submission.ignoreLibraries ls).length ≤ itemLimit :=
        Nat.le_trans (Zip.length_wanted_le ..)
          (Nat.le_trans (Nat.le_of_lt (Zip.length_read_lt hlist)) (by decide))
      rcases hrun : d₀.unpackEach cwd c.layout root bytes ls
        (Zip.wanted roots c.job.submission.ignoreLibraries ls) with ⟨once, z⟩
      obtain ⟨hmet, -⟩ := hd.toReceives.unpackEach_again hrun
      refine ⟨once, _, z, ⟨?_, ?_⟩, hmet.mono fun hturns => ⟨ls, hlist, hturns⟩⟩
      · rintro h hcalm rfl w hw hcwd
        refine (hprepare h hcalm w hw hcwd).bind fun v hv hvcwd => ?_
        have hinput := Items.input_comes hcalm hd hc.isArchive hv (hvcwd.trans hcwd)
        rw [hlist] at hinput
        refine hinput.bind fun u hu hucwd => ?_
        have hplace := hucwd.trans (hvcwd.trans hcwd)
        rw [← hu, ← hplace] at hd hrun
        have hwork := Work.extract_comes hcalm hd.toReceives hd.read hlist
          (Zip.wanted h.settings.libraryRoots c.job.submission.ignoreLibraries ls)
        rw [hrun] at hwork
        exact hwork
      · rintro h hcalm rfl size attempts w hw hcwd
        refine Try.Reaches.bind (.inr (hprepared h hcalm size attempts w hw hcwd)) fun v hv hvcwd => ?_
        have hitems : ∀ u : World, u.disk = v.disk → u.cwd = v.cwd →
            (collectAndRun h (c.limited size attempts) .unpack).Reaches u
              ((if attempts.toNat ≤ 1 then once else d₀.unpackTwice cwd c.layout root bytes ls
                (Zip.wanted h.settings.libraryRoots c.job.submission.ignoreLibraries ls)).map
                  fun _ => .members
                    (Zip.wanted h.settings.libraryRoots c.job.submission.ignoreLibraries ls)) z := by
          intro u hu hucwd
          have hinput := Items.input_comes hcalm (hlimited size attempts) hc.isArchive (hu.trans hv)
            (hucwd.trans (hvcwd.trans hcwd))
          rw [hlist] at hinput
          refine collectAndRun_reaches hinput fun x hx hxcwd => ?_
          have hwork := runItems_reaches hcalm (hlimited size attempts) hlist hnames hx
            (hxcwd.trans (hucwd.trans (hvcwd.trans hcwd)))
          simp only [StageContext.limited, hrun] at hwork
          exact hwork
        have hwatched := runWatched_reaches hitems
        have hsame : ∀ (r : Except StageError Unit) (items : Items),
            (r.map fun _ => items).map (fun _ => ()) = r := by
          intro r items
          cases r <;> rfl
        rwa [hsame] at hwatched

end StageContext.Unpackable

/-- **Unpacking does not depend on the chunks.** Whatever the size of the chunks and the number of
attempts, a stage that is not broken off leaves the disk that writing the members one after the other
leaves, up to the first that cannot be written, and reports what that comes to. Where a chunk may be
tried more often, the failure is reported that writing all members once more meets. -/
theorem StageContext.Unpackable.runStage_steady (hc : c.Unpackable d cwd root bytes) {h : Host}
    (hcalm : h.Calm) :
    let once := (Work.unpackAll h c).settle.run (World.new d cwd)
    ∃ again, MetAgain (Zip.SomeTurnsBack h.settings.libraryRoots c.job.submission.ignoreLibraries bytes)
        once.1 again ∧
      ∀ k : Host, k.Calm → k.settings = h.settings → ∀ size attempts ordinal, ∀ w : World,
        w.disk = d → w.cwd = cwd →
          let run := (runStage k (c.limited size attempts) ⟨ordinal, .unpack⟩).run w
          run.1.isBrokenOff = false →
            run.1 = .of (if attempts.toNat ≤ 1 then once.1 else again) ∧ run.2.disk = once.2.disk := by
  obtain ⟨once, again, z, hsteady, hmet⟩ := hc.steady h.settings.libraryRoots
  have hall := hsteady.all h hcalm rfl (World.new d cwd) rfl rfl
  refine ⟨again, ?_, fun k hk hsettings size attempts ordinal w hw hcwd hend => ?_⟩
  · rw [hall.result]
    exact hmet
  · rw [hall.result, hall.disk]
    refine runStage_reaches (fun v hv hvcwd => ?_) hend
    exact hsteady.chunked k hk (by rw [hsettings]) size attempts v (hv.trans hw) (hvcwd.trans hcwd)

end

/-! ## A way that turns back -/

/-- A host whose tools do nothing. -/
def idleHost : Host where
  settings := .forStorage ⟨"/"⟩
  catalog := .complete 17
  memoryCeiling := 100
  interlude _ := []
  fault _ := none
  tool _ _ _ := ⟨[], .ok ()⟩
  time n := .ofEpoch 0 n

/-- An archive with a file, and with a member whose way turns back before it leads through the file. -/
def turningArchive : Bytes := Zip.write [⟨"f", [1], false⟩, ⟨"new/../f/sub/x", [2], false⟩]

/-- A disk with the archive and with the directory of a target. -/
def turningDisk : Disk :=
  ((Disk.empty.put ["1.apk"] (.file turningArchive false)).put ["sources"] .directory).put
    ["sources", "a"] .directory

/-- A stage that unpacks the archive. -/
def turningStage : StageContext :=
  ⟨⟨⟨"jadx", false, 1, 9, 90, false, "a", "A", ⟨"/1.apk"⟩, .apk⟩, .jadx, []⟩, .of ⟨"/"⟩ "a", 0⟩

theorem turningStage_unpackable : turningStage.Unpackable turningDisk [] ["sources", "a"] turningArchive := by
  -- nothing of the directory is there yet
  have hnone : ∀ rest e, turningDisk.find? (["sources", "a"] ++ [areaOf .unpack] ++ rest) ≠ some e := by
    intro rest e hfound
    have hmem := mem_of_findEntry hfound
    have houtside : ∀ x ∈ turningDisk.entries, ¬ ["sources", "a"] ++ [areaOf .unpack] <+: x.1 := by
      decide +kernel
    exact houtside _ hmem (List.prefix_append _ _)
  refine ⟨rfl, by decide +kernel, fun rest t => hnone rest _, fun rest n e he => ?_, ["1.apk"], false, by decide +kernel,
    by decide⟩
  rw [List.append_assoc] at he
  exact absurd he (hnone _ e)

theorem runStage_steady_turning :
    turningStage.Unpackable turningDisk [] ["sources", "a"] turningArchive ∧ idleHost.Calm ∧
      ((runStage idleHost (turningStage.limited 1 3) ⟨0, .unpack⟩).run (.new turningDisk [])).2.disk =
        ((Work.unpackAll idleHost turningStage).settle.run (.new turningDisk [])).2.disk := by
  have hcalm : idleHost.Calm := fun _ => rfl
  obtain ⟨again, -, hsame⟩ := turningStage_unpackable.runStage_steady hcalm
  exact ⟨turningStage_unpackable, hcalm,
    (hsame idleHost hcalm rfl 1 3 0 (.new turningDisk []) rfl rfl (by decide +kernel)).2⟩

/-- **A second attempt may fail otherwise.** The first attempt makes a directory, turns back from it,
and meets the file in the way from above; the second one finds the directory and meets the file from
below. -/
theorem way_back_changes_failure :
    ((runStage idleHost (turningStage.limited 9 1) ⟨0, .unpack⟩).run (.new turningDisk [])).1 =
        .failed false "File exists (os error 17)" ∧
      ((runStage idleHost (turningStage.limited 9 2) ⟨0, .unpack⟩).run (.new turningDisk [])).1 =
        .failed false "Not a directory (os error 20)" := by
  decide +kernel

end Decompile
