import Decompile.Proofs.Act.StageMoves
import Decompile.Proofs.Disk.Areas
import Decompile.Proofs.Provenance.Files

/-!
# The work on a chunk has its sources

- `extract_goes`, `pack_goes`, `copyInto_goes`, `copyBelow_goes`: what is written has been read from
  the input, or from a file that the stage has found.
- `callTool_goes`: a tool writes on its own behalf, and a request that comes meanwhile is about
  another key.
-/

namespace Decompile

variable {h : Host} {c : StageContext} {own : Prop} {w₀ : World} {φ : List Occurrence → Prop}

/-! ## Pieces -/

theorem Try.run_settle_mapError {ε ε' α : Type} (f : ε → ε') (t : Try ε α) (w : World) :
    (t.mapError f).settle.run w = ((t.settle.run w).1.mapError f, (t.settle.run w).2) := by
  show StateT.run (ExceptT.run (ExceptT.adapt f t)) w = _
  unfold ExceptT.adapt ExceptT.run
  rfl

/-- Only what the first action succeeds with counts, however its failures are seen. -/
theorem Try.Keeps.gain_mapError {ε ε' α β : Type} {g : ε → ε'} {ψ : α → List Occurrence → Prop}
    {t : Try ε α} {f : α → Try ε' β} (ht : Try.Keeps (Goes h c own w₀ φ) t)
    (hgain : ∀ w a v, Tracked h c own w₀ w → Once φ (w₀.since w) → t.settle.run w = (.ok a, v) →
      Tracked h c own w₀ v → Once (ψ a) (w₀.since v))
    (hf : ∀ a, Try.Keeps (Goes h c own w₀ (ψ a)) (f a)) :
    Try.Keeps (Goes h c own w₀ φ) (t.mapError g >>= f) := by
  refine ht.mapError.gain (fun w a v hw hφ hrun hv => hgain w a v hw hφ ?_ hv) hf
  rw [Try.run_settle_mapError] at hrun
  obtain ⟨hresult, hworld⟩ := Prod.mk.inj hrun
  cases hfirst : (t.settle.run w).1 with
  | error e =>
    rw [hfirst] at hresult
    cases hresult
  | ok b =>
    rw [hfirst] at hresult
    obtain rfl := Except.ok.inj hresult
    exact Prod.ext hfirst hworld

/-- What was known is still known, and the bytes that were read are those of the file. -/
theorem World.readBytes_once {p : FilePath} {w v : World} {bytes : Bytes}
    (hw : Tracked h c own w₀ w) (hφ : Once φ (w₀.since w))
    (hrun : (readBytes h p).settle.run w = (.ok bytes, v))
    (hv : Tracked h c own w₀ v) :
    Once (fun e => Once φ e ∧ (w₀.diskAfter e).read w₀.cwd p = .ok bytes) (w₀.since v) := by
  obtain ⟨new, hjournal, -⟩ := ((readBytes_still (h := h) p).of_run hrun).journal
  exact .here ⟨hφ.mono (hw.since_prefix hjournal), readBytes_held hv hrun⟩

namespace Work

theorem checkMemory_still : Try.Keeps Still (checkMemory h) := by
  unfold checkMemory
  refine .bind (.lift World.pause_still) fun _ => .bind (.lift World.isTripped_reads.keeps) ?_
  intro tripped
  split
  · exact .throw _
  · exact .pure ()

theorem breakOff_still : Try.Keeps Still breakOff := by
  unfold breakOff
  refine .bind (.lift World.isTripped_reads.keeps) fun tripped => ?_
  split
  · exact .throw _
  · exact .pure ()

theorem below_still (root p : FilePath) : Try.Keeps Still (below root p) := by
  unfold below
  cases p.relativeTo? root with
  | some cs => exact .pure cs
  | none => exact .throw _

section

variable (hcwd : ∀ n ∈ w₀.cwd, IsEntryName n)

include hcwd

/-- A directory is made first, if there is one to make. -/
theorem parent_goes {α : Type} (dir : Option FilePath) {k : Unit → Try StageError α}
    (hk : Try.Keeps (Goes h c own w₀ φ) (k ())) :
    Try.Keeps (Goes h c own w₀ φ) (match dir with
      | some parent => onDisk (World.makeDirectories h parent) >>= k
      | none => k ()) := by
  cases dir with
  | some parent => exact (World.makeDirectories_goes hcwd parent).mapError.bind fun _ => hk
  | none => exact hk

/-- Making a file, with its failures seen as those of a stage, and what is done with its place. -/
theorem createFile_gain {p : FilePath} {executable : Bool} {α : Type} {k : Place → Try StageError α}
    (hwrites : ∀ past, Once φ past → ∃ bytes, Writes h c w₀ past (p.place w₀.cwd) bytes)
    (hk : Try.Keeps (Goes h c own w₀ fun e => Once φ e ∧ Begun e (p.place w₀.cwd))
      (k (p.place w₀.cwd))) :
    Try.Keeps (Goes h c own w₀ φ) (onDisk (World.createFile h p executable) >>= k) := by
  intro w hw hheld hφ
  have hfirst := World.createFile_goes hcwd p executable hwrites w hw hheld hφ
  rw [Try.run_settle_bind, onDisk, Try.run_settle_mapError]
  rcases hrun : (World.createFile h p executable).settle.run w with ⟨e | place, v⟩
  · rw [hrun] at hfirst
    exact hfirst
  · obtain ⟨rfl, hbegun⟩ := World.createFile_begun hcwd hw hrun
    rw [hrun] at hfirst
    obtain ⟨hv, hheld', hlater⟩ := hfirst
    have hknown := Once.here (φ := fun e => Once φ e ∧ Begun e _) ⟨hφ.mono hlater, hbegun⟩
    obtain ⟨hu, hheld'', hlater'⟩ := hk v hv hheld' hknown
    exact ⟨hu, hheld'', hlater.trans hlater'⟩

/-! ## Archives -/

/-- A member is written where its name leads. -/
theorem extractMember_goes (bytes : Bytes) (dest : FilePath) (l : Zip.Listed)
    (hwrites : ∀ past opened, Once φ past → Zip.isEnclosed l.name = true →
      Zip.openMember bytes l = .ok opened →
        Writes h c w₀ past ((dest.join ⟨l.name⟩).place w₀.cwd) opened.contents) :
    Try.Keeps (Goes h c own w₀ φ) (extractMember h bytes dest l) := by
  unfold extractMember
  cases hopen : Zip.openMember bytes l with
  | error e => exact .throw _
  | ok opened =>
    show Try.Keeps _ (ite _ _ (ite _ _ _))
    split
    · exact .pure ()
    · split
      · exact .lift (World.log_still _ _ _).goes
      · next henclosed =>
        have hwritten : ∀ past, Once φ past →
            Writes h c w₀ past ((dest.join ⟨l.name⟩).place w₀.cwd) opened.contents := by
          intro past hφ
          exact hwrites past opened hφ (by simpa using henclosed) hopen
        refine parent_goes hcwd _ (k := fun _ => _) ?_
        refine createFile_gain hcwd (fun past hφ => ⟨_, hwritten past hφ⟩) ?_
        refine .bind (World.appendTo_goes _ _ (fun _ hknown => hknown.2)
          fun past hknown => hwritten past (hknown.mp fun _ => And.left)).mapError fun _ => ?_
        cases opened.failure with
        | some e => exact .throw _
        | none => exact .pure ()

/-- A member is looked up and written. -/
theorem found_goes (bytes : Bytes) (dest : FilePath) (found : Option Zip.Listed)
    {k : Unit → Try StageError Unit} (hk : ∀ u, Try.Keeps (Goes h c own w₀ φ) (k u))
    (hwrites : ∀ past l opened, Once φ past → found = some l → Zip.isEnclosed l.name = true →
      Zip.openMember bytes l = .ok opened →
        Writes h c w₀ past ((dest.join ⟨l.name⟩).place w₀.cwd) opened.contents) :
    Try.Keeps (Goes h c own w₀ φ) (match found with
      | none => throw (.ofArchive .noSuchMember) >>= k
      | some l => extractMember h bytes dest l >>= k) := by
  cases found with
  | none => exact (Try.Keeps.throw _).bind hk
  | some l =>
    exact (extractMember_goes hcwd bytes dest l fun past opened hφ =>
      hwrites past l opened hφ rfl).bind hk

/-- The members that are written are those that the archive lists. -/
theorem extractEach_goes (bytes : Bytes) (ls : List Zip.Listed) (dest : FilePath) (checked : Bool)
    (hwrites : ∀ past l opened, Once φ past → l ∈ ls → Zip.isEnclosed l.name = true →
      Zip.openMember bytes l = .ok opened →
        Writes h c w₀ past ((dest.join ⟨l.name⟩).place w₀.cwd) opened.contents) :
    ∀ ns : List String, Try.Keeps (Goes h c own w₀ φ) (extractEach h bytes ls dest checked ns)
  | [] => .pure ()
  | n :: ns => by
    have hfound := found_goes hcwd (φ := φ) bytes dest (Zip.find? n ls)
      (fun _ => extractEach_goes bytes ls dest checked hwrites ns)
      fun past l opened hφ hfind => hwrites past l opened hφ (List.mem_of_find?_eq_some hfind)
    unfold extractEach
    cases checked with
    | false => exact hfound
    | true => exact checkMemory_still.goes.bind fun _ => hfound

/-- What is written has been read from the archive. -/
theorem extract_goes (archive : FilePath) (names : List String) (dest : FilePath) (checked : Bool)
    (hwrites : ∀ past bytes ls l opened,
      Once (fun e => Once φ e ∧ (w₀.diskAfter e).read w₀.cwd archive = .ok bytes) past →
        Zip.read bytes = .ok ls → l ∈ ls → Zip.isEnclosed l.name = true →
          Zip.openMember bytes l = .ok opened →
            Writes h c w₀ past ((dest.join ⟨l.name⟩).place w₀.cwd) opened.contents) :
    Try.Keeps (Goes h c own w₀ φ) (extract h archive names dest checked) := by
  unfold extract
  refine (World.readBytes_still archive).goes.gain_mapError
    (fun _ _ _ hw hφ hrun hv => World.readBytes_once hw hφ hrun hv) fun bytes => ?_
  cases hread : Zip.read bytes with
  | error e => exact .throw _
  | ok ls =>
    exact extractEach_goes hcwd bytes ls dest checked
      (fun past l opened hknown => hwrites past bytes ls l opened hknown hread) names

omit hcwd in
/-- Each file is packed with the contents it has when it is read. -/
theorem packEach_goes {index : Nat} {jar : FilePath} (hjar : jar = chunkJar c.layout index)
    (root : FilePath) (hbegun : ∀ e, φ e → Begun e (jar.place w₀.cwd)) :
    ∀ (done : List Zip.Member) (ps : List FilePath),
      (∀ e, φ e → ∀ p ∈ ps, Once (fun earlier => Found w₀ c.layout.unpacked earlier p) e) →
        Act.Keeps (Goes h c own w₀ φ) (packEach h root (jar.place w₀.cwd) done ps)
  | done, [], _ => .pure _
  | done, p :: ps, hfound => by
    unfold packEach
    have hbelow : Try.Keeps (Goes h c own w₀ φ) (do checkMemory h; below root p) :=
      Try.Keeps.goes (checkMemory_still.bind fun _ => below_still root p)
    refine hbelow.settle.bind fun r => ?_
    cases r with
    | error e => exact .pure _
    | ok relative =>
      refine Act.Keeps.gain (ψ := fun r e => Once φ e ∧ ∀ contents, r = .ok contents →
        (w₀.diskAfter e).read w₀.cwd p = .ok contents)
        (World.readBytes_still p).goes.settle (fun w hw hheld hφ => ?_) fun r => ?_
      · have hread := World.readBytes_still (h := h) p w
        obtain ⟨new, hjournal, -⟩ := hread.journal
        refine .here ⟨hφ.mono (hw.since_prefix hjournal), fun contents hok => ?_⟩
        exact World.readBytes_held (hw.still hread) (Prod.ext hok rfl)
      · cases r with
        | error e => exact .pure _
        | ok contents =>
          have hrest := packEach_goes hjar root hbegun
            (done ++ [⟨FilePath.textOfComponents relative, contents, true⟩]) ps
            fun e hφ q hq => hfound e hφ q (List.mem_cons_of_mem _ hq)
          refine Act.Keeps.bind (World.appendTo_goes _ _ (fun e hknown => ?_)
            fun past hknown => ?_).settle fun r => ?_
          · obtain ⟨e', he', hφ⟩ := hknown.1
            exact (hbegun e' hφ).mono he'
          · obtain ⟨later, hlater, ⟨e', he', hφ⟩, hcontents⟩ := hknown
            obtain ⟨earlier, hearlier, hp⟩ := hfound e' hφ p List.mem_cons_self
            rw [hjar]
            exact .packed index (hearlier.trans (he'.trans hlater)) hp hlater (hcontents _ rfl) _
          · cases r with
            | error e => exact .pure _
            | ok _ => exact hrest.mono fun _ _ => Goes.mono fun _ => And.left

/-- What is packed has been found by the stage. -/
theorem pack_goes (files : List FilePath) (root : FilePath) {index : Nat} {jar : FilePath}
    (hjar : jar = chunkJar c.layout index)
    (hfound : ∀ e, φ e → ∀ p ∈ files, Found w₀ c.layout.unpacked e p) :
    Try.Keeps (Goes h c own w₀ φ) (pack h files root jar) := by
  have hending : ∀ past members,
      Writes h c w₀ past (jar.place w₀.cwd) (Zip.ending members) := by
    intro past members
    rw [hjar]
    exact .ending index members
  have hpack : Act.Keeps (Goes h c own w₀ fun e => Once φ e ∧ Begun e (jar.place w₀.cwd))
      (packEach h root (jar.place w₀.cwd) [] files) := by
    refine packEach_goes hjar root (fun _ hknown => hknown.2) [] files fun e hknown p hp => ?_
    obtain ⟨earlier, hearlier, hφ⟩ := hknown.1
    exact ⟨earlier, hearlier, hfound earlier hφ p hp⟩
  unfold pack
  refine parent_goes hcwd _ (k := fun _ => _) ?_
  refine createFile_gain hcwd (fun past _ => ⟨_, hending past []⟩) ?_
  refine .bind (.lift hpack) fun packed => ?_
  refine .bind (World.appendTo_goes _ _ (fun _ hknown => hknown.2)
    fun past _ => hending past _).mapError fun _ => ?_
  cases packed.2 with
  | some e => exact .throw e
  | none => exact .pure ()

/-! ## Files -/

/-- The input is copied under its own name. -/
theorem copyInto_goes : ∀ ps : List FilePath, (∀ p ∈ ps, p = c.job.submission.inputPath) →
    Try.Keeps (Goes h c own w₀ φ) (copyInto h c.layout.unpacked ps)
  | [], _ => .pure ()
  | p :: ps, hps => by
    unfold copyInto
    have hrest := copyInto_goes ps fun q hq => hps q (List.mem_cons_of_mem _ hq)
    refine checkMemory_still.goes.bind fun _ => ?_
    cases hname : p.fileName? with
    | none => exact (Try.Keeps.throw _).bind fun _ => hrest
    | some n =>
      have hn := FilePath.isEntryName_of_fileName? hname
      have hp := hps p List.mem_cons_self
      refine (World.copyFile_goes hcwd _ _ fun past bytes hknown => ?_).mapError.bind fun _ => hrest
      obtain ⟨earlier, hearlier, -, hread⟩ := hknown
      rw [hp] at hread hname
      have hplace : (c.layout.unpacked.join ⟨n⟩).place w₀.cwd
          = c.layout.unpacked.place w₀.cwd ++ [n] := FilePath.place_child hn
      rw [hplace]
      exact .unpacked (.whole hearlier hread hname)

/-- Resources are copied to where they were found below the directory of unpacked files. -/
theorem copyBelow_goes : ∀ ps : List FilePath,
    (∀ e, φ e → ∀ p ∈ ps, Found w₀ c.layout.unpacked e p) →
      Try.Keeps (Goes h c own w₀ φ) (copyBelow h c.layout.unpacked c.layout.resources ps)
  | [], _ => .pure ()
  | p :: ps, hfound => by
    refine .known (P := ∃ names, p = Disk.childPath c.layout.unpacked names ∧
      ∀ n ∈ names, IsEntryName n) (fun e hφ => ?_) fun ⟨names, hp, hnames⟩ => ?_
    · obtain ⟨names, -, -, hp, hnames, -⟩ := hfound e hφ p List.mem_cons_self
      exact ⟨names, hp, hnames⟩
    have hrest := copyBelow_goes ps fun e hφ q hq => hfound e hφ q (List.mem_cons_of_mem _ hq)
    show Try.Keeps _ (checkMemory h >>= _)
    refine checkMemory_still.goes.bind fun _ => ?_
    rw [below, hp, FilePath.relativeTo?_childPath hnames]
    simp only [pure_bind]
    refine parent_goes hcwd _ (k := fun _ => _) ?_
    refine (World.copyFile_goes hcwd _ _ fun past bytes hknown => ?_).mapError.bind fun _ => hrest
    obtain ⟨later, hlater, ⟨earlier, hearlier, hφ⟩, hread⟩ := hknown
    rw [FilePath.place_textOfComponents hnames]
    have hresource := hfound earlier hφ p List.mem_cons_self
    exact .resource (hearlier.trans hlater) (hp ▸ hresource) hlater hread

/-! ## Tools -/

/-- The record of a job is stored in the directory of its key. -/
theorem save_goes {key : String} (hkey : isTargetKey key = true)
    (hmine : key = c.job.targetKey → own) (r : JobRecord) :
    Try.Keeps (Goes h c own w₀ φ) (r.save h (.of h.settings.storage key)) := by
  unfold JobRecord.save
  refine (World.store_goes hcwd _ _ _ ?_).bind fun _ => .pure ()
  rw [Layout.place_record, Layout.place_of hkey, List.append_assoc]
  exact .record hkey hmine _

/-- While the job holds its key, only another key can be claimed, and a record stored there. -/
theorem claimed_goes {s : Submission} {job : Job} {ticket : Nat} {registry : Registry}
    {w v : World} {r : Except PersistError Unit} (plan : Job.plan s h.catalog.has = .ok job)
    (claimed : w.registry.claim job.targetKey = some (ticket, registry))
    (save : ((JobRecord.new job (h.time w.clock)).save h
      (.of h.settings.storage job.targetKey)).settle.run
        { w with registry, journal := w.journal ++ [.claimed job.targetKey ticket] } = (r, v))
    (hw : Tracked h c own w₀ w) (hheld : w.registry.holder? c.job.targetKey = some c.ticket) :
    c.job.targetKey ≠ job.targetKey ∧ Tracked h c own w₀ v ∧
      v.registry.holder? c.job.targetKey = some c.ticket ∧ w₀.since w <+: w₀.since v := by
  have hother : c.job.targetKey ≠ job.targetKey := by
    intro heq
    rw [heq] at hheld
    rw [Registry.claim_eq_none.mpr ⟨_, hheld⟩] at claimed
    cases claimed
  let u : World := { w with registry, journal := w.journal ++ [.claimed job.targetKey ticket] }
  have hu : Tracked h c own w₀ u := hw.note rfl rfl rfl rfl
  have hheld' : u.registry.holder? c.job.targetKey = some c.ticket := by
    show registry.holder? _ = _
    rw [Registry.holder?_of_claim claimed, if_neg hother, hheld]
  have hsave : Try.Keeps (Goes h c own w₀ fun _ => True)
      ((JobRecord.new job (h.time w.clock)).save h (.of h.settings.storage job.targetKey)) :=
    save_goes hcwd (Job.isTargetKey_of_plan plan) (fun heq => absurd heq.symm hother) _
  obtain ⟨hv, hheld'', hlater⟩ := hsave.of_run save hu hheld' (.here trivial)
  exact ⟨hother, hv, hheld'', (hw.since_prefix (v := u) rfl).trans hlater⟩

/-- A request that comes while the job holds its key is about another key. -/
theorem answer_goes (s : Submission) : Act.Keeps (Goes h c own w₀ φ) (answer h s) := by
  refine answer_keep (fun w hw hheld hφ => ?_) fun active r => (World.note_still rfl).goes
  have hsubmitted := Engine.submit_submitted (h := h) s w
  revert hsubmitted
  show Engine.Submitted h s w _ ((Engine.submit h s).settle.run w).2 →
    Tracked h c own w₀ ((Engine.submit h s).settle.run w).2 ∧ _
  generalize ((Engine.submit h s).settle.run w).2 = v
  generalize ((Engine.submit h s).settle.run w).1 = r
  intro hsubmitted
  cases hsubmitted with
  | refused plan => exact ⟨hw, hheld, List.prefix_refl _⟩
  | active plan held => exact ⟨hw, hheld, List.prefix_refl _⟩
  | @unsaved job plan ticket registry claimed e v save =>
    obtain ⟨hother, hv, hheld', hlater⟩ := claimed_goes hcwd plan claimed save hw hheld
    have hkept : (v.registry.release job.targetKey ticket).holder? c.job.targetKey =
        some c.ticket := by
      rw [Registry.holder?_release, if_neg (fun hboth => hother hboth.1), hheld']
    exact ⟨hv.note rfl rfl rfl rfl, hkept, hlater.trans (hv.since_prefix rfl)⟩
  | @accepted job plan ticket registry claimed v save said =>
    obtain ⟨-, hv, hheld', hlater⟩ := claimed_goes hcwd plan claimed save hw hheld
    exact ⟨hv.note rfl rfl rfl rfl, hheld', hlater.trans (hv.since_prefix rfl)⟩

omit hcwd in
theorem tellLine_still (key title raw : String) : Act.Keeps Still (tellLine key title raw) := by
  unfold tellLine
  cases ProgressLine.normalize raw with
  | none => exact World.log_still _ _ _
  | some clean => exact (World.log_still _ _ _).bind fun _ => World.publish_still _ _

/-- One thing that a tool does. -/
theorem act_goes (key title : String) (a : Activity)
    (hwrites : ∀ p bytes, a = .writeFile p bytes →
      ∀ past, Once φ past → Writes h c w₀ past (p.place w₀.cwd) bytes) :
    Act.Keeps (Goes h c own w₀ φ) (act h key title a) := by
  cases a with
  | line raw => exact (tellLine_still key title raw).goes
  | happening x => exact (World.happen_still x).goes
  | submit s => exact answer_goes hcwd s
  | makeDirectories p => exact (World.makeDirectories_goes hcwd p).settle.bind fun _ => .pure ()
  | writeFile p contents =>
    have hwritten := hwrites p contents rfl
    exact (World.writeFile_goes hcwd p contents hwritten).settle.bind fun _ => .pure ()

theorem actAll_goes (key title : String) : ∀ as : List Activity,
    (∀ p bytes, .writeFile p bytes ∈ as →
      ∀ past, Once φ past → Writes h c w₀ past (p.place w₀.cwd) bytes) →
    Try.Keeps (Goes h c own w₀ φ) (actAll h key title as)
  | [], _ => .pure ()
  | a :: as, hwrites => by
    unfold actAll
    refine .bind (.lift (act_goes hcwd key title a fun p bytes ha => ?_)) fun _ => ?_
    · exact hwrites p bytes (ha ▸ List.mem_cons_self)
    · exact breakOff_still.goes.bind fun _ =>
        actAll_goes key title as fun p bytes ha => hwrites p bytes (List.mem_cons_of_mem _ ha)

omit hcwd in
/-- The result of a call is passed on. -/
theorem result_goes (r : Except StageError Unit) :
    Try.Keeps (Goes h c own w₀ φ) ((match r with
      | .ok () => pure ()
      | .error e => throw e) : Try StageError Unit) := by
  cases r with
  | ok _ => exact .pure ()
  | error e => exact .throw e

/-- A tool writes what it does on the disk as it finds it. -/
theorem callTool_goes (key title : String) (i : Invocation)
    (hcalls : ∀ past, Once φ past → Lawful h c own w₀ past (.called i)) :
    Try.Keeps (Goes h c own w₀ φ) (callTool h key title i) := by
  unfold callTool
  refine .bind (.lift World.pause_still.goes) fun _ => breakOff_still.goes.bind fun _ => ?_
  refine .bind (.lift (World.log_still _ _ _).goes) fun _ => fun w hw hheld hφ => ?_
  let v : World := { w with journal := w.journal ++ [.called i] }
  have hsince : w₀.since v = w₀.since w ++ [.called i] := hw.since_append rfl
  have hlawful := hcalls _ hφ
  have hv : Tracked h c own w₀ v := hw.snoc rfl rfl rfl hw.plain hlawful
  obtain ⟨-, files, -, hof, -⟩ := hlawful
  have hactivities : Try.Keeps
      (Goes h c own w₀ fun past => ∃ after, w₀.since w ++ .called i :: after = past)
      (actAll h key title (h.tool (World.callsIn w.journal) w.disk i).activities) := by
    refine actAll_goes hcwd key title _ fun p bytes ha past hpast => ?_
    obtain ⟨earlier, ⟨more, rfl⟩, after, rfl⟩ := hpast
    rw [hw.journal, hw.disk] at ha
    exact .tool (List.append_assoc (w₀.since w) (.called i :: after) more).symm hof ha
  have hrun := hactivities.bind fun _ =>
    result_goes (h.tool (World.callsIn w.journal) w.disk i).result
  obtain ⟨hu, hheld', hlater⟩ := hrun v hv hheld (.here ⟨[], hsince.symm⟩)
  exact ⟨hu, hheld', (hw.since_prefix (v := v) rfl).trans hlater⟩

theorem callAll_goes (key title : String) : ∀ is : List Invocation,
    (∀ i ∈ is, ∀ past, Once φ past → Lawful h c own w₀ past (.called i)) →
      Try.Keeps (Goes h c own w₀ φ) (callAll h key title is)
  | [], _ => .pure ()
  | i :: is, hcalls => by
    unfold callAll
    refine (callTool_goes hcwd key title i (hcalls i List.mem_cons_self)).bind fun _ => ?_
    exact callAll_goes key title is fun i hi => hcalls i (List.mem_cons_of_mem _ hi)

end

end Work

end Decompile
