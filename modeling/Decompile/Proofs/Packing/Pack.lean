import Decompile.Proofs.Packing.Sources
import Decompile.Proofs.Provenance.Work
import Decompile.Proofs.Unpacking.Work

/-!
# Packing class files

On a host without faults packing comes to an archive of all the files, unless it gives up. It comes to
the same archive whatever bytes were in the file before, and an attempt to pack, however it ends,
changes nothing but that file.

- `Disk.HasRoom`: a file can be made under a path.
- `Disk.holding`: the disk with a file of some bytes at a place.
- `Work.packEach_comes`: what adding files to the archive comes to.
- `Work.pack_reaches`: what packing comes to.
- `Work.Attempted`: worlds after earlier attempts; `Attempted.leaves`: what these leave behind.
- `Work.pack_again`: packing once more comes to what packing afresh comes to.
-/

namespace Decompile

open FilePath (Continues)

namespace Disk

variable {d d' : Disk} {cwd place : Place} {p : FilePath} {bytes more : Bytes}

/-! ## The file that is written -/

/-- A file can be made under the path: its directory is there, or is where the path starts, and at its
place is a file, if anything. -/
structure HasRoom (d : Disk) (cwd : Place) (p : FilePath) (place : Place) : Prop where
  parent : ∃ dir, p.parent? = some dir ∧ (dir.text = "" ∨ d.isDirectory cwd dir = true)
  locate : ∀ through, d.locate cwd through p = .ok (place, .plain)
  free : ∀ e, d.find? place = some e → e.isFile = true

/-- The file at the place may be run. -/
def mayRun (d : Disk) (place : Place) : Bool :=
  match d.find? place with
  | some (.file _ x) => x
  | _ => false

/-- The disk with the bytes in the file at the place. A file that is there keeps its permission. -/
def holding (d : Disk) (place : Place) (bytes : Bytes) : Disk :=
  d.put place (.file bytes (d.mayRun place))

theorem find?_holding (d : Disk) (place : Place) (bytes : Bytes) :
    (d.holding place bytes).find? place = some (.file bytes (d.mayRun place)) := by
  rw [holding, find?_put, if_pos rfl]

theorem find?_holding_of_ne {q : Place} (hq : q ≠ place) :
    (d.holding place bytes).find? q = d.find? q := by
  rw [holding, find?_put, if_neg hq]

@[simp] theorem mayRun_holding (d : Disk) (place : Place) (bytes : Bytes) :
    (d.holding place bytes).mayRun place = d.mayRun place := by
  rw [mayRun, find?_holding]

/-- Bytes that are written over others leave nothing of these. -/
@[simp] theorem holding_holding (d : Disk) (place : Place) (bytes more : Bytes) :
    (d.holding place bytes).holding place more = d.holding place more := by
  refine ext_find? fun q => ?_
  by_cases hq : q = place
  · rw [hq, find?_holding, find?_holding, mayRun_holding]
  · rw [find?_holding_of_ne hq, find?_holding_of_ne hq, find?_holding_of_ne hq]

theorem apply_append_holding (d : Disk) (place : Place) (bytes more : Bytes) :
    (d.holding place bytes).apply (.append place more) = d.holding place (bytes ++ more) := by
  have hover := holding_holding d place bytes (bytes ++ more)
  rw [holding.eq_1 (d.holding place bytes), mayRun_holding] at hover
  simp only [apply, find?_holding]
  exact hover

namespace HasRoom

theorem fileAt (hd : d.HasRoom cwd p place) (bytes : Bytes) : d.FileAt (d.holding place bytes) place :=
  ⟨hd.free, ⟨bytes, _, find?_holding d place bytes⟩, fun _ hq => find?_holding_of_ne hq⟩

/-- A file that is there can be written again. -/
theorem holding (hd : d.HasRoom cwd p place) (bytes : Bytes) :
    (d.holding place bytes).HasRoom cwd p place := by
  have hat := hd.fileAt bytes
  obtain ⟨dir, hdir, hthere⟩ := hd.parent
  refine ⟨⟨dir, hdir, hthere.imp_right fun h => ?_⟩, fun through => hat.locate (hd.locate false) through,
    fun e he => ?_⟩
  · obtain ⟨q, hq⟩ := entryAt_of_isDirectory h
    obtain ⟨-, -, hfound, -⟩ := entryAt_of_locate hq
    rw [isDirectory, entryAt_of_keeps hat.keeps hq (hat.keeps _ _ hfound rfl)]
  · rw [find?_holding] at he
    obtain rfl := Option.some.inj he
    rfl

theorem planCreate (hd : d.HasRoom cwd p place) :
    d.planCreate cwd p false = .ok (.create place (d.mayRun place)) := by
  unfold Disk.planCreate mayRun
  rw [hd.locate]
  cases hfound : d.find? place with
  | none => simp [hfound]
  | some e =>
    cases e with
    | file b x => simp [hfound]
    | directory | link => cases hd.free _ hfound

end HasRoom

end Disk

/-! ## Files in a row -/

/-- Nothing is made where the directory is there, or is where the path starts. -/
theorem World.makeDirectories_done {h : Host} (hcalm : h.Calm) {w : World} {dir : FilePath}
    (hdir : dir.text = "" ∨ w.disk.isDirectory w.cwd dir = true) :
    (makeDirectories h dir).Comes w (.ok ()) w.disk := by
  rcases hdir with hempty | hthere
  · obtain rfl : dir = ⟨""⟩ := congrArg FilePath.mk hempty
    exact .pure () w
  · obtain ⟨q, hq⟩ := Disk.entryAt_of_isDirectory hthere
    exact makeDirectories_there hcalm hq
      ⟨rfl, (List.append_nil _).symm, Disk.clean_of_entryAt hq⟩

namespace Work

section

variable {h : Host} (hcalm : h.Calm) {d : Disk} {cwd base place : Place} {root jar : FilePath}
  (hroom : d.HasRoom cwd jar place)

include hcalm hroom

/-- Adding files to the archive comes to their members behind what is there, unless it gives up. -/
theorem packEach_comes (sources : List Source) (done : List Zip.Member) {w : World} {bytes : Bytes}
    (hsources : ∀ s ∈ sources, s.Stands d cwd root base ∧ base ++ s.names ≠ place)
    (hw : w.disk = d.holding place bytes) (hcwd : w.cwd = cwd) :
    ∃ members failure v,
      (packEach h root place done (sources.map Source.path)).run w = ((members, failure), v) ∧
        ((∃ e, failure = some e ∧ e.givesUp = true) ∨
          failure = none ∧ members = done ++ sources.map Source.member ∧ v.cwd = cwd ∧
            v.disk = d.holding place
              (bytes ++ (sources.map Source.member).flatMap Zip.entryBytes)) := by
  induction sources generalizing done w bytes with
  | nil =>
    refine ⟨done, none, w, rfl, .inr ⟨rfl, (List.append_nil _).symm, hcwd, ?_⟩⟩
    rw [hw, List.map_nil, List.flatMap_nil, List.append_nil]
  | cons s sources ih =>
    obtain ⟨⟨hstands, hplace⟩, hrest⟩ := List.forall_mem_cons.mp hsources
    have hnext : Try.Reaches (do checkMemory h; below root s.path : Try StageError _) w
        (.ok (s.names.map .name)) w.disk := by
      refine (checkMemory_reaches h w).bind fun v hv _ => ?_
      rw [below, hstands.relative, ← hv]
      exact .inr (.pure _ v)
    rw [List.map_cons, packEach, Act.run_bind]
    rcases hnext with ⟨e, hfailed, hgives⟩ | hcomes
    · rcases hrun : (Try.settle (do checkMemory h; below root s.path : Try StageError _)).run w
        with ⟨r, v⟩
      rw [hrun] at hfailed
      obtain rfl : r = .error e := hfailed
      exact ⟨done, some e, v, rfl, .inl ⟨e, rfl, hgives⟩⟩
    obtain ⟨v, hrun, hv, hvcwd⟩ := hcomes.run
    have hread : v.disk.read v.cwd s.path = .ok s.contents := by
      rw [hv, hvcwd, hw, hcwd]
      obtain ⟨x, hx⟩ := (hstands.of_fileAt (hroom.fileAt bytes) hplace).leads
      rw [Disk.read, hx]
    have hbytes := World.readBytes_comes hcalm s.path v
    rw [hread] at hbytes
    obtain ⟨u, hrun', hu, hucwd⟩ := hbytes.run
    obtain ⟨x, hrun'', hx, hxcwd⟩ :=
      (World.appendTo_comes hcalm place (Zip.entryBytes s.member) u).run
    rw [hu, hv, hw, Disk.apply_append_holding] at hx
    obtain ⟨members, failure, y, hlast, hends⟩ := ih (done ++ [s.member]) hrest hx
      (hxcwd.trans (hucwd.trans (hvcwd.trans hcwd)))
    refine ⟨members, failure, y, ?_, hends.imp_right fun hwhole => ?_⟩
    · rw [hrun]
      simp only
      rw [Act.run_bind, hrun']
      simp only
      rw [Act.run_bind]
      have hmember : (⟨FilePath.textOfComponents (s.names.map .name), s.contents, true⟩ : Zip.Member) =
          s.member := rfl
      rw [hmember, hrun'']
      exact hlast
    · obtain ⟨hnone, hmembers, hycwd, hy⟩ := hwhole
      refine ⟨hnone, ?_, hycwd, ?_⟩
      · rw [hmembers, List.append_assoc]
        rfl
      · rw [hy, List.map_cons, List.flatMap_cons, List.append_assoc]

end

variable {h : Host} (hcalm : h.Calm) {w : World} {base place : Place} {root jar : FilePath}
  {sources : List Source}

include hcalm in
/-- Packing comes to an archive of all the files, unless it gives up. -/
theorem pack_reaches (hroom : w.disk.HasRoom w.cwd jar place)
    (hsources : ∀ s ∈ sources, s.Stands w.disk w.cwd root base ∧ base ++ s.names ≠ place) :
    (pack h (sources.map Source.path) root jar).Reaches w (.ok ())
      (w.disk.holding place (Zip.write (sources.map Source.member))) := by
  obtain ⟨dir, hdir, hthere⟩ := hroom.parent
  have hmade := (World.makeDirectories_done hcalm hthere).mapError StageError.ofIo
  have hcreated := fun v : World => (World.createFile_comes hcalm jar false v).mapError StageError.ofIo
  unfold pack
  rw [hdir]
  refine Try.Reaches.bind (.inr hmade) fun v hv hvcwd => ?_
  have hplan : v.disk.planCreate v.cwd jar false = .ok (.create place (w.disk.mayRun place)) := by
    rw [hv, hvcwd]
    exact hroom.planCreate
  specialize hcreated v
  rw [hplan] at hcreated
  refine Try.Reaches.bind (.inr hcreated) fun u hu hucwd => ?_
  have hempty : u.disk = w.disk.holding place [] := by
    rw [hu, hv]
    rfl
  obtain ⟨members, failure, x, hrun, hends⟩ := packEach_comes hcalm hroom sources [] hsources hempty
    (hucwd.trans hvcwd)
  obtain ⟨y, hended, hy, hycwd⟩ :=
    ((World.appendTo_comes hcalm place (Zip.ending members) x).mapError StageError.ofIo).run
  -- the archive is ended whether or not all files are in it
  rcases hends with ⟨e, rfl, hgives⟩ | ⟨rfl, rfl, hxcwd, hx⟩
  · refine .inl ⟨e, ?_, hgives⟩
    rw [Try.run_settle_lift_bind, Change.place, hrun]
    simp only
    rw [Try.run_settle_bind, onDisk, hended]
    rfl
  · refine .inr (.of_run (v := y) ?_ ?_ (hycwd.trans (hxcwd.trans (hucwd.trans hvcwd).symm)))
    · rw [Try.run_settle_lift_bind, Change.place, hrun]
      simp only
      rw [Try.run_settle_bind, onDisk, hended]
      rfl
    · rw [hy, hx, Disk.apply_append_holding]
      rfl

end Work

/-! ## Earlier attempts -/

/-- Bytes were written behind those in the file at the place, perhaps, and nothing else. -/
structure Appends (place : Place) (w v : World) : Prop where
  cwd : v.cwd = w.cwd
  disk : ∀ (d : Disk) (bytes : Bytes), w.disk = d.holding place bytes →
    ∃ more, v.disk = d.holding place (bytes ++ more)

instance (place : Place) : Std.Refl (Appends place) where
  refl _ := ⟨rfl, fun _ _ hw => ⟨[], hw.trans (congrArg _ (List.append_nil _).symm)⟩⟩

instance (place : Place) : IsTrans World (Appends place) where
  trans w v u hwv hvu := by
    refine ⟨hvu.cwd.trans hwv.cwd, fun d bytes hw => ?_⟩
    obtain ⟨more, hv⟩ := hwv.disk d bytes hw
    obtain ⟨more', hu⟩ := hvu.disk d _ hv
    exact ⟨more ++ more', by rw [hu, List.append_assoc]⟩

theorem Still.appends {place : Place} {w v : World} (h : Still w v) : Appends place w v :=
  ⟨h.cwd, fun _ bytes hw => ⟨[], h.disk.trans (hw.trans (congrArg _ (List.append_nil bytes).symm))⟩⟩

namespace World

variable {h : Host} {w : World} {place : Place} {p : FilePath}

theorem appendTo_appends (place : Place) (more : Bytes) :
    Try.Keeps (Appends place) (appendTo h place more) := by
  unfold appendTo
  refine Try.Keeps.bind (Act.Keeps.mono access_still fun _ _ => Still.appends) fun _ =>
    .lift fun v => ⟨rfl, fun d bytes hv => ⟨more, ?_⟩⟩
  show v.disk.apply (.append place more) = _
  rw [hv, Disk.apply_append_holding]

/-- Two actions in a row end in a world that either the first one or the second one ends in. -/
theorem ends_bind {ε α β : Type} {P : World → Prop} {t : Try ε α} {f : α → Try ε β}
    (hfailed : ∀ e v, t.settle.run w = (.error e, v) → P v)
    (hdone : ∀ a v, t.settle.run w = (.ok a, v) → P ((f a).settle.run v).2) :
    P ((t >>= f).settle.run w).2 := by
  rw [Try.run_settle_bind]
  rcases hrun : t.settle.run w with ⟨e | a, v⟩
  · exact hfailed e v hrun
  · exact hdone a v hrun

/-- No directory is made where there is one. -/
theorem makeDirectory_refused (hfaults : ∀ n, h.fault n ≠ some (.fault .notFound))
    (hplan : w.disk.planMakeDirectory w.cwd p = .error (.fault .alreadyExists)) :
    ∃ e v, (makeDirectory h p).settle.run w = (.error e, v) ∧ Still w v ∧ e ≠ .fault .notFound := by
  unfold makeDirectory
  rcases access_cases (h := h) (do change (← plan fun d cwd => d.planMakeDirectory cwd p)) w with
    ⟨n, e, v, hfault, hrun, hstill⟩ | ⟨v, hrun, hstill⟩
  · exact ⟨e, v, hrun, hstill, fun heq => hfaults n (heq ▸ hfault)⟩
  · refine ⟨.fault .alreadyExists, v, ?_, hstill, nofun⟩
    rw [hrun, Try.run_settle_bind, run_plan, hstill.disk, hstill.cwd, hplan]

/-- A directory that is there is left as it is, unless the host denies that it is. -/
theorem makeDirectories_still (hfaults : ∀ n, h.fault n ≠ some (.fault .notFound)) {dir : FilePath}
    (hdir : dir.text = "" ∨ w.disk.isDirectory w.cwd dir = true) :
    Still w ((makeDirectories h dir).settle.run w).2 := by
  rcases hdir with hempty | hthere
  · obtain rfl : dir = ⟨""⟩ := congrArg FilePath.mk hempty
    exact Std.Refl.refl w
  obtain ⟨q, hq⟩ := Disk.entryAt_of_isDirectory hthere
  unfold makeDirectories ancestors
  cases dir.parent? with
  | none => exact Std.Refl.refl w
  | some above =>
    have htext : dir.text ≠ "" := by
      obtain ⟨ending, hlocate, -, -⟩ := Disk.entryAt_of_locate hq
      exact (Disk.text_of_locate hlocate).2
    simp only [if_neg htext]
    obtain ⟨e, v, hrun, hstill, hfound⟩ := makeDirectory_refused hfaults
      (Disk.planMakeDirectory_of_directory hq
        ⟨rfl, (List.append_nil _).symm, Disk.clean_of_entryAt hq⟩ htext)
    -- whatever it is refused for, nothing above the directory is looked at
    have hlowest : ((makeLowest h [] (dir :: ancestors dir.text.length above)).settle.run w) =
        (if e = .fault .alreadyExists ∧ ((isDirectory dir).run v).1 = true then .ok [] else .error e,
          v) := by
      unfold makeLowest
      rw [Try.run_settle_outcome_bind, hrun]
      simp only [if_neg hfound]
      rw [Try.run_settle_lift_bind, isDirectory_reads dir v]
      split <;> rfl
    refine ends_bind (fun e' u hfailed => ?_) fun missing u hdone => ?_
    · obtain ⟨-, rfl⟩ := Prod.mk.inj (hlowest.symm.trans hfailed)
      exact hstill
    · obtain ⟨hmissing, rfl⟩ := Prod.mk.inj (hlowest.symm.trans hdone)
      split at hmissing
      · obtain rfl := Except.ok.inj hmissing
        exact hstill
      · cases hmissing

/-- A file is made, or the host refuses. -/
theorem createFile_room (hroom : w.disk.HasRoom w.cwd p place) :
    (∃ e v, (createFile h p false).settle.run w = (.error e, v) ∧ Still w v) ∨
      ∃ v, (createFile h p false).settle.run w = (.ok place, v) ∧ v.cwd = w.cwd ∧
        v.disk = w.disk.holding place [] := by
  unfold createFile
  rcases access_cases (h := h) (do
      let c ← plan fun d cwd => d.planCreate cwd p false
      change c
      return c.place) w with ⟨-, e, v, -, hrun, hstill⟩ | ⟨v, hrun, hstill⟩
  · exact .inl ⟨e, v, hrun, hstill⟩
  · refine .inr ⟨((change (.create place (w.disk.mayRun place))).run v).2, ?_, hstill.cwd, ?_⟩
    · rw [hrun, Try.run_settle_bind, run_plan, hstill.disk, hstill.cwd, hroom.planCreate]
      rfl
    · show v.disk.apply (.create place (w.disk.mayRun place)) = _
      rw [hstill.disk]
      rfl

end World

namespace Work

variable {h : Host} {w v : World} {place : Place} {jar : FilePath}

theorem packEach_appends (root : FilePath) (place : Place) :
    ∀ (done : List Zip.Member) (ps : List FilePath),
      Act.Keeps (Appends place) (packEach h root place done ps)
  | done, [] => .pure _
  | done, p :: ps => by
    unfold packEach
    have hbelow : Try.Keeps Still (do checkMemory h; below root p : Try StageError _) :=
      checkMemory_still.bind fun _ => below_still root p
    refine (hbelow.settle.mono fun _ _ => Still.appends).bind fun r => ?_
    cases r with
    | error e => exact .pure _
    | ok relative =>
      refine ((World.readBytes_still p).settle.mono fun _ _ => Still.appends).bind fun r => ?_
      cases r with
      | error e => exact .pure _
      | ok contents =>
        refine (World.appendTo_appends place _).settle.bind fun r => ?_
        cases r with
        | error e => exact .pure _
        | ok _ => exact packEach_appends root place _ ps

/-- The disk is as it was, but perhaps for the bytes in the file at the place. -/
def Leaves (place : Place) (w v : World) : Prop :=
  v.cwd = w.cwd ∧ (v.disk = w.disk ∨ ∃ bytes, v.disk = w.disk.holding place bytes)

theorem Leaves.trans {u : World} (hwv : Leaves place w v) (hvu : Leaves place v u) :
    Leaves place w u := by
  obtain ⟨hcwd, hv⟩ := hwv
  obtain ⟨hcwd', hu⟩ := hvu
  refine ⟨hcwd'.trans hcwd, ?_⟩
  rcases hu with hu | ⟨bytes, hu⟩
  · rwa [hu]
  · refine .inr ⟨bytes, ?_⟩
    rcases hv with hv | ⟨before, hv⟩
    · rw [hu, hv]
    · rw [hu, hv, Disk.holding_holding]

theorem Appends.leaves {u : World} {bytes : Bytes} (h : Appends place v u) (hcwd : v.cwd = w.cwd)
    (hv : v.disk = w.disk.holding place bytes) : Leaves place w u := by
  obtain ⟨more, hu⟩ := h.disk _ _ hv
  exact ⟨h.cwd.trans hcwd, .inr ⟨_, hu⟩⟩

theorem Leaves.hasRoom (hwv : Leaves place w v) (hroom : w.disk.HasRoom w.cwd jar place) :
    v.disk.HasRoom v.cwd jar place := by
  obtain ⟨hcwd, hv⟩ := hwv
  rw [hcwd]
  rcases hv with hv | ⟨bytes, hv⟩
  · rwa [hv]
  · rw [hv]
    exact hroom.holding bytes

/-- The same of a file operation inside a stage, and what follows it. -/
theorem ends_onDisk {α β : Type} {P : World → Prop} {t : Try IoError α} {f : α → Try StageError β}
    (hfailed : ∀ e v, t.settle.run w = (.error e, v) → P v)
    (hdone : ∀ a v, t.settle.run w = (.ok a, v) → P ((f a).settle.run v).2) :
    P ((onDisk t >>= f).settle.run w).2 := by
  rw [Try.run_settle_bind, onDisk, Try.run_settle_mapError]
  rcases hrun : t.settle.run w with ⟨e | a, v⟩
  · exact hfailed e v hrun
  · exact hdone a v hrun

/-- An attempt to pack changes nothing but the file it packs into, however it ends. -/
theorem pack_leaves (hfaults : ∀ n, h.fault n ≠ some (.fault .notFound))
    (hroom : w.disk.HasRoom w.cwd jar place) (files : List FilePath) (root : FilePath) :
    Leaves place w ((pack h files root jar).settle.run w).2 := by
  obtain ⟨dir, hdir, hthere⟩ := hroom.parent
  have hmade := World.makeDirectories_still hfaults hthere
  unfold pack
  rw [hdir]
  refine ends_onDisk (fun e u hrun => ?_) fun _ u hrun => ?_
  · rw [hrun] at hmade
    exact ⟨hmade.cwd, .inl hmade.disk⟩
  rw [hrun] at hmade
  have hroom' : u.disk.HasRoom u.cwd jar place := by
    rw [hmade.disk, hmade.cwd]
    exact hroom
  have hcreate := World.createFile_room (h := h) hroom'
  refine ends_onDisk (fun e x hrun => ?_) fun q x hrun => ?_
  · rw [hrun] at hcreate
    rcases hcreate with ⟨_, _, hworld, hstill⟩ | ⟨_, hworld, -⟩
    · obtain ⟨-, rfl⟩ := Prod.mk.inj hworld
      exact ⟨hstill.cwd.trans hmade.cwd, .inl (hstill.disk.trans hmade.disk)⟩
    · cases (Prod.mk.inj hworld).1
  rw [hrun] at hcreate
  rcases hcreate with ⟨_, _, hworld, -⟩ | ⟨_, hworld, hcwd, hx⟩
  · cases (Prod.mk.inj hworld).1
  obtain ⟨hq, rfl⟩ := Prod.mk.inj hworld
  obtain rfl := Except.ok.inj hq
  -- from here on bytes are written to the file and nothing else happens
  rw [hmade.disk] at hx
  refine Appends.leaves (Try.Keeps.bind (.lift (packEach_appends root q [] files)) (fun packed => ?_) x)
    (hcwd.trans hmade.cwd) hx
  refine (World.appendTo_appends q _).mapError.bind fun _ => ?_
  cases packed.2 with
  | some e => exact .throw e
  | none => exact .pure ()

/-- The world after attempts to pack into an archive, on hosts that do not deny what is there. -/
inductive Attempted (jar : FilePath) (w : World) : World → Prop
  | none : Attempted jar w w
  | again {v : World} {h : Host} (before : Attempted jar w v)
    (hfaults : ∀ n, h.fault n ≠ some (.fault .notFound)) (files : List FilePath) (root : FilePath) :
    Attempted jar w ((pack h files root jar).settle.run v).2

theorem Attempted.leaves (hv : Attempted jar w v) (hroom : w.disk.HasRoom w.cwd jar place) :
    Leaves place w v := by
  induction hv with
  | none => exact ⟨rfl, .inl rfl⟩
  | again before hfaults files root ih => exact ih.trans (pack_leaves hfaults (ih.hasRoom hroom) files root)

/-- Packing once more comes to what packing afresh comes to. -/
theorem pack_again (hcalm : h.Calm) {base : Place} {root : FilePath} {sources : List Source}
    (hroom : w.disk.HasRoom w.cwd jar place)
    (hsources : ∀ s ∈ sources, s.Stands w.disk w.cwd root base ∧ base ++ s.names ≠ place)
    (hv : Leaves place w v) :
    (pack h (sources.map Source.path) root jar).Reaches v (.ok ())
      (w.disk.holding place (Zip.write (sources.map Source.member))) := by
  have hpacked := @pack_reaches h hcalm v base place root jar sources (hv.hasRoom hroom)
  obtain ⟨hcwd, hdisk | ⟨bytes, hdisk⟩⟩ := hv
  · rw [hcwd, hdisk] at hpacked
    exact hpacked hsources
  · rw [hcwd, hdisk, Disk.holding_holding] at hpacked
    exact hpacked fun s hs =>
      ⟨(hsources s hs).1.of_fileAt (hroom.fileAt bytes) (hsources s hs).2, (hsources s hs).2⟩

end Work

end Decompile
