import Decompile.Proofs.Act.Moves
import Decompile.Proofs.Disk.Plain
import Decompile.Stage.Run

/-!
# Where files come from

Every file that a job writes has a source, and so has every file that it gives to a tool. The law
below says so of each entry of the journal, by what was on the disk at earlier moments.

- `World.diskAfter`: the disk at a moment.
- `Found`: a file that a stage has found below a directory.
- `Unpacks`, `Writes`, `Stores`: what a job writes, and from where.
- `Lawful`: an entry of the journal that has its source.
- `Tracked`: every entry since a world is lawful.
- `Goes`: an action keeps that up, given something that was known at an earlier moment.
-/

namespace Decompile

/-! ## Moments -/

namespace World

/-- The disk after some of what has happened since a world. -/
def diskAfter (w : World) (past : List Occurrence) : Disk := w.disk.replay (changesIn past)

theorem changesIn_append (a b : List Occurrence) :
    changesIn (a ++ b) = changesIn a ++ changesIn b :=
  List.filterMap_append

theorem diskAfter_append (w : World) (a b : List Occurrence) :
    w.diskAfter (a ++ b) = (w.diskAfter a).replay (changesIn b) := by
  rw [diskAfter, changesIn_append, Disk.replay_append]
  rfl

end World

/-- The entry neither changes the disk nor calls a tool. -/
def Occurrence.isQuiet : Occurrence → Bool
  | .changed _ | .called _ => false
  | _ => true

theorem World.changesIn_of_isQuiet {os : List Occurrence} (hos : ∀ o ∈ os, o.isQuiet = true) :
    changesIn os = [] := by
  refine List.filterMap_eq_nil_iff.mpr fun o ho => ?_
  cases o with
  | changed c => cases hos _ ho
  | _ => rfl

/-! ## Sources -/

/-- A walk below the directory `root` has found the file at that moment. -/
def Found (w₀ : World) (root : FilePath) (past : List Occurrence) (p : FilePath) : Prop :=
  ∃ names contents x, p = Disk.childPath root names ∧ (∀ n ∈ names, IsEntryName n) ∧
    (w₀.diskAfter past).find? (root.place w₀.cwd ++ names) = some (.file contents x)

/-- Bytes of the input are unpacked to a place. -/
inductive Unpacks (c : StageContext) (w₀ : World) (past : List Occurrence) : Place → Bytes → Prop where
  /-- A member of the input is unpacked under its name. -/
  | member {earlier : List Occurrence} (before : earlier <+: past) {bytes : Bytes}
    (held : (w₀.diskAfter earlier).read w₀.cwd c.job.submission.inputPath = .ok bytes)
    {ls : List Zip.Listed} (read : Zip.read bytes = .ok ls) {l : Zip.Listed} (listed : l ∈ ls)
    (enclosed : Zip.isEnclosed l.name = true) {opened : Zip.Opened}
    (opens : Zip.openMember bytes l = .ok opened) :
    Unpacks c w₀ past ((c.layout.unpacked.join ⟨l.name⟩).place w₀.cwd) opened.contents
  /-- The input is copied as it is. -/
  | whole {earlier : List Occurrence} (before : earlier <+: past) {bytes : Bytes}
    (held : (w₀.diskAfter earlier).read w₀.cwd c.job.submission.inputPath = .ok bytes) {n : String}
    (named : c.job.submission.inputPath.fileName? = some n) :
    Unpacks c w₀ past (c.layout.unpacked.place w₀.cwd ++ [n]) bytes

/-- The call is one that the job makes of some files. -/
def Calls (h : Host) (c : StageContext) (files : List FilePath) (i : Invocation) : Prop :=
  i ∈ planConvert c.job.backend h.catalog files c.layout.java ∨
    i ∈ files.map (dexToJarCall h.catalog c.layout.intermediate)

/-- A job writes the bytes to the file at a place, by what was on the disk at earlier moments. -/
inductive Writes (h : Host) (c : StageContext) (w₀ : World) (past : List Occurrence) :
    Place → Bytes → Prop where
  /-- The input is unpacked. -/
  | unpacked {q : Place} {bytes : Bytes} (unpacks : Unpacks c w₀ past q bytes) :
    Writes h c w₀ past q bytes
  /-- A file is packed into an archive. -/
  | packed (index : Nat) {earlier : List Occurrence} (before : earlier <+: past) {p : FilePath}
    (found : Found w₀ c.layout.unpacked earlier p) {later : List Occurrence}
    (after : later <+: past) {contents : Bytes}
    (held : (w₀.diskAfter later).read w₀.cwd p = .ok contents) (name : String) :
    Writes h c w₀ past ((Work.chunkJar c.layout index).place w₀.cwd)
      (Zip.entryBytes ⟨name, contents, true⟩)
  /-- The directory of an archive ends it. -/
  | ending (index : Nat) (members : List Zip.Member) :
    Writes h c w₀ past ((Work.chunkJar c.layout index).place w₀.cwd) (Zip.ending members)
  /-- An archive of sources is unpacked where it stands. -/
  | source (rest : List String) (bytes : Bytes) :
    Writes h c w₀ past (c.layout.java.place w₀.cwd ++ rest) bytes
  /-- A resource is copied. -/
  | resource {earlier : List Occurrence} (before : earlier <+: past) {names : List String}
    (found : Found w₀ c.layout.unpacked earlier (Disk.childPath c.layout.unpacked names))
    {later : List Occurrence} (after : later <+: past) {contents : Bytes}
    (held : (w₀.diskAfter later).read w₀.cwd (Disk.childPath c.layout.unpacked names) =
      .ok contents) :
    Writes h c w₀ past (c.layout.resources.place w₀.cwd ++ names) contents
  /-- A tool writes a file. -/
  | tool {before after : List Occurrence} {i : Invocation}
    (called : before ++ .called i :: after = past) {files : List FilePath}
    (calls : Calls h c files i) {p : FilePath} {bytes : Bytes}
    (does : .writeFile p bytes ∈
      (h.tool (World.callsIn (w₀.journal ++ before)) (w₀.diskAfter before) i).activities) :
    Writes h c w₀ past (p.place w₀.cwd) bytes

/-- A job stores a finished file. `own` says whether it may store its own record. -/
inductive Stores (h : Host) (c : StageContext) (own : Prop) (w₀ : World) : Place → Bytes → Prop where
  /-- An output is marked. -/
  | marker {kind : StageKind} (marked : kind.hasMarkers = true) {name : String}
    (known : Target.isMarkerName name = true) :
    Stores h c own w₀ ((outputOf c.layout kind).place w₀.cwd ++ [name]) []
  /-- The record of a job is stored, that of a job of another key at any time. -/
  | record {key : String} (clean : isTargetKey key = true) (mine : key = c.job.targetKey → own)
    (bytes : Bytes) :
    Stores h c own w₀ ((sourcesIn h.settings.storage).place w₀.cwd ++ [key, recordName]) bytes

/-- What a job removes lies at or below the directories that its stages write. -/
def Discards (c : StageContext) (w₀ : World) (q : Place) : Prop :=
  ∃ kind rest, q = (outputOf c.layout kind).place w₀.cwd ++ rest

/-- The job has made the file anew. -/
def Begun (past : List Occurrence) (q : Place) : Prop := ∃ x, .changed (.create q x) ∈ past

theorem Begun.mono {past more : List Occurrence} {q : Place} (hq : Begun past q)
    (hmore : past <+: more) : Begun more q := by
  obtain ⟨x, hx⟩ := hq
  exact ⟨x, hmore.subset hx⟩

/-- The change has its source. -/
def Sourced (h : Host) (c : StageContext) (own : Prop) (w₀ : World) (past : List Occurrence) :
    Change → Prop
  | .makeDirectory _ => True
  | .create q _ => ∃ bytes, Writes h c w₀ past q bytes
  | .append q bytes => Begun past q ∧ Writes h c w₀ past q bytes
  | .replace q bytes => Stores h c own w₀ q bytes
  | .remove q => Discards c w₀ q
  | .link _ _ => False

/-- The entry has its source. -/
def Lawful (h : Host) (c : StageContext) (own : Prop) (w₀ : World) (past : List Occurrence) :
    Occurrence → Prop
  | .changed change => change.Sound (w₀.diskAfter past) ∧ Sourced h c own w₀ past change
  | .called i => ∃ earlier files, earlier <+: past ∧ Calls h c files i ∧
      ∀ p ∈ files, Found w₀ c.layout.unpacked earlier p ∨ Found w₀ c.layout.intermediate earlier p
  | _ => True

theorem Lawful.of_isQuiet {h : Host} {c : StageContext} {own : Prop} {w₀ : World}
    {past : List Occurrence} {o : Occurrence} (ho : o.isQuiet = true) :
    Lawful h c own w₀ past o := by
  cases o with
  | changed change => cases ho
  | called i => cases ho
  | _ => trivial

/-! ## Histories -/

/-- Every entry since the world `w₀` is lawful. -/
structure Tracked (h : Host) (c : StageContext) (own : Prop) (w₀ v : World) : Prop where
  journal : v.journal = w₀.journal ++ w₀.since v
  cwd : v.cwd = w₀.cwd
  disk : v.disk = w₀.diskAfter (w₀.since v)
  plain : v.disk.Plain
  lawful : ∀ past o later, w₀.since v = past ++ o :: later → Lawful h c own w₀ past o

namespace Tracked

variable {h : Host} {c : StageContext} {own : Prop} {w₀ v u : World}

theorem new (hplain : w₀.disk.Plain) : Tracked h c own w₀ w₀ := by
  have hnone : w₀.since w₀ = [] := World.since_eq (List.append_nil _).symm
  refine ⟨?_, rfl, ?_, hplain, fun past o later heq => ?_⟩
  · rw [hnone, List.append_nil]
  · rw [hnone]
    rfl
  · rw [hnone] at heq
    exact absurd heq.symm (List.append_ne_nil_of_right_ne_nil _ (List.cons_ne_nil _ _))

/-- One more lawful entry. -/
theorem snoc (hv : Tracked h c own w₀ v) {o : Occurrence} (hjournal : u.journal = v.journal ++ [o])
    (hcwd : u.cwd = v.cwd) (hdisk : u.disk = v.disk.replay (World.changesIn [o]))
    (hplain : u.disk.Plain) (ho : Lawful h c own w₀ (w₀.since v) o) : Tracked h c own w₀ u := by
  have hsince : w₀.since u = w₀.since v ++ [o] := by
    refine World.since_eq ?_
    rw [hjournal, ← List.append_assoc, ← hv.journal]
  refine ⟨?_, hcwd.trans hv.cwd, ?_, hplain, fun past o' later heq => ?_⟩
  · rw [hsince, ← List.append_assoc, ← hv.journal, hjournal]
  · rw [hsince, World.diskAfter_append, ← hv.disk, hdisk]
  · rw [hsince] at heq
    rcases List.eq_nil_or_concat later with rfl | ⟨later, last, rfl⟩
    · obtain ⟨rfl, hlast⟩ := List.append_inj' heq rfl
      obtain rfl := (List.cons.inj hlast).1
      exact ho
    · rw [List.concat_eq_append, ← List.cons_append, ← List.append_assoc] at heq
      exact hv.lawful past o' later (List.append_inj' heq rfl).1

/-- More entries that neither change the disk nor call a tool. -/
theorem quiet (hv : Tracked h c own w₀ v) {new : List Occurrence}
    (hjournal : u.journal = v.journal ++ new) (hnew : ∀ o ∈ new, o.isQuiet = true)
    (hcwd : u.cwd = v.cwd) (hdisk : u.disk = v.disk) : Tracked h c own w₀ u := by
  induction new generalizing v with
  | nil =>
    have hsame : w₀.since u = w₀.since v := by
      rw [World.since, World.since, hjournal, List.append_nil]
    rw [List.append_nil] at hjournal
    refine ⟨?_, hcwd.trans hv.cwd, ?_, hdisk ▸ hv.plain, ?_⟩
    · rw [hsame, hjournal]
      exact hv.journal
    · rw [hsame, hdisk]
      exact hv.disk
    · rw [hsame]
      exact hv.lawful
  | cons o new ih =>
    have ho := hnew o List.mem_cons_self
    have hnone : World.changesIn [o] = [] := World.changesIn_of_isQuiet fun o' ho' => by
      rwa [List.mem_singleton.mp ho']
    have hfirst : Tracked h c own w₀ { v with journal := v.journal ++ [o] } := by
      refine hv.snoc rfl rfl ?_ hv.plain (.of_isQuiet ho)
      rw [hnone]
      rfl
    refine ih hfirst ?_ (fun o' ho' => hnew o' (List.mem_cons_of_mem _ ho')) hcwd hdisk
    rw [hjournal, List.append_assoc]
    rfl

theorem note (hv : Tracked h c own w₀ v) {o : Occurrence} (ho : o.isQuiet = true)
    (hjournal : u.journal = v.journal ++ [o]) (hcwd : u.cwd = v.cwd) (hdisk : u.disk = v.disk) :
    Tracked h c own w₀ u :=
  hv.quiet hjournal (fun _ ho' => List.mem_singleton.mp ho' ▸ ho) hcwd hdisk

end Tracked

/-! ## Actions -/

/-- At an earlier moment this was so. -/
def Once (φ : List Occurrence → Prop) (past : List Occurrence) : Prop :=
  ∃ earlier, earlier <+: past ∧ φ earlier

theorem Once.here {φ : List Occurrence → Prop} {past : List Occurrence} (hφ : φ past) :
    Once φ past :=
  ⟨past, List.prefix_refl _, hφ⟩

theorem Once.mono {φ : List Occurrence → Prop} {past more : List Occurrence} (hp : Once φ past)
    (hmore : past <+: more) : Once φ more := by
  obtain ⟨earlier, hearlier, hφ⟩ := hp
  exact ⟨earlier, hearlier.trans hmore, hφ⟩

theorem Once.mp {φ ψ : List Occurrence → Prop} {past : List Occurrence} (hp : Once φ past)
    (hψ : ∀ e, φ e → Once ψ e) : Once ψ past := by
  obtain ⟨earlier, hearlier, hφ⟩ := hp
  exact (hψ earlier hφ).mono hearlier

/-- Whatever has been lawful goes on to be so, while the job holds its key and given something that
was so at an earlier moment. -/
def Goes (h : Host) (c : StageContext) (own : Prop) (w₀ : World) (φ : List Occurrence → Prop)
    (w v : World) : Prop :=
  Tracked h c own w₀ w → w.registry.holder? c.job.targetKey = some c.ticket → Once φ (w₀.since w) →
    Tracked h c own w₀ v ∧ v.registry.holder? c.job.targetKey = some c.ticket ∧
      w₀.since w <+: w₀.since v

section

variable {h : Host} {c : StageContext} {own : Prop} {w₀ : World} {φ ψ : List Occurrence → Prop}

instance : Std.Refl (Goes h c own w₀ φ) := ⟨fun _ hw hheld _ => ⟨hw, hheld, List.prefix_refl _⟩⟩

instance : IsTrans World (Goes h c own w₀ φ) where
  trans _ _ _ hu hv ht hheld hφ := by
    obtain ⟨ht', hheld', hlater⟩ := hu ht hheld hφ
    obtain ⟨ht'', hheld'', hlater'⟩ := hv ht' hheld' (hφ.mono hlater)
    exact ⟨ht'', hheld'', hlater.trans hlater'⟩

/-- To know more does no harm. -/
theorem Goes.mono (hφ : ∀ past, φ past → Once ψ past) {w v : World} (hg : Goes h c own w₀ ψ w v) :
    Goes h c own w₀ φ w v := by
  intro ht hheld hknown
  exact hg ht hheld (hknown.mp hφ)

/-- What does not depend on the moment may be taken from what is known. -/
theorem Try.Keeps.known {ε α : Type} {P : Prop} {t : Try ε α} (hP : ∀ past, φ past → P)
    (ht : P → Try.Keeps (Goes h c own w₀ φ) t) : Try.Keeps (Goes h c own w₀ φ) t := by
  intro w htracked hheld hφ
  have ⟨earlier, _, hknown⟩ := hφ
  exact ht (hP earlier hknown) w htracked hheld hφ

/-- Two actions, the second of which is given what the first has found out. -/
theorem Act.Keeps.gain {α β : Type} {ψ : α → List Occurrence → Prop} {x : Act α} {f : α → Act β}
    (hx : Act.Keeps (Goes h c own w₀ φ) x)
    (hgain : ∀ w, Tracked h c own w₀ w → w.registry.holder? c.job.targetKey = some c.ticket →
      Once φ (w₀.since w) → Once (ψ (x.run w).1) (w₀.since (x.run w).2))
    (hf : ∀ a, Act.Keeps (Goes h c own w₀ (ψ a)) (f a)) :
    Act.Keeps (Goes h c own w₀ φ) (x >>= f) := by
  intro w ht hheld hφ
  rw [Act.run_bind]
  obtain ⟨ht', hheld', hlater⟩ := hx w ht hheld hφ
  obtain ⟨ht'', hheld'', hlater'⟩ := hf _ _ ht' hheld' (hgain w ht hheld hφ)
  exact ⟨ht'', hheld'', hlater.trans hlater'⟩

/-- The same of actions that may fail. -/
theorem Try.Keeps.gain {ε α β : Type} {ψ : α → List Occurrence → Prop} {t : Try ε α}
    {f : α → Try ε β} (ht : Try.Keeps (Goes h c own w₀ φ) t)
    (hgain : ∀ w a v, Tracked h c own w₀ w → Once φ (w₀.since w) → t.settle.run w = (.ok a, v) →
      Tracked h c own w₀ v → Once (ψ a) (w₀.since v))
    (hf : ∀ a, Try.Keeps (Goes h c own w₀ (ψ a)) (f a)) :
    Try.Keeps (Goes h c own w₀ φ) (t >>= f) := by
  intro w htracked hheld hφ
  have hfirst := ht w htracked hheld hφ
  rw [Try.run_settle_bind]
  rcases hrun : t.settle.run w with ⟨e | a, v⟩
  · rw [hrun] at hfirst
    exact hfirst
  · rw [hrun] at hfirst
    obtain ⟨ht', hheld', hlater⟩ := hfirst
    obtain ⟨ht'', hheld'', hlater'⟩ :=
      hf a v ht' hheld' (hgain w a v htracked hφ hrun ht')
    exact ⟨ht'', hheld'', hlater.trans hlater'⟩

end

end Decompile
