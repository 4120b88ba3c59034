import Decompile.Proofs.Act.Moves
import Decompile.Proofs.Act.Succeeds
import Decompile.Proofs.Session
import Decompile.Proofs.Twins.Pairs
import Decompile.Stage.Run

/-!
# Files in two worlds

Files are looked at and written twice, at two hosts and in two worlds that are related. If the two
hosts and the relation go well together, the two programs find the same, do the same and leave worlds
that are related again.

- `Realm`: the paths at which a program looks, at which it makes directories, and which it writes.
- `Twins`: what is asked of the two hosts and of the relation, for the paths of a realm and the
  changes that `At` admits.
- `Submission.keeping`: the same request, but for what becomes of intermediate files.
- `Twins.makeDirectories`, `createFile`, `removeTree`: the operations; `Twins.input`: the items.
-/

namespace Decompile

/-- The paths at which a program looks, at which it makes directories, which it writes from their
start, and whose entries it replaces or removes. -/
structure Realm where
  look : FilePath → Prop
  make : FilePath → Prop
  write : FilePath → Prop
  take : FilePath → Prop

/-- All paths. -/
def Realm.all : Realm := ⟨fun _ => True, fun _ => True, fun _ => True, fun _ => True⟩

/-- The entry comes with a change of the disk, and is not itself one; it is not about a call. -/
def Occurrence.isRemark : Occurrence → Bool
  | .changed _ | .called _ => false
  | _ => true

/-- A path is replaced and removed alike in two worlds, with changes that `At` admits. -/
structure SameTakes (At : World → Change → Prop) (p : FilePath) (u v : World) : Prop where
  replace : ∀ bytes, u.disk.planReplace u.cwd p bytes = v.disk.planReplace v.cwd p bytes ∧
    ∀ c, u.disk.planReplace u.cwd p bytes = .ok c → At u c
  remove : u.disk.planRemoveFile u.cwd p = v.disk.planRemoveFile v.cwd p ∧
    ∀ c, u.disk.planRemoveFile u.cwd p = .ok c → At u c

/-- Two hosts and a relation between their worlds: moments pass alike, what is noted and told is
noted and told in both, the paths in `P` mean the same, and changes that `At` admits keep the worlds
related. -/
structure Twins (h k : Host) (R : World → World → Prop) (P : Realm) (At : World → Change → Prop) :
    Prop where
  settings : k.settings = h.settings
  catalog : k.catalog = h.catalog
  pause : Act.Pairs R R (World.pause h) (World.pause k)
  happen : ∀ x, Act.Pairs R R (World.happen h x) (World.happen k x)
  fault : ∀ u v, R u v → k.fault v.clock = h.fault u.clock
  time : ∀ u v, R u v → k.time v.clock = h.time u.clock
  note : ∀ o : Occurrence, o.isRemark = true → Act.Pairs R R (World.note o) (World.note o)
  publish : ∀ key m, Act.Pairs R R (World.publish key m) (World.publish key m)
  watch : ∀ m : Option Monitor, Act.Pairs R R (modify fun w => { w with monitor := m })
    (modify fun w => { w with monitor := m })
  tripped : Act.Pairs R R World.isTripped World.isTripped
  cancelled : ∀ ticket, Act.Pairs R R (World.isCancelled ticket) (World.isCancelled ticket)
  change : ∀ c u v, R u v → At u c → R ((World.change c).run u).2 ((World.change c).run v).2
  looks : ∀ p, P.look p → ∀ u v, R u v →
    u.disk.entryAt u.cwd true p = v.disk.entryAt v.cwd true p
  makes : ∀ p, P.make p → ∀ u v, R u v →
    u.disk.planMakeDirectory u.cwd p = v.disk.planMakeDirectory v.cwd p ∧
      ∀ c, u.disk.planMakeDirectory u.cwd p = .ok c → At u c
  /-- What is made may be written to later. -/
  writes : ∀ p, P.write p → ∀ u v x, R u v →
    u.disk.planCreate u.cwd p x = v.disk.planCreate v.cwd p x ∧
      ∀ c, u.disk.planCreate u.cwd p x = .ok c → At u c ∧ ∀ w more, At w (.append c.place more)
  takes : ∀ p, P.take p → ∀ u v, R u v → SameTakes At p u v
  make_look : ∀ p, P.make p → P.look p
  upward : ∀ p q, P.make p → p.parent? = some q → P.make q
  write_upward : ∀ p q, P.write p → p.parent? = some q → P.make q

/-- What a tool makes, it makes at paths in `P`. -/
def Activity.Within (P : Realm) : Activity → Prop
  | .line _ | .happening _ | .submit _ => True
  | .makeDirectories p => P.make p
  | .writeFile p _ => P.write p

/-- The same request; what it says about intermediate files may be replaced. -/
def Submission.keeping (s : Submission) (keep : Option Bool) : Submission :=
  { s with keepIntermediate := keep.getD s.keepIntermediate }

theorem Submission.keeping_false (s : Submission) :
    s.keeping (some false) = { s with keepIntermediate := false } := rfl

/-- The same job, but for what becomes of what it consumes. -/
def Job.keeping (j : Job) (keep : Option Bool) : Job :=
  { j with submission := j.submission.keeping keep }

/-- The same work, but for what becomes of what it consumes. -/
def StageContext.keeping (c : StageContext) (keep : Option Bool) : StageContext :=
  { c with job := c.job.keeping keep }

namespace Twins

variable {h k : Host} {R : World → World → Prop} {P : Realm} {At : World → Change → Prop}
  (T : Twins h k R P At)
include T

/-! ## Files -/

theorem log (level : LogLevel) (target text : String) :
    Act.Pairs R R (World.log level target text) (World.log level target text) :=
  T.note _ rfl

theorem emit (key : String) (e : ProgressEvent) :
    Act.Pairs R R (World.emit key e) (World.emit key e) :=
  T.publish key _

theorem access : Try.Pairs R (World.access h) (World.access k) := by
  unfold World.access
  refine .bind (.lift T.pause) fun _ => .get_bind fun u v huv => ?_
  rw [T.fault u v huv]
  cases h.fault u.clock with
  | some e => exact .throw e
  | none => exact .pure ()

omit T in
/-- A plan that says the same of both disks. -/
theorem plan {α : Type} {f g : Disk → Place → Except IoError α}
    (hf : ∀ u v, R u v → f u.disk u.cwd = g v.disk v.cwd) :
    Try.Pairs R (World.plan f) (World.plan g) := by
  intro u v huv
  show ((World.plan f).settle.run u).1 = ((World.plan g).settle.run v).1 ∧
    R ((World.plan f).settle.run u).2 ((World.plan g).settle.run v).2
  rw [World.run_plan, World.run_plan]
  exact ⟨hf u v huv, huv⟩

/-- A change that the same plan comes to in both, and what follows it. -/
theorem plan_change {α : Type} {f : Disk → Place → Except IoError Change}
    {g g' : Change → Try IoError α}
    (hf : ∀ u v, R u v → f u.disk u.cwd = f v.disk v.cwd ∧ ∀ c, f u.disk u.cwd = .ok c → At u c)
    (hg : ∀ u v c, R u v → f u.disk u.cwd = .ok c → Try.Pairs R (g c) (g' c)) :
    Try.Pairs R (do let c ← World.plan f; World.change c; g c)
      (do let c ← World.plan f; World.change c; g' c) := by
  intro u v huv
  obtain ⟨hsame, hadmitted⟩ := hf u v huv
  rw [Try.run_settle_bind, Try.run_settle_bind, World.run_plan, World.run_plan, ← hsame]
  cases hplan : f u.disk u.cwd with
  | error e => exact ⟨rfl, huv⟩
  | ok c => exact hg u v c huv hplan _ _ (T.change c u v huv (hadmitted c hplan))

theorem planned_change {f : Disk → Place → Except IoError Change}
    (hf : ∀ u v, R u v → f u.disk u.cwd = f v.disk v.cwd ∧ ∀ c, f u.disk u.cwd = .ok c → At u c) :
    Try.Pairs R (do World.access h; World.change (← World.plan f))
      (do World.access k; World.change (← World.plan f)) := by
  refine T.access.bind fun _ => ?_
  have hdone : ∀ u v c, R u v → f u.disk u.cwd = .ok c →
      Try.Pairs R (Pure.pure () : Try IoError Unit) (Pure.pure ()) := fun _ _ _ _ _ => .pure ()
  have hlast := T.plan_change hf hdone
  simpa using hlast

section

variable {p : FilePath} (hp : P.look p)
include hp

theorem isFile : Act.Pairs R R (World.isFile p) (World.isFile p) := by
  intro u v huv
  refine ⟨?_, huv⟩
  show u.disk.isFile u.cwd p = v.disk.isFile v.cwd p
  unfold Disk.isFile
  rw [T.looks p hp u v huv]

theorem isDirectory : Act.Pairs R R (World.isDirectory p) (World.isDirectory p) := by
  intro u v huv
  refine ⟨?_, huv⟩
  show u.disk.isDirectory u.cwd p = v.disk.isDirectory v.cwd p
  unfold Disk.isDirectory
  rw [T.looks p hp u v huv]

theorem pathExists : Act.Pairs R R (World.pathExists p) (World.pathExists p) := by
  intro u v huv
  refine ⟨?_, huv⟩
  show u.disk.exists? u.cwd p = v.disk.exists? v.cwd p
  unfold Disk.exists?
  rw [T.looks p hp u v huv]

theorem readBytes : Try.Pairs R (World.readBytes h p) (World.readBytes k p) := by
  unfold World.readBytes
  refine T.access.bind fun _ => plan fun u v huv => ?_
  unfold Disk.read
  rw [T.looks p hp u v huv]

end

theorem makeDirectory {p : FilePath} (hp : P.make p) :
    Try.Pairs R (World.makeDirectory h p) (World.makeDirectory k p) :=
  T.planned_change (T.makes p hp)

theorem removeFile {p : FilePath} (hp : P.take p) :
    Try.Pairs R (World.removeFile h p) (World.removeFile k p) :=
  T.planned_change fun u v huv => (T.takes p hp u v huv).remove

theorem replaceFile {p : FilePath} (hp : P.take p) (bytes : Bytes) :
    Try.Pairs R (World.replaceFile h p bytes) (World.replaceFile k p bytes) :=
  T.planned_change fun u v huv => (T.takes p hp u v huv).replace bytes

theorem appendTo {place : Place} (hplace : ∀ w more, At w (.append place more)) (more : Bytes) :
    Try.Pairs R (World.appendTo h place more) (World.appendTo k place more) := by
  unfold World.appendTo
  exact T.access.bind fun _ => .lift fun u v huv => ⟨rfl, T.change _ u v huv (hplace u more)⟩

section

variable {p : FilePath} (hp : P.write p)
include hp

theorem createFile (executable : Bool) :
    Try.Pairs R (World.createFile h p executable) (World.createFile k p executable) := by
  unfold World.createFile
  exact T.access.bind fun _ => T.plan_change (fun u v huv => ⟨(T.writes p hp u v _ huv).1,
    fun c hc => ((T.writes p hp u v _ huv).2 c hc).1⟩) fun _ _ c _ _ => .pure c.place

/-- What is made is at a place that may be written to. -/
theorem createFile_at {executable : Bool} {u v w : World} {place : Place} (huv : R u v)
    (hrun : (World.createFile h p executable).settle.run u = (.ok place, w)) :
    ∀ w more, At w (.append place more) := by
  obtain ⟨_, u', haccess, hrun⟩ := Try.Succeeds.bind hrun
  obtain ⟨c, _, hplan, hrun⟩ := Try.Succeeds.bind hrun
  obtain ⟨rfl, -⟩ := Try.Succeeds.pure
    (Try.Succeeds.lift (x := World.change c) (f := fun _ => pure c.place) hrun)
  have hrel := (T.access u v huv).2
  replace haccess : (World.access h).settle.run u = (.ok (), u') := haccess
  rw [haccess] at hrel
  replace hplan : (World.plan _).settle.run u' = _ := hplan
  rw [World.run_plan] at hplan
  exact ((T.writes p hp u' _ _ hrel).2 c (Prod.mk.inj hplan).1).2

end

theorem changeAll (cs : List Change) (hcs : ∀ c ∈ cs, ∀ u v, R u v → At u c) :
    Try.Pairs R (World.changeAll h cs) (World.changeAll k cs) := by
  induction cs with
  | nil => exact .pure ()
  | cons c cs ih =>
    unfold World.changeAll
    obtain ⟨hc, hcs⟩ := List.forall_mem_cons.mp hcs
    refine T.access.bind fun _ => .bind (.lift fun u v huv => ?_) fun _ => ih hcs
    exact ⟨rfl, T.change c u v huv (hc u v huv)⟩

/-- A directory is removed alike if the same entries are planned to go. -/
theorem removeTree {p : FilePath} (hp : ∀ u v, R u v →
    u.disk.planRemoveTree u.cwd p = v.disk.planRemoveTree v.cwd p ∧
      ∀ cs, u.disk.planRemoveTree u.cwd p = .ok cs → ∀ c ∈ cs, ∀ u' v', R u' v' → At u' c) :
    Try.Pairs R (World.removeTree h p) (World.removeTree k p) := by
  unfold World.removeTree
  refine (plan fun u v huv => (hp u v huv).1).bind_gain
    (φ := fun cs => ∀ c ∈ cs, ∀ u v, R u v → At u c) (fun u v cs w huv hrun => ?_)
    fun cs hcs => T.changeAll cs hcs
  rw [World.run_plan] at hrun
  exact (hp u v huv).2 cs (Prod.mk.inj hrun).1

omit T in
theorem ifPresent {t t' : Try IoError Unit} (ht : Try.Pairs R t t') :
    Try.Pairs R (World.ifPresent t) (World.ifPresent t') := by
  unfold World.ifPresent
  refine ht.outcome.bind fun r => ?_
  cases r with
  | ok _ => exact .pure ()
  | error e =>
    show Try.Pairs R (ite _ _ _) (ite _ _ _)
    split
    · exact .pure ()
    · exact .throw e

theorem removeFiles : ∀ ps : List FilePath, (∀ p ∈ ps, P.take p) →
    Try.Pairs R (removeFiles h ps) (removeFiles k ps)
  | [], _ => .pure ()
  | p :: ps, hps => by
    obtain ⟨hp, hps⟩ := List.forall_mem_cons.mp hps
    unfold Decompile.removeFiles
    exact (ifPresent (T.removeFile hp)).bind fun _ => removeFiles ps hps

theorem makeEach : ∀ ps : List FilePath, (∀ p ∈ ps, P.make p) →
    Try.Pairs R (World.makeEach h ps) (World.makeEach k ps)
  | [], _ => .pure ()
  | p :: ps, hps => by
    obtain ⟨hp, hps⟩ := List.forall_mem_cons.mp hps
    unfold World.makeEach
    refine (T.makeDirectory hp).outcome.bind fun r => ?_
    cases r with
    | ok _ => exact .bind (.pure ()) fun _ => makeEach ps hps
    | error e =>
      refine .bind (.lift (T.isDirectory (T.make_look p hp))) fun there => ?_
      split
      · exact makeEach ps hps
      · exact (Try.Pairs.throw e).bind fun _ => makeEach ps hps

theorem makeLowest : ∀ missing ps : List FilePath, (∀ p ∈ ps, P.make p) →
    Try.Pairs R (World.makeLowest h missing ps) (World.makeLowest k missing ps)
  | missing, [], _ => .pure missing
  | missing, p :: above, hps => by
    obtain ⟨hp, hps⟩ := List.forall_mem_cons.mp hps
    unfold World.makeLowest
    refine (T.makeDirectory hp).outcome.bind fun r => ?_
    cases r with
    | ok _ => exact .pure missing
    | error e =>
      show Try.Pairs R (ite _ _ _) (ite _ _ _)
      split
      · exact makeLowest (p :: missing) above hps
      · refine .bind (.lift (T.isDirectory (T.make_look p hp))) fun there => ?_
        split
        · exact .pure missing
        · exact .throw e

omit T in
/-- The directories that were missing are among those that were looked for. -/
theorem makeLowest_yields : ∀ missing ps : List FilePath, (∀ p ∈ missing, P.make p) → (∀ p ∈ ps, P.make p) →
    Try.Yields (fun qs => ∀ q ∈ qs, P.make q) (World.makeLowest h missing ps)
  | missing, [], hm, _ => .pure hm
  | missing, p :: above, hm, hps => by
    obtain ⟨hp, hps⟩ := List.forall_mem_cons.mp hps
    unfold World.makeLowest
    refine .bind fun r => ?_
    cases r with
    | ok _ => exact .pure hm
    | error e =>
      show Try.Yields _ (ite _ _ _)
      split
      · exact makeLowest_yields (p :: missing) above (List.forall_mem_cons.mpr ⟨hp, hm⟩) hps
      · refine .bind fun there => ?_
        split
        · exact .pure hm
        · exact .throw e

theorem ancestors (fuel : Nat) {p : FilePath} (hp : P.make p) :
    ∀ q ∈ World.ancestors fuel p, P.make q := by
  induction fuel generalizing p with
  | zero => exact fun q hq => absurd hq List.not_mem_nil
  | succ fuel ih =>
    intro q hq
    unfold World.ancestors at hq
    cases hparent : p.parent? with
    | none =>
      rw [hparent] at hq
      exact absurd hq List.not_mem_nil
    | some above =>
      rw [hparent] at hq
      replace hq : q ∈ if p.text = "" then [] else p :: World.ancestors fuel above := hq
      split at hq
      · exact absurd hq List.not_mem_nil
      · rcases List.mem_cons.mp hq with rfl | hq
        · exact hp
        · exact ih (T.upward p above hp hparent) q hq

section

variable {p : FilePath} (hp : P.make p)
include hp

theorem makeDirectories :
    Try.Pairs R (World.makeDirectories h p) (World.makeDirectories k p) := by
  have hall := T.ancestors (p.text.length + 1) hp
  unfold World.makeDirectories
  refine (T.makeLowest [] _ hall).bind_gain (fun u v qs w huv hrun => ?_)
    fun qs hqs => T.makeEach qs hqs
  exact makeLowest_yields [] _ (fun _ hq => absurd hq List.not_mem_nil) hall u qs w hrun

theorem ensureDirectory :
    Try.Pairs R (World.ensureDirectory h p) (World.ensureDirectory k p) := by
  have hlook := T.make_look p hp
  unfold World.ensureDirectory
  refine .bind (.lift (T.pathExists hlook)) fun there => ?_
  split
  · refine .bind (.lift (T.isDirectory hlook)) fun dir => ?_
    exact .throwIf fun _ => .pure ()
  · exact (T.makeDirectories hp).mapError

/-- A file of a directory, written as a whole. -/
theorem store {name : String} (hname : P.take (p.join ⟨name⟩)) (contents : Bytes) :
    Try.Pairs R (World.store h p name contents) (World.store k p name contents) := by
  unfold World.store
  refine (T.ensureDirectory hp).bind fun _ => ?_
  exact (T.replaceFile hname contents).mapError.bind fun _ => .pure _

end

theorem writeFile {p : FilePath} (hp : P.write p) (contents : Bytes) :
    Try.Pairs R (World.writeFile h p contents) (World.writeFile k p contents) := by
  unfold World.writeFile
  exact (T.createFile hp false).bind_gain (fun _ _ _ _ => T.createFile_at hp)
    fun place hplace => T.appendTo hplace contents

theorem copyFile {p target : FilePath} (hp : P.look p) (htarget : P.write target) :
    Try.Pairs R (World.copyFile h p target) (World.copyFile k p target) := by
  unfold World.copyFile
  refine T.access.bind fun _ => (plan fun u v huv => T.looks p hp u v huv).bind fun found => ?_
  obtain ⟨_, entry⟩ := found
  cases entry with
  | file contents executable =>
    refine (T.createFile htarget executable).bind_gain (fun _ _ _ _ => T.createFile_at htarget)
      fun place hplace => ?_
    exact (T.readBytes hp).bind fun bytes => T.appendTo hplace bytes
  | directory => exact .throw _
  | link target => exact .throw _

/-! ## The items of a stage -/

omit T in
/-- Files of a tree, of which there must be some. -/
theorem someBelow {root : FilePath} {keep : FilePath → Bool} {e : StageError}
    (hfound : Act.Pairs R R (Items.filesBelow root keep) (Items.filesBelow root keep)) :
    Try.Pairs R (do
        let files ← Items.filesBelow root keep
        if files.isEmpty then throw e
        return .files files : Try StageError Items)
      (do
        let files ← Items.filesBelow root keep
        if files.isEmpty then throw e
        return .files files) :=
  .bind (.lift hfound) fun _ => .throwIf fun _ => .pure _

theorem listMembers {p : FilePath} (hp : P.look p) :
    Try.Pairs R (Items.listMembers h p) (Items.listMembers k p) := by
  unfold Items.listMembers
  refine (T.readBytes hp).mapError.bind fun bytes => ?_
  cases Zip.read bytes with
  | error e => exact .throw _
  | ok ls => exact .pure _

/-- The same items are found whatever becomes of them later. -/
theorem input {s : Submission} (keep : Option Bool) (hs : P.look s.inputPath) :
    Try.Pairs R (Items.input h s) (Items.input k (s.keeping keep)) := by
  have hmembers : Try.Pairs R
      (do
        let names ← Items.listMembers h s.inputPath
        if s.ignoreLibraries then
          return .members (names.filter fun n => !isLibraryPath h.settings.libraryRoots n)
        return .members names : Try StageError Items)
      (do
        let names ← Items.listMembers k s.inputPath
        if s.ignoreLibraries then
          return .members (names.filter fun n => !isLibraryPath k.settings.libraryRoots n)
        return .members names) := by
    rw [T.settings]
    refine (T.listMembers hs).bind fun names => ?_
    split
    · exact .pure _
    · exact .pure _
  unfold Items.input
  refine .bind (.lift (T.isFile hs)) fun there => .throwIf fun _ => ?_
  exact .branch (fun _ => .pure _) fun _ => hmembers

end Twins

end Decompile
