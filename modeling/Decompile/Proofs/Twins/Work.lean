import Decompile.Proofs.Twins.Files

/-!
# Work in two worlds

- `Twins.extract`, `pack`, `copyInto`, `copyBelow`: the work of a chunk that is done with files.
- `Twins.submit`, `answer`: requests.
- `Twins.callTool`: calls of tools, if what the tools do there goes together.
-/

namespace Decompile

namespace Twins

variable {h k : Host} {R : World → World → Prop} {P : Realm} {At : World → Change → Prop}
  (T : Twins h k R P At)
include T

/-! ## Work on a chunk -/

theorem checkMemory : Try.Pairs R (Work.checkMemory h) (Work.checkMemory k) := by
  unfold Work.checkMemory
  refine .bind (.lift T.pause) fun _ => .bind (.lift T.tripped) fun tripped => ?_
  split
  · exact .throw _
  · exact .pure ()

omit T in
theorem run_isTripped {u v : World} (hmonitor : v.monitor = u.monitor) :
    (World.isTripped.run v).1 = (World.isTripped.run u).1 := by
  unfold World.isTripped
  rw [Act.run_get_bind, Act.run_get_bind, hmonitor]
  cases u.monitor <;> rfl

omit T in
theorem run_breakOff (w : World) : (Work.breakOff).settle.run w =
    if (World.isTripped.run w).1 then (.error Work.memoryFailure, w) else (.ok (), w) := by
  have hreads : (World.isTripped.run w).2 = w := World.isTripped_reads w
  unfold Work.breakOff
  rw [Try.run_settle_lift_bind, hreads]
  split
  · rfl
  · rfl

theorem breakOff : Try.Pairs R Work.breakOff Work.breakOff := by
  unfold Work.breakOff
  refine .bind (.lift T.tripped) fun tripped => ?_
  split
  · exact .throw _
  · exact .pure ()

/-- A directory is made first, if there is one to make. -/
theorem parent {α : Type} {p : FilePath} (hp : P.write p) {f g : Unit → Try StageError α}
    (hf : Try.Pairs R (f ()) (g ())) :
    Try.Pairs R (match p.parent? with
      | some parent => Work.onDisk (World.makeDirectories h parent) >>= f
      | none => f ())
      (match p.parent? with
      | some parent => Work.onDisk (World.makeDirectories k parent) >>= g
      | none => g ()) := by
  cases hparent : p.parent? with
  | some q => exact (T.makeDirectories (T.write_upward p q hp hparent)).mapError.bind fun _ => hf
  | none => exact hf

variable {dest : FilePath} (hdest : ∀ n, Zip.isEnclosed n = true → P.write (dest.join ⟨n⟩))

section

include hdest

theorem extractMember (bytes : Bytes) (l : Zip.Listed) :
    Try.Pairs R (Work.extractMember h bytes dest l) (Work.extractMember k bytes dest l) := by
  unfold Work.extractMember
  cases Zip.openMember bytes l with
  | error e => exact .throw _
  | ok opened =>
    show Try.Pairs R (ite _ _ (ite _ _ _)) (ite _ _ (ite _ _ _))
    split
    · exact .pure ()
    · split
      · exact .lift (T.log _ _ _)
      · next henclosed =>
        have htarget : P.write (dest.join ⟨l.name⟩) := hdest l.name (by simpa using henclosed)
        refine T.parent htarget (f := fun _ => _) (g := fun _ => _) ?_
        refine (T.createFile htarget false).mapError.bind_gain
          (fun _ _ _ _ huv hrun => T.createFile_at htarget huv (Try.Succeeds.mapError hrun))
          fun place hplace => (T.appendTo hplace _).mapError.bind fun _ => ?_
        cases opened.failure with
        | some e => exact .throw _
        | none => exact .pure ()

/-- A member is looked up and written. -/
theorem found (bytes : Bytes) (found : Option Zip.Listed) {f g : Unit → Try StageError Unit}
    (hf : ∀ u, Try.Pairs R (f u) (g u)) :
    Try.Pairs R (match found with
      | none => throw (.ofArchive .noSuchMember) >>= f
      | some l => Work.extractMember h bytes dest l >>= f)
      (match found with
      | none => throw (.ofArchive .noSuchMember) >>= g
      | some l => Work.extractMember k bytes dest l >>= g) := by
  cases found with
  | none => exact (Try.Pairs.throw _).bind hf
  | some l => exact (T.extractMember hdest bytes l).bind hf

theorem extractEach (bytes : Bytes) (ls : List Zip.Listed) (checked : Bool) :
    ∀ ns : List String, Try.Pairs R (Work.extractEach h bytes ls dest checked ns)
      (Work.extractEach k bytes ls dest checked ns)
  | [] => .pure ()
  | n :: ns => by
    unfold Work.extractEach
    have hrest := extractEach bytes ls checked ns
    cases checked with
    | false => exact T.found hdest bytes (Zip.find? n ls) fun _ => hrest
    | true => exact T.checkMemory.bind fun _ => T.found hdest bytes (Zip.find? n ls) fun _ => hrest

theorem extract {archive : FilePath} (harchive : P.look archive) (names : List String)
    (checked : Bool) :
    Try.Pairs R (Work.extract h archive names dest checked)
      (Work.extract k archive names dest checked) := by
  unfold Work.extract
  refine (T.readBytes harchive).mapError.bind fun bytes => ?_
  cases Zip.read bytes with
  | error e => exact .throw _
  | ok ls => exact T.extractEach hdest bytes ls checked names

theorem expand {jar : FilePath} (hjar : P.look jar) (hgone : P.take jar) :
    Try.Pairs R (Work.expand h jar dest) (Work.expand k jar dest) := by
  unfold Work.expand
  refine (T.listMembers hjar).bind fun names => ?_
  exact (T.extract hdest hjar names false).bind fun _ => (T.removeFile hgone).mapError

end

omit T in
theorem below (root p : FilePath) : Try.Pairs R (Work.below root p) (Work.below root p) := by
  unfold Work.below
  cases p.relativeTo? root with
  | some cs => exact .pure cs
  | none => exact .throw _

theorem packEach (root : FilePath) {place : Place} (hplace : ∀ w more, At w (.append place more)) :
    ∀ (done : List Zip.Member) (ps : List FilePath), (∀ p ∈ ps, P.look p) →
      Act.Pairs R R (Work.packEach h root place done ps) (Work.packEach k root place done ps)
  | done, [], _ => .pure _
  | done, p :: ps, hps => by
    obtain ⟨hp, hps⟩ := List.forall_mem_cons.mp hps
    unfold Work.packEach
    have hbelow : Try.Pairs R (do Work.checkMemory h; Work.below root p)
        (do Work.checkMemory k; Work.below root p) :=
      T.checkMemory.bind fun _ => below root p
    refine hbelow.settle.bind fun r => ?_
    cases r with
    | error e => exact .pure _
    | ok relative =>
      refine (T.readBytes hp).settle.bind fun r => ?_
      cases r with
      | error e => exact .pure _
      | ok contents =>
        refine (T.appendTo hplace _).settle.bind fun r => ?_
        cases r with
        | error e => exact .pure _
        | ok _ => exact packEach root hplace _ ps hps

theorem pack {files : List FilePath} (hfiles : ∀ p ∈ files, P.look p) (root : FilePath)
    {jar : FilePath} (hjar : P.write jar) :
    Try.Pairs R (Work.pack h files root jar) (Work.pack k files root jar) := by
  unfold Work.pack
  refine T.parent hjar (f := fun _ => _) (g := fun _ => _) ?_
  refine (T.createFile hjar false).mapError.bind_gain
    (fun _ _ _ _ huv hrun => T.createFile_at hjar huv (Try.Succeeds.mapError hrun))
    fun place hplace => ?_
  refine .bind (.lift (T.packEach root hplace [] files hfiles)) fun packed => ?_
  refine (T.appendTo hplace _).mapError.bind fun _ => ?_
  cases packed.2 with
  | some e => exact .throw e
  | none => exact .pure ()

theorem copyInto (dest : FilePath) : ∀ ps : List FilePath,
    (∀ p ∈ ps, P.look p ∧ ∀ n, p.fileName? = some n → P.write (dest.join ⟨n⟩)) →
    Try.Pairs R (Work.copyInto h dest ps) (Work.copyInto k dest ps)
  | [], _ => .pure ()
  | p :: ps, hps => by
    obtain ⟨⟨hp, htarget⟩, hps⟩ := List.forall_mem_cons.mp hps
    unfold Work.copyInto
    refine T.checkMemory.bind fun _ => ?_
    cases hname : p.fileName? with
    | none => exact (Try.Pairs.throw _).bind fun _ => copyInto dest ps hps
    | some n =>
      exact (T.copyFile hp (htarget n hname)).mapError.bind fun _ => copyInto dest ps hps

theorem copyBelow (root dest : FilePath) : ∀ ps : List FilePath,
    (∀ p ∈ ps, P.look p ∧ ∀ cs, p.relativeTo? root = some cs →
      P.write (dest.join ⟨FilePath.textOfComponents cs⟩)) →
    Try.Pairs R (Work.copyBelow h root dest ps) (Work.copyBelow k root dest ps)
  | [], _ => .pure ()
  | p :: ps, hps => by
    obtain ⟨⟨hp, htarget⟩, hps⟩ := List.forall_mem_cons.mp hps
    show Try.Pairs R (Work.checkMemory h >>= _) (Work.checkMemory k >>= _)
    refine T.checkMemory.bind fun _ => (below root p).bind_gain
      (φ := fun cs => p.relativeTo? root = some cs) (fun u v cs w huv hrun => ?_)
      fun cs hcs => ?_
    · unfold Work.below at hrun
      cases hrelative : p.relativeTo? root with
      | none =>
        rw [hrelative] at hrun
        cases (Prod.mk.inj hrun).1
      | some ds =>
        rw [hrelative] at hrun
        cases (Prod.mk.inj hrun).1
        rfl
    · refine T.parent (htarget cs hcs) (f := fun _ => _) (g := fun _ => _) ?_
      exact (T.copyFile hp (htarget cs hcs)).mapError.bind fun _ => copyBelow root dest ps hps

/-! ### Requests -/

/-- A record is stored alike if its directory means the same in both. -/
theorem save (r : JobRecord) {l : Layout} (hroot : P.make l.root)
    (hname : P.take (l.root.join ⟨recordName⟩)) :
    Try.Pairs R (r.save h l) (r.save k l) := by
  unfold JobRecord.save
  exact (T.store hroot hname _).bind fun _ => .pure ()

/-- A request comes to the same if the active jobs are the same. -/
theorem submit {s : Submission}
    (hclaim : ∀ key, Try.Pairs R (Engine.claim key) (Engine.claim key))
    (hrelease : ∀ key ticket, Act.Pairs R R (Engine.release key ticket) (Engine.release key ticket))
    (henqueue : ∀ a, Act.Pairs R R (Engine.enqueue a) (Engine.enqueue a))
    (hroot : ∀ job, Job.plan s h.catalog.has = .ok job →
      P.make (Layout.of h.settings.storage job.targetKey).root)
    (hname : ∀ job, Job.plan s h.catalog.has = .ok job →
      P.take ((Layout.of h.settings.storage job.targetKey).root.join ⟨recordName⟩)) :
    Try.Pairs R (Engine.submit h s) (Engine.submit k s) := by
  have hnow : Act.Pairs R R (World.now h) (World.now k) := fun u v huv => ⟨(T.time u v huv).symm, huv⟩
  unfold Engine.submit Engine.accept
  rw [T.catalog, T.settings]
  refine Try.Pairs.bind ?_ fun a => .lift (henqueue a)
  cases hplan : Job.plan s h.catalog.has with
  | error e => exact .throw _
  | ok job =>
    refine (hclaim job.targetKey).bind fun ticket => .bind (.lift hnow) fun time => ?_
    refine (T.save (.new job time) (hroot job hplan) (hname job hplan)).outcome.bind fun r => ?_
    cases r with
    | error e => exact .bind (.lift (hrelease _ _)) fun _ => .throw _
    | ok _ => exact .bind (.lift (T.log _ _ _)) fun _ => .pure _

theorem answer {s : Submission}
    (hactive : ∀ key, Act.Pairs R R (Engine.isActive key) (Engine.isActive key))
    (hsubmit : Try.Pairs R (Engine.submit h s) (Engine.submit k s)) :
    Act.Pairs R R (Work.answer h s) (Work.answer k s) := by
  unfold Work.answer
  refine (hactive _).bind fun active => hsubmit.settle.bind fun r => ?_
  cases r with
  | ok _ => exact T.note _ rfl
  | error e => exact T.note _ rfl

/-! ### Tools -/

theorem tellLine (key title raw : String) :
    Act.Pairs R R (Work.tellLine key title raw) (Work.tellLine key title raw) := by
  unfold Work.tellLine
  cases ProgressLine.normalize raw with
  | none => exact T.log _ _ _
  | some clean => exact (T.log _ _ _).bind fun _ => T.emit _ _

/-- One thing that a tool does. -/
theorem act (key title : String) {a : Activity} (ha : a.Within P)
    (hanswer : ∀ s, a = .submit s → Act.Pairs R R (Work.answer h s) (Work.answer k s)) :
    Act.Pairs R R (Work.act h key title a) (Work.act k key title a) := by
  cases a with
  | line raw => exact T.tellLine key title raw
  | happening x => exact T.happen x
  | submit s => exact hanswer s rfl
  | makeDirectories p => exact (T.makeDirectories ha).settle.bind fun _ => .pure ()
  | writeFile p contents => exact (T.writeFile ha contents).settle.bind fun _ => .pure ()

theorem actAll (key title : String) : ∀ as : List Activity, (∀ a ∈ as, a.Within P) →
    (∀ s, .submit s ∈ as → Act.Pairs R R (Work.answer h s) (Work.answer k s)) →
      Try.Pairs R (Work.actAll h key title as) (Work.actAll k key title as)
  | [], _, _ => .pure ()
  | a :: as, has, hanswers => by
    obtain ⟨ha, has⟩ := List.forall_mem_cons.mp has
    have hfirst := T.act key title ha fun s hs => hanswers s (hs ▸ List.mem_cons_self)
    unfold Work.actAll
    refine .bind (.lift hfirst) fun _ => T.breakOff.bind fun _ => ?_
    exact actAll key title as has fun s hs => hanswers s (List.mem_cons_of_mem _ hs)

/-- Unless memory has run out, the work goes on. -/
theorem breakOff_bind {α : Type} {f g : Unit → Try StageError α}
    (hf : Act.Pairs (fun u v => R u v ∧ (World.isTripped.run u).1 = false) R
      (f ()).settle (g ()).settle) :
    Try.Pairs R (Work.breakOff >>= f) (Work.breakOff >>= g) := by
  intro u v huv
  obtain ⟨hsame, -⟩ := T.tripped u v huv
  rw [Try.run_settle_bind, Try.run_settle_bind, run_breakOff, run_breakOff, ← hsame]
  cases htripped : (World.isTripped.run u).1 with
  | true => exact ⟨rfl, huv⟩
  | false => exact hf u v ⟨huv, htripped⟩

/-- A call of a tool that comes to the same in both worlds, if what it does there goes together. -/
theorem callTool (key title : String) (i : Invocation)
    (hcalled : Act.Pairs R R (World.note (.called i)) (World.note (.called i)))
    (htool : ∀ u v, R u v →
      (k.tool (World.callsIn v.journal) v.disk i).result =
        (h.tool (World.callsIn u.journal) u.disk i).result ∧
      Act.Pairs (fun u v => R u v ∧ (World.isTripped.run u).1 = false) R
        (Work.actAll h key title (h.tool (World.callsIn u.journal) u.disk i).activities).settle
        (Work.actAll k key title (k.tool (World.callsIn v.journal) v.disk i).activities).settle) :
    Try.Pairs R (Work.callTool h key title i) (Work.callTool k key title i) := by
  have hnote : ∀ {o : Occurrence}, Act.Pairs R R (World.note o) (World.note o) →
      Try.Pairs (fun u v => R u v ∧ (World.isTripped.run u).1 = false)
        (liftM (World.note o) : Try StageError Unit) (liftM (World.note o)) := by
    refine fun {o} ho => .lift fun u v huv => ?_
    obtain ⟨hsame, hrel⟩ := ho u v huv.1
    exact ⟨hsame, hrel, (run_isTripped (u := u) (v := ((World.note o).run u).2) rfl).trans huv.2⟩
  unfold Work.callTool
  refine .bind (.lift T.pause) fun _ => T.breakOff_bind ?_
  refine Try.Pairs.bind_after (hnote (T.note _ rfl)) (fun u v huv => huv.1) fun _ => ?_
  refine Try.Pairs.get_bind_after fun u v huv => ?_
  obtain ⟨hresult, hacts⟩ := htool u v huv.1
  refine Try.Pairs.bind_after (hnote hcalled) (fun u v huv => huv.1) fun _ => ?_
  refine Try.Pairs.bind_after hacts (fun _ _ => id) fun _ => ?_
  rw [hresult]
  cases (h.tool (World.callsIn u.journal) u.disk i).result with
  | ok _ => exact Act.Pairs.pure _
  | error e => exact Act.Pairs.pure _

variable {C : Invocation → Prop} {key : String}
  (hcall : ∀ title i, C i →
    Try.Pairs R (Work.callTool h key title i) (Work.callTool k key title i))

omit T in
include hcall in
theorem callAll (title : String) : ∀ is : List Invocation, (∀ i ∈ is, C i) →
    Try.Pairs R (Work.callAll h key title is) (Work.callAll k key title is)
  | [], _ => .pure ()
  | i :: is, his => by
    obtain ⟨hi, his⟩ := List.forall_mem_cons.mp his
    unfold Work.callAll
    exact (hcall title i hi).bind fun _ => callAll title is his

end Twins

end Decompile
