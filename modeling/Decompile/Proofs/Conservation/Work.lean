import Decompile.Proofs.Conservation.Files
import Decompile.Proofs.Provenance.Work

/-!
# The work on a chunk at a site

What the work on a chunk may change, and what it has written when it has succeeded.

- `Site.Serves`: the stages of a job work at the site.
- `Site.Fills`: files are made and written to at certain places only.
- `Zip.unpacks`: what unpacking a member writes.
- `extract_alters`, `pack_alters`, `copyInto_alters`, `copyBelow_alters`, `callAll_alters`: what the
  work may change, whether it succeeds or not.
- `extract_succeeds`, `pack_succeeds`, `copyInto_succeeds`, `copyBelow_succeeds`: what it has written.
-/

namespace Decompile

open Site (Hosts)

/-! ## Where a job works -/

namespace Site

/-- The stages of the job work at the site. -/
structure Serves (s : Site) (h : Host) (c : StageContext) : Prop where
  sources : s.sources = sourcesIn h.settings.storage
  key : s.key = c.job.targetKey
  layout : c.layout = .of h.settings.storage c.job.targetKey
  clean : isTargetKey c.job.targetKey = true

/-- Files are made and written to where `P` says. -/
inductive Fills (P : Place → Prop) : Change → Prop where
  | create {q : Place} (x : Bool) (fits : P q) : Fills P (.create q x)
  | append {q : Place} (more : Bytes) (fits : P q) : Fills P (.append q more)

/-- What calls of tools change: files where `P` says, and records of jobs that are stored meanwhile. -/
inductive ByTools (s : Site) (P : Place → Prop) : Change → Prop where
  | fill {x : Change} (fills : Fills P x) : ByTools s P x
  | record (key : String) (bytes : Bytes) :
    ByTools s P (.replace (s.base ++ [key, recordName]) bytes)

variable {s : Site} {h : Host} {c : StageContext}

theorem Fills.place {P : Place → Prop} {x : Change} (hx : Fills P x) : P x.place := by
  cases hx with
  | create x fits => exact fits
  | append more fits => exact fits

theorem Fills.mono {P Q : Place → Prop} (hPQ : ∀ q, P q → Q q) {x : Change} (hx : Fills P x) :
    Fills Q x := by
  cases hx with
  | create x fits => exact .create x (hPQ _ fits)
  | append more fits => exact .append more (hPQ _ fits)

namespace Serves

variable (hc : s.Serves h c)

include hc

theorem leads_root : s.sources.Leads [s.key] c.layout.root := by
  rw [hc.sources, hc.key, hc.layout]
  exact .ofChild (isEntryName_of_isTargetKey hc.clean)

theorem leads_output (kind : StageKind) :
    s.sources.Leads [s.key, areaOf kind] (outputOf c.layout kind) := by
  have hroot := hc.leads_root
  cases kind <;> exact hroot.child (by decide)

omit hc in
theorem area_append (kind : StageKind) (rest : Place) :
    s.base ++ ([s.key, areaOf kind] ++ rest) = s.area kind ++ rest :=
  (List.append_assoc _ _ _).symm

/-- The record of any job is where it belongs. -/
theorem leads_record {key : String} (hkey : isTargetKey key = true) :
    s.sources.Leads [key, recordName]
      ((Layout.of h.settings.storage key).root.join ⟨recordName⟩) := by
  rw [hc.sources]
  exact (FilePath.Leads.ofChild (isEntryName_of_isTargetKey hkey)).child (by decide)

end Serves

end Site

/-! ## Archives -/

/-- The name is that of a file below the directory that an archive is unpacked to. -/
def Zip.namesFile (name : String) : Bool := !namesDirectory name && isEnclosed name

/-- What unpacking a member writes below a directory. -/
def Zip.unpacks (bytes : Bytes) (l : Listed) : List (Place × Bytes) :=
  if namesFile l.name then
    match openMember bytes l with
    | .error _ => []
    | .ok opened => [((⟨l.name⟩ : FilePath).place [], opened.contents)]
  else []

/-- What unpacking the member of a name writes. -/
def Zip.unpacksNamed (bytes : Bytes) (ls : List Listed) (n : String) : List (Place × Bytes) :=
  match find? n ls with
  | none => []
  | some l => unpacks bytes l

/-- What unpacking the named members writes, one after another. -/
def Zip.unpacksAll (bytes : Bytes) (ls : List Listed) (names : List String) :
    List (Place × Bytes) :=
  names.flatMap (unpacksNamed bytes ls)

/-- The member of the name is there and can be opened. -/
def Zip.Opens (bytes : Bytes) (ls : List Listed) (n : String) : Prop :=
  ∃ l opened, find? n ls = some l ∧ openMember bytes l = .ok opened

/-- Files below a directory as members of an archive, each under its path there. -/
def Zip.packed (d : Disk) (dir : Place) (qs : List Place) : List Member :=
  qs.map fun q => ⟨FilePath.textOfComponents (q.map .name), d.contents (dir ++ q), true⟩

theorem Zip.name_of_find? {n : String} {ls : List Listed} {l : Listed} (hl : find? n ls = some l) :
    l.name = n := by
  simpa using List.find?_some hl

/-- The member of the name of a file is written when it is unpacked. -/
theorem Zip.mem_unpacksNamed {bytes : Bytes} {ls : List Listed} {n : String} (hn : Opens bytes ls n)
    (hfile : namesFile n = true) :
    ∃ b, ((⟨n⟩ : FilePath).place [], b) ∈ unpacksNamed bytes ls n := by
  obtain ⟨l, opened, hfind, hopen⟩ := hn
  refine ⟨opened.contents, ?_⟩
  rw [← name_of_find? hfind] at hfile ⊢
  simp only [unpacksNamed, name_of_find? hfind, hfind, unpacks, hopen]
  rw [name_of_find? hfind] at hfile
  rw [if_pos hfile]
  exact List.mem_cons_self

namespace Work

variable {h : Host} {c : StageContext} {s : Site} {X : Change → Prop} {P : Place → Prop}
  {rest : Place} {dest jar : FilePath} {w v : World}

section

variable (hs : s.Fresh)

include hs

/-- A directory is made first, if there is one to make. -/
theorem parent_alters {α : Type} (dir : Option FilePath) {k : Unit → Try StageError α}
    (hk : Try.Keeps (s.Alters X) (k ())) :
    Try.Keeps (s.Alters X) (match dir with
      | some parent => onDisk (World.makeDirectories h parent) >>= k
      | none => k ()) := by
  cases dir with
  | some parent => exact (World.makeDirectories_alters hs.cwd parent).mapError.bind fun _ => hk
  | none => exact hk

/-- A directory that was made first is no write. -/
theorem parent_succeeds {α : Type} (dir : Option FilePath) {k : Unit → Try StageError α} {a : α}
    (hw : s.Hosts w) (hrun : Try.Succeeds (match dir with
      | some parent => onDisk (World.makeDirectories h parent) >>= k
      | none => k ()) w a v) :
    ∃ u, s.Hosts u ∧ w.disk.Wrote [] u.disk ∧ (k ()).Succeeds u a v := by
  cases dir with
  | none => exact ⟨w, hw, .refl _, hrun⟩
  | some parent =>
    obtain ⟨_, u, hmade, hrun⟩ := Try.Succeeds.bind hrun
    have halters := hmade.mapError.keeps
      (World.makeDirectories_alters (X := fun _ => False) hs.cwd parent)
    exact ⟨u, (halters hw).hosts hw, World.wrote_of_makes hw halters, hrun⟩

/-- Making a file, with its failures seen as those of a stage, and what is done with its place. -/
theorem createFile_bind {p : FilePath} (hp : s.sources.Leads rest p) {executable : Bool} {α : Type}
    {k : Place → Try StageError α} (hP : P (s.base ++ rest))
    (hk : Try.Keeps (s.Alters (Site.Fills P)) (k (s.base ++ rest))) :
    Try.Keeps (s.Alters (Site.Fills P)) (onDisk (World.createFile h p executable) >>= k) := by
  have hcreate := World.createFile_alters (X := Site.Fills P) (h := h) hs hp executable
    fun x => .create x hP
  refine hcreate.mapError.alters_bind fun w q v hw hrun => ?_
  obtain ⟨rfl, -⟩ := World.createFile_succeeds hs hp hw hrun.mapError
  exact hk

/-- A file that was made and then written to. -/
theorem createFile_wrote {p : FilePath} (hp : s.sources.Leads rest p) {executable : Bool}
    {bytes : Bytes} {k : Unit → Try StageError Unit} (hw : s.Hosts w)
    (hrun : Try.Succeeds (do
      let place ← onDisk (World.createFile h p executable)
      onDisk (World.appendTo h place bytes)
      k ()) w () v) :
    ∃ u, s.Hosts u ∧ w.disk.Wrote [(s.base ++ rest, bytes)] u.disk ∧ (k ()).Succeeds u () v := by
  obtain ⟨place, u, hcreate, hrest⟩ := Try.Succeeds.bind hrun
  obtain ⟨_, u', happend, hmore⟩ := Try.Succeeds.bind hrest
  obtain ⟨rfl, x, hmade, -⟩ := World.createFile_succeeds hs hp hw hcreate.mapError
  have hended := World.appendTo_succeeds happend.mapError
  have hu := (hcreate.mapError.keeps (World.createFile_alters (X := fun _ => True) hs hp executable
    fun _ => trivial) hw).hosts hw
  have hu' := (happend.mapError.keeps (World.appendTo_alters (X := fun _ => True) trivial) hu).hosts
    hu
  refine ⟨u', hu', ?_, hmore⟩
  rw [hended, hmade]
  exact World.wrote_of_create _ _ _ _

/-- A member is written where its name leads. -/
theorem extractMember_alters (hp : s.sources.Leads rest dest) (bytes : Bytes) (l : Zip.Listed)
    (hP : Zip.namesFile l.name = true → P (s.base ++ (rest ++ (⟨l.name⟩ : FilePath).place []))) :
    Try.Keeps (s.Alters (Site.Fills P)) (extractMember h bytes dest l) := by
  unfold extractMember
  cases Zip.openMember bytes l with
  | error e => exact .throw _
  | ok opened =>
    show Try.Keeps _ (ite _ _ (ite _ _ _))
    split
    · exact .pure ()
    · next hdirectory =>
      split
      · exact .lift (World.log_still _ _ _).alters
      · next henclosed =>
        have hname : Zip.isEnclosed l.name = true := by simpa using henclosed
        have hfits := hP (by simp [Zip.namesFile, hdirectory, hname])
        refine parent_alters hs _ (k := fun _ => _) ?_
        refine createFile_bind hs (hp.member hname) hfits ?_
        refine (World.appendTo_alters (.append _ hfits)).mapError.bind fun _ => ?_
        cases opened.failure with
        | some e => exact .throw _
        | none => exact .pure ()

theorem extractMember_succeeds (hp : s.sources.Leads rest dest) {bytes : Bytes} {l : Zip.Listed}
    (hw : s.Hosts w) (hrun : (extractMember h bytes dest l).Succeeds w () v) :
    (∃ opened, Zip.openMember bytes l = .ok opened) ∧
      w.disk.Wrote (writesBelow (s.base ++ rest) (Zip.unpacks bytes l)) v.disk := by
  unfold extractMember at hrun
  unfold Zip.unpacks Zip.namesFile
  cases hopen : Zip.openMember bytes l with
  | error e =>
    rw [hopen] at hrun
    exact absurd hrun Try.Succeeds.not_throw
  | ok opened =>
    refine ⟨⟨opened, rfl⟩, ?_⟩
    rw [hopen] at hrun
    replace hrun : Try.Succeeds (ite _ _ (ite _ _ _)) w () v := hrun
    split at hrun
    · next hdirectory =>
      obtain ⟨-, rfl⟩ := hrun.pure
      rw [hdirectory]
      exact .refl _
    · next hdirectory =>
      split at hrun
      · next henclosed =>
        have hname : Zip.isEnclosed l.name = false := by simpa using henclosed
        rw [hname, Bool.and_false]
        exact World.wrote_of_still (hrun.keeps (.lift (World.log_still _ _ _)))
      · next henclosed =>
        have hname : Zip.isEnclosed l.name = true := by simpa using henclosed
        simp only [hdirectory, hname, Bool.not_false, Bool.and_self, if_true]
        obtain ⟨u, hu, hmade, hrun⟩ := parent_succeeds hs _ (k := fun _ => _) hw hrun
        obtain ⟨u', -, hwrote, hrun⟩ := createFile_wrote hs (hp.member hname) (k := fun _ => _) hu hrun
        cases hfailure : opened.failure with
        | some e =>
          rw [hfailure] at hrun
          exact absurd hrun Try.Succeeds.not_throw
        | none =>
          rw [hfailure] at hrun
          obtain ⟨-, rfl⟩ := hrun.pure
          rw [← List.append_assoc] at hwrote
          exact hmade.comp hwrote

/-- A member is looked up and written. -/
theorem found_alters (hp : s.sources.Leads rest dest) (bytes : Bytes) (ls : List Zip.Listed)
    {n : String} {k : Unit → Try StageError Unit}
    (hk : ∀ u, Try.Keeps (s.Alters (Site.Fills P)) (k u))
    (hP : Zip.namesFile n = true → P (s.base ++ (rest ++ (⟨n⟩ : FilePath).place []))) :
    Try.Keeps (s.Alters (Site.Fills P)) (match Zip.find? n ls with
      | none => throw (.ofArchive .noSuchMember) >>= k
      | some l => extractMember h bytes dest l >>= k) := by
  cases hfind : Zip.find? n ls with
  | none => exact (Try.Keeps.throw _).bind hk
  | some l =>
    refine (extractMember_alters hs hp bytes l fun hname => ?_).bind hk
    rw [Zip.name_of_find? hfind] at hname ⊢
    exact hP hname

/-- Members are written where their names lead. -/
theorem extractEach_alters (hp : s.sources.Leads rest dest) (bytes : Bytes)
    (ls : List Zip.Listed) (checked : Bool) : ∀ ns : List String,
    (∀ n ∈ ns, Zip.namesFile n = true → P (s.base ++ (rest ++ (⟨n⟩ : FilePath).place []))) →
      Try.Keeps (s.Alters (Site.Fills P)) (extractEach h bytes ls dest checked ns)
  | [], _ => .pure ()
  | n :: ns, hP => by
    have hrest := extractEach_alters hp bytes ls checked ns fun m hm =>
      hP m (List.mem_cons_of_mem _ hm)
    have hfound := found_alters (h := h) hs hp bytes ls (fun _ => hrest) (hP n List.mem_cons_self)
    unfold extractEach
    cases checked with
    | false => exact hfound
    | true => exact checkMemory_still.alters.bind fun _ => hfound

theorem found_succeeds (hp : s.sources.Leads rest dest) {bytes : Bytes} {ls : List Zip.Listed}
    {n : String} {k : Unit → Try StageError Unit} (hw : s.Hosts w)
    (hrun : Try.Succeeds (match Zip.find? n ls with
      | none => throw (.ofArchive .noSuchMember) >>= k
      | some l => extractMember h bytes dest l >>= k) w () v) :
    ∃ u, s.Hosts u ∧ (k ()).Succeeds u () v ∧ Zip.Opens bytes ls n ∧
      w.disk.Wrote (writesBelow (s.base ++ rest) (Zip.unpacksNamed bytes ls n)) u.disk := by
  unfold Zip.unpacksNamed
  cases hfind : Zip.find? n ls with
  | none =>
    rw [hfind] at hrun
    obtain ⟨_, _, hthrow, -⟩ := Try.Succeeds.bind hrun
    exact absurd hthrow Try.Succeeds.not_throw
  | some l =>
    rw [hfind] at hrun
    obtain ⟨_, u, hmember, hrest⟩ := Try.Succeeds.bind hrun
    have hu := (hmember.keeps (extractMember_alters (P := fun _ => True) hs hp bytes l
      fun _ => trivial) hw).hosts hw
    obtain ⟨⟨opened, hopen⟩, hwrote⟩ := extractMember_succeeds hs hp hw hmember
    exact ⟨u, hu, hrest, ⟨l, opened, hfind, hopen⟩, hwrote⟩

theorem extractEach_succeeds (hp : s.sources.Leads rest dest) {bytes : Bytes}
    {ls : List Zip.Listed} {checked : Bool} {ns : List String} (hw : s.Hosts w)
    (hrun : (extractEach h bytes ls dest checked ns).Succeeds w () v) :
    (∀ n ∈ ns, Zip.Opens bytes ls n) ∧
      w.disk.Wrote (writesBelow (s.base ++ rest) (Zip.unpacksAll bytes ls ns)) v.disk := by
  induction ns generalizing w with
  | nil =>
    obtain ⟨-, rfl⟩ := hrun.pure
    exact ⟨fun _ hn => absurd hn List.not_mem_nil, .refl _⟩
  | cons n ns ih =>
    have hmore : ∀ {u : World}, s.Hosts u → Try.Succeeds (match Zip.find? n ls with
        | none => (throw (.ofArchive .noSuchMember) : Try StageError Unit) >>= fun _ =>
          extractEach h bytes ls dest checked ns
        | some l => extractMember h bytes dest l >>= fun _ =>
          extractEach h bytes ls dest checked ns) u () v → (∀ m ∈ n :: ns, Zip.Opens bytes ls m) ∧
        u.disk.Wrote (writesBelow (s.base ++ rest) (Zip.unpacksAll bytes ls (n :: ns))) v.disk := by
      intro u hu hrun
      obtain ⟨u', hu', hrest, hopens, hwrote⟩ := found_succeeds hs hp (k := fun _ => _) hu hrun
      obtain ⟨hall, hthen⟩ := ih hu' hrest
      rw [Zip.unpacksAll, List.flatMap_cons, writesBelow_append]
      exact ⟨List.forall_mem_cons.mpr ⟨hopens, hall⟩, hwrote.comp hthen⟩
    unfold extractEach at hrun
    cases checked with
    | false => exact hmore hw hrun
    | true =>
      obtain ⟨_, u, hchecked, hrest⟩ := Try.Succeeds.bind hrun
      have hstill := hchecked.keeps checkMemory_still
      rw [← hstill.disk]
      exact hmore (hw.of_still hstill) hrest

/-- The named members of an archive are written below a directory. -/
theorem extract_alters (hp : s.sources.Leads rest dest) (archive : FilePath) {names : List String}
    (checked : Bool)
    (hP : ∀ n ∈ names, Zip.namesFile n = true →
      P (s.base ++ (rest ++ (⟨n⟩ : FilePath).place []))) :
    Try.Keeps (s.Alters (Site.Fills P)) (extract h archive names dest checked) := by
  unfold extract
  refine (World.readBytes_still archive).alters.mapError.bind fun bytes => ?_
  cases Zip.read bytes with
  | error e => exact .throw _
  | ok ls => exact extractEach_alters hs hp bytes ls checked names hP

theorem extract_succeeds (hp : s.sources.Leads rest dest) {archive : FilePath}
    {names : List String} {checked : Bool} (hw : s.Hosts w)
    (hrun : (extract h archive names dest checked).Succeeds w () v) :
    ∃ bytes ls, w.disk.read s.cwd archive = .ok bytes ∧ Zip.read bytes = .ok ls ∧
      (∀ n ∈ names, Zip.Opens bytes ls n) ∧
        w.disk.Wrote (writesBelow (s.base ++ rest) (Zip.unpacksAll bytes ls names)) v.disk := by
  unfold extract at hrun
  obtain ⟨bytes, u, hread, hrest⟩ := Try.Succeeds.bind hrun
  obtain ⟨hstill, hbytes⟩ := World.readBytes_succeeds hread.mapError
  rw [hw.cwd] at hbytes
  refine ⟨bytes, ?_⟩
  cases hlist : Zip.read bytes with
  | error e =>
    rw [hlist] at hrest
    exact absurd hrest Try.Succeeds.not_throw
  | ok ls =>
    rw [hlist] at hrest
    obtain ⟨hopens, hwrote⟩ := extractEach_succeeds hs hp (hw.of_still hstill) hrest
    rw [hstill.disk] at hwrote
    exact ⟨ls, hbytes, rfl, hopens, hwrote⟩

/-! ## Packing -/

omit hs in
theorem packEach_alters (root : FilePath) {place : Place} (hP : P place) :
    ∀ (done : List Zip.Member) (ps : List FilePath),
      Act.Keeps (s.Alters (Site.Fills P)) (packEach h root place done ps)
  | done, [] => .pure _
  | done, p :: ps => by
    unfold packEach
    have hbelow : Try.Keeps (s.Alters (Site.Fills P)) (do checkMemory h; below root p) :=
      Try.Keeps.alters (checkMemory_still.bind fun _ => below_still root p)
    refine hbelow.settle.bind fun r => ?_
    cases r with
    | error e => exact .pure _
    | ok relative =>
      refine (World.readBytes_still p).alters.settle.bind fun r => ?_
      cases r with
      | error e => exact .pure _
      | ok contents =>
        refine (World.appendTo_alters (.append _ hP)).settle.bind fun r => ?_
        cases r with
        | error e => exact .pure _
        | ok _ => exact packEach_alters root hP _ ps

/-- Files are packed into an archive. -/
theorem pack_alters (hp : s.sources.Leads rest jar) (files : List FilePath) (root : FilePath)
    (hP : P (s.base ++ rest)) :
    Try.Keeps (s.Alters (Site.Fills P)) (pack h files root jar) := by
  unfold pack
  refine parent_alters hs _ (k := fun _ => _) ?_
  refine createFile_bind hs hp hP ?_
  refine .bind (.lift (packEach_alters root hP [] files)) fun packed => ?_
  refine (World.appendTo_alters (.append _ hP)).mapError.bind fun _ => ?_
  cases packed.2 with
  | some e => exact .throw e
  | none => exact .pure ()

omit hs in
theorem below_succeeds {root p : FilePath} {cs : List FilePath.Component}
    (hrun : (below root p).Succeeds w cs v) : p.relativeTo? root = some cs ∧ v = w := by
  unfold below at hrun
  cases hrelative : p.relativeTo? root with
  | none =>
    rw [hrelative] at hrun
    exact absurd hrun Try.Succeeds.not_throw
  | some found =>
    rw [hrelative] at hrun
    obtain ⟨rfl, rfl⟩ := hrun.pure
    exact ⟨rfl, rfl⟩

omit hs in
/-- One file of a row that was packed without failure. -/
theorem packEach_cons {root p : FilePath} {place : Place} {done members : List Zip.Member}
    {ps : List FilePath}
    (hrun : (packEach h root place done (p :: ps)).run w = ((members, none), v)) :
    ∃ relative contents u u' u'', p.relativeTo? root = some relative ∧ Still w u ∧
      (World.readBytes h p).Succeeds u contents u' ∧
      (World.appendTo h place
        (Zip.entryBytes ⟨FilePath.textOfComponents relative, contents, true⟩)).Succeeds u' () u'' ∧
      (packEach h root place
        (done ++ [⟨FilePath.textOfComponents relative, contents, true⟩]) ps).run u'' =
          ((members, none), v) := by
  unfold packEach at hrun
  rw [Act.run_bind] at hrun
  rcases hfirst : (Try.settle (do checkMemory h; below root p : Try StageError _)).run w with
    ⟨e | relative, u⟩
  · rw [hfirst] at hrun
    cases (Prod.mk.inj (Prod.mk.inj hrun).1).2
  rw [hfirst] at hrun
  simp only at hrun
  rw [Act.run_bind] at hrun
  rcases hread : (World.readBytes h p).settle.run u with ⟨e | contents, u'⟩
  · rw [hread] at hrun
    cases (Prod.mk.inj (Prod.mk.inj hrun).1).2
  rw [hread] at hrun
  simp only at hrun
  rw [Act.run_bind] at hrun
  rcases happend : (World.appendTo h place (Zip.entryBytes
    ⟨FilePath.textOfComponents relative, contents, true⟩)).settle.run u' with ⟨e | _, u''⟩
  · rw [happend] at hrun
    cases (Prod.mk.inj (Prod.mk.inj hrun).1).2
  rw [happend] at hrun
  obtain ⟨_, u₁, hchecked, hbelow⟩ := Try.Succeeds.bind hfirst
  obtain ⟨hrelative, rfl⟩ := below_succeeds hbelow
  exact ⟨relative, contents, u, u', u'', hrelative, hchecked.keeps checkMemory_still, hread, happend,
    hrun⟩

/-- What has been packed stands behind what was there, each file under its path below the root and
with its own bytes. -/
theorem packEach_packed {root : FilePath} {src : Place} (hroot : s.sources.Leads src root)
    {place : Place} {members : List Zip.Member} {qs : List Place} {done : List Zip.Member}
    (hqs : ∀ q ∈ qs, (∀ n ∈ q, IsEntryName n) ∧ s.base ++ src ++ q ≠ place) (hw : s.Hosts w)
    (hrun : (packEach h root place done (qs.map (Disk.childPath root))).run w =
      ((members, none), v)) :
    members = done ++ Zip.packed w.disk (s.base ++ src) qs ∧
      (∀ q, q ≠ place → v.disk.find? q = w.disk.find? q) ∧
      ∀ b x, w.disk.find? place = some (.file b x) → v.disk.find? place =
        some (.file (b ++ (Zip.packed w.disk (s.base ++ src) qs).flatMap Zip.entryBytes) x) := by
  induction qs generalizing done w with
  | nil =>
    obtain ⟨hresult, rfl⟩ := Prod.mk.inj hrun
    obtain ⟨rfl, -⟩ := Prod.mk.inj hresult
    refine ⟨(List.append_nil _).symm, fun _ _ => rfl, fun b x hb => ?_⟩
    rw [hb, Zip.packed, List.map_nil, List.flatMap_nil, List.append_nil]
  | cons q qs ih =>
    obtain ⟨⟨hnames, hne⟩, hqs⟩ := List.forall_mem_cons.mp hqs
    obtain ⟨relative, contents, u, u', u'', hrelative, hstill, hread, happend, hrest⟩ :=
      packEach_cons hrun
    rw [FilePath.relativeTo?_childPath hnames] at hrelative
    obtain rfl := Option.some.inj hrelative
    have hu := hw.of_still hstill
    obtain ⟨hstill', hbytes⟩ := World.readBytes_succeeds hread
    rw [hu.cwd] at hbytes
    obtain ⟨x, hfile⟩ := (hs.anchoredOn hu.sited).read (hroot.childPath hnames) hbytes
    rw [← List.append_assoc, hstill.disk] at hfile
    have hcontents := Disk.contents_of_find? hfile
    have hended := World.appendTo_succeeds happend
    rw [hstill'.disk, hstill.disk] at hended
    have hu'' := (happend.keeps (World.appendTo_alters (X := fun _ => True) trivial)
      (hu.of_still hstill')).hosts (hu.of_still hstill')
    have helse : ∀ r, r ≠ place → u''.disk.find? r = w.disk.find? r := fun r hr => by
      rw [hended]
      exact Disk.find?_apply_of_ne _ _ hr
    have hsame : Zip.packed u''.disk (s.base ++ src) qs = Zip.packed w.disk (s.base ++ src) qs := by
      refine List.map_congr_left fun r hr => ?_
      rw [Disk.contents, Disk.contents, helse _ (hqs r hr).2]
    obtain ⟨hmembers, hothers, hpacked⟩ := ih hqs hu'' hrest
    rw [hsame] at hmembers hpacked
    rw [Zip.packed, List.map_cons, hcontents, ← Zip.packed, List.flatMap_cons]
    refine ⟨?_, fun r hr => (hothers r hr).trans (helse r hr), fun b y hb => ?_⟩
    · rw [hmembers, List.append_assoc]
      rfl
    · rw [← List.append_assoc]
      refine hpacked _ y ?_
      rw [hended]
      simp only [Disk.apply, hb, Disk.find?_put, if_true]

/-- Files below a directory have been packed into an archive elsewhere. -/
theorem pack_succeeds {root : FilePath} {src : Place} (hroot : s.sources.Leads src root)
    (hp : s.sources.Leads rest jar) {qs : List Place}
    (hqs : ∀ q ∈ qs, (∀ n ∈ q, IsEntryName n) ∧ s.base ++ src ++ q ≠ s.base ++ rest)
    (hw : s.Hosts w) (hrun : (pack h (qs.map (Disk.childPath root)) root jar).Succeeds w () v) :
    w.disk.Wrote [(s.base ++ rest, Zip.write (Zip.packed w.disk (s.base ++ src) qs))] v.disk := by
  unfold pack at hrun
  obtain ⟨u, hu, hmade, hrun⟩ := parent_succeeds hs _ (k := fun _ => _) hw hrun
  obtain ⟨place, u₁, hcreate, hrest⟩ := Try.Succeeds.bind hrun
  obtain ⟨rfl, x, hcreated, -⟩ := World.createFile_succeeds hs hp hu hcreate.mapError
  have hu₁ := (hcreate.mapError.keeps (World.createFile_alters (X := fun _ => True) hs hp false
    fun _ => trivial) hu).hosts hu
  replace hrest := Try.Succeeds.lift hrest
  rcases hpack : (packEach h root (s.base ++ rest) [] (qs.map (Disk.childPath root))).run u₁ with
    ⟨⟨members, failure⟩, u₂⟩
  rw [hpack] at hrest
  obtain ⟨_, u₃, happend, hlast⟩ := Try.Succeeds.bind hrest
  cases failure with
  | some e => exact absurd hlast Try.Succeeds.not_throw
  | none =>
    obtain ⟨-, rfl⟩ := hlast.pure
    obtain ⟨rfl, hothers, hpacked⟩ := packEach_packed hs hroot hqs hu₁ hpack
    have hended := World.appendTo_succeeds happend.mapError
    have hsame : Zip.packed u₁.disk (s.base ++ src) qs = Zip.packed w.disk (s.base ++ src) qs := by
      refine List.map_congr_left fun q hq => ?_
      rw [hcreated, Disk.contents, Disk.find?_apply_of_ne _ _ (hqs q hq).2, ← Disk.contents,
        (hmade.others _ id rfl).contents]
    rw [hsame] at hpacked hended
    have hfile := hpacked [] x (by rw [hcreated, Disk.apply, Disk.find?_put, if_pos rfl])
    refine hmade.comp (.single (x := x) ?_ fun q hq => ?_)
    · rw [hended]
      simp only [Disk.apply, hfile, Disk.find?_put, if_true, List.nil_append]
      rfl
    · rw [hended, Disk.find?_apply_of_ne _ _ hq, hothers q hq, hcreated]
      exact Disk.find?_apply_of_ne _ _ hq

/-! ## Files -/

/-- Files are copied under their own names. -/
theorem copyInto_alters (hp : s.sources.Leads rest dest) : ∀ ps : List FilePath,
    (∀ p ∈ ps, ∀ n, p.fileName? = some n → P (s.base ++ (rest ++ [n]))) →
      Try.Keeps (s.Alters (Site.Fills P)) (copyInto h dest ps)
  | [], _ => .pure ()
  | p :: ps, hP => by
    have hrest := copyInto_alters hp ps fun q hq => hP q (List.mem_cons_of_mem _ hq)
    unfold copyInto
    refine checkMemory_still.alters.bind fun _ => ?_
    cases hname : p.fileName? with
    | none => exact (Try.Keeps.throw _).bind fun _ => hrest
    | some n =>
      have hleads := hp.child (FilePath.isEntryName_of_fileName? hname)
      have hfits := hP p List.mem_cons_self n hname
      exact (World.copyFile_alters hs hleads p (fun x => .create x hfits)
        fun bytes => .append bytes hfits).mapError.bind fun _ => hrest

/-- The only file of a row has been copied. -/
theorem copyInto_succeeds (hp : s.sources.Leads rest dest) {p : FilePath} (hw : s.Hosts w)
    (hother : ∀ q e n, w.disk.entryAt s.cwd true p = .ok (q, e) → q ≠ s.base ++ (rest ++ [n]))
    (hrun : (copyInto h dest [p]).Succeeds w () v) :
    ∃ n bytes, p.fileName? = some n ∧ w.disk.read s.cwd p = .ok bytes ∧
      w.disk.Wrote (writesBelow (s.base ++ rest) [([n], bytes)]) v.disk := by
  unfold copyInto at hrun
  obtain ⟨_, u, hchecked, hrun⟩ := Try.Succeeds.bind hrun
  have hstill := hchecked.keeps checkMemory_still
  cases hname : p.fileName? with
  | none =>
    rw [hname] at hrun
    obtain ⟨_, _, hthrow, -⟩ := Try.Succeeds.bind hrun
    exact absurd hthrow Try.Succeeds.not_throw
  | some n =>
    rw [hname] at hrun
    obtain ⟨_, u', hcopy, hlast⟩ := Try.Succeeds.bind hrun
    obtain ⟨-, rfl⟩ := hlast.pure
    have hleads := hp.child (FilePath.isEntryName_of_fileName? hname)
    rw [← hstill.disk] at hother ⊢
    obtain ⟨bytes, hread, hwrote⟩ := World.copyFile_succeeds hs hleads (hw.of_still hstill)
      hcopy.mapError fun q e hentry => hother q e n hentry
    rw [← List.append_assoc] at hwrote
    exact ⟨n, bytes, rfl, hread, hwrote⟩

section

variable {root : FilePath} {src : Place} (hroot : s.sources.Leads src root)

/-- Files are copied to where they were found below another directory. -/
theorem copyBelow_alters (hp : s.sources.Leads rest dest) : ∀ qs : List Place,
    (∀ q ∈ qs, (∀ n ∈ q, IsEntryName n) ∧ P (s.base ++ (rest ++ q))) →
      Try.Keeps (s.Alters (Site.Fills P)) (copyBelow h root dest (qs.map (Disk.childPath root)))
  | [], _ => .pure ()
  | q :: qs, hP => by
    obtain ⟨⟨hnames, hfits⟩, hqs⟩ := List.forall_mem_cons.mp hP
    have hrest := copyBelow_alters hp qs hqs
    show Try.Keeps _ (checkMemory h >>= _)
    refine checkMemory_still.alters.bind fun _ => ?_
    rw [below, FilePath.relativeTo?_childPath hnames]
    simp only [pure_bind]
    refine parent_alters hs _ (k := fun _ => _) ?_
    exact (World.copyFile_alters hs (hp.textOfComponents hnames) _ (fun x => .create x hfits)
      fun bytes => .append bytes hfits).mapError.bind fun _ => hrest

include hroot

/-- Each file has been copied with its contents. -/
theorem copyBelow_succeeds (hp : s.sources.Leads rest dest)
    (hapart : ∀ q r, s.base ++ src ++ q ≠ s.base ++ rest ++ r) {qs : List Place}
    (hqs : ∀ q ∈ qs, ∀ n ∈ q, IsEntryName n) (hw : s.Hosts w)
    (hrun : (copyBelow h root dest (qs.map (Disk.childPath root))).Succeeds w () v) :
    w.disk.Wrote (writesBelow (s.base ++ rest)
      (qs.map fun q => (q, w.disk.contents (s.base ++ src ++ q)))) v.disk := by
  induction qs generalizing w with
  | nil =>
    obtain ⟨-, rfl⟩ := hrun.pure
    exact .refl _
  | cons q qs ih =>
    obtain ⟨hnames, hqs⟩ := List.forall_mem_cons.mp hqs
    obtain ⟨_, u, hchecked, hrun⟩ := Try.Succeeds.bind (t := checkMemory h) hrun
    have hstill := hchecked.keeps checkMemory_still
    rw [below, FilePath.relativeTo?_childPath hnames] at hrun
    simp only [pure_bind] at hrun
    obtain ⟨u₁, hu₁, hmade, hrun⟩ :=
      parent_succeeds hs _ (k := fun _ => _) (hw.of_still hstill) hrun
    rw [hstill.disk] at hmade
    obtain ⟨_, u₂, hcopy, hrun⟩ := Try.Succeeds.bind hrun
    have hanchored := hs.anchoredOn hu₁.sited
    have hsource := hroot.childPath hnames
    obtain ⟨bytes, hread, hwrote⟩ := World.copyFile_succeeds hs (hp.textOfComponents hnames) hu₁
      hcopy.mapError fun r e hentry => by
        rw [(hanchored.entryAt hsource hentry).1, ← List.append_assoc, ← List.append_assoc]
        exact hapart q q
    obtain ⟨x, hfile⟩ := hanchored.read hsource hread
    rw [← List.append_assoc] at hfile
    have hbytes : w.disk.contents (s.base ++ src ++ q) = bytes := by
      rw [← (hmade.others _ id rfl).contents, Disk.contents_of_find? hfile]
    have hu₂ := (hcopy.mapError.keeps (World.copyFile_alters (X := fun _ => True) hs
      (hp.textOfComponents hnames) _ (fun _ => trivial) fun _ => trivial) hu₁).hosts hu₁
    have hfirst : w.disk.Wrote (writesBelow (s.base ++ rest) [(q, bytes)]) u₂.disk := by
      rw [← List.append_assoc] at hwrote
      exact hmade.comp hwrote
    have hsame : (qs.map fun r => (r, u₂.disk.contents (s.base ++ src ++ r))) =
        qs.map fun r => (r, w.disk.contents (s.base ++ src ++ r)) := by
      refine List.map_congr_left fun r _ => ?_
      rw [(hfirst.others _ id (lastWrite_writesBelow_of_ne _ (hapart r))).contents]
    have hnext := hfirst.comp (ih hqs hu₂ hrun)
    rw [← writesBelow_append, hsame] at hnext
    rw [List.map_cons, hbytes]
    exact hnext

end

/-! ## Tools -/

/-- The record of a job is stored in the directory of its key. -/
theorem save_alters (hc : s.Serves h c) {key : String} (hkey : isTargetKey key = true)
    (r : JobRecord) :
    Try.Keeps (s.Alters (s.ByTools P)) (r.save h (.of h.settings.storage key)) := by
  unfold JobRecord.save
  exact (World.store_alters hs (hc.leads_record hkey) (.record key _)).bind fun _ => .pure ()

/-- Whatever becomes of a request, the disk has at most a record stored. -/
theorem answer_alters (hc : s.Serves h c) (r : Submission) :
    Act.Keeps (s.Alters (s.ByTools P)) (answer h r) := by
  refine answer_keep (fun w => ?_) fun active result => (World.note_still rfl).alters
  have hsubmitted := Engine.submit_submitted (h := h) r w
  show s.Alters _ w ((Engine.submit h r).settle.run w).2
  generalize ((Engine.submit h r).settle.run w).1 = result at hsubmitted
  generalize ((Engine.submit h r).settle.run w).2 = v at hsubmitted ⊢
  -- a key is claimed, the record of its job is stored, and something is noted of that
  have hclaimed : ∀ {key : String} (ticket : Nat) (registry : Registry), s.Alters (s.ByTools P) w
      { w with registry, journal := w.journal ++ [.claimed key ticket] } :=
    fun _ _ => .of_note rfl rfl rfl nofun
  cases hsubmitted with
  | refused plan => exact Std.Refl.refl w
  | active plan held => exact Std.Refl.refl w
  | unsaved plan claimed save =>
    have hsaved := (save_alters (P := P) hs hc (Job.isTargetKey_of_plan plan) _).of_run save
    exact IsTrans.trans _ _ _ (hclaimed _ _)
      (IsTrans.trans _ _ _ hsaved (.of_note rfl rfl rfl nofun))
  | accepted plan claimed save said =>
    have hsaved := (save_alters (P := P) hs hc (Job.isTargetKey_of_plan plan) _).of_run save
    exact IsTrans.trans _ _ _ (hclaimed _ _)
      (IsTrans.trans _ _ _ hsaved (.of_note rfl rfl rfl nofun))

/-- One thing that a tool does. -/
theorem act_alters (hc : s.Serves h c) (key title : String) (a : Activity)
    (hwrites : ∀ p bytes, a = .writeFile p bytes →
      ∃ rest, s.sources.Leads rest p ∧ P (s.base ++ rest)) :
    Act.Keeps (s.Alters (s.ByTools P)) (act h key title a) := by
  cases a with
  | line raw => exact (tellLine_still key title raw).alters
  | happening x => exact (World.happen_still x).alters
  | submit r => exact answer_alters hs hc r
  | makeDirectories p => exact (World.makeDirectories_alters hs.cwd p).settle.bind fun _ => .pure ()
  | writeFile p contents =>
    obtain ⟨rest, hp, hfits⟩ := hwrites p contents rfl
    exact (World.writeFile_alters hs hp contents (fun x => .fill (.create x hfits))
      (.fill (.append contents hfits))).settle.bind fun _ => .pure ()

theorem actAll_alters (hc : s.Serves h c) (key title : String) : ∀ as : List Activity,
    (∀ p bytes, .writeFile p bytes ∈ as → ∃ rest, s.sources.Leads rest p ∧ P (s.base ++ rest)) →
      Try.Keeps (s.Alters (s.ByTools P)) (actAll h key title as)
  | [], _ => .pure ()
  | a :: as, hwrites => by
    unfold actAll
    refine .bind (.lift (act_alters hs hc key title a fun p bytes ha => ?_)) fun _ => ?_
    · exact hwrites p bytes (ha ▸ List.mem_cons_self)
    · exact breakOff_still.alters.bind fun _ =>
        actAll_alters hc key title as fun p bytes ha => hwrites p bytes (List.mem_cons_of_mem _ ha)

/-- A call of a tool changes what the tool writes. -/
theorem callTool_alters (hc : s.Serves h c) (key title : String) (i : Invocation)
    (hwrites : ∀ calls d p bytes, .writeFile p bytes ∈ (h.tool calls d i).activities →
      ∃ rest, s.sources.Leads rest p ∧ P (s.base ++ rest)) :
    Try.Keeps (s.Alters (s.ByTools P)) (callTool h key title i) := by
  unfold callTool
  refine .bind (.lift World.pause_still.alters) fun _ => breakOff_still.alters.bind fun _ => ?_
  refine .bind (.lift (World.log_still _ _ _).alters) fun _ => .bind .get fun w => ?_
  have hcalled : Act.Keeps (s.Alters (s.ByTools P)) (World.note (.called i)) :=
    fun _ => .of_note rfl rfl rfl nofun
  refine .bind (.lift hcalled) fun _ => ?_
  refine (actAll_alters hs hc key title _ fun p bytes => hwrites _ _ p bytes).bind fun _ => ?_
  cases (h.tool (World.callsIn w.journal) w.disk i).result with
  | ok _ => exact .pure ()
  | error e => exact .throw e

theorem callAll_alters (hc : s.Serves h c) (key title : String) : ∀ is : List Invocation,
    (∀ i ∈ is, ∀ calls d p bytes, .writeFile p bytes ∈ (h.tool calls d i).activities →
      ∃ rest, s.sources.Leads rest p ∧ P (s.base ++ rest)) →
      Try.Keeps (s.Alters (s.ByTools P)) (callAll h key title is)
  | [], _ => .pure ()
  | i :: is, hwrites => by
    unfold callAll
    refine (callTool_alters hs hc key title i (hwrites i List.mem_cons_self)).bind fun _ => ?_
    exact callAll_alters hc key title is fun i hi => hwrites i (List.mem_cons_of_mem _ hi)

end

end Work

end Decompile
