import Decompile.Proofs.Conservation.Stage

/-!
# What stages find and change

- `nameHasExtension`, `isResourceName`: what kind of file a name stands for.
- `Site.filesIn`: the files in a directory of the target, by name.
- `Items.code_succeeds`, `jars_succeeds`, `resources_succeeds`, `input_succeeds`: what stages find.
- `ToolsWithin`: tools write into the directory they are given.
- `processChunk_within`, `discardConsumed_alters`: what a stage changes.
- `StageRun.course`: all changes of a stage that has succeeded.
-/

namespace Decompile

open Site (Hosts)

/-! ## Names -/

/-- The name ends in a dot and the letters of `ext`, in either case. -/
def nameHasExtension (ext n : String) : Bool :=
  match (FilePath.splitName n.toList).2 with
  | some e => Text.sameIgnoringCase e ext.toList
  | none => false

/-- A file of this name is neither bytecode nor a marker. -/
def isResourceName (n : String) : Bool :=
  !(nameHasExtension "dex" n || nameHasExtension "class" n) && !Target.isMarkerName n

/-- Different places below a directory have different paths. -/
theorem Disk.childPath_inj {root : FilePath} {q r : Place} (hq : ∀ n ∈ q, IsEntryName n)
    (hr : ∀ n ∈ r, IsEntryName n) (h : childPath root q = childPath root r) : q = r := by
  have hcomponents := congrArg FilePath.components h
  rw [FilePath.components_childPath hq, FilePath.components_childPath hr, List.append_right_inj]
    at hcomponents
  exact List.map_injective_iff.mpr (fun _ _ h => FilePath.Component.name.inj h) hcomponents

theorem Disk.text_childPath_inj {root : FilePath} {q r : Place} (hq : ∀ n ∈ q, IsEntryName n)
    (hr : ∀ n ∈ r, IsEntryName n) (h : (childPath root q).text = (childPath root r).text) : q = r :=
  childPath_inj hq hr (congrArg FilePath.mk h)

theorem FilePath.hasExtension_eq (p : FilePath) (ext : String) :
    p.hasExtension ext = p.fileName?.any (nameHasExtension ext) := by
  unfold hasExtension extension? nameHasExtension
  cases p.fileName? with
  | none => rfl
  | some n =>
    simp only [Option.bind_some, Option.any_some]
    cases (splitName n.toList).2 with
    | none => rfl
    | some e => simp only [Option.map_some, String.toList_ofList]

theorem FilePath.isResource_eq {p : FilePath} {n : String} (hn : p.fileName? = some n) :
    (!isCode p && !isMarker p) = isResourceName n := by
  simp only [isCode, isMarker, hasExtension_eq, hn, Option.any_some, isResourceName]

/-! ## Files of a directory -/

namespace Site

variable (s : Site)

/-- The files in the directory that a stage writes whose names `keep` admits, by their paths there,
in order. -/
def filesIn (d : Disk) (kind : StageKind) (keep : String → Bool) : List Place :=
  ((d.filesUnder (s.area kind)).map Prod.fst).filter fun q => q.getLast?.any keep

variable {s} {d : Disk} {kind : StageKind} {keep : String → Bool} {q : Place}

theorem mem_filesIn : q ∈ s.filesIn d kind keep ↔
    q ≠ [] ∧ (∃ b x, d.find? (s.area kind ++ q) = some (.file b x)) ∧ q.getLast?.any keep = true := by
  unfold filesIn
  rw [List.mem_filter, List.mem_map]
  constructor
  · rintro ⟨⟨⟨r, b⟩, hmem, rfl⟩, hkeep⟩
    obtain ⟨hne, x, hfile⟩ := Disk.mem_filesUnder.mp hmem
    exact ⟨hne, ⟨b, x, hfile⟩, hkeep⟩
  · rintro ⟨hne, ⟨b, x, hfile⟩, hkeep⟩
    exact ⟨⟨(q, b), Disk.mem_filesUnder.mpr ⟨hne, x, hfile⟩, rfl⟩, hkeep⟩

theorem filesIn_ascending (s : Site) (d : Disk) (kind : StageKind) (keep : String → Bool) :
    (s.filesIn d kind keep).Pairwise (· < ·) :=
  List.Pairwise.filter _ (List.pairwise_map.mpr (Disk.filesUnder_ascending d _))

theorem filesIn_nodup (s : Site) (d : Disk) (kind : StageKind) (keep : String → Bool) :
    (s.filesIn d kind keep).Nodup :=
  (filesIn_ascending s d kind keep).imp fun hlt heq => absurd (heq ▸ hlt) (Place.lt_irrefl _)

theorem Sited.names_area (hd : s.Sited d) {e : Entry}
    (hq : d.find? (s.area kind ++ q) = some e) : ∀ n ∈ q, IsEntryName n := by
  rw [area_eq, List.append_assoc] at hq
  exact fun n hn => hd.named _ _ hq n (List.mem_append_right _ hn)

theorem Sited.names_filesIn (hd : s.Sited d) (hq : q ∈ s.filesIn d kind keep) :
    ∀ n ∈ q, IsEntryName n := by
  obtain ⟨-, ⟨b, x, hfile⟩, -⟩ := mem_filesIn.mp hq
  exact hd.names_area hfile

/-- Only the files of the directory count. -/
theorem filesIn_congr {d' : Disk} (hsame : ∀ q, q.getLast?.any keep = true →
    ((∃ b x, d.find? (s.area kind ++ q) = some (.file b x)) ↔
      ∃ b x, d'.find? (s.area kind ++ q) = some (.file b x))) :
    s.filesIn d kind keep = s.filesIn d' kind keep := by
  refine List.Perm.eq_of_pairwise (fun p q _ _ hpq hqp => absurd (Place.lt_trans hpq hqp) (Place.lt_irrefl _))
    (filesIn_ascending s d kind keep) (filesIn_ascending s d' kind keep) ?_
  refine (List.perm_ext_iff_of_nodup (filesIn_nodup _ _ _ _) (filesIn_nodup _ _ _ _)).mpr fun q => ?_
  rw [mem_filesIn, mem_filesIn]
  exact and_congr_right fun _ => and_congr_left fun hkeep => hsame q hkeep

end Site

/-! ## Items -/

namespace Items

variable {h : Host} {c : StageContext} {s : Site} {kind : StageKind} {w v : World} {items : Items}

section

variable (hs : s.Fresh) (hc : s.Serves h c) (hw : s.Hosts w)

include hs hc hw

/-- What is found in a directory that stands. -/
theorem filesBelow_stands (hstands : s.Stands c.layout kind w.disk) {keep : FilePath → Bool}
    {named : String → Bool} (hkeep : ∀ p n, p.fileName? = some n → keep p = named n) :
    ((filesBelow (outputOf c.layout kind) keep).run w).1 =
      (s.filesIn w.disk kind named).map (Disk.childPath (outputOf c.layout kind)) := by
  show ((w.disk.walk w.cwd _).map Disk.Found.path).filter keep = _
  rw [hw.cwd, hstands.walk hs hc hw.sited, List.map_map, Site.filesIn, List.filter_map,
    List.filter_map, List.map_map]
  congr 1
  refine List.filter_congr fun x hx => ?_
  obtain ⟨hne, y, hfile⟩ := Disk.mem_filesUnder.mp hx
  have hname : (Disk.childPath (outputOf c.layout kind) x.1).fileName? = x.1.getLast? :=
    FilePath.fileName?_childPath (hw.sited.names_area hfile) hne
  cases hlast : x.1.getLast? with
  | none => exact absurd (List.getLast?_eq_none_iff.mp hlast) hne
  | some n =>
    rw [hlast] at hname
    simp only [Function.comp_apply, hlast, Option.any_some]
    exact hkeep _ n hname

/-- Files that have to be there. -/
theorem someBelow_succeeds (hstands : s.Stands c.layout kind w.disk) {ext : String} {e : StageError}
    (hrun : Try.Succeeds (do
      let files ← filesBelow (outputOf c.layout kind) fun p => p.hasExtension ext
      if files.isEmpty then throw e
      return .files files : Try StageError Items) w items v) :
    v = w ∧ s.filesIn w.disk kind (nameHasExtension ext) ≠ [] ∧
      items = .files ((s.filesIn w.disk kind (nameHasExtension ext)).map
        (Disk.childPath (outputOf c.layout kind))) := by
  replace hrun := Try.Succeeds.lift hrun
  obtain ⟨hsome, hrun⟩ := Try.Succeeds.passed hrun
  obtain ⟨rfl, rfl⟩ := Try.Succeeds.pure hrun
  have hkeep : ∀ (p : FilePath) n, p.fileName? = some n →
      p.hasExtension ext = nameHasExtension ext n := fun p n hn => by
    rw [FilePath.hasExtension_eq, hn, Option.any_some]
  rw [filesBelow_stands hs hc hw hstands hkeep] at hsome ⊢
  refine ⟨rfl, ?_, rfl⟩
  simpa using hsome

theorem code_succeeds (hstands : s.Stands c.layout .unpack w.disk) {t : InputType}
    (hrun : (code c.layout t).Succeeds w items v) :
    v = w ∧ items = .files ((s.filesIn w.disk .unpack (nameHasExtension (codeExtension t))).map
      (Disk.childPath c.layout.unpacked)) := by
  obtain ⟨hworld, -, hitems⟩ := someBelow_succeeds hs hc hw hstands hrun
  exact ⟨hworld, hitems⟩

theorem jars_succeeds (hstands : s.Stands c.layout .intermediateConvert w.disk)
    (hrun : (jars c.layout).Succeeds w items v) :
    v = w ∧ items = .files ((s.filesIn w.disk .intermediateConvert (nameHasExtension "jar")).map
      (Disk.childPath c.layout.intermediate)) := by
  obtain ⟨hworld, -, hitems⟩ := someBelow_succeeds hs hc hw hstands hrun
  exact ⟨hworld, hitems⟩

theorem resources_succeeds (hstands : s.Stands c.layout .unpack w.disk)
    (hrun : (resources c.layout).Succeeds w items v) :
    v = w ∧ items = .files ((s.filesIn w.disk .unpack isResourceName).map
      (Disk.childPath c.layout.unpacked)) := by
  replace hrun := Try.Succeeds.lift hrun
  obtain ⟨rfl, rfl⟩ := Try.Succeeds.pure hrun
  refine ⟨rfl, ?_⟩
  exact congrArg Items.files (filesBelow_stands hs hc hw hstands fun _ _ => FilePath.isResource_eq)

end

end Items

/-- The members of an archive that are unpacked: no directories, and no bundled libraries if they are
to be left out. -/
def Zip.wanted (roots : List String) (ignoreLibraries : Bool) (ls : List Listed) : List String :=
  let names := (ls.map Listed.name).filter fun n => n.toList.getLast? ≠ some '/'
  if ignoreLibraries then names.filter fun n => !isLibraryPath roots n else names

namespace Items

variable {h : Host} {w v : World}

theorem listMembers_succeeds {archive : FilePath} {names : List String}
    (hrun : (listMembers h archive).Succeeds w names v) :
    Still w v ∧ ∃ bytes ls, w.disk.read w.cwd archive = .ok bytes ∧ Zip.read bytes = .ok ls ∧
      names = (ls.map Zip.Listed.name).filter fun n => n.toList.getLast? ≠ some '/' := by
  unfold listMembers at hrun
  obtain ⟨bytes, u, hread, hrest⟩ := Try.Succeeds.bind hrun
  obtain ⟨hstill, hbytes⟩ := World.readBytes_succeeds hread.mapError
  cases hlist : Zip.read bytes with
  | error e =>
    rw [hlist] at hrest
    exact absurd hrest Try.Succeeds.not_throw
  | ok ls =>
    rw [hlist] at hrest
    obtain ⟨rfl, rfl⟩ := hrest.pure
    exact ⟨hstill, bytes, ls, hbytes, hlist, rfl⟩

/-- What unpacking works through: the input itself, or the members that are wanted. -/
theorem input_succeeds {r : Submission} {items : Items}
    (hrun : (input h r).Succeeds w items v) :
    Rests w v ∧ ∃ bytes, w.disk.read w.cwd r.inputPath = .ok bytes ∧
      (r.inputType.isArchive = false ∧ items = .files [r.inputPath] ∨
        r.inputType.isArchive = true ∧ ∃ ls, Zip.read bytes = .ok ls ∧
          items = .members (Zip.wanted h.settings.libraryRoots r.ignoreLibraries ls)) := by
  refine ⟨hrun.keeps (input_keep World.readBytes_rests r), ?_⟩
  unfold input at hrun
  obtain ⟨hthere, hrun⟩ :=
    Try.Succeeds.passed (Try.Succeeds.lift (x := World.isFile r.inputPath) hrun)
  cases harchive : r.inputType.isArchive with
  | false =>
    rw [harchive] at hrun
    obtain ⟨rfl, -⟩ := Try.Succeeds.pure hrun
    replace hthere : ¬ (!w.disk.isFile w.cwd r.inputPath) = true := hthere
    unfold Disk.isFile at hthere
    split at hthere
    · next q contents executable hentry =>
      refine ⟨contents, ?_, .inl ⟨rfl, rfl⟩⟩
      rw [Disk.read, hentry]
    · exact absurd rfl hthere
  | true =>
    rw [harchive] at hrun
    obtain ⟨names, u, hlist, hrest⟩ := Try.Succeeds.bind (t := listMembers h r.inputPath) hrun
    obtain ⟨-, bytes, ls, hread, hzip, rfl⟩ := listMembers_succeeds hlist
    refine ⟨bytes, hread, .inr ⟨rfl, ls, hzip, ?_⟩⟩
    unfold Zip.wanted
    cases hignore : r.ignoreLibraries with
    | false =>
      rw [hignore] at hrest
      exact (Try.Succeeds.pure hrest).1
    | true =>
      rw [hignore] at hrest
      exact (Try.Succeeds.pure hrest).1

end Items

/-! ## What stages change -/

/-- Tools write into the directory they are given. -/
structure ToolsWithin (h : Host) (c : StageContext) : Prop where
  convert : ∀ files, ∀ i ∈ planConvert c.job.backend h.catalog files c.layout.java,
    ∀ calls d p bytes, .writeFile p bytes ∈ (h.tool calls d i).activities →
      ∃ rest, c.layout.java.Leads rest p
  intermediate : ∀ dex calls d p bytes, .writeFile p bytes ∈
    (h.tool calls d (dexToJarCall h.catalog c.layout.intermediate dex)).activities →
      ∃ rest, c.layout.intermediate.Leads rest p

/-- What a stage may work through: members of the input, the input, or files that were found in a
directory of the target. -/
inductive Site.Fit (c : StageContext) : StageKind → Items → Prop where
  | members (kind : StageKind) (names : List String) : Fit c kind (.members names)
  | input (p : FilePath) : Fit c .unpack (.files [p])
  | found (kind : StageKind) (qs : List Place) (named : ∀ q ∈ qs, ∀ n ∈ q, IsEntryName n) :
    Fit c kind (.files (qs.map (Disk.childPath c.layout.unpacked)))
  | archives (split : c.job.backend.isDirect = false) (qs : List Place)
    (named : ∀ q ∈ qs, ∀ n ∈ q, IsEntryName n) :
    Fit c .convert (.files (qs.map (Disk.childPath c.layout.intermediate)))

theorem Chunk.slice_map {α β : Type} (chunk : Chunk) (f : α → β) (xs : List α) :
    chunk.slice (xs.map f) = (chunk.slice xs).map f := by
  rw [slice, slice, List.map_take, List.map_drop]

section

variable {h : Host} {c : StageContext} {s : Site} {kind : StageKind} {w v : World} {items : Items}
  (hs : s.Fresh) (hc : s.Serves h c)

include hs hc

/-- Calls of tools that write into the directory of a stage. -/
theorem Work.callAll_within {key title : String} {is : List Invocation}
    (hwrites : ∀ i ∈ is, ∀ calls d p bytes, .writeFile p bytes ∈ (h.tool calls d i).activities →
      ∃ rest, (outputOf c.layout kind).Leads rest p) :
    Try.Keeps (s.Alters (s.Within kind)) (callAll h key title is) := by
  refine Act.Keeps.mono (callAll_alters (P := fun q => ∃ rest, q = s.area kind ++ rest) hs hc key
    title is fun i hi calls d p bytes hp => ?_) fun _ _ ha => ha.mono fun _ => .fill
  obtain ⟨rest, hrest⟩ := hwrites i hi calls d p bytes hp
  exact ⟨_, (hc.leads_output kind).trans hrest, rest, Site.Serves.area_append kind rest⟩

/-- The work on a chunk changes the directory of its stage. -/
theorem processChunk_within (htools : ToolsWithin h c) (hitems : Site.Fit c kind items)
    (index : Nat) (chunk : Chunk) :
    Try.Keeps (s.Alters (s.Within kind)) (Work.processChunk h c kind index items chunk) := by
  have hfill : ∀ {t : Try StageError Unit},
      Try.Keeps (s.Alters (Site.Fills fun q => ∃ rest, q = s.area kind ++ rest)) t →
        Try.Keeps (s.Alters (s.Within kind)) t := fun ht =>
    Act.Keeps.mono ht fun _ _ ha => ha.mono fun _ hx => .fill (.fill hx)
  have harea : ∀ rest, ∃ more, s.base ++ ([s.key, areaOf kind] ++ rest) = s.area kind ++ more :=
    fun rest => ⟨rest, Site.Serves.area_append kind rest⟩
  unfold Work.processChunk
  split
  · exact hfill (Work.extract_alters hs (hc.leads_output .unpack) _ true fun n _ _ => harea _)
  · exact hfill (Work.copyInto_alters hs (hc.leads_output .unpack) _ fun p _ n _ => harea _)
  · show Try.Keeps _ (ite _ _ _)
    split
    · have hjar := (hc.leads_output .intermediateConvert).child (isEntryName_chunkJarName index)
      exact hfill (Work.pack_alters hs hjar _ _ ⟨_, Site.Serves.area_append _ _⟩)
    · cases hplan : planIntermediate c.job.backend h.catalog (chunk.slice _)
        c.layout.intermediate with
      | error e => exact .throw e
      | ok calls =>
        refine Work.callAll_within hs hc fun i hi => ?_
        unfold planIntermediate at hplan
        split at hplan
        · cases hplan
        · obtain rfl := Except.ok.inj hplan
          obtain ⟨dex, -, rfl⟩ := List.mem_map.mp hi
          exact htools.intermediate dex
  · exact Work.callAll_within hs hc (htools.convert _)
  · cases hitems with
    | found kind qs named =>
      rw [Chunk.slice_map]
      refine hfill (Work.copyBelow_alters hs (hc.leads_output .resources) _ fun q hq => ?_)
      exact ⟨named q (Chunk.mem_of_mem_slice hq), harea _⟩
  · exact .throw _

/-- What a stage discards. -/
def Site.Consumed (s : Site) (c : StageContext) (kind : StageKind) (items : Items) (q : Place) :
    Prop :=
  match kind with
  | .unpack => False
  | .resources => ∃ rest, q = s.area .unpack ++ rest
  | .intermediateConvert | .convert =>
    if kind = .convert ∧ !c.job.backend.isDirect then ∃ rest, q = s.area .intermediateConvert ++ rest
    else ∃ paths r, items = .files paths ∧ Disk.childPath c.layout.unpacked r ∈ paths ∧
      (∀ n ∈ r, IsEntryName n) ∧ q = s.area .unpack ++ r

omit hs hc in
/-- Nothing that is discarded was there when the job began. -/
theorem Site.Fresh.consumed (hs : s.Fresh) {q : Place} (hq : s.Consumed c kind items q) :
    s.before.find? q = none := by
  unfold Site.Consumed at hq
  split at hq
  · exact hq.elim
  · obtain ⟨rest, rfl⟩ := hq
    exact hs.free _ rest
  all_goals
    split at hq
    · obtain ⟨rest, rfl⟩ := hq
      exact hs.free _ rest
    · obtain ⟨paths, r, -, -, -, rfl⟩ := hq
      exact hs.free _ r

theorem discardConsumed_alters (hitems : Site.Fit c kind items) :
    Try.Keeps (s.Alters (Site.Removes (s.Consumed c kind items))) (discardConsumed h c kind items) := by
  have hfiles : ∀ ps, ¬ (kind = .convert ∧ !c.job.backend.isDirect) → kind ≠ .unpack →
      kind ≠ .resources → items = .files ps →
        Try.Keeps (s.Alters (Site.Removes (s.Consumed c kind items))) (removeFiles h ps) := by
    rintro ps hsplit hunpack hresources rfl
    refine removeFiles_alters hs (fun q hq => hs.consumed hq) _ fun p hp => ?_
    cases hitems with
    | input p => exact absurd rfl hunpack
    | archives split qs named => exact absurd ⟨rfl, by rw [split]; rfl⟩ hsplit
    | found kind qs named =>
      obtain ⟨q, hq, rfl⟩ := List.mem_map.mp hp
      refine ⟨_, (hc.leads_output .unpack).childPath (named q hq), ?_⟩
      rw [Site.Serves.area_append]
      cases kind with
      | unpack => exact absurd rfl hunpack
      | resources => exact absurd rfl hresources
      | _ =>
        rw [Site.Consumed, if_neg hsplit]
        exact ⟨_, q, rfl, hp, named q hq, rfl⟩
  unfold discardConsumed
  split
  · exact .pure ()
  · exact removeTree_alters hs hc .unpack fun rest => ⟨rest, rfl⟩
  all_goals
    split
    · next hsplit =>
      refine removeTree_alters hs hc .intermediateConvert fun rest => ?_
      rw [Site.Consumed, if_pos hsplit]
      exact ⟨rest, rfl⟩
    · next hsplit =>
      split
      · next ps => exact hfiles ps hsplit nofun nofun rfl
      · exact .pure ()

/-! ## All of a stage -/

/-- What a stage works through is fit for it. -/
theorem collect_fit (hw : s.Hosts w) (hunpacked : kind ≠ .unpack → s.Stands c.layout .unpack w.disk)
    (hjars : kind = .convert → c.job.backend.isDirect = false →
      s.Stands c.layout .intermediateConvert w.disk)
    (hrun : (Items.collect h c kind).Succeeds w items v) : Site.Fit c kind items := by
  cases kind with
  | unpack =>
    obtain ⟨-, bytes, -, ⟨-, rfl⟩ | ⟨-, ls, -, rfl⟩⟩ := Items.input_succeeds hrun
    · exact .input _
    · exact .members _ _
  | intermediateConvert =>
    obtain ⟨-, rfl⟩ := Items.code_succeeds hs hc hw (hunpacked nofun) hrun
    exact .found _ _ fun q hq => hw.sited.names_filesIn hq
  | resources =>
    obtain ⟨-, rfl⟩ := Items.resources_succeeds hs hc hw (hunpacked nofun) hrun
    exact .found _ _ fun q hq => hw.sited.names_filesIn hq
  | convert =>
    replace hrun : Try.Succeeds (ite _ _ _) w items v := hrun
    split at hrun
    · obtain ⟨-, rfl⟩ := Items.code_succeeds hs hc hw (hunpacked nofun) hrun
      exact .found _ _ fun q hq => hw.sited.names_filesIn hq
    · next hsplit =>
      have hsplit := Bool.not_eq_true _ ▸ hsplit
      obtain ⟨-, rfl⟩ := Items.jars_succeeds hs hc hw (hjars rfl hsplit) hrun
      exact .archives hsplit _ fun q hq => hw.sited.names_filesIn hq

omit hs hc in
theorem collect_rests (hrun : (Items.collect h c kind).Succeeds w items v) : Rests w v :=
  hrun.keeps (Items.collect_keep World.readBytes_rests c kind)

omit hs hc in
theorem Site.Stands.within {kind other : StageKind} (hstands : s.Stands c.layout other w.disk)
    (hcourse : s.Course (s.Within kind) w v) : s.Stands c.layout other v.disk :=
  hstands.course hcourse fun _ hx => hx.ne_remove

/-- **All of a stage.** Until it has found its items a stage changes its own directory only, and in
the end it has discarded some of what it has consumed. A directory without marks stands before. -/
theorem StageRun.summary (htools : ToolsWithin h c) (hrun : StageRun h c kind w v) (hw : s.Hosts w)
    (hunpacked : kind ≠ .unpack → s.Stands c.layout .unpack w.disk)
    (hjars : kind = .convert → c.job.backend.isDirect = false →
      s.Stands c.layout .intermediateConvert w.disk) :
    ∃ items u u', s.Course (s.Within kind) w u ∧
      (kind.hasMarkers = false → s.Stands c.layout kind u.disk) ∧
      (Items.collect h c kind).Succeeds u items u' ∧
      s.Course (s.Handles kind (s.Consumed c kind items)) u v ∧
      ∃ as, Worked (as.flatMap Attempt.noted) w v ∧
        Tried c.ticket kind (chunkPlan h c kind items) (c.chunks items).length 0
          (c.chunks items).length as := by
  obtain @⟨w₁, w₂, w₃, w₄, w₅, w₆, w₇, w₈, items, starts, prepares, watches, collects, works, stops,
    finishes, discards, ends⟩ := hrun
  have hquiet : ∀ {x y : World}, Rests x y → s.Alters (s.Within kind) x y := fun hr =>
    .of_still hr.still
  have hw₁ := hw.of_rests starts
  have hbefore : s.Course (s.Within kind) w w₃ :=
    IsTrans.trans _ _ _ (hquiet starts) (IsTrans.trans _ _ _
      (prepares.keeps (prepareOutput_alters hs hc kind)) (hquiet watches)) hw
  have hw₃ := hbefore.hosts hw
  have hfit := collect_fit hs hc hw₃ (fun hkind => (hunpacked hkind).within hbefore)
    (fun hkind hsplit => (hjars hkind hsplit).within hbefore) collects
  have hworks : s.Alters (s.Within kind) w₄ w₅ :=
    runItems_alters (fun _ => processChunk_within hs hc htools hfit _ _) works
  have hafter : s.Alters (s.Within kind) w₃ w₇ :=
    IsTrans.trans _ _ _ (hquiet (collect_rests collects)) (IsTrans.trans _ _ _ hworks
      (IsTrans.trans _ _ _ (hquiet stops) (finishes.keeps (finishOutput_alters hs hc kind))))
  have hw₇ := (hafter hw₃).hosts hw₃
  have hdiscards : s.Alters (s.Handles kind (s.Consumed c kind items)) w₇ w₈ := by
    rw [discards]
    split
    · exact Std.Refl.refl _
    · exact Site.Alters.mono (discardConsumed_alters hs hc hfit w₇) fun _ => .inr
  obtain ⟨as, hworked, htried⟩ := runItems_tried works
  refine ⟨items, w₃, w₄, hbefore, fun hmarkers => ?_, collects, ?_, as, ?_, htried⟩
  · rw [watches.still.disk]
    exact prepareOutput_stands hs hc hmarkers hw₁ prepares
  · exact ((hafter hw₃).mono fun _ => .inl).trans (IsTrans.trans _ _ _ hdiscards
      (.of_still ends.still) hw₇)
  · have hdiscarded : Worked [] w₇ w₈ := by
      rw [discards]
      split
      · exact .refl _
      · exact (discardConsumed_moves (h := h) c kind items).worked w₇
    have hprepared := prepares.keeps (prepareOutput_moves (h := h) c kind).worked
    have hfinished := finishes.keeps (finishOutput_moves (h := h) c kind).worked
    have hfirst : Worked [] w w₄ := starts.worked.append (hprepared.append (watches.worked.append
      (collect_rests collects).worked))
    have hlast : Worked [] w₅ v := stops.worked.append (hfinished.append (hdiscarded.append ends.worked))
    have hall := hfirst.append (hworked.append hlast)
    rwa [List.nil_append, List.append_nil] at hall

end

end Decompile
