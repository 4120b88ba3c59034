import Decompile.Proofs.Conservation.Work

/-!
# The directories that stages write

- `Site.Stands`: the directory that a stage writes is there, and its path leads to it. It stays as
  long as nobody removes it.
- `Stands.walk`: what a walk from such a directory finds.
- `Site.Within`: what a stage changes is in its directory.
- `prepareOutput_succeeds`, `finishOutput_alters`, `discardConsumed_alters`: what stands before and
  after the work on items.
-/

namespace Decompile

open Site (Hosts)

namespace Site

variable {s : Site} {h : Host} {c : StageContext} {kind : StageKind} {X : Change → Prop}
  {w v : World} {d d' : Disk}

/-! ## Directories that stand -/

/-- A directory that nobody removes stays. -/
theorem Course.directory (hcourse : s.Course X w v) {q : Place} (hq : ∀ c, X c → c ≠ .remove q)
    (hdir : w.disk.find? q = some .directory) : v.disk.find? q = some .directory := by
  induction hcourse with
  | refl => exact hdir
  | @tail x y _ turn ih =>
    cases turn with
    | aside new journal quiet disk cwd => rw [disk, ih]
    | change c journal disk cwd sound admitted =>
      rw [disk]
      by_cases hplace : q = c.place
      · cases c with
        | makeDirectory p =>
          obtain rfl : q = p := hplace
          rw [Disk.apply, Disk.find?_put, if_pos rfl]
        | create p x | replace p b =>
          obtain rfl : q = p := hplace
          cases sound.1 _ ih
        | append p more =>
          obtain rfl : q = p := hplace
          simp only [Disk.apply, ih]
        | remove p =>
          obtain rfl : q = p := hplace
          exact absurd rfl (hq _ (admitted.resolve_left Bool.false_ne_true))
        | link p t => exact sound.elim
      · rw [Disk.find?_apply_of_ne _ _ hplace, ih]

/-- At some time the path could be followed. -/
def Seen (s : Site) (p : FilePath) : Prop :=
  ∃ d through q e, s.Sited d ∧ d.locate s.cwd through p = .ok (q, e)

/-- The directory that a stage writes is there, and its path could be followed. -/
structure Stands (s : Site) (l : Layout) (kind : StageKind) (d : Disk) : Prop where
  there : d.find? (s.area kind) = some .directory
  seen : s.Seen (outputOf l kind)

theorem Stands.course (hd : s.Stands c.layout kind w.disk) (hcourse : s.Course X w v)
    (hkept : ∀ x, X x → x ≠ .remove (s.area kind)) : s.Stands c.layout kind v.disk :=
  ⟨hcourse.directory hkept hd.there, hd.seen⟩

section

variable (hs : s.Fresh) (hc : s.Serves h c)

include hc

theorem Serves.steps_output (kind : StageKind) :
    (outputOf c.layout kind).steps = s.sources.steps ++ [s.key, areaOf kind] := by
  have hkey := isEntryName_of_isTargetKey hc.clean
  have hstep : ∀ {p : FilePath} {n : String}, IsEntryName n → (p.join ⟨n⟩).steps = p.steps ++ [n] :=
    fun hn => by
      rw [FilePath.steps_join (FilePath.isAbsolute_of_isEntryName hn), FilePath.steps_of_isEntryName hn]
  have houtput : outputOf c.layout kind = c.layout.root.join ⟨areaOf kind⟩ := by cases kind <;> rfl
  rw [houtput, hstep (isEntryName_areaOf kind), hc.layout, hc.sources, hc.key]
  show (FilePath.join _ _).steps ++ _ = _
  rw [hstep hkey, List.append_assoc]
  rfl

theorem Serves.names : ∀ n ∈ [s.key, areaOf kind], IsEntryName n := by
  rintro n (_ | ⟨_, _ | ⟨_, hn⟩⟩)
  · rw [hc.key]
    exact isEntryName_of_isTargetKey hc.clean
  · exact isEntryName_areaOf kind
  · cases hn

include hs

/-- The path of a directory that stands leads there. -/
theorem Stands.entryAt (hstands : s.Stands c.layout kind d) (hd : s.Sited d) (through : Bool) :
    d.entryAt s.cwd through (outputOf c.layout kind) = .ok (s.area kind, .directory) := by
  obtain ⟨d₀, free, q, e, hd₀, hlocate⟩ := hstands.seen
  refine Disk.Anchored.entryAt_again (hs.anchoredOn hd₀) (hs.anchoredOn hd)
    (hc.leads_output kind).absolute (hc.steps_output kind) (List.cons_ne_nil _ _) hc.names hlocate
    (fun r hr hprefix => ?_) through
  -- on the way are the directories of the target and of the stage
  rcases List.prefix_cons_iff.mp hprefix with rfl | ⟨r, rfl, hmore⟩
  · exact absurd rfl hr
  · rcases List.prefix_cons_iff.mp hmore with rfl | ⟨r, rfl, hlast⟩
    · exact hd.keeps _ _ hs.there rfl
    · rw [List.prefix_nil.mp hlast]
      exact hstands.there

/-- A walk from a directory that stands finds the files below it. -/
theorem Stands.walk (hstands : s.Stands c.layout kind d) (hd : s.Sited d) :
    d.walk s.cwd (outputOf c.layout kind) = (d.filesUnder (s.area kind)).map fun x =>
      ⟨Disk.childPath (outputOf c.layout kind) x.1, x.1, x.2⟩ :=
  Disk.Anchored.walk_eq (hstands.entryAt hs hc hd false) (hstands.entryAt hs hc hd true)

end

end Site

/-! ## Before the work -/

namespace World

variable {h : Host} {s : Site} {X : Change → Prop} {w v : World} {rest : Place} {p : FilePath}

section

variable (hs : s.Fresh) (hp : s.sources.Leads rest p)

include hs hp

theorem isDirectory_stands (hw : s.Hosts w) (hdir : w.disk.isDirectory w.cwd p = true) :
    s.Seen p ∧ w.disk.find? (s.base ++ rest) = some .directory := by
  unfold Disk.isDirectory at hdir
  split at hdir
  · next q hentry =>
    rw [hw.cwd] at hentry
    obtain ⟨ending, hlocate, -, -⟩ := Disk.entryAt_of_locate hentry
    exact ⟨⟨_, _, _, _, hw.sited, hlocate⟩, ((hs.anchoredOn hw.sited).entryAt hp hentry).2⟩
  · cases hdir

theorem makeDirectory_stands (hw : s.Hosts w) (hrun : (makeDirectory h p).Succeeds w () v) :
    s.Seen p ∧ v.disk.find? (s.base ++ rest) = some .directory := by
  obtain ⟨c, hplan, hdisk, -⟩ := plan_change_succeeds hrun
  rw [hw.cwd] at hplan
  unfold Disk.planMakeDirectory at hplan
  split at hplan
  · cases hplan
  · next place ending hlocate =>
    split at hplan
    · cases hplan
    · obtain rfl := Except.ok.inj hplan
      obtain ⟨rfl, -⟩ := (hs.anchoredOn hw.sited).locate hp hlocate
      refine ⟨⟨_, _, _, _, hw.sited, hlocate⟩, ?_⟩
      rw [hdisk, Disk.apply, Disk.find?_put, if_pos rfl]

omit hs hp in
/-- A directory of a row was made, or it was there. -/
theorem makeEach_cons {q : FilePath} {ps : List FilePath}
    (hrun : (makeEach h (q :: ps)).Succeeds w () v) :
    ∃ u, ((makeDirectory h q).Succeeds w () u ∨
      ((makeDirectory h q).settle.run w).2 = u ∧ u.disk.isDirectory u.cwd q = true) ∧
        (makeEach h ps).Succeeds u () v := by
  unfold makeEach at hrun
  replace hrun := Try.Succeeds.outcome hrun
  rcases hmake : (makeDirectory h q).settle.run w with ⟨e | _, u⟩
  · rw [hmake] at hrun
    replace hrun := Try.Succeeds.lift (x := isDirectory q) hrun
    split at hrun
    · next hthere => exact ⟨u, .inr ⟨rfl, hthere.2⟩, hrun⟩
    · obtain ⟨_, _, hthrow, -⟩ := Try.Succeeds.bind hrun
      exact absurd hthrow Try.Succeeds.not_throw
  · rw [hmake] at hrun
    exact ⟨u, .inl hmake, hrun⟩

/-- The last directory of a row that was made, or was there, is there. -/
theorem makeEach_stands {ps : List FilePath} (hw : s.Hosts w)
    (hrun : (makeEach h (ps ++ [p])).Succeeds w () v) :
    s.Seen p ∧ v.disk.find? (s.base ++ rest) = some .directory := by
  induction ps generalizing w with
  | nil =>
    obtain ⟨u, hmade, hlast⟩ := makeEach_cons hrun
    obtain ⟨-, rfl⟩ := hlast.pure
    rcases hmade with hmade | ⟨rfl, hthere⟩
    · exact makeDirectory_stands hs hp hw hmade
    · have hu := (makeDirectory_alters (X := fun _ => False) (h := h) hs.cwd p w hw).hosts hw
      exact isDirectory_stands hs hp hu hthere
  | cons q ps ih =>
    obtain ⟨u, hmade, hmore⟩ := makeEach_cons hrun
    refine ih (w := u) ?_ hmore
    have halters := makeDirectory_alters (X := fun _ => False) (h := h) hs.cwd q w hw
    rcases hmade with hmade | ⟨rfl, -⟩
    · rw [hmade] at halters
      exact halters.hosts hw
    · exact halters.hosts hw

omit hs hp in
/-- Directories that are missing below the lowest one that can be made are made after it. -/
theorem makeLowest_yields : ∀ missing ps : List FilePath,
    Try.Yields (fun r => missing <:+ r) (makeLowest h missing ps)
  | missing, [] => .pure (List.suffix_refl _)
  | missing, q :: above => by
    unfold makeLowest
    refine .bind fun r => ?_
    cases r with
    | ok _ => exact .pure (List.suffix_refl _)
    | error e =>
      show Try.Yields _ (ite _ _ _)
      split
      · intro w r v hrun
        exact (List.suffix_cons q missing).trans (makeLowest_yields (q :: missing) above w r v hrun)
      · refine .bind fun there => ?_
        split
        · exact .pure (List.suffix_refl _)
        · exact .throw e

/-- A directory that was made with those above it is there. -/
theorem makeDirectories_stands (hw : s.Hosts w) {above : List FilePath}
    (habove : ancestors (p.text.length + 1) p = p :: above)
    (hrun : (makeDirectories h p).Succeeds w () v) :
    s.Seen p ∧ v.disk.find? (s.base ++ rest) = some .directory := by
  unfold makeDirectories at hrun
  rw [habove] at hrun
  obtain ⟨missing, u, hlowest, heach⟩ := Try.Succeeds.bind hrun
  have halters := makeDirectory_alters (X := fun _ => False) (h := h) hs.cwd p w hw
  unfold makeLowest at hlowest
  replace hlowest := Try.Succeeds.outcome hlowest
  rcases hmake : (makeDirectory h p).settle.run w with ⟨e | _, u'⟩
  · rw [hmake] at hlowest halters
    replace hlowest : Try.Succeeds (ite _ _ _) u' missing u := hlowest
    have hu' := halters.hosts hw
    split at hlowest
    · -- those above it come first
      obtain ⟨ps, rfl⟩ := makeLowest_yields [p] above _ _ _ hlowest
      have hu := (hlowest.keeps (makeLowest_alters (X := fun _ => False) hs.cwd [p] above)
        hu').hosts hu'
      exact makeEach_stands hs hp hu heach
    · replace hlowest := Try.Succeeds.lift (x := isDirectory p) hlowest
      split at hlowest
      · next hthere =>
        obtain ⟨rfl, rfl⟩ := hlowest.pure
        obtain ⟨-, rfl⟩ := heach.pure
        exact isDirectory_stands hs hp hu' hthere.2
      · exact absurd hlowest Try.Succeeds.not_throw
  · rw [hmake] at hlowest
    obtain ⟨rfl, rfl⟩ := hlowest.pure
    obtain ⟨-, rfl⟩ := heach.pure
    exact makeDirectory_stands hs hp hw hmake

/-- A directory that an output is written to is there. -/
theorem ensureDirectory_stands (hw : s.Hosts w) {above : List FilePath}
    (habove : ancestors (p.text.length + 1) p = p :: above)
    (hrun : (ensureDirectory h p).Succeeds w () v) :
    s.Seen p ∧ v.disk.find? (s.base ++ rest) = some .directory := by
  unfold ensureDirectory at hrun
  replace hrun := Try.Succeeds.lift (x := pathExists p) hrun
  split at hrun
  · replace hrun := Try.Succeeds.lift (x := isDirectory p) hrun
    split at hrun
    · exact absurd hrun Try.Succeeds.not_throw
    · next hdir =>
      obtain ⟨-, rfl⟩ := hrun.pure
      rw [Bool.not_eq_true, Bool.not_eq_false'] at hdir
      exact isDirectory_stands hs hp hw hdir
  · exact makeDirectories_stands hs hp hw habove hrun.mapError

end

end World

/-- A directory with a name is looked for before those above it. -/
theorem ancestors_child {p : FilePath} {n : String} (hn : IsEntryName n) (fuel : Nat) :
    ∃ above, World.ancestors (fuel + 1) (p.child n) = p.child n :: above := by
  have hlast : (p.child n).components.getLast? = some (.name n) := by
    rw [FilePath.components_child hn, List.getLast?_concat]
  obtain ⟨q, hparent⟩ : ∃ q, (p.child n).parent? = some q := by
    unfold FilePath.parent?
    rw [hlast]
    simp only
    split
    · exact ⟨_, rfl⟩
    · split <;> exact ⟨_, rfl⟩
  have htext : (p.child n).text ≠ "" := by
    intro hempty
    rw [FilePath.components_empty hempty] at hlast
    cases hlast
  unfold World.ancestors
  simp only [hparent, htext, if_false]
  exact ⟨_, rfl⟩

namespace Site

/-- What a stage changes in its directory, and records of jobs that are stored meanwhile. -/
inductive Within (s : Site) (kind : StageKind) : Change → Prop where
  | fill {x : Change} (fills : s.ByTools (fun q => ∃ rest, q = s.area kind ++ rest) x) :
    Within s kind x
  | mark (name : String) (bytes : Bytes) : Within s kind (.replace (s.area kind ++ [name]) bytes)
  | remove (n : String) (rest : Place) : Within s kind (.remove (s.area kind ++ n :: rest))

variable {s : Site} {kind other : StageKind} {x : Change}

/-- Different directories of a target have nothing in common. -/
theorem area_ne (hne : kind ≠ other) (rest more : Place) :
    s.area kind ++ rest ≠ s.area other ++ more := by
  rw [area_eq, area_eq]
  exact fun h => hne (area_inj h).1

theorem record_ne_area {key : String} (rest : Place) :
    s.base ++ [key, recordName] ≠ s.area kind ++ rest := by
  rw [area_eq, target]
  exact Decompile.record_ne_area

theorem Within.place (hx : s.Within kind x) :
    (∃ rest, x.place = s.area kind ++ rest) ∨ ∃ key, x.place = s.base ++ [key, recordName] := by
  cases hx with
  | fill fills =>
    cases fills with
    | fill fills => exact .inl fills.place
    | record key bytes => exact .inr ⟨key, rfl⟩
  | mark name bytes => exact .inl ⟨[name], rfl⟩
  | remove n rest => exact .inl ⟨n :: rest, rfl⟩

/-- A stage does not touch what other stages write. -/
theorem Within.place_ne (hx : s.Within kind x) (hne : kind ≠ other) (rest : Place) :
    x.place ≠ s.area other ++ rest := by
  rcases hx.place with ⟨more, hplace⟩ | ⟨key, hplace⟩
  · rw [hplace]
    exact area_ne hne _ _
  · rw [hplace]
    exact record_ne_area _

theorem Within.ne_remove (hx : s.Within kind x) : x ≠ .remove (s.area other) := by
  intro heq
  cases hx with
  | fill fills =>
    subst heq
    cases fills with
    | fill fills => cases fills
  | mark name bytes => cases heq
  | remove n rest =>
    have hplace := Change.remove.inj heq
    rw [← List.append_nil (s.area other), area_eq, area_eq] at hplace
    cases (area_inj hplace).2

/-- The names in a directory of the target are names that entries can have. -/
theorem Sited.names_list {d : Disk} (hd : s.Sited d) (hanchored : d.Anchored s.cwd s.sources s.base)
    {p : FilePath} (hp : s.sources.Leads [s.key, areaOf kind] p) {entries : List (String × Entry)}
    (hlist : d.list s.cwd p = .ok entries) {y : String × Entry} (hy : y ∈ entries) :
    IsEntryName y.1 := by
  unfold Disk.list at hlist
  split at hlist
  · cases hlist
  · next q hentry =>
    obtain rfl := Except.ok.inj hlist
    obtain ⟨rfl, -⟩ := hanchored.entryAt hp hentry
    have hfound : d.find? (s.area kind ++ [y.1]) = some y.2 := Disk.find?_of_mem_children hy
    rw [area_eq, List.append_assoc] at hfound
    exact hd.named _ _ hfound y.1 (List.mem_append_right _ List.mem_cons_self)
  · cases hlist

/-- Places of which `gone` holds are removed. -/
inductive Removes (gone : Place → Prop) : Change → Prop where
  | remove {q : Place} (fits : gone q) : Removes gone (.remove q)

theorem Removes.place {gone : Place → Prop} (hx : Removes gone x) : gone x.place := by
  cases hx with
  | remove fits => exact fits

/-- A stage changes what it writes, and removes some of what it has consumed. -/
def Handles (s : Site) (kind : StageKind) (gone : Place → Prop) (x : Change) : Prop :=
  s.Within kind x ∨ Removes gone x

end Site

/-! ## Outputs -/

variable {h : Host} {c : StageContext} {s : Site} {kind : StageKind} {w v : World}

theorem outputOf_eq (l : Layout) (kind : StageKind) :
    outputOf l kind = l.root.child (areaOf kind) := by
  cases kind <;> rfl

section

variable (hs : s.Fresh) (hc : s.Serves h c)

include hs hc

/-- A mark is put on an output. -/
theorem storeMark_alters (kind : StageKind) {name : String} (hname : IsEntryName name) :
    Try.Keeps (s.Alters (s.Within kind)) (World.store h (outputOf c.layout kind) name []) := by
  have hleads := (hc.leads_output kind).child hname
  refine World.store_alters hs hleads ?_
  rw [Site.Serves.area_append]
  exact .mark name []

theorem prepareOutput_alters (kind : StageKind) :
    Try.Keeps (s.Alters (s.Within kind)) (prepareOutput h c kind) := by
  unfold prepareOutput
  show Try.Keeps _ (ite _ _ _)
  split
  · unfold Target.markStarted
    refine Try.Keeps.mapError (.bind (storeMark_alters hs hc kind (by decide)) fun _ => ?_)
    have hleads := (hc.leads_output kind).child (n := Target.completeMarker) (by decide)
    refine (World.ifPresent_alters (World.removeFile_alters hs hleads ?_ ?_)).mapError
    · rw [Site.Serves.area_append]
      exact .remove _ []
    · rw [Site.Serves.area_append, hs.free]
      nofun
  · exact (World.ensureDirectory_alters hs.cwd _).mapError

/-- A directory that is to be written without marks stands. -/
theorem prepareOutput_stands (hkind : kind.hasMarkers = false) (hw : s.Hosts w)
    (hrun : (prepareOutput h c kind).Succeeds w () v) : s.Stands c.layout kind v.disk := by
  unfold prepareOutput at hrun
  replace hrun : Try.Succeeds (ite _ _ _) w () v := hrun
  rw [hkind, if_neg nofun] at hrun
  obtain ⟨above, habove⟩ := ancestors_child (p := c.layout.root) (isEntryName_areaOf kind)
    (outputOf c.layout kind).text.length
  rw [← outputOf_eq] at habove
  obtain ⟨hseen, hthere⟩ :=
    World.ensureDirectory_stands hs (hc.leads_output kind) hw habove hrun.mapError
  exact ⟨hthere, hseen⟩

/-- A mark has been put on an output. -/
theorem storeMark_wrote {name : String} (hname : IsEntryName name) {q : FilePath} (hw : s.Hosts w)
    (hrun : (World.store h (outputOf c.layout kind) name []).Succeeds w q v) :
    w.disk.Wrote (writesBelow (s.area kind) [([name], [])]) v.disk ∧ s.Hosts v := by
  have hwrote := World.store_succeeds hs ((hc.leads_output kind).child hname) hw hrun
  rw [Site.Serves.area_append] at hwrote
  exact hwrote

/-- A directory with marks has been marked as begun; nothing is said of an earlier mark of its
completion. -/
theorem prepareOutput_marks (hkind : kind.hasMarkers = true) (hw : s.Hosts w)
    (hrun : (prepareOutput h c kind).Succeeds w () v) :
    Disk.Written (· = s.area kind ++ [Target.completeMarker])
      (writesBelow (s.area kind) [([Target.startedMarker], [])]) w.disk v.disk := by
  unfold prepareOutput at hrun
  replace hrun : Try.Succeeds (ite _ _ _) w () v := hrun
  rw [hkind, if_pos rfl] at hrun
  replace hrun := hrun.mapError
  unfold Target.markStarted at hrun
  obtain ⟨_, u, hstore, hremove⟩ := Try.Succeeds.bind hrun
  obtain ⟨hwrote, hu⟩ := storeMark_wrote hs hc (by decide) hw hstore
  have hleads := (hc.leads_output kind).child (n := Target.completeMarker) (by decide)
  have halters := hremove.mapError.keeps (World.ifPresent_alters (World.removeFile_alters
    (X := fun x => x.place = s.area kind ++ [Target.completeMarker]) hs hleads
    (by rw [Site.Serves.area_append]; rfl) (by rw [Site.Serves.area_append, hs.free]; nofun)))
  refine (hwrote.mono fun _ => False.elim).leave fun q hq => (halters hu).untouched fun x hx => ?_
  rw [hx]
  exact Ne.symm hq

/-- A directory has been marked as finished. -/
theorem markComplete_wrote (hw : s.Hosts w)
    (hrun : (Target.markComplete h (outputOf c.layout kind)).Succeeds w () v) :
    w.disk.Wrote (writesBelow (s.area kind) [([Target.completeMarker], [])]) v.disk := by
  unfold Target.markComplete at hrun
  obtain ⟨_, u, hstore, hlast⟩ := Try.Succeeds.bind hrun
  obtain ⟨-, rfl⟩ := hlast.pure
  exact (storeMark_wrote hs hc (by decide) hw hstore).1

/-! ## After the work -/

/-- An archive of sources is unpacked among the sources, and goes. -/
theorem Work.expand_alters {n : String} (hn : IsEntryName n) :
    Try.Keeps (s.Alters (s.Within .convert)) (expand h (c.layout.java.child n) c.layout.java) := by
  have hleads := (hc.leads_output .convert).child hn
  unfold expand
  refine (Items.listMembers_keep World.readBytes_still _).alters.bind fun names => ?_
  have hextract : Try.Keeps (s.Alters (Site.Fills fun q => ∃ rest, q = s.area .convert ++ rest))
      (extract h (c.layout.java.child n) names c.layout.java false) :=
    extract_alters hs (hc.leads_output .convert) _ false
      fun m _ _ => ⟨_, (List.append_assoc _ _ _).symm.trans rfl⟩
  have hextract' : Try.Keeps (s.Alters (s.Within .convert)) _ :=
    Act.Keeps.mono hextract fun _ _ ha => ha.mono fun _ hx => .fill (.fill hx)
  refine hextract'.bind fun _ => (World.removeFile_alters hs hleads ?_ ?_).mapError
  · rw [Site.Serves.area_append]
    exact .remove _ []
  · rw [Site.Serves.area_append, hs.free]
    nofun

theorem expandSources_alters : ∀ ns : List String, (∀ n ∈ ns, IsEntryName n) →
    Try.Keeps (s.Alters (s.Within .convert)) (expandSources h c.layout.java ns)
  | [], _ => .pure ()
  | n :: ns, hns => by
    have hrest := expandSources_alters ns fun m hm => hns m (List.mem_cons_of_mem _ hm)
    unfold expandSources
    refine .bind (.lift (World.isFile_reads _).keeps) fun there => ?_
    split
    · exact (Work.expand_alters hs hc (hns n List.mem_cons_self)).bind fun _ => hrest
    · exact hrest

theorem finishOutput_alters (kind : StageKind) :
    Try.Keeps (s.Alters (s.Within kind)) (finishOutput h c kind) := by
  have hmark : Try.Keeps (s.Alters (s.Within kind))
      (if kind.hasMarkers then
        (Target.markComplete h (outputOf c.layout kind)).mapError StageError.ofPersist
      else pure ()) := by
    split
    · unfold Target.markComplete
      exact ((storeMark_alters hs hc kind (by decide)).bind fun _ => .pure ()).mapError
    · exact .pure ()
  unfold finishOutput
  show Try.Keeps _ (ite _ _ _)
  split
  · next hpacked =>
    obtain rfl := hpacked.1
    refine (World.listDirectory_still _).alters.mapError.alters_bind fun w entries v hw hrun => ?_
    refine (expandSources_alters hs hc _ fun n hn => ?_).bind fun _ => hmark
    -- the names that are listed are those of entries below the directory
    obtain ⟨hstill, hlist⟩ := World.look_succeeds hrun.mapError
    obtain ⟨x, hx, rfl⟩ := List.mem_map.mp hn
    rw [hw.cwd] at hlist
    exact hw.sited.names_list (hs.anchoredOn hw.sited) (hc.leads_output .convert) hlist hx
  · exact hmark

omit hc in
theorem removeFiles_alters {gone : Place → Prop} (hfree : ∀ q, gone q → s.before.find? q = none) :
    ∀ ps : List FilePath, (∀ p ∈ ps, ∃ rest, s.sources.Leads rest p ∧ gone (s.base ++ rest)) →
      Try.Keeps (s.Alters (Site.Removes gone)) (removeFiles h ps)
  | [], _ => .pure ()
  | p :: ps, hps => by
    obtain ⟨⟨rest, hp, hgone⟩, hps⟩ := List.forall_mem_cons.mp hps
    unfold removeFiles
    refine (World.ifPresent_alters (World.removeFile_alters hs hp (.remove hgone) ?_)).bind
      fun _ => removeFiles_alters hfree ps hps
    rw [hfree _ hgone]
    intro e he
    cases he

/-- A directory of the job is removed with everything below it. -/
theorem removeTree_alters {gone : Place → Prop} (other : StageKind)
    (hgone : ∀ rest, gone (s.area other ++ rest)) :
    Try.Keeps (s.Alters (Site.Removes gone))
      (World.ifPresent (World.removeTree h (outputOf c.layout other))) := by
  refine World.ifPresent_alters (World.removeTree_alters hs (hc.leads_output other) ?_ ?_)
  · exact fun more => .remove (hgone more)
  · intro more e he
    have hnone := hs.free other more
    rw [Site.area] at hnone
    rw [hnone] at he
    cases he

end

end Decompile
