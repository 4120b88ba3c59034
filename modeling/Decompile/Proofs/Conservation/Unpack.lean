import Decompile.Proofs.Conservation.Items

/-!
# What unpacking leaves

- `Zip.length_read_le`: an archive has no more members than its end record can count.
- `inputFiles`: what unpacking the input of a request writes.
- `input_stable`: the input stays as it is while it is unpacked.
- `StageRun.unpacked`: a stage that has unpacked the input has written exactly that.
-/

namespace Decompile

open Site (Hosts)

/-! ## The size of an archive -/

namespace Zip

theorem readLe_lt : ∀ bs : List UInt8, Archive.readLe bs < 256 ^ bs.length
  | [] => Nat.one_pos
  | b :: bs => by
    have hfirst := b.toNat_lt
    have hrest := readLe_lt bs
    rw [Archive.readLe, List.length_cons, Nat.pow_succ]
    omega

theorem lt_of_field? {bytes : Bytes} {offset n v : Nat} (hv : field? bytes offset n = some v) :
    v < 256 ^ n := by
  unfold field? at hv
  simp only at hv
  split at hv
  · next hlength =>
    obtain rfl := Option.some.inj hv
    have hlt := readLe_lt ((bytes.drop offset).take n)
    rwa [hlength] at hlt
  · cases hv

theorem length_readListings {base n : Nat} {bytes : Bytes} {ls : List Listed}
    (hls : readListings base n bytes = .ok ls) : ls.length = n := by
  induction n generalizing bytes ls with
  | zero =>
    obtain rfl := Except.ok.inj hls
    rfl
  | succ n ih =>
    unfold readListings at hls
    cases hfirst : readListing base bytes with
    | error e =>
      rw [hfirst] at hls
      cases hls
    | ok read =>
      rw [hfirst] at hls
      replace hls : (readListings base n read.2 >>= fun ls => pure (read.1 :: ls)) = .ok ls := hls
      cases hrest : readListings base n read.2 with
      | error e =>
        rw [hrest] at hls
        cases hls
      | ok more =>
        rw [hrest] at hls
        obtain rfl := Except.ok.inj hls
        rw [List.length_cons, ih hrest]

theorem count_lt_of_locate {bytes record : Bytes} {pos : Nat} {l : Located}
    (hl : locate bytes pos record = .ok l) : l.count < 256 ^ 2 := by
  unfold locate at hl
  split at hl
  · next count start commentLength hcount _ _ =>
    have hlt := lt_of_field? hcount
    split at hl
    · cases hl
    · split at hl
      · obtain rfl := Except.ok.inj hl
        decide
      · split at hl
        · cases hl
        · split at hl
          · cases hl
          · obtain rfl := Except.ok.inj hl
            exact hlt
  · cases hl

theorem length_readFrom_lt {bytes : Bytes} {ls : List Listed} (candidates : List (Nat × Bytes))
    (failure locating : Option ArchiveError)
    (hls : readFrom bytes failure locating candidates = .ok ls) : ls.length < 256 ^ 2 := by
  induction candidates generalizing failure locating with
  | nil => cases hls
  | cons candidate rest ih =>
    obtain ⟨pos, record⟩ := candidate
    unfold readFrom at hls
    split at hls
    · exact ih _ _ hls
    · next l hl =>
      split at hls
      · exact ih _ _ hls
      · next found hfound =>
        obtain rfl := Except.ok.inj hls
        rw [length_readListings hfound]
        exact count_lt_of_locate hl

theorem length_insertListed_le (l : Listed) : ∀ ls, (insertListed l ls).length ≤ ls.length + 1
  | [] => Nat.le_refl _
  | k :: ks => by
    unfold insertListed
    split
    · exact Nat.le_succ _
    · exact Nat.succ_le_succ (length_insertListed_le l ks)

/-- An archive has no more members than its end record can count. -/
theorem length_read_lt {bytes : Bytes} {ls : List Listed} (hls : read bytes = .ok ls) :
    ls.length < 256 ^ 2 := by
  have hinsert : ∀ more done : List Listed,
      (more.foldl (fun done l => insertListed l done) done).length ≤ done.length + more.length := by
    intro more
    induction more with
    | nil => exact fun done => Nat.le_refl _
    | cons l more ih =>
      intro done
      have hone := length_insertListed_le l done
      have hrest := ih (insertListed l done)
      rw [List.foldl_cons, List.length_cons]
      omega
  unfold read at hls
  cases hread : readFrom bytes none none (endCandidates 0 [] bytes) with
  | error e =>
    rw [hread] at hls
    cases hls
  | ok found =>
    rw [hread] at hls
    obtain rfl := Except.ok.inj hls
    have hlength := length_readFrom_lt _ _ _ hread
    have hle := hinsert found []
    rw [List.length_nil, Nat.zero_add] at hle
    exact Nat.lt_of_le_of_lt hle hlength

end Zip

/-! ## What is unpacked -/

/-- What unpacking an input writes, given its bytes: the members that are wanted, each where its name
leads, or the input itself under its own name. It depends on nothing else that a request says. -/
def inputFiles (roots : List String) (t : InputType) (p : FilePath) (ignoreLibraries : Bool)
    (bytes : Bytes) : List (Place × Bytes) :=
  if t.isArchive then
    match Zip.read bytes with
    | .error _ => []
    | .ok ls => Zip.unpacksAll bytes ls (Zip.wanted roots ignoreLibraries ls)
  else
    match p.fileName? with
    | none => []
    | some n => [([n], bytes)]

/-- What unpacking the input of a request writes. -/
abbrev Submission.files (roots : List String) (r : Submission) (bytes : Bytes) :
    List (Place × Bytes) :=
  inputFiles roots r.inputType r.inputPath r.ignoreLibraries bytes

theorem Zip.length_wanted_le (roots : List String) (ignoreLibraries : Bool) (ls : List Listed) :
    (wanted roots ignoreLibraries ls).length ≤ ls.length := by
  have hnames : ((ls.map Listed.name).filter
      fun n => n.toList.getLast? ≠ some '/').length ≤ ls.length :=
    Nat.le_trans (List.length_filter_le _ _) (Nat.le_of_eq (List.length_map _))
  unfold wanted
  simp only
  split
  · exact Nat.le_trans (List.length_filter_le _ _) hnames
  · exact hnames

theorem Zip.length_unpacksAll_le (bytes : Bytes) (ls : List Listed) (names : List String) :
    (unpacksAll bytes ls names).length ≤ names.length := by
  induction names with
  | nil => exact Nat.le_refl _
  | cons n names ih =>
    rw [unpacksAll, List.flatMap_cons, List.length_append, List.length_cons, Nat.add_comm]
    refine Nat.add_le_add ih ?_
    unfold unpacksNamed unpacks
    split
    · exact Nat.zero_le 1
    · split
      · split
        · exact Nat.zero_le 1
        · exact Nat.le_refl 1
      · exact Nat.zero_le 1

/-- Unpacking writes few enough files for chunks of any size. -/
theorem length_inputFiles_lt (roots : List String) (t : InputType) (p : FilePath)
    (ignoreLibraries : Bool) (bytes : Bytes) :
    (inputFiles roots t p ignoreLibraries bytes).length < 256 ^ 2 := by
  unfold inputFiles
  split
  · split
    · decide
    · next ls hread =>
      have hls := Zip.length_read_lt hread
      have hnames := Zip.length_wanted_le roots ignoreLibraries ls
      have hwrites := Zip.length_unpacksAll_le bytes ls (Zip.wanted roots ignoreLibraries ls)
      omega
  · split
    · decide
    · exact Nat.lt_of_lt_of_le Nat.one_lt_two (by decide)

/-! ## The stage -/

variable {h : Host} {c : StageContext} {s : Site} {w v u : World}

/-- There are no files in the directory that the input is unpacked to. -/
def Site.Vacant (s : Site) (d : Disk) : Prop :=
  ∀ rest b x, d.find? (s.area .unpack ++ rest) ≠ some (.file b x)

/-- The input stays as it is while it is unpacked. -/
theorem input_stable (hvacant : s.Vacant w.disk) {P : Place → Prop}
    (hP : ∀ q, P q → ∃ rest, q = s.area .unpack ++ rest)
    (hcourse : s.Course (Site.Fills P) w u) {p : FilePath} {bytes : Bytes}
    (hread : w.disk.read s.cwd p = .ok bytes) :
    u.disk.read s.cwd p = .ok bytes ∧
      ∀ q e, u.disk.entryAt s.cwd true p = .ok (q, e) → ∀ rest, q ≠ s.area .unpack ++ rest := by
  obtain ⟨q, x, hentry⟩ := Disk.entryAt_of_read hread
  obtain ⟨-, -, hfile, -⟩ := Disk.entryAt_of_locate hentry
  have hapart : ∀ rest, q ≠ s.area .unpack ++ rest := by
    rintro rest rfl
    exact hvacant rest bytes x hfile
  have huntouched := hcourse.untouched (q := q) fun change hchange hplace => by
    obtain ⟨rest, hrest⟩ := hP _ hchange.place
    exact hapart rest (hplace.symm.trans hrest)
  have hstays := huntouched.some hfile
  have hentry' := Disk.entryAt_of_keeps (hcourse.keeps nofun) hentry hstays
  refine ⟨?_, fun r e hr => ?_⟩
  · rw [Disk.read, hentry']
  · rw [hentry'] at hr
    obtain ⟨rfl, -⟩ := Prod.mk.inj (Except.ok.inj hr)
    exact hapart

section

variable (hs : s.Fresh) (hc : s.Serves h c)

include hs hc

/-- The members that are wanted have been written. -/
theorem runItems_unpacks_members (hw : s.Hosts w) (hvacant : s.Vacant w.disk) {bytes : Bytes}
    {ls : List Zip.Listed} {names : List String} (hnames : names.length ≤ itemLimit)
    (hread : w.disk.read s.cwd c.job.submission.inputPath = .ok bytes)
    (hzip : Zip.read bytes = .ok ls)
    (hrun : (runItems h c .unpack (.members names)).Succeeds w () v) :
    s.Course (Site.Fills fun q => ∃ rest, q = s.area .unpack ++ rest) w v ∧
      w.disk.Wrote (writesBelow (s.area .unpack) (Zip.unpacksAll bytes ls names)) v.disk := by
  let slice := sliceOf c.job.submission.chunkSize names
  let L : Nat → Place → Prop := fun k q => ∃ n ∈ slice k, Zip.namesFile n = true ∧
    q = s.area .unpack ++ (⟨n⟩ : FilePath).place []
  have hL : ∀ k q, L k q → ∃ rest, q = s.area .unpack ++ rest := by
    rintro k q ⟨n, -, -, rfl⟩
    exact ⟨_, rfl⟩
  have halters : ∀ {k chunk}, (c.chunks (.members names))[k]? = some chunk →
      Try.Keeps (s.Alters (Site.Fills (L k)))
        (Work.processChunk h c .unpack k (.members names) chunk) := fun {k chunk} hchunk => by
    have hslice : slice k = chunk.slice names := sliceOf_eq hchunk
    exact Work.extract_alters hs (hc.leads_output .unpack) _ true fun n hn hfile =>
      ⟨n, hslice ▸ hn, hfile, Site.Serves.area_append _ _⟩
  have hdone : ∀ {k chunk x y}, (c.chunks (.members names))[k]? = some chunk →
      s.Course (Site.Fills fun q => ∃ k, L k q) w x →
      (Work.processChunk h c .unpack k (.members names) chunk).Succeeds x () y →
        x.disk.Wrote (writesBelow (s.area .unpack) (Zip.unpacksAll bytes ls (slice k))) y.disk ∧
          ∀ q, L k q →
            lastWrite (writesBelow (s.area .unpack) (Zip.unpacksAll bytes ls (slice k))) q ≠ none := by
    intro k chunk x y hchunk hcourse hwork
    obtain ⟨bytes', ls', hread', hzip', hopens, hwritten⟩ :=
      Work.extract_succeeds hs (hc.leads_output .unpack) (hcourse.hosts hw) hwork
    obtain ⟨hstable, -⟩ := input_stable hvacant (fun q ⟨k, hq⟩ => hL k q hq) hcourse hread
    obtain rfl := Except.ok.inj (hstable.symm.trans hread')
    obtain rfl := Except.ok.inj (hzip.symm.trans hzip')
    rw [← sliceOf_eq hchunk] at hopens hwritten
    refine ⟨hwritten, ?_⟩
    rintro q ⟨n, hn, hfile, rfl⟩
    obtain ⟨b, hb⟩ := Zip.mem_unpacksNamed (hopens n hn) hfile
    rw [lastWrite_writesBelow]
    exact lastWrite_ne_none (List.mem_flatMap.mpr ⟨n, hn, hb⟩)
  obtain ⟨hcourse, hwrote⟩ := runItems_wrote hw halters hdone hrun
  refine ⟨hcourse.mono fun _ => Site.Fills.mono fun q ⟨k, hq⟩ => hL k q hq, ?_⟩
  have hall : ((List.range (c.chunks (.members names)).length).flatMap fun k =>
      writesBelow (s.area .unpack) (Zip.unpacksAll bytes ls (slice k))) =
        writesBelow (s.area .unpack) (Zip.unpacksAll bytes ls names) := by
    simp only [writesBelow, Zip.unpacksAll, ← List.map_flatMap]
    exact congrArg _ (flatMap_sliceOf hnames _ _)
  rwa [hall] at hwrote

/-- The input itself has been copied. -/
theorem runItems_unpacks_input (hw : s.Hosts w) (hvacant : s.Vacant w.disk) {p : FilePath}
    {bytes : Bytes} (hread : w.disk.read s.cwd p = .ok bytes)
    (hrun : (runItems h c .unpack (.files [p])).Succeeds w () v) :
    s.Course (Site.Fills fun q => ∃ rest, q = s.area .unpack ++ rest) w v ∧
      w.disk.Wrote (writesBelow (s.area .unpack) (match p.fileName? with
        | none => []
        | some n => [([n], bytes)])) v.disk := by
  let copy : FilePath → List (Place × Bytes) := fun p => match p.fileName? with
    | none => []
    | some n => [([n], bytes)]
  let slice := sliceOf c.job.submission.chunkSize [p]
  let L : Nat → Place → Prop := fun k q => ∃ n, p.fileName? = some n ∧ q = s.area .unpack ++ [n]
  have hL : ∀ k q, L k q → ∃ rest, q = s.area .unpack ++ rest := by
    rintro k q ⟨n, -, rfl⟩
    exact ⟨_, rfl⟩
  have halters : ∀ {k chunk}, (c.chunks (.files [p]))[k]? = some chunk →
      Try.Keeps (s.Alters (Site.Fills (L k)))
        (Work.processChunk h c .unpack k (.files [p]) chunk) := fun {k chunk} _ =>
    Work.copyInto_alters hs (hc.leads_output .unpack) _ fun r hr n hn => by
      obtain rfl := List.mem_singleton.mp (Chunk.mem_of_mem_slice hr)
      exact ⟨n, hn, Site.Serves.area_append _ _⟩
  have hdone : ∀ {k chunk x y}, (c.chunks (.files [p]))[k]? = some chunk →
      s.Course (Site.Fills fun q => ∃ k, L k q) w x →
      (Work.processChunk h c .unpack k (.files [p]) chunk).Succeeds x () y →
        x.disk.Wrote (writesBelow (s.area .unpack) ((slice k).flatMap copy)) y.disk ∧
          ∀ q, L k q → lastWrite (writesBelow (s.area .unpack) ((slice k).flatMap copy)) q ≠ none := by
    intro k chunk x y hchunk hcourse hwork
    obtain ⟨hstable, hapart⟩ := input_stable hvacant (fun q ⟨k, hq⟩ => hL k q hq) hcourse hread
    have hsingle : chunk.slice [p] = [p] := slice_singleton (List.mem_of_getElem? hchunk)
    have hslice : slice k = [p] := (sliceOf_eq hchunk).trans hsingle
    replace hwork : (Work.copyInto h c.layout.unpacked (chunk.slice [p])).Succeeds x () y := hwork
    rw [hsingle] at hwork
    obtain ⟨n, bytes', hname, hread', hwritten⟩ := Work.copyInto_succeeds hs
      (hc.leads_output .unpack) (hcourse.hosts hw) (fun q e m hentry => by
        rw [Site.Serves.area_append]
        exact hapart q e hentry [m]) hwork
    obtain rfl := Except.ok.inj (hstable.symm.trans hread')
    have hcopy : copy p = [([n], bytes)] := by simp only [copy, hname]
    simp only [hslice, List.flatMap_singleton, hcopy]
    refine ⟨hwritten, ?_⟩
    rintro q ⟨m, hm, rfl⟩
    obtain rfl := Option.some.inj (hname.symm.trans hm)
    rw [lastWrite_writesBelow, lastWrite_singleton, if_pos rfl]
    nofun
  obtain ⟨hcourse, hwrote⟩ := runItems_wrote hw halters hdone hrun
  refine ⟨hcourse.mono fun _ => Site.Fills.mono fun q ⟨k, hq⟩ => hL k q hq, ?_⟩
  have hlimit : [p].length ≤ itemLimit := (by decide : 1 ≤ itemLimit)
  have hall : ((List.range (c.chunks (.files [p])).length).flatMap fun k =>
      writesBelow (s.area .unpack) ((slice k).flatMap copy)) =
        writesBelow (s.area .unpack) ([p].flatMap copy) := by
    simp only [writesBelow, ← List.map_flatMap]
    exact congrArg _ (flatMap_sliceOf hlimit _ _)
  rw [hall, List.flatMap_singleton] at hwrote
  exact hwrote

/-- **What unpacking leaves.** A stage that has unpacked the input has written just what unpacking
it means, however often a chunk was tried. -/
theorem StageRun.unpacked (hrun : StageRun h c .unpack w v) (hw : s.Hosts w)
    (hvacant : s.Vacant w.disk) :
    s.Stands c.layout .unpack v.disk ∧
      ∃ bytes, v.disk.read s.cwd c.job.submission.inputPath = .ok bytes ∧
        w.disk.Wrote (writesBelow (s.area .unpack)
          (c.job.submission.files h.settings.libraryRoots bytes)) v.disk := by
  obtain @⟨w₁, w₂, w₃, w₄, w₅, w₆, w₇, w₈, items, starts, prepares, watches, collects, works, stops,
    finishes, discards, ends⟩ := hrun
  have hw₁ := hw.of_rests starts
  have hprepares : s.Alters (fun _ => False) w₁ w₂ := by
    refine prepares.keeps ?_
    unfold prepareOutput
    exact (World.ensureDirectory_alters hs.cwd _).mapError
  have hstands₂ := prepareOutput_stands hs hc rfl hw₁ prepares
  have hw₂ := (hprepares hw₁).hosts hw₁
  have hw₃ := hw₂.of_rests watches
  obtain ⟨hcollects, bytes, hread, hitems⟩ := Items.input_succeeds collects
  rw [hw₃.cwd] at hread
  have hw₄ := hw₃.of_rests hcollects
  -- until here directories were made at most
  have hnothing : w.disk.Wrote [] w₄.disk := by
    rw [hcollects.still.disk, watches.still.disk, ← starts.still.disk]
    exact World.wrote_of_makes hw₁ hprepares
  have hvacant₄ : s.Vacant w₄.disk := by
    intro rest b x hfile
    rcases hnothing.file_iff.mp ⟨x, hfile⟩ with hlast | ⟨-, y, hy⟩
    · cases hlast
    · exact hvacant rest b y hy
  rw [← hcollects.still.disk] at hread
  have hworked : s.Course (Site.Fills fun q => ∃ rest, q = s.area .unpack ++ rest) w₄ w₅ ∧
      w₄.disk.Wrote (writesBelow (s.area .unpack)
        (c.job.submission.files h.settings.libraryRoots bytes)) w₅.disk := by
    unfold Submission.files inputFiles
    rcases hitems with ⟨harchive, rfl⟩ | ⟨harchive, ls, hzip, rfl⟩
    · rw [harchive, if_neg nofun]
      exact runItems_unpacks_input hs hc hw₄ hvacant₄ hread works
    · simp only [harchive, if_true, hzip]
      refine runItems_unpacks_members hs hc hw₄ hvacant₄ ?_ hread hzip works
      have hls := Zip.length_read_lt hzip
      have hnames := Zip.length_wanted_le h.settings.libraryRoots c.job.submission.ignoreLibraries ls
      have hlimit : 256 ^ 2 ≤ itemLimit := by decide
      omega
  obtain ⟨hcourse, hwrote⟩ := hworked
  -- what follows does nothing for a directory without marks
  have hlast : w₇ = w₆ := (Try.Succeeds.pure finishes).2
  have hkept : v.disk = w₅.disk := by
    have hdiscards : w₈ = w₇ := by
      rw [discards]
      split <;> rfl
    rw [ends.still.disk, hdiscards, hlast, stops.still.disk]
  rw [hkept]
  have hstands₄ : s.Stands c.layout .unpack w₄.disk := by
    rw [hcollects.still.disk, watches.still.disk]
    exact hstands₂
  refine ⟨hstands₄.course hcourse ?_, bytes, ?_, ?_⟩
  · rintro x hx rfl
    cases hx
  · exact (input_stable hvacant₄ (fun _ => id) hcourse hread).1
  · exact hnothing.comp hwrote

end

end Decompile
