import Decompile.Proofs.Conservation.Unpack

/-!
# What extracting resources leaves

- `Course.others`: a stage leaves alone what other stages write.
- `runItems_copies`: files that were copied, with their contents.
- `StageRun.resources`: the directory of resources has the files that were found and the two marks.
-/

namespace Decompile

open Site (Hosts)

namespace Site

variable {s : Site} {kind other : StageKind} {w v : World}

/-- A stage leaves alone what other stages write. -/
theorem Course.others (hcourse : s.Course (s.Within kind) w v) (hne : kind ≠ other) (rest : Place) :
    w.disk.Untouched v.disk (s.area other ++ rest) :=
  hcourse.untouched fun _ hx => hx.place_ne hne rest

theorem filesIn_untouched {d d' : Disk} {keep : String → Bool}
    (h : ∀ q, q.getLast?.any keep = true → d.Untouched d' (s.area kind ++ q)) :
    s.filesIn d' kind keep = s.filesIn d kind keep :=
  filesIn_congr fun q hq =>
    ⟨fun ⟨b, x, hfile⟩ => ⟨b, x, (h q hq).file_iff.mp hfile⟩,
      fun ⟨b, x, hfile⟩ => ⟨b, x, (h q hq).file_iff.mpr hfile⟩⟩

end Site

/-- What extracting resources writes: a mark, the files that are found, and another mark. -/
def resourceRow (s : Site) (d : Disk) : List (Place × Bytes) :=
  [([Target.startedMarker], [])] ++ ((s.filesIn d .unpack isResourceName).map
    (fun q => (q, d.contents (s.area .unpack ++ q))) ++ [([Target.completeMarker], [])])

/-- The marks are not among the files that are copied, and no two files are the same. -/
theorem nodup_resourceRow (s : Site) (d : Disk) : ((resourceRow s d).map Prod.fst).Nodup := by
  have hmark : ∀ {m : String}, isResourceName m = false → [m] ∉ s.filesIn d .unpack isResourceName := by
    intro m hm hmem
    obtain ⟨-, -, hkeep⟩ := Site.mem_filesIn.mp hmem
    rw [List.getLast?_singleton, Option.any_some, hm] at hkeep
    cases hkeep
  have hstarted := hmark (m := Target.startedMarker) (by decide +kernel)
  have hcomplete := hmark (m := Target.completeMarker) (by decide +kernel)
  have hplaces : (resourceRow s d).map Prod.fst = [Target.startedMarker] ::
      (s.filesIn d .unpack isResourceName ++ [[Target.completeMarker]]) := by
    simp only [resourceRow, List.map_append, List.map_map, Function.comp_def, List.map_id',
      List.map_cons, List.map_nil, List.singleton_append]
  rw [hplaces, List.nodup_cons, List.mem_append, List.mem_singleton]
  refine ⟨not_or.mpr ⟨hstarted, by decide +kernel⟩, ?_⟩
  refine List.Nodup.append (Site.filesIn_nodup _ _ _ _) (List.nodup_singleton _) ?_
  exact List.disjoint_singleton.mpr hcomplete

theorem mem_resourceRow {s : Site} {d : Disk} {q : Place} {b : Bytes} :
    (q, b) ∈ resourceRow s d ↔ (q = [Target.startedMarker] ∨ q = [Target.completeMarker]) ∧ b = [] ∨
      (q, b) ∈ d.filesUnder (s.area .unpack) ∧ q.getLast?.any isResourceName = true := by
  have hcopied : (q, b) ∈ (s.filesIn d .unpack isResourceName).map
      (fun q => (q, d.contents (s.area .unpack ++ q))) ↔
        (q, b) ∈ d.filesUnder (s.area .unpack) ∧ q.getLast?.any isResourceName = true := by
    rw [List.mem_map, Disk.mem_filesUnder]
    constructor
    · rintro ⟨r, hr, heq⟩
      obtain ⟨rfl, rfl⟩ := Prod.mk.inj heq
      obtain ⟨hne, ⟨b, x, hfile⟩, hkeep⟩ := Site.mem_filesIn.mp hr
      exact ⟨⟨hne, x, by rw [Disk.contents_of_find? hfile, hfile]⟩, hkeep⟩
    · rintro ⟨⟨hne, x, hfile⟩, hkeep⟩
      exact ⟨q, Site.mem_filesIn.mpr ⟨hne, ⟨b, x, hfile⟩, hkeep⟩,
        by rw [Disk.contents_of_find? hfile]⟩
  rw [resourceRow, List.mem_append, List.mem_append, hcopied, List.mem_singleton, List.mem_singleton,
    Prod.mk.injEq, Prod.mk.injEq]
  tauto

variable {h : Host} {c : StageContext} {s : Site} {w v : World}

section

variable (hs : s.Fresh) (hc : s.Serves h c)

include hs hc

/-- Files that were found have been copied with their contents. -/
theorem runItems_copies (hw : s.Hosts w) {qs : List Place} (hqs : ∀ q ∈ qs, ∀ n ∈ q, IsEntryName n)
    (hfew : qs.length ≤ itemLimit)
    (hrun : (runItems h c .resources
      (.files (qs.map (Disk.childPath c.layout.unpacked)))).Succeeds w () v) :
    s.Course (Site.Fills fun q => ∃ rest, q = s.area .resources ++ rest) w v ∧
      w.disk.Wrote (writesBelow (s.area .resources)
        (qs.map fun q => (q, w.disk.contents (s.area .unpack ++ q)))) v.disk := by
  let copy : Place → Place × Bytes := fun q => (q, w.disk.contents (s.area .unpack ++ q))
  let slice := sliceOf c.job.submission.chunkSize qs
  let items : Items := .files (qs.map (Disk.childPath c.layout.unpacked))
  have hcount : items.count = qs.length := List.length_map _
  have hslice : ∀ {k chunk}, (c.chunks items)[k]? = some chunk → slice k = chunk.slice qs := by
    intro k chunk hchunk
    rw [StageContext.chunks, hcount] at hchunk
    exact sliceOf_eq hchunk
  let L : Nat → Place → Prop := fun k q => ∃ r ∈ slice k, q = s.area .resources ++ r
  have hL : ∀ k q, L k q → ∃ rest, q = s.area .resources ++ rest := by
    rintro k q ⟨r, -, rfl⟩
    exact ⟨r, rfl⟩
  have hnames : ∀ {chunk : Chunk}, ∀ q ∈ chunk.slice qs, ∀ n ∈ q, IsEntryName n :=
    fun q hq => hqs q (Chunk.mem_of_mem_slice hq)
  have halters : ∀ {k chunk}, (c.chunks items)[k]? = some chunk →
      Try.Keeps (s.Alters (Site.Fills (L k))) (Work.processChunk h c .resources k items chunk) := by
    intro k chunk hchunk
    show Try.Keeps _ (Work.copyBelow h _ _ (chunk.slice (qs.map _)))
    rw [Chunk.slice_map]
    refine Work.copyBelow_alters hs (hc.leads_output .resources) _ fun q hq => ⟨hnames q hq, ?_⟩
    exact ⟨q, (hslice hchunk).symm ▸ hq, Site.Serves.area_append _ _⟩
  have hdone : ∀ {k chunk x y}, (c.chunks items)[k]? = some chunk →
      s.Course (Site.Fills fun q => ∃ k, L k q) w x →
      (Work.processChunk h c .resources k items chunk).Succeeds x () y →
        x.disk.Wrote (writesBelow (s.area .resources) ((slice k).map copy)) y.disk ∧
          ∀ q, L k q → lastWrite (writesBelow (s.area .resources) ((slice k).map copy)) q ≠ none := by
    intro k chunk x y hchunk hcourse hwork
    replace hwork : (Work.copyBelow h _ _ (chunk.slice (qs.map _))).Succeeds x () y := hwork
    rw [Chunk.slice_map] at hwork
    have hwritten := Work.copyBelow_succeeds hs (hc.leads_output .unpack) (hc.leads_output .resources)
      (Site.area_ne (by decide : StageKind.unpack ≠ .resources)) hnames (hcourse.hosts hw) hwork
    -- what was unpacked is as it was when the copying began
    have hsame : ((chunk.slice qs).map fun q => (q, x.disk.contents (s.area .unpack ++ q))) =
        (slice k).map copy := by
      rw [hslice hchunk]
      refine List.map_congr_left fun q _ => ?_
      have huntouched := hcourse.untouched (q := s.area .unpack ++ q) fun change hchange hplace => by
        obtain ⟨i, hi⟩ := hchange.place
        obtain ⟨rest, hrest⟩ := hL i _ hi
        exact Site.area_ne (by decide : StageKind.resources ≠ .unpack) _ _
          (hrest.symm.trans hplace)
      rw [huntouched.contents]
    refine ⟨?_, ?_⟩
    · rw [← hsame]
      exact hwritten
    · rintro q ⟨r, hr, rfl⟩
      rw [lastWrite_writesBelow]
      exact lastWrite_ne_none (List.mem_map_of_mem hr)
  obtain ⟨hcourse, hwrote⟩ := runItems_wrote hw halters hdone hrun
  refine ⟨hcourse.mono fun _ => Site.Fills.mono fun q ⟨k, hq⟩ => hL k q hq, ?_⟩
  have hall : ((List.range (c.chunks items).length).flatMap fun k =>
      writesBelow (s.area .resources) ((slice k).map copy)) =
        writesBelow (s.area .resources) (qs.map copy) := by
    have hflat := flatMap_sliceOf hfew c.job.submission.chunkSize fun q =>
      [(s.area .resources ++ q, (copy q).2)]
    simp only [← List.map_eq_flatMap] at hflat
    simp only [writesBelow, List.map_map, StageContext.chunks, hcount]
    exact hflat
  rwa [hall] at hwrote

/-- **What extracting resources leaves.** The directory of resources has the files that were found
among what was unpacked, with their contents, and the marks of its start and its completion. -/
theorem StageRun.resources (hrun : StageRun h c .resources w v) (hw : s.Hosts w)
    (hstands : s.Stands c.layout .unpack w.disk)
    (hvacant : ∀ rest b x, w.disk.find? (s.area .resources ++ rest) ≠ some (.file b x))
    (hfew : (s.filesIn w.disk .unpack isResourceName).length ≤ itemLimit) (q : Place) (b : Bytes) :
    (q, b) ∈ v.disk.filesUnder (s.area .resources) ↔
      (q = [Target.startedMarker] ∨ q = [Target.completeMarker]) ∧ b = [] ∨
        (q, b) ∈ w.disk.filesUnder (s.area .unpack) ∧ q.getLast?.any isResourceName = true := by
  obtain @⟨w₁, w₂, w₃, w₄, w₅, w₆, w₇, w₈, items, starts, prepares, watches, collects, works, stops,
    finishes, discards, ends⟩ := hrun
  have hw₁ := hw.of_rests starts
  have hprepares := prepares.keeps (prepareOutput_alters hs hc .resources) hw₁
  have hw₂ := hprepares.hosts hw₁
  have hw₃ := hw₂.of_rests watches
  have hcollects := collect_rests collects
  have hw₄ := hw₃.of_rests hcollects
  have hstands₃ : s.Stands c.layout .unpack w₃.disk := by
    rw [← starts.still.disk] at hstands
    rw [watches.still.disk]
    exact hstands.within hprepares
  obtain ⟨rfl, rfl⟩ := Items.resources_succeeds hs hc hw₃ hstands₃ collects
  -- preparing has left alone what was unpacked
  have hunpacked : ∀ r, w.disk.Untouched w₄.disk (s.area .unpack ++ r) := by
    intro r
    rw [watches.still.disk, ← starts.still.disk]
    exact Site.Course.others hprepares (by decide : StageKind.resources ≠ .unpack) r
  have hfound : s.filesIn w₄.disk .unpack isResourceName = s.filesIn w.disk .unpack isResourceName :=
    Site.filesIn_untouched fun r _ => hunpacked r
  rw [hfound] at works discards
  have hqs : ∀ r ∈ s.filesIn w.disk .unpack isResourceName, ∀ n ∈ r, IsEntryName n :=
    fun r hr => hw.sited.names_filesIn hr
  obtain ⟨hcourse, hcopied⟩ := runItems_copies hs hc hw₄ hqs hfew works
  have hw₆ := (hcourse.hosts hw₄).of_rests stops
  have hmarked := @markComplete_wrote _ _ _ .resources _ _ hs hc hw₆ (Try.Succeeds.mapError finishes)
  have hw₇ := (finishes.keeps (finishOutput_alters hs hc .resources) hw₆).hosts hw₆
  have hbegun := prepareOutput_marks hs hc rfl hw₁ prepares
  -- what is discarded was unpacked
  have hkept : ∀ r, w₇.disk.Untouched v.disk (s.area .resources ++ r) := by
    intro r
    rw [ends.still.disk, discards]
    split
    · exact .refl _ _
    · have hdiscards := discardConsumed_alters hs hc (.found .resources _ hqs) w₇ hw₇
      refine hdiscards.untouched fun change hchange hplace => ?_
      obtain ⟨rest, hrest⟩ := hchange.place
      exact Site.area_ne (by decide : StageKind.unpack ≠ .resources) _ _
        (hrest.symm.trans hplace)
  have hrow : w.disk.Wrote (writesBelow (s.area .resources) (resourceRow s w.disk)) w₇.disk := by
    rw [starts.still.disk, ← watches.still.disk] at hbegun
    rw [stops.still.disk] at hmarked
    have hcopies := hcopied.comp hmarked
    rw [← writesBelow_append] at hcopies
    have hboth := hbegun.append hcopies fun q hq => by
      obtain rfl : q = _ := hq
      rw [lastWrite_writesBelow, lastWrite_append, lastWrite_singleton, if_pos rfl]
      nofun
    rw [← writesBelow_append] at hboth
    have hsame : ((s.filesIn w.disk .unpack isResourceName).map fun q =>
        (q, w₄.disk.contents (s.area .unpack ++ q))) =
          (s.filesIn w.disk .unpack isResourceName).map fun q =>
            (q, w.disk.contents (s.area .unpack ++ q)) :=
      List.map_congr_left fun r _ => by rw [(hunpacked r).contents]
    rw [hsame] at hboth
    exact hboth
  rw [← mem_resourceRow, ← lastWrite_eq_some_iff (nodup_resourceRow s w.disk), Disk.mem_filesUnder]
  have hfile := hrow.file_iff (q := s.area .resources ++ q) (b := b)
  rw [lastWrite_writesBelow] at hfile
  have hthere : (∃ x, v.disk.find? (s.area .resources ++ q) = some (.file b x)) ↔
      lastWrite (resourceRow s w.disk) q = some b := by
    rw [exists_congr fun x => (hkept q).file_iff, hfile]
    exact or_iff_left fun ⟨_, x, hx⟩ => hvacant q b x hx
  rw [hthere, and_iff_right_iff_imp]
  rintro hlast rfl
  have hmem := mem_of_lastWrite hlast
  rw [mem_resourceRow] at hmem
  rcases hmem with ⟨heq | heq, -⟩ | ⟨-, hkeep⟩
  · cases heq
  · cases heq
  · cases hkeep

end

end Decompile
