import Decompile.Proofs.Conservation.Calls
import Mathlib.Data.List.TakeDrop
import Mathlib.Logic.Function.Basic

/-!
# Archives of class files

The class files of a Java archive are packed again, chunk by chunk, for the backends that read
archives.

- `chunkJarName_injective`: different chunks have archives of different names.
- `Site.jarRow`, `StageRun.packed`: what packing writes.
- `Site.filesIn_perm_jarNames`: a conversion finds the archive of each chunk.
- `Engine.PackedConversion`: what a job with a backend that reads archives has packed and read.
- `Engine.runJob_conversion`: every run that has succeeded has converted the bytecode of its input,
  each file once, and nothing else.
-/

namespace Decompile

open Site (Hosts)

/-! ## Names of archives -/

namespace FilePath

/-- A name with an extension, behind at least one letter. -/
theorem splitName_append {lead ext : List Char} (hlead : lead ≠ []) (hext : '.' ∉ ext) :
    splitName (lead ++ '.' :: ext) = (lead, some ext) := by
  have hreverse : (lead ++ '.' :: ext).reverse = ext.reverse ++ '.' :: lead.reverse := by
    rw [List.reverse_append, List.reverse_cons, List.append_assoc, List.singleton_append]
  have hspan : (ext.reverse ++ '.' :: lead.reverse).span (· ≠ '.') =
      (ext.reverse, '.' :: lead.reverse) := by
    have hall : ∀ c ∈ ext.reverse, decide (c ≠ '.') = true := fun c hc =>
      decide_eq_true fun heq => hext (heq ▸ List.mem_reverse.mp hc)
    rw [List.span_eq_takeWhile_dropWhile, List.takeWhile_append_of_pos hall,
      List.dropWhile_append_of_pos hall, List.takeWhile_cons_of_neg (by simp),
      List.dropWhile_cons_of_neg (by simp), List.append_nil]
  unfold splitName
  rw [hreverse, hspan]
  cases hcase : lead.reverse with
  | nil => exact absurd (List.reverse_eq_nil_iff.mp hcase) hlead
  | cons c more =>
    show ((c :: more).reverse, some ext.reverse.reverse) = _
    rw [← hcase, List.reverse_reverse, List.reverse_reverse]

end FilePath

/-- Different chunks have archives of different names, however many there are. -/
theorem chunkJarName_injective : Function.Injective chunkJarName := by
  intro i j heq
  have htexts := congrArg String.toList heq
  rw [toList_chunkJarName, toList_chunkJarName, List.append_left_inj, List.append_right_inj] at htexts
  have hnumbers := congrArg Text.readDecimal? htexts
  rw [Text.readDecimal?_decimalPadded, Text.readDecimal?_decimalPadded] at hnumbers
  exact Option.some.inj hnumbers

theorem nameHasExtension_chunkJarName (k : Nat) : nameHasExtension "jar" (chunkJarName k) = true := by
  have htext : (chunkJarName k).toList =
      ("classes-".toList ++ Text.decimalPadded 4 k) ++ '.' :: "jar".toList := by
    rw [toList_chunkJarName]
    rfl
  rw [nameHasExtension, htext, FilePath.splitName_append (by simp) (by decide)]
  rfl

/-! ## Packing -/

namespace Site

variable (s : Site) (size : UInt64) (d : Disk) (qs : List Place)

/-- What packing class files writes: an archive for each chunk. -/
def jarRow : List (Place × Bytes) :=
  (List.range (chunksOf qs.length size).length).map fun k =>
    ([chunkJarName k], Zip.write (Zip.packed d (s.area .unpack) (sliceOf size qs k)))

theorem map_fst_jarRow : (s.jarRow size d qs).map Prod.fst =
    (List.range (chunksOf qs.length size).length).map fun k => [chunkJarName k] := by
  rw [jarRow, List.map_map]
  rfl

theorem nodup_jarNames (n : Nat) : ((List.range n).map fun k => [chunkJarName k]).Nodup :=
  List.nodup_range.map fun _ _ heq => chunkJarName_injective (List.cons.inj heq).1

variable {s size d qs}

theorem mem_jarRow {q : Place} {b : Bytes} : (q, b) ∈ s.jarRow size d qs ↔
    ∃ k part, ((chunksOf qs.length size).map fun c => c.slice qs)[k]? = some part ∧
      q = [chunkJarName k] ∧ b = Zip.write (Zip.packed d (s.area .unpack) part) := by
  rw [← map_sliceOf, jarRow, List.mem_map]
  constructor
  · rintro ⟨k, hk, heq⟩
    obtain ⟨rfl, rfl⟩ := Prod.mk.inj heq
    exact ⟨k, _, by rw [List.getElem?_map, List.getElem?_range (List.mem_range.mp hk)]; rfl, rfl, rfl⟩
  · rintro ⟨k, part, hpart, rfl, rfl⟩
    rw [List.getElem?_map] at hpart
    obtain ⟨i, hi, rfl⟩ := Option.map_eq_some_iff.mp hpart
    obtain ⟨hk, rfl⟩ := List.getElem?_eq_some_iff.mp hi
    rw [List.length_range] at hk
    exact ⟨k, List.mem_range.mpr hk, by rw [List.getElem_range]⟩

/-- Only what was unpacked counts. -/
theorem jarRow_untouched {d' : Disk} (h : ∀ q, d.Untouched d' (s.area .unpack ++ q)) :
    s.jarRow size d' qs = s.jarRow size d qs := by
  refine List.map_congr_left fun k _ => ?_
  have hpacked : Zip.packed d' (s.area .unpack) (sliceOf size qs k) =
      Zip.packed d (s.area .unpack) (sliceOf size qs k) :=
    List.map_congr_left fun q _ => by rw [(h q).contents]
  rw [hpacked]

/-- A directory with the archives has one for each chunk. -/
theorem filesIn_perm_jarNames {d' : Disk}
    (hjars : ∀ q b, (q, b) ∈ d'.filesUnder (s.area .intermediateConvert) ↔
      (q, b) ∈ s.jarRow size d qs) :
    (s.filesIn d' .intermediateConvert (nameHasExtension "jar")).Perm
      ((List.range (chunksOf qs.length size).length).map fun k => [chunkJarName k]) := by
  refine (List.perm_ext_iff_of_nodup (filesIn_nodup _ _ _ _) (nodup_jarNames _)).mpr fun q => ?_
  have hnames : q ∈ (d'.filesUnder (s.area .intermediateConvert)).map Prod.fst ↔
      q ∈ (s.jarRow size d qs).map Prod.fst := by
    simp only [List.mem_map, Prod.exists, exists_and_right, exists_eq_right, hjars]
  rw [filesIn, List.mem_filter, hnames, map_fst_jarRow, and_iff_left_iff_imp]
  intro hq
  obtain ⟨k, -, rfl⟩ := List.mem_map.mp hq
  rw [List.getLast?_singleton, Option.any_some]
  exact nameHasExtension_chunkJarName k

theorem jarPaths_perm (l : Layout) {ps : List Place} {n : Nat}
    (hps : ps.Perm ((List.range n).map fun k => [chunkJarName k])) :
    ((ps.map (Disk.childPath l.intermediate)).map FilePath.text).Perm
      ((List.range n).map fun k => (Work.chunkJar l k).text) := by
  have htexts := (hps.map (Disk.childPath l.intermediate)).map FilePath.text
  rwa [List.map_map (l := List.range n), List.map_map (l := List.range n)] at htexts

end Site

variable {h : Host} {c : StageContext} {s : Site} {w v u : World}

section

variable (hs : s.Fresh) (hc : s.Serves h c)

include hs hc

/-- Class files that were found have been packed with their contents. -/
theorem runItems_packs (hjar : c.job.submission.inputType = .jar) (hw : s.Hosts w) {qs : List Place}
    (hqs : ∀ q ∈ qs, ∀ n ∈ q, IsEntryName n)
    (hrun : (runItems h c .intermediateConvert
      (.files (qs.map (Disk.childPath c.layout.unpacked)))).Succeeds w () v) :
    s.Course (Site.Fills fun q => ∃ rest, q = s.area .intermediateConvert ++ rest) w v ∧
      w.disk.Wrote (writesBelow (s.area .intermediateConvert)
        (s.jarRow c.job.submission.chunkSize w.disk qs)) v.disk := by
  let slice := sliceOf c.job.submission.chunkSize qs
  let jar : Nat → Place := fun k => s.area .intermediateConvert ++ [chunkJarName k]
  let items : Items := .files (qs.map (Disk.childPath c.layout.unpacked))
  let W : Nat → List (Place × Bytes) := fun k =>
    [(jar k, Zip.write (Zip.packed w.disk (s.area .unpack) (slice k)))]
  have hcount : items.count = qs.length := List.length_map _
  have hslice : ∀ {k chunk}, (c.chunks items)[k]? = some chunk → slice k = chunk.slice qs := by
    intro k chunk hchunk
    rw [StageContext.chunks, hcount] at hchunk
    exact sliceOf_eq hchunk
  have hleads : ∀ k, s.sources.Leads ([s.key, areaOf .intermediateConvert] ++ [chunkJarName k])
      (Work.chunkJar c.layout k) := fun k =>
    (hc.leads_output .intermediateConvert).child (isEntryName_chunkJarName k)
  have hpack : ∀ {k chunk}, (c.chunks items)[k]? = some chunk →
      Work.processChunk h c .intermediateConvert k items chunk =
        Work.pack h ((slice k).map (Disk.childPath c.layout.unpacked)) c.layout.unpacked
          (Work.chunkJar c.layout k) := by
    intro k chunk hchunk
    show ite _ _ _ = _
    rw [if_pos hjar, hslice hchunk, ← Chunk.slice_map]
  have halters : ∀ {k chunk}, (c.chunks items)[k]? = some chunk →
      Try.Keeps (s.Alters (Site.Fills (· = jar k)))
        (Work.processChunk h c .intermediateConvert k items chunk) := by
    intro k chunk hchunk
    rw [hpack hchunk]
    exact Work.pack_alters hs (hleads k) _ _ (Site.Serves.area_append _ _)
  have hdone : ∀ {k chunk x y}, (c.chunks items)[k]? = some chunk →
      s.Course (Site.Fills fun q => ∃ k, q = jar k) w x →
      (Work.processChunk h c .intermediateConvert k items chunk).Succeeds x () y →
        x.disk.Wrote (W k) y.disk ∧ ∀ q, q = jar k → lastWrite (W k) q ≠ none := by
    intro k chunk x y hchunk hcourse hwork
    rw [hpack hchunk] at hwork
    have hwritten := Work.pack_succeeds hs (hc.leads_output .unpack) (hleads k)
      (fun q hq => ⟨hqs q (Chunk.mem_of_mem_slice (hslice hchunk ▸ hq)), ?_⟩) (hcourse.hosts hw) hwork
    · -- what was unpacked is as it was when the packing began
      have hsame : Zip.packed x.disk (s.area .unpack) (slice k) =
          Zip.packed w.disk (s.area .unpack) (slice k) := by
        refine List.map_congr_left fun q _ => ?_
        have huntouched := hcourse.untouched (q := s.area .unpack ++ q) fun change hchange hplace => by
          obtain ⟨i, hi⟩ := hchange.place
          exact Site.area_ne (by decide : StageKind.intermediateConvert ≠ .unpack) _ _
            (hi.symm.trans hplace)
        rw [huntouched.contents]
      refine ⟨?_, ?_⟩
      · rw [Site.Serves.area_append] at hwritten
        show x.disk.Wrote [(jar k, Zip.write (Zip.packed w.disk (s.area .unpack) (slice k)))] y.disk
        rw [← hsame]
        exact hwritten
      · rintro q rfl
        exact lastWrite_ne_none List.mem_cons_self
    · rw [Site.Serves.area_append]
      exact Site.area_ne (by decide : StageKind.unpack ≠ .intermediateConvert) _ _
  obtain ⟨hcourse, hwrote⟩ := runItems_wrote hw halters hdone hrun
  refine ⟨hcourse.mono fun _ => Site.Fills.mono fun q hq => hq.elim fun k hk => ⟨_, hk⟩, ?_⟩
  have hall : (List.range (c.chunks items).length).flatMap W =
      writesBelow (s.area .intermediateConvert) (s.jarRow c.job.submission.chunkSize w.disk qs) := by
    rw [StageContext.chunks, hcount, ← List.map_eq_flatMap, writesBelow, Site.jarRow, List.map_map]
    rfl
  rwa [hall] at hwrote

/-- **What packing leaves.** The directory on the way has the archives of the class files that were
found. -/
theorem StageRun.packed (hjar : c.job.submission.inputType = .jar)
    (hrun : StageRun h c .intermediateConvert w v) (hw : s.Hosts w)
    (hstands : s.Stands c.layout .unpack w.disk)
    (hvacant : ∀ rest b x, w.disk.find? (s.area .intermediateConvert ++ rest) ≠ some (.file b x))
    (q : Place) (b : Bytes) :
    (q, b) ∈ v.disk.filesUnder (s.area .intermediateConvert) ↔
      (q, b) ∈ s.jarRow c.job.submission.chunkSize w.disk
        (s.codeIn c.job.submission.inputType w.disk) := by
  obtain @⟨w₁, w₂, w₃, w₄, w₅, w₆, w₇, w₈, items, starts, prepares, watches, collects, works, stops,
    finishes, discards, ends⟩ := hrun
  have hw₁ := hw.of_rests starts
  have hprepares : s.Alters (fun _ => False) w₁ w₂ := by
    refine prepares.keeps ?_
    unfold prepareOutput
    exact (World.ensureDirectory_alters hs.cwd _).mapError
  have hmade := prepareOutput_stands hs hc rfl hw₁ prepares
  have hw₂ := (hprepares hw₁).hosts hw₁
  have hw₃ := hw₂.of_rests watches
  have hw₄ := hw₃.of_rests (collect_rests collects)
  have hkept : ∀ r, w.disk.Untouched w₃.disk (s.area .unpack ++ r) := by
    intro r
    rw [watches.still.disk, ← starts.still.disk]
    exact (hprepares hw₁).untouched fun _ hx => hx.elim
  have hstands₃ : s.Stands c.layout .unpack w₃.disk := by
    rw [← starts.still.disk] at hstands
    rw [watches.still.disk]
    exact hstands.course (hprepares hw₁) fun _ hx => hx.elim
  have hmade₃ : s.Stands c.layout .intermediateConvert w₃.disk := by
    rwa [watches.still.disk]
  have hnothing : w.disk.Wrote [] w₃.disk := by
    rw [watches.still.disk, ← starts.still.disk]
    exact World.wrote_of_makes hw₁ hprepares
  obtain ⟨rfl, rfl⟩ := Items.code_succeeds hs hc hw₃ hstands₃ collects
  have hfound : s.codeIn c.job.submission.inputType w₄.disk =
      s.codeIn c.job.submission.inputType w.disk := Site.filesIn_untouched fun r _ => hkept r
  unfold Site.codeIn at hfound
  rw [hfound] at works discards
  let qs := s.codeIn c.job.submission.inputType w.disk
  have hqs : ∀ r ∈ qs, ∀ n ∈ r, IsEntryName n := fun r hr => hw.sited.names_filesIn hr
  obtain ⟨hcourse, hpacked⟩ := runItems_packs hs hc hjar hw₄ hqs works
  rw [Site.jarRow_untouched hkept] at hpacked
  have hthere := (hmade₃.course hcourse fun x hx heq => by
    subst heq
    cases hx).there
  have hlast : w₇ = w₆ := (Try.Succeeds.pure finishes).2
  have hw₆ := (hcourse.hosts hw₄).of_rests stops
  have hstays : ∀ r, w₅.disk.Untouched v.disk (s.area .intermediateConvert ++ r) := by
    intro r
    rw [ends.still.disk, discards, hlast, ← stops.still.disk]
    split
    · exact .refl _ _
    · have hdiscards := discardConsumed_alters hs hc (.found .intermediateConvert _ hqs) w₆ hw₆
      refine hdiscards.untouched fun change hchange hplace => ?_
      obtain ⟨paths, r', -, -, -, hrest⟩ : s.Consumed c .intermediateConvert _ _ := hchange.place
      exact Site.area_ne (by decide : StageKind.unpack ≠ .intermediateConvert) _ _
        (hrest.symm.trans hplace)
  rw [Disk.mem_filesUnder, exists_congr fun e => (hstays q).file_iff, ← Disk.mem_filesUnder,
    (hnothing.comp hpacked).mem_filesUnder hvacant hthere,
    lastWrite_eq_some_iff (s.map_fst_jarRow _ _ _ ▸ Site.nodup_jarNames _)]

/-- Packing leaves the archives of the bytecode that was unpacked when it began. -/
theorem Passes.packed {n : Nat} (htools : ToolsWithin h c) (hjar : c.job.submission.inputType = .jar)
    (hp : Passes h c s ⟨n, .intermediateConvert⟩ w v) (hw : s.Hosts w)
    (hstands : s.Stands c.layout .unpack w.disk)
    (hvacant : ∀ rest b x, w.disk.find? (s.area .intermediateConvert ++ rest) ≠ some (.file b x))
    (q : Place) (b : Bytes) :
    (q, b) ∈ v.disk.filesUnder (s.area .intermediateConvert) ↔
      (q, b) ∈ s.jarRow c.job.submission.chunkSize w.disk
        (s.codeIn c.job.submission.inputType w.disk) := by
  obtain ⟨x, y, hfirst, hrun, hlast, -, -⟩ := hp.parts hw
  have hx := hfirst.hosts hw
  have hstands' := hfirst.stands hw hstands
  have hy := (hrun.course hs hc htools hx (fun _ => hstands') nofun).hosts hx
  have hvacant' : ∀ rest b e, x.disk.find? (s.area .intermediateConvert ++ rest) ≠
      some (.file b e) := fun rest b e hfile =>
    hvacant rest b e ((hfirst.untouched hw .intermediateConvert rest).file_iff.mp hfile)
  have hkept := hfirst.untouched hw .unpack
  have hcode : s.codeIn c.job.submission.inputType x.disk =
      s.codeIn c.job.submission.inputType w.disk := Site.filesIn_untouched fun q _ => hkept q
  rw [Disk.mem_filesUnder,
    exists_congr fun e => (hlast.untouched hy .intermediateConvert q).file_iff,
    ← Disk.mem_filesUnder, hrun.packed hs hc hjar hx hstands' hvacant', hcode,
    Site.jarRow_untouched hkept]

/-- A backend that reads archives finds those in the directory on the way. -/
theorem collect_split (hsplit : c.job.backend.isDirect = false) {u u' : World} {items : Items}
    (hu : s.Hosts u) (hstands : s.Stands c.layout .intermediateConvert u.disk)
    (hcollect : (Items.collect h c .convert).Succeeds u items u') :
    items = .files ((s.filesIn u.disk .intermediateConvert (nameHasExtension "jar")).map
      (Disk.childPath c.layout.intermediate)) := by
  replace hcollect : Try.Succeeds (ite _ _ _) u items u' := hcollect
  rw [if_neg (by rw [hsplit]; exact Bool.false_ne_true)] at hcollect
  exact (Items.jars_succeeds hs hc hu hstands hcollect).2

end

/-- Archives of class files are packed without tools. -/
theorem chunkPlan_pack (hjar : c.job.submission.inputType = .jar) (items : Items) (k : Nat) :
    chunkPlan h c .intermediateConvert items k = [] := by
  unfold chunkPlan
  split
  · cases items with
    | members names => rfl
    | files files => exact if_pos hjar
  · rfl

namespace Engine

/-- What a job with a backend that reads archives has packed and read. -/
inductive PackedConversion (h : Host) (a : Accepted) (s : Site) (w : World) : Prop where
  | mk {past made later : List Occurrence} {parts : List (List Place)}
    (whole : w.since ((runJob h a).run w).2 = past ++ made ++ later)
    (unpacked : Unpacked h (a.context h) s w past)
    (ended : (past ++ made).getLast? = some (.published a.job.targetKey
      (.stageChanged a.job.targetKey ⟨1, .intermediateConvert⟩ .succeeded)))
    (sorted : (s.codeIn a.job.submission.inputType (w.diskAfter past)).Pairwise (· < ·))
    (covered : parts.flatten = s.codeIn a.job.submission.inputType (w.diskAfter past))
    (packed : ∀ q b, (q, b) ∈ (w.diskAfter (past ++ made)).filesUnder (s.area .intermediateConvert) ↔
      ∃ k part, parts[k]? = some part ∧ q = [chunkJarName k] ∧
        b = Zip.write (Zip.packed (w.diskAfter past) (s.area .unpack) part))
    (distinct : Function.Injective chunkJarName)
    (reads : (converted a.job.backend a.ticket (w.since ((runJob h a).run w).2)).Perm
      ((List.range parts.length).map fun k => (Work.chunkJar (a.context h).layout k).text))
    (once : (converted a.job.backend a.ticket (w.since ((runJob h a).run w).2)).Nodup)
    (others : ∀ i ∈ World.callsIn (w.since ((runJob h a).run w).2), ∀ x ∈ inputsOf a.job.backend i,
      ∃ k < parts.length, x = (Work.chunkJar (a.context h).layout k).text)

variable {a : Accepted} {base : Place}

theorem packedConversion (ha : a.Planned h) (hs : (a.site h w base).Fresh) (hidle : w.monitor = none)
    (htools : ToolsWithin h (a.context h)) (hdone : Succeeds h a w)
    (hsplit : a.job.backend.isDirect = false) (hjar : a.job.submission.inputType = .jar) :
    PackedConversion h a (a.site h w base) w := by
  have hc := ha.serves w base
  obtain @⟨u, x, y, z, as₀, as₁, as₂, as₃, hu, hstands, hunpacked, hdisk, hvacant, makes, hx, jars,
    whole, log, tried₀, tried₁, tried₂, tried₃, worked⟩ := splitRun ha hs hidle htools hdone hsplit
  have hpacked := makes.packed hs hc htools hjar hu hstands hvacant
  have hperm := Site.filesIn_perm_jarNames hpacked
  have hcode : ((a.site h w base).codeIn a.job.submission.inputType u.disk).length ≤ itemLimit :=
    hdisk ▸ hunpacked.length_filesIn _
  have hfew : ((a.site h w base).filesIn x.disk .intermediateConvert
      (nameHasExtension "jar")).length ≤ itemLimit := by
    rw [hperm.length_eq, List.length_map, List.length_range]
    exact Nat.le_trans (length_chunksOf_le _ _) hcode
  obtain ⟨hreads, hothers⟩ := tried₂.reads (by decide : StageKind.convert ≠ .intermediateConvert)
    (collect_split hs hc hsplit) jars hfew
  -- of all stages only the conversion calls tools
  obtain ⟨hconverted, hcalls⟩ := worked.converted log
    ((tried₀.readless (by decide) (chunkPlan_eq_nil rfl)).append
      (tried₁.readless (by decide) (chunkPlan_pack hjar))) tried₂.attemptsAt_own
    (tried₃.readless (by decide) (chunkPlan_eq_nil rfl)) a.job.backend
  have hall := hconverted.trans hreads
  have hpaths := Site.jarPaths_perm (a.context h).layout hperm
  have hnow : x.disk = w.diskAfter (w.since u ++ u.since x) := by
    rw [World.diskAfter_append, ← hdisk]
    exact hx.course.journal.2
  rw [hdisk] at hcode hpacked hpaths
  refine .mk whole hunpacked ?_ (Site.filesIn_ascending _ _ _ _)
    (flatten_slices hcode a.job.submission.chunkSize) (fun q b => ?_) chunkJarName_injective ?_ ?_
    fun i hi t ht => ?_
  · rw [List.getLast?_append, makes.ended hs hc htools hu (fun _ => hstands) nofun]
    rfl
  · rw [← hnow, hpacked, Site.mem_jarRow]
    rfl
  · rw [List.length_map]
    exact (List.Perm.of_eq hall).trans hpaths
  · refine (List.Perm.of_eq hall).nodup_iff.mpr ?_
    refine nodup_text_childPath (Site.filesIn_nodup _ _ _ _) fun q hq => ?_
    exact Site.Sited.names_filesIn hx.hosts.sited hq
  · obtain ⟨k, hk, rfl⟩ := List.mem_map.mp (hpaths.mem_iff.mp (hothers i (hcalls ▸ hi) t ht))
    rw [List.length_map]
    exact ⟨k, List.mem_range.mp hk, rfl⟩

end Engine

end Decompile
