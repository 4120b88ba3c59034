import Decompile.Proofs.Conservation.Archives

/-!
# Archives of bytecode containers

For the backends that read archives each bytecode container of a package is converted to one. The
archive has the name of the container up to its extension, wherever the container lies.

- `nameStem`, `jarOf_childPath`: the archive of a container that was found.
- `nodup_jarOf`: containers have archives of their own if their names do not repeat.
- `Attempts.conversions`: the calls that convert containers.
- `Engine.runJob_containers`: every run that has succeeded has converted each container once.
- `Engine.containers_share_archive`: containers of the same name in different directories.
-/

namespace Decompile

open Site (Hosts)

/-! ## Names -/

/-- A name up to its extension. -/
def nameStem (n : String) : String := String.ofList (FilePath.splitName n.toList).1

theorem FilePath.mem_of_mem_splitName {n : List Char} {x : Char} (hx : x ∈ (splitName n).1) :
    x ∈ n := by
  unfold splitName at hx
  rw [List.span_eq_takeWhile_dropWhile] at hx
  split at hx
  · exact hx
  · exact hx
  · next tail dot lead _ hsplit =>
    have hlead : lead <:+ n.reverse := by
      refine (List.suffix_cons dot lead).trans ?_
      rw [← (Prod.mk.inj hsplit).2]
      exact List.dropWhile_suffix _
    exact List.mem_reverse.mp (hlead.subset (List.mem_reverse.mp hx))

/-- The archive of a container can be an entry of a directory. -/
theorem IsEntryName.jar {n : String} (hn : IsEntryName n) : IsEntryName (nameStem n ++ ".jar") := by
  have htext : (nameStem n ++ ".jar").toList = (FilePath.splitName n.toList).1 ++ ".jar".toList := by
    rw [String.toList_append, nameStem, String.toList_ofList]
  have hne : ∀ m : String, m.toList.getLast? ≠ some 'r' → nameStem n ++ ".jar" ≠ m := by
    rintro m hm rfl
    rw [htext, List.getLast?_append] at hm
    exact hm rfl
  refine ⟨hne "" (by decide), hne "." (by decide), hne ".." (by decide), fun hsep => ?_⟩
  rw [htext, List.mem_append] at hsep
  rcases hsep with hsep | hsep
  · exact hn.2.2.2 (FilePath.mem_of_mem_splitName hsep)
  · exact absurd hsep (by decide)

/-- The archive of a container that was found below a directory. -/
theorem jarOf_childPath {out root : FilePath} {q : Place} {n : String}
    (hq : ∀ m ∈ q, IsEntryName m) (hn : q.getLast? = some n) :
    jarOf out (Disk.childPath root q) = Disk.childPath out [nameStem n ++ ".jar"] := by
  have hne : q ≠ [] := by
    rintro rfl
    cases hn
  rw [jarOf, FilePath.stem?, FilePath.fileName?_childPath hq hne, hn]
  rfl

/-- Containers of different names have archives of different paths. -/
theorem jarPath_inj {out : FilePath} {n m : String} (hn : IsEntryName n) (hm : IsEntryName m)
    (heq : (Disk.childPath out [nameStem n ++ ".jar"]).text =
      (Disk.childPath out [nameStem m ++ ".jar"]).text) : nameStem n = nameStem m := by
  have hone : ∀ {k : String}, IsEntryName k → ∀ x ∈ [k], IsEntryName x := fun hk x hx => by
    rwa [List.mem_singleton.mp hx]
  have hnames := Disk.text_childPath_inj (hone hn.jar) (hone hm.jar) heq
  have htexts := congrArg String.toList (List.cons.inj hnames).1
  rw [String.toList_append, String.toList_append, List.append_left_inj] at htexts
  exact String.toList_inj.mp htexts

/-- **Containers have archives of their own exactly if no two of them have the same name up to the
extension.** -/
theorem nodup_jarOf {out root : FilePath} {qs : List Place} (hqs : qs.Nodup)
    (hnames : ∀ q ∈ qs, q ≠ [] ∧ ∀ n ∈ q, IsEntryName n) :
    (((qs.map (Disk.childPath root)).map (jarOf out)).map FilePath.text).Nodup ↔
      (qs.map fun q => q.getLast?.map nameStem).Nodup := by
  have hlast : ∀ q ∈ qs, ∃ n, q.getLast? = some n ∧ IsEntryName n ∧
      jarOf out (Disk.childPath root q) = Disk.childPath out [nameStem n ++ ".jar"] := by
    intro q hq
    obtain ⟨hne, hentries⟩ := hnames q hq
    have hn := List.getLast?_eq_some_getLast hne
    exact ⟨_, hn, hentries _ (List.getLast_mem hne), jarOf_childPath hentries hn⟩
  rw [List.map_map, List.map_map, List.nodup_map_iff_inj_on hqs, List.nodup_map_iff_inj_on hqs]
  refine forall₂_congr fun p hp => forall₂_congr fun q hq => imp_congr_left ?_
  obtain ⟨n, hn, hentry, hjar⟩ := hlast p hp
  obtain ⟨m, hm, hentry', hjar'⟩ := hlast q hq
  rw [Function.comp_apply, Function.comp_apply, Function.comp_apply, Function.comp_apply, hjar, hjar',
    hn, hm, Option.map_some, Option.map_some, Option.some_inj]
  exact ⟨jarPath_inj hentry hentry', fun heq => by rw [heq]⟩

/-! ## Calls -/

section

variable {h : Host} {c : StageContext} {s : Site} {w v : World} (hs : s.Fresh) (hc : s.Serves h c)

include hs hc

/-- The calls that convert containers: one for each of them, in order, if of the attempts at a chunk
the last one counts. There are no others. -/
theorem Attempts.conversions {as : List Attempt} (ha : Attempts h c s .intermediateConvert w v as)
    (hsplit : c.job.backend.isDirect = false) (hdex : c.job.submission.inputType ≠ .jar)
    (hstands : s.Stands c.layout .unpack w.disk)
    (hfew : (s.codeIn c.job.submission.inputType w.disk).length ≤ itemLimit) :
    (settled as).flatMap Attempt.calls =
        (s.codePaths c w.disk).map (dexToJarCall h.catalog c.layout.intermediate) ∧
      ∀ i ∈ as.flatMap Attempt.calls,
        i ∈ (s.codePaths c w.disk).map (dexToJarCall h.catalog c.layout.intermediate) := by
  obtain @⟨u, u', items, hosts, untouched, stands, collects, -, tried⟩ := ha
  obtain ⟨-, rfl⟩ := Items.code_succeeds hs hc hosts (stands .unpack hstands) collects
  have hsame : s.codeIn c.job.submission.inputType u.disk =
      s.codeIn c.job.submission.inputType w.disk :=
    Site.filesIn_untouched fun q _ => untouched .unpack q (by decide)
  unfold Site.codeIn at hsame
  rw [hsame] at tried
  have hplanned : ∀ (files : List FilePath) (chunk : Chunk),
      plannedCalls h c .intermediateConvert (.files files) chunk =
        (chunk.slice files).map (dexToJarCall h.catalog c.layout.intermediate) := by
    intro files chunk
    have hcalls : planIntermediate c.job.backend h.catalog (chunk.slice files)
        c.layout.intermediate = .ok ((chunk.slice files).map (dexToJarCall h.catalog _)) :=
      if_neg (by rw [hsplit]; exact Bool.false_ne_true)
    show ite _ _ _ = _
    rw [if_neg hdex, hcalls]
  refine ⟨?_, fun i hi => ?_⟩
  · have hall := tried.flatMap_settled (f := fun i => [i])
      (g := fun p => [dexToJarCall h.catalog c.layout.intermediate p]) (by rwa [List.length_map])
      fun chunk => by rw [hplanned, List.flatMap_singleton', List.map_eq_flatMap]
    rwa [List.flatMap_singleton', ← List.map_eq_flatMap] at hall
  · obtain ⟨t, ht, hmem⟩ := List.mem_flatMap.mp hi
    obtain ⟨-, -, -, hprefix⟩ := tried.calls ht
    have hplan := hprefix.subset hmem
    unfold chunkPlan at hplan
    split at hplan
    · rw [hplanned] at hplan
      obtain ⟨p, hp, rfl⟩ := List.mem_map.mp hplan
      exact List.mem_map_of_mem (Chunk.mem_of_mem_slice hp)
    · cases hplan

end

namespace Engine

/-- What a job with a backend that reads archives has made of the bytecode containers of its input. -/
inductive ContainerConversion (h : Host) (a : Accepted) (s : Site) (w : World) : Prop where
  | mk {past later : List Occurrence} (parts : w.since ((runJob h a).run w).2 = past ++ later)
    (unpacked : Unpacked h (a.context h) s w past)
    (calls : (settled (attemptsAt a.ticket .intermediateConvert
      (attemptsIn (w.since ((runJob h a).run w).2)))).flatMap Attempt.calls =
        (s.codePaths (a.context h) (w.diskAfter past)).map
          (dexToJarCall h.catalog (a.context h).layout.intermediate))
    (others : ∀ t ∈ attemptsAt a.ticket .intermediateConvert
      (attemptsIn (w.since ((runJob h a).run w).2)), ∀ i ∈ t.calls,
        i ∈ (s.codePaths (a.context h) (w.diskAfter past)).map
          (dexToJarCall h.catalog (a.context h).layout.intermediate))
    (distinct : (((s.codePaths (a.context h) (w.diskAfter past)).map
      (jarOf (a.context h).layout.intermediate)).map FilePath.text).Nodup ↔
        ((s.codeIn a.job.submission.inputType (w.diskAfter past)).map fun q =>
          q.getLast?.map nameStem).Nodup)

variable {h : Host} {a : Accepted} {w : World} {base : Place}

theorem containerConversion (ha : a.Planned h) (hs : (a.site h w base).Fresh)
    (hidle : w.monitor = none) (htools : ToolsWithin h (a.context h)) (hdone : Succeeds h a w)
    (hsplit : a.job.backend.isDirect = false) (hdex : a.job.submission.inputType ≠ .jar) :
    ContainerConversion h a (a.site h w base) w := by
  have hc := ha.serves w base
  obtain @⟨u, x, y, z, as₀, as₁, as₂, as₃, hu, hstands, hunpacked, hdisk, -, -, -, -, whole, log,
    tried₀, tried₁, tried₂, tried₃, worked⟩ := splitRun ha hs hidle htools hdone hsplit
  have hfew : ((a.site h w base).codeIn a.job.submission.inputType u.disk).length ≤ itemLimit :=
    hdisk ▸ hunpacked.length_filesIn _
  obtain ⟨hconversions, hothers⟩ := tried₁.conversions hs hc hsplit hdex hstands hfew
  rw [hdisk] at hconversions hothers
  -- the attempts of the other stages are none of this one
  have hown : attemptsAt a.ticket .intermediateConvert
      (attemptsIn (w.since ((runJob h a).run w).2)) = as₁ := by
    have hfirst : attemptsAt a.ticket .intermediateConvert as₀ = [] :=
      tried₀.attemptsAt_ne (by decide)
    have hthen : attemptsAt a.ticket .intermediateConvert as₂ = [] :=
      tried₂.attemptsAt_ne (by decide)
    have hlast : attemptsAt a.ticket .intermediateConvert as₃ = [] :=
      tried₃.attemptsAt_ne (by decide)
    rw [(worked.since log).1, attemptsAt_append, attemptsAt_append, attemptsAt_append, hfirst, hthen,
      hlast, List.nil_append, List.append_nil, List.append_nil]
    exact tried₁.attemptsAt_own
  refine .mk (whole.trans (List.append_assoc _ _ _)) hunpacked ?_ (fun t ht i hi => ?_) ?_
  · rw [hown]
    exact hconversions
  · rw [hown] at ht
    exact hothers i (List.mem_flatMap.mpr ⟨t, ht, hi⟩)
  · refine nodup_jarOf (Site.filesIn_nodup _ _ _ _) fun q hq => ⟨(Site.mem_filesIn.mp hq).1, ?_⟩
    exact Site.Sited.names_filesIn (hdisk ▸ hu.sited) hq

/-- **Conversion of containers.** Whatever an engine has done before: of a job whose directory is
empty when it is run, and that is told to have succeeded with a backend that reads archives, each
bytecode container that unpacking has left was converted once, in order. The archives that were asked
for are different exactly if no two containers have the same name up to the extension: the directory
a container lies in does not count. -/
theorem runJob_containers (hw : Reached h w) {before after : List Accepted}
    (waits : w.waiting = before ++ a :: after) (fresh : (a.site h w base).Fresh)
    (htools : ToolsWithin h (a.context h))
    (hdone : Succeeds h a { w with waiting := before ++ after })
    (hsplit : a.job.backend.isDirect = false) (hdex : a.job.submission.inputType ≠ .jar) :
    ContainerConversion h a (a.site h w base) { w with waiting := before ++ after } :=
  containerConversion (w := { w with waiting := before ++ after })
    (hw.atRest.planned a (by simp [waits])) fresh hw.atRest.idle htools hdone hsplit hdex

/-- An engine that was asked for a package with two containers of one name. -/
def twinsRequest : World :=
  ((submit sourceHost ⟨"cfr", false, 1, 1, 90, false, "a", "A", ⟨"/1.apk"⟩, .apk⟩).settle.run
    (.new (Disk.empty.put ["1.apk"] (.file (Zip.write [⟨"a/classes.dex", [1], false⟩,
      ⟨"b/classes.dex", [2], false⟩]) false)) [])).2

/-- The job that it has taken on. -/
def twinsJob : Accepted := twinsRequest.waiting.head (by decide +kernel)

theorem runJob_containers_twins :
    (twinsJob.site sourceHost twinsRequest ["sources"]).Fresh ∧
      Succeeds sourceHost twinsJob { twinsRequest with waiting := [] } ∧
      ContainerConversion sourceHost twinsJob (twinsJob.site sourceHost twinsRequest ["sources"])
        { twinsRequest with waiting := [] } := by
  have hreached : Reached sourceHost twinsRequest := .submit (.new _ []) _
  have hwaits : twinsRequest.waiting = [] ++ twinsJob :: [] := waiting_eq (by decide +kernel) _
  have hfresh : (twinsJob.site sourceHost twinsRequest ["sources"]).Fresh := by decide +kernel
  have htools := sourceHost_toolsWithin (a := twinsJob) (by decide +kernel)
  have hdone : Succeeds sourceHost twinsJob { twinsRequest with waiting := [] } := by
    decide +kernel
  have hsplit : twinsJob.job.backend.isDirect = false := by decide +kernel
  have hdex : twinsJob.job.submission.inputType ≠ .jar := by decide +kernel
  exact ⟨hfresh, hdone, runJob_containers hreached hwaits hfresh htools hdone hsplit hdex⟩

/-- **Containers of one name share an archive.** Two containers in different directories of a package
are converted to the same archive, the second over the first; the decompiler is given that one archive,
and the job is told to have succeeded. -/
theorem containers_share_archive :
    Succeeds sourceHost twinsJob { twinsRequest with waiting := [] } ∧
      (World.callsIn ({ twinsRequest with waiting := [] }.since
        ((runJob sourceHost twinsJob).run { twinsRequest with waiting := [] }).2)).map
          Invocation.args =
        [["--force", "--output", "/sources/a/intermediate/classes.jar",
            "/sources/a/unpacked/a/classes.dex"],
          ["--force", "--output", "/sources/a/intermediate/classes.jar",
            "/sources/a/unpacked/b/classes.dex"],
          ["/sources/a/intermediate/classes.jar", "--outputdir", "/sources/a/java"]] := by
  decide +kernel

end Engine

end Decompile
