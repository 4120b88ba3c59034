import Decompile.Proofs.Conservation.Containers

/-!
# Bundled libraries

A request can leave the bundled libraries of an archive out. Members are told from each other by
their names as they are spelled; a member is unpacked where its name leads.

- `Unpacked.members`: what was unpacked belongs to members whose names are none of a library.
- `Engine.LibrariesFiltered`, `Engine.runJob_libraries`: so does all bytecode that a job packs or
  gives to tools.
- `Engine.respelled_library_passes`: a library under another spelling.
-/

namespace Decompile

/-- The path of a place, as a member of an archive would be named. -/
def Place.spelling (q : Place) : String := FilePath.textOfComponents (q.map .name)

variable {roots : List String} {ls : List Zip.Listed} {bytes : Bytes} {q : Place} {b : Bytes}

/-- What unpacking named members writes lies where their names lead. -/
theorem Zip.mem_unpacksAll {names : List String} (h : (q, b) ∈ unpacksAll bytes ls names) :
    ∃ l ∈ ls, l.name ∈ names ∧ (⟨l.name⟩ : FilePath).place [] = q := by
  obtain ⟨n, hn, hmem⟩ := List.mem_flatMap.mp h
  unfold unpacksNamed at hmem
  split at hmem
  · cases hmem
  · next l hfind =>
    refine ⟨l, List.mem_of_find?_eq_some hfind, Zip.name_of_find? hfind ▸ hn, ?_⟩
    unfold unpacks at hmem
    split at hmem
    · split at hmem
      · cases hmem
      · exact (Prod.mk.inj (List.mem_singleton.mp hmem)).1.symm
    · cases hmem

/-- Of the names of an archive those that start like a library are not wanted. -/
theorem Zip.isLibraryPath_of_mem_wanted {n : String} (h : n ∈ wanted roots true ls) :
    isLibraryPath roots n = false := by
  rw [wanted, if_pos rfl, List.mem_filter, Bool.not_eq_true'] at h
  exact h.2

/-- A member of an archive, among others, that leads to a place under a name that is none of a
library. -/
def Zip.Kept (roots : List String) (ls : List Listed) (q : Place) : Prop :=
  ∃ l ∈ ls, isLibraryPath roots l.name = false ∧ (⟨l.name⟩ : FilePath).place [] = q

/-- A place is in no library if all members that lead there are named by it. -/
theorem Zip.Kept.spelling (hq : Kept roots ls q)
    (hplain : ∀ l ∈ ls, (⟨l.name⟩ : FilePath).place [] = q → l.name = q.spelling) :
    isLibraryPath roots q.spelling = false := by
  obtain ⟨l, hl, hname, hplace⟩ := hq
  rwa [← hplain l hl hplace]

variable {h : Host} {c : StageContext} {s : Site} {w : World} {past : List Occurrence}

/-- **Unpacked members are kept by name.** -/
theorem Unpacked.members (hpast : Unpacked h c s w past)
    (hignore : c.job.submission.ignoreLibraries = true)
    (harchive : c.job.submission.inputType.isArchive = true) :
    ∃ during bytes, during <+: past ∧
      (w.diskAfter during).read w.cwd c.job.submission.inputPath = .ok bytes ∧
      ∀ t, ∀ q ∈ s.codeIn t (w.diskAfter past), ∃ ls, Zip.read bytes = .ok ls ∧
        Zip.Kept h.settings.libraryRoots ls q := by
  obtain @⟨during, storing, bytes, parts, -, -, read, files⟩ := hpast
  refine ⟨during, bytes, ⟨storing, parts.symm⟩, read, fun t q hq => ?_⟩
  obtain ⟨hne, ⟨b, x, hfile⟩, -⟩ := Site.mem_filesIn.mp hq
  have hmem := mem_of_lastWrite ((files q b).mp (Disk.mem_filesUnder.mpr ⟨hne, x, hfile⟩))
  unfold Submission.files inputFiles at hmem
  rw [if_pos harchive, hignore] at hmem
  split at hmem
  · cases hmem
  · next ls hls =>
    obtain ⟨l, hl, hwanted, hplace⟩ := Zip.mem_unpacksAll hmem
    exact ⟨ls, hls, l, hl, Zip.isLibraryPath_of_mem_wanted hwanted, hplace⟩

namespace Engine

/-- What a job that leaves libraries out has packed and given to tools. -/
inductive LibrariesFiltered (h : Host) (a : Accepted) (s : Site) (w : World) : Prop where
  | mk {during past later : List Occurrence} {bytes : Bytes}
    (parts : w.since ((runJob h a).run w).2 = past ++ later) (early : during <+: past)
    (read : (w.diskAfter during).read w.cwd a.job.submission.inputPath = .ok bytes)
    (kept : ∀ q ∈ s.codeIn a.job.submission.inputType (w.diskAfter past),
      ∃ ls, Zip.read bytes = .ok ls ∧ Zip.Kept h.settings.libraryRoots ls q)
    (plain : (∀ ls, Zip.read bytes = .ok ls → ∀ l ∈ ls,
        l.name = ((⟨l.name⟩ : FilePath).place []).spelling) →
      ∀ q ∈ s.codeIn a.job.submission.inputType (w.diskAfter past),
        isLibraryPath h.settings.libraryRoots q.spelling = false)
    (given : a.job.backend.isDirect = true → ∀ i ∈ World.callsIn (w.since ((runJob h a).run w).2),
      ∀ x ∈ inputsOf a.job.backend i, x ∈ (s.codePaths (a.context h) (w.diskAfter past)).map
        FilePath.text)
    (converted : a.job.backend.isDirect = false → a.job.submission.inputType ≠ .jar →
      ∀ t ∈ attemptsAt a.ticket .intermediateConvert (attemptsIn (w.since ((runJob h a).run w).2)),
        ∀ i ∈ t.calls, i ∈ (s.codePaths (a.context h) (w.diskAfter past)).map
          (dexToJarCall h.catalog (a.context h).layout.intermediate))
    (packed : a.job.backend.isDirect = false → a.job.submission.inputType = .jar →
      ∃ made, past ++ made <+: w.since ((runJob h a).run w).2 ∧
        (past ++ made).getLast? = some (.published a.job.targetKey
          (.stageChanged a.job.targetKey ⟨1, .intermediateConvert⟩ .succeeded)) ∧
        ∀ q b, (q, b) ∈ (w.diskAfter (past ++ made)).filesUnder (s.area .intermediateConvert) →
          ∃ part ⊆ s.codeIn a.job.submission.inputType (w.diskAfter past),
            b = Zip.write (Zip.packed (w.diskAfter past) (s.area .unpack) part))

variable {a : Accepted} {base : Place}

theorem librariesFiltered (ha : a.Planned h) (hs : (a.site h w base).Fresh) (hidle : w.monitor = none)
    (htools : ToolsWithin h (a.context h)) (hdone : Succeeds h a w)
    (hignore : a.job.submission.ignoreLibraries = true)
    (harchive : a.job.submission.inputType.isArchive = true) :
    LibrariesFiltered h a (a.site h w base) w := by
  have hmembers : ∀ {past}, Unpacked h (a.context h) (a.site h w base) w past → _ := fun hpast =>
    hpast.members hignore harchive
  have hplain : ∀ {past bytes}, (∀ q ∈ (a.site h w base).codeIn a.job.submission.inputType
      (w.diskAfter past), ∃ ls, Zip.read bytes = .ok ls ∧ Zip.Kept h.settings.libraryRoots ls q) →
      (∀ ls, Zip.read bytes = .ok ls → ∀ l ∈ ls,
        l.name = ((⟨l.name⟩ : FilePath).place []).spelling) →
      ∀ q ∈ (a.site h w base).codeIn a.job.submission.inputType (w.diskAfter past),
        isLibraryPath h.settings.libraryRoots q.spelling = false := by
    intro past bytes hkept hspelled q hq
    obtain ⟨ls, hls, hkept⟩ := hkept q hq
    exact hkept.spelling fun l hl hplace => hplace ▸ hspelled ls hls l hl
  cases hdirect : a.job.backend.isDirect with
  | true =>
    obtain ⟨parts, unpacked, -, -, -, others⟩ := directConversion ha hs hidle htools hdone hdirect
    obtain ⟨during, bytes, early, read, kept⟩ := hmembers unpacked
    exact .mk parts early read (kept _) (hplain (kept _)) (fun _ => others)
      (fun hsplit => by cases hdirect.symm.trans hsplit)
      fun hsplit => by cases hdirect.symm.trans hsplit
  | false =>
    by_cases hjar : a.job.submission.inputType = .jar
    · obtain ⟨whole, unpacked, ended, -, covered, packed, -⟩ :=
        packedConversion ha hs hidle htools hdone hdirect hjar
      obtain ⟨during, bytes, early, read, kept⟩ := hmembers unpacked
      refine .mk (whole.trans (List.append_assoc _ _ _)) early read (kept _) (hplain (kept _))
        (fun hyes => by cases hdirect.symm.trans hyes) (fun _ hdex => absurd hjar hdex)
        fun _ _ => ⟨_, ⟨_, whole.symm⟩, ended, fun q b hq => ?_⟩
      obtain ⟨k, part, hpart, -, rfl⟩ := (packed q b).mp hq
      refine ⟨part, fun r hr => ?_, rfl⟩
      exact covered ▸ List.mem_flatten.mpr ⟨part, List.mem_of_getElem? hpart, hr⟩
    · obtain ⟨parts, unpacked, -, others, -⟩ :=
        containerConversion ha hs hidle htools hdone hdirect hjar
      obtain ⟨during, bytes, early, read, kept⟩ := hmembers unpacked
      exact .mk parts early read (kept _) (hplain (kept _))
        (fun hyes => by cases hdirect.symm.trans hyes) (fun _ _ => others)
        fun _ hyes => absurd hyes hjar

/-- **Libraries are left out by the names of members.** Whatever an engine has done before: of a job
that is to leave libraries out, whose directory is empty when it is run, and that is told to have
succeeded, all bytecode that is packed, converted or given to a direct backend was unpacked from
members whose names, as they are spelled, do not start like a library. So none of it lies in a library
if every member is named by the place it is unpacked to; other spellings pass. -/
theorem runJob_libraries (hw : Reached h w) {before after : List Accepted}
    (waits : w.waiting = before ++ a :: after) (fresh : (a.site h w base).Fresh)
    (htools : ToolsWithin h (a.context h))
    (hdone : Succeeds h a { w with waiting := before ++ after })
    (hignore : a.job.submission.ignoreLibraries = true)
    (harchive : a.job.submission.inputType.isArchive = true) :
    LibrariesFiltered h a (a.site h w base) { w with waiting := before ++ after } :=
  librariesFiltered (w := { w with waiting := before ++ after })
    (hw.atRest.planned a (by simp [waits])) fresh hw.atRest.idle htools hdone hignore harchive

/-- An engine that was asked for an archive without libraries. One of its members has a name that
starts like no library, but leads into one. -/
def respelledRequest : World :=
  ((submit sourceHost ⟨"jadx", true, 1, 9, 90, false, "a", "A", ⟨"/1.jar"⟩, .jar⟩).settle.run
    (.new (Disk.empty.put ["1.jar"] (.file (Zip.write [⟨"Main.class", [1], false⟩,
      ⟨"androidx/B.class", [2], false⟩, ⟨"./androidx/C.class", [3], false⟩]) false)) [])).2

/-- The job that it has taken on. -/
def respelledJob : Accepted := respelledRequest.waiting.head (by decide +kernel)

theorem runJob_libraries_respelled :
    (respelledJob.site sourceHost respelledRequest ["sources"]).Fresh ∧
      Succeeds sourceHost respelledJob { respelledRequest with waiting := [] } ∧
      LibrariesFiltered sourceHost respelledJob
        (respelledJob.site sourceHost respelledRequest ["sources"])
        { respelledRequest with waiting := [] } := by
  have hreached : Reached sourceHost respelledRequest := .submit (.new _ []) _
  have hwaits : respelledRequest.waiting = [] ++ respelledJob :: [] := waiting_eq (by decide +kernel) _
  have hfresh : (respelledJob.site sourceHost respelledRequest ["sources"]).Fresh := by
    decide +kernel
  have htools := sourceHost_toolsWithin (a := respelledJob) (by decide +kernel)
  have hdone : Succeeds sourceHost respelledJob { respelledRequest with waiting := [] } := by
    decide +kernel
  have hignore : respelledJob.job.submission.ignoreLibraries = true := by decide +kernel
  have harchive : respelledJob.job.submission.inputType.isArchive = true := by decide +kernel
  exact ⟨hfresh, hdone,
    runJob_libraries hreached hwaits hfresh htools hdone hignore harchive⟩

/-- **A library under another spelling passes.** A job that is to leave libraries out has given a class
file of a library to the decompiler: the member it was unpacked from is named from the current
directory on. -/
theorem respelled_library_passes :
    isLibraryPath sourceHost.settings.libraryRoots (Place.spelling ["androidx", "C.class"]) = true ∧
      respelledJob.job.submission.ignoreLibraries = true ∧
      (World.callsIn ({ respelledRequest with waiting := [] }.since
        ((runJob sourceHost respelledJob).run { respelledRequest with waiting := [] }).2)).map
          Invocation.args =
        [["--no-res", "-d", "/sources/a/java", "/sources/a/unpacked/Main.class",
          "/sources/a/unpacked/androidx/C.class"]] := by
  decide +kernel

end Engine

end Decompile
