import Decompile.Proofs.Disk.Paths
import Decompile.Proofs.Session
import Decompile.Proofs.Text.Decimal

/-!
# Where the files of a target are

- `isEntryName_of_isTargetKey`: a key is a name that a directory can have.
- `Layout.place_of`, `Layout.place_join`: the directory of a target, and what it holds.
- `areaOf`, `place_outputOf`: the directory that a stage writes.
-/

namespace Decompile

theorem isEntryName_of_isTargetKey {key : String} (hkey : isTargetKey key = true) :
    IsEntryName key := by
  simp only [isTargetKey, Bool.and_eq_true, decide_eq_true_eq, Bool.not_eq_true', List.any_eq_false,
    Bool.or_eq_true, beq_iff_eq, not_or] at hkey
  obtain ⟨⟨⟨hempty, hdot⟩, hup⟩, hchars⟩ := hkey
  exact ⟨hempty, hdot, hup, fun hslash => (hchars '/' hslash).1.1 rfl⟩

/-- A request that passes its checks has a clean key. -/
theorem Submission.isTargetKey_of_check {s : Submission} (hs : s.check = .ok ()) :
    isTargetKey s.targetKey = true := by
  unfold check at hs
  split at hs
  · cases hs
  · next hkey => simpa using hkey

theorem Job.isTargetKey_of_plan {s : Submission} {available : Backend → Bool} {j : Job}
    (hj : Job.plan s available = .ok j) : isTargetKey j.targetKey = true := by
  obtain ⟨hcheck, -, -, hjob⟩ := Job.of_plan hj
  rw [hjob]
  exact Submission.isTargetKey_of_check hcheck

/-- The name of the directory that a stage writes. -/
def areaOf : StageKind → String
  | .unpack => "unpacked"
  | .intermediateConvert => "intermediate"
  | .convert => "java"
  | .resources => "resources"

theorem isEntryName_areaOf (kind : StageKind) : IsEntryName (areaOf kind) := by
  cases kind <;> decide

theorem areaOf_injective {kind other : StageKind} (h : areaOf kind = areaOf other) :
    kind = other := by
  revert h
  cases kind <;> cases other <;> decide

theorem areaOf_ne_recordName (kind : StageKind) : areaOf kind ≠ recordName := by
  cases kind <;> decide

variable {cwd : Place}

theorem Layout.place_of {key : String} (hkey : isTargetKey key = true) (storage : FilePath) :
    (Layout.of storage key).root.place cwd = (sourcesIn storage).place cwd ++ [key] :=
  FilePath.place_child (isEntryName_of_isTargetKey hkey)

theorem place_outputOf (l : Layout) (kind : StageKind) :
    (outputOf l kind).place cwd = l.root.place cwd ++ [areaOf kind] := by
  cases kind <;> exact FilePath.place_child (by decide)

theorem Layout.place_record (l : Layout) :
    (l.root.join ⟨recordName⟩).place cwd = l.root.place cwd ++ [recordName] :=
  FilePath.place_child (by decide)

/-! ## Areas -/

/-- Different directories of a target have nothing in common. -/
theorem area_inj {root : Place} {kind other : StageKind} {rest more : List String}
    (h : root ++ [areaOf kind] ++ rest = root ++ [areaOf other] ++ more) :
    kind = other ∧ rest = more := by
  rw [List.append_assoc, List.append_assoc] at h
  obtain ⟨hname, hrest⟩ := List.cons.inj (List.append_cancel_left h)
  exact ⟨areaOf_injective hname, hrest⟩

theorem outputOf_inj {l : Layout} (kind other : StageKind) {rest more : List String}
    (h : (outputOf l kind).place cwd ++ rest = (outputOf l other).place cwd ++ more) :
    kind = other ∧ rest = more := by
  rw [place_outputOf, place_outputOf] at h
  exact area_inj h

/-- A record is in none of the directories that stages write. -/
theorem record_ne_area {sources : Place} {key other : String} {kind : StageKind}
    {rest : List String} :
    sources ++ [key, recordName] ≠ sources ++ [other] ++ [areaOf kind] ++ rest := by
  intro h
  rw [List.append_assoc, List.append_assoc] at h
  obtain ⟨-, hrest⟩ := List.cons.inj (List.append_cancel_left h)
  exact areaOf_ne_recordName kind (List.cons.inj hrest).1.symm

/-- The name of the archive of a chunk of class files. -/
def chunkJarName (index : Nat) : String :=
  "classes-" ++ String.ofList (Text.decimalPadded 4 index) ++ ".jar"

theorem toList_chunkJarName (index : Nat) :
    (chunkJarName index).toList =
      "classes-".toList ++ Text.decimalPadded 4 index ++ ".jar".toList := by
  rw [chunkJarName, String.toList_append, String.toList_append,
    String.toList_ofList (l := Text.decimalPadded 4 index)]

theorem isEntryName_chunkJarName (index : Nat) : IsEntryName (chunkJarName index) := by
  have htext := toList_chunkJarName index
  have hdigits : '/' ∉ Text.decimalPadded 4 index := fun h =>
    absurd (Text.isDigit_of_mem_decimalPadded h) (by decide)
  have hne : ∀ m : String, m.toList.head? ≠ some 'c' → chunkJarName index ≠ m := by
    rintro m hm rfl
    exact hm (by rw [htext]; rfl)
  refine ⟨hne "" (by decide), hne "." (by decide), hne ".." (by decide), fun h => ?_⟩
  rw [htext, List.mem_append, List.mem_append] at h
  rcases h with (h | h) | h
  · exact absurd h (by decide)
  · exact hdigits h
  · exact absurd h (by decide)

/-- The archive of a chunk of class files is one name in its directory. -/
theorem Work.place_chunkJar (cwd : Place) (l : Layout) (index : Nat) :
    ∃ n, (chunkJar l index).place cwd = l.intermediate.place cwd ++ [n] :=
  ⟨_, FilePath.place_child (isEntryName_chunkJarName index)⟩

end Decompile
