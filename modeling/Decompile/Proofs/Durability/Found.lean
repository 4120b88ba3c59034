import Decompile.Proofs.Durability.Spared
import Decompile.Proofs.Record.Storage

/-!
# Records are found

- `Open`: the directory of targets is found, whatever becomes of the insides of those of targets.
- `Findable`: where a record was found its directory stands; where both stand it is found.
- `Open.read`: a record that was found once is found again.
- `mem_targetNames_iff`, `mem_pendingRecords_iff`: what a scan of the storage finds.
-/

namespace Decompile

variable {storage : FilePath} {store cwd here sources : Place} {key n : String} {rest : List String}
  {d d' : Disk} {w : World} {r : JobRecord}

/-- However files come and go inside the directories of targets, the storage's own directory of targets
is found. -/
def Open (storage : FilePath) (store : Place) (w : World) : Prop :=
  ∀ d, w.disk.Steady store (fun _ => False) d →
    d.entryAt w.cwd true (sourcesIn storage) = .ok (store ++ ["sources"], .directory)

namespace Disk

/-- One step to a directory that is not the last. -/
theorem follow_directory {free through : Bool} (hn : n ≠ "..")
    (hshort : ¬ nameLimit < (Text.encode n).length)
    (hdirectory : d.find? (here ++ [n]) = some .directory) (rest : List String) :
    d.follow free through here (n :: rest) = d.follow free through (here ++ [n]) rest := by
  rw [follow, if_neg hn, if_neg hshort]
  simp only [hdirectory]

/-- Names of directories are followed one after another. -/
theorem follow_plain {free through : Bool} {names : List String}
    (hnames : ∀ n ∈ names, n ≠ ".." ∧ ¬ nameLimit < (Text.encode n).length)
    (hdirs : ∀ q, q <+: names → d.find? (here ++ q) = some .directory) :
    d.follow free through here names = .ok (.arrived (here ++ names)) := by
  induction names generalizing here with
  | nil =>
    rw [List.append_nil]
    rfl
  | cons n names ih =>
    obtain ⟨⟨hn, hshort⟩, hnames⟩ := List.forall_mem_cons.mp hnames
    have hfirst := hdirs [n] (List.cons_prefix_cons.mpr ⟨rfl, List.nil_prefix⟩)
    rw [follow_directory hn hshort hfirst, ih hnames fun q hq => ?_, List.append_assoc]
    · rfl
    · rw [List.append_assoc]
      exact hdirs (n :: q) (List.cons_prefix_cons.mpr ⟨rfl, hq⟩)

/-- A way that goes on after a name that is no link goes through a directory. -/
theorem directory_of_follow {free through : Bool} (hn : n ≠ "..") (hrest : rest ≠ []) {f : Followed}
    (hlink : ∀ t, d.find? (here ++ [n]) ≠ some (.link t))
    (hf : d.follow free through here (n :: rest) = .ok f) :
    d.find? (here ++ [n]) = some .directory ∧ ¬ nameLimit < (Text.encode n).length := by
  rw [follow, if_neg hn] at hf
  split at hf
  · cases hf
  next hshort =>
  have hmore : rest.isEmpty = false := by simp [hrest]
  simp only [hmore, Bool.and_false, Bool.false_and, Bool.false_eq_true, if_false] at hf
  refine ⟨?_, hshort⟩
  split at hf
  · next hdirectory => exact hdirectory
  · next t hfound => exact absurd hfound (hlink t)
  · cases hf
  · cases hf

/-- The first steps of a way that is looked up are taken. -/
theorem follow_of_locateFrom {through : Bool} {k : Nat} {ending : PathEnd} {names : List String}
    {x : Place × PathEnd} (hx : d.locateFrom through k ending here names = .ok x) :
    ∃ f, d.follow (ending ≠ .dots) (through || ending ≠ .plain) here names = .ok f := by
  unfold locateFrom at hx
  split at hx
  · cases hx
  · next f hf => exact ⟨_, hf⟩
  · next hf => exact ⟨_, hf⟩

theorem mem_children_iff {p : Place} {e : Entry} :
    (n, e) ∈ d.children p ↔ d.find? (p ++ [n]) = some e := by
  refine ⟨find?_of_mem_children, fun hfound => List.mem_filterMap.mpr ⟨([n], e), ?_, rfl⟩⟩
  exact mem_below_iff.mpr ⟨List.cons_ne_nil _ _, hfound⟩

end Disk

/-- The names of the directories of targets are those of the directories there. -/
theorem mem_targetNames_iff (hsources : d.entryAt cwd true (sourcesIn storage) = .ok (sources, .directory)) :
    key ∈ targetNames d cwd storage ↔ d.find? (sources ++ [key]) = some .directory := by
  have hlist : d.list cwd (sourcesIn storage) = .ok (d.children sources) := by
    rw [Disk.list, hsources]
  rw [targetNames, hlist]
  simp only [List.mem_map, List.mem_filter, decide_eq_true_eq]
  constructor
  · rintro ⟨⟨n, e⟩, ⟨hmem, rfl⟩, rfl⟩
    exact Disk.mem_children_iff.mp hmem
  · exact fun hfound => ⟨(key, .directory), ⟨Disk.mem_children_iff.mpr hfound, rfl⟩, rfl⟩

/-- The path of the record of a key. -/
def recordPath (storage : FilePath) (key : String) : FilePath :=
  (Layout.of storage key).root.join ⟨recordName⟩

/-- It is written as that of the directory of targets with two names behind it. -/
theorem recordPath_behind (storage : FilePath) (hkey : IsEntryName key) :
    (recordPath storage key).isAbsolute = (sourcesIn storage).isAbsolute ∧
      (recordPath storage key).steps = (sourcesIn storage).steps ++ [key, recordName] := by
  have hrelative := FilePath.isAbsolute_of_isEntryName hkey
  have hname : IsEntryName recordName := by decide
  have hrecord := FilePath.isAbsolute_of_isEntryName hname
  rw [recordPath, Layout.of]
  constructor
  · rw [FilePath.isAbsolute_join hrecord, FilePath.isAbsolute_join hrelative]
  · rw [FilePath.steps_join hrecord, FilePath.steps_join hrelative,
      FilePath.steps_of_isEntryName hkey, FilePath.steps_of_isEntryName hname, List.append_assoc]
    rfl

theorem recordPlace_eq (store : Place) (key : String) :
    recordPlace store key = store ++ ["sources"] ++ [key] ++ [recordName] := by
  simp [recordPlace]

/-- Nothing about the path of the record itself keeps it from being looked up. -/
structure Findable (storage : FilePath) (key : String) : Prop where
  named : IsEntryName key
  short : ¬ nameLimit < (Text.encode key).length
  nul : (recordPath storage key).text.toList.contains '\x00' = false
  text : (recordPath storage key).text ≠ ""
  plain : (recordPath storage key).ending = .plain

section

variable (hsources : d.entryAt cwd true (sourcesIn storage) = .ok (sources, .directory))
include hsources

/-- Where a record was found its directory stands. -/
theorem Findable.of_locate (hkey : IsEntryName key) (hlink : ∀ t, d.find? (sources ++ [key]) ≠ some (.link t))
    {through : Bool} {q : Place}
    (hlocate : d.locate cwd through (recordPath storage key) = .ok (q, .plain)) :
    Findable storage key ∧ d.find? (sources ++ [key]) = some .directory := by
  obtain ⟨habsolute, hsteps⟩ := recordPath_behind storage hkey
  obtain ⟨hnul, htext⟩ := Disk.text_of_locate hlocate
  obtain ⟨k, hk⟩ := Disk.locate_behind hsources (List.cons_ne_nil _ _) habsolute hsteps hnul htext through
  have hplain := Disk.ending_of_locateFrom (hk.symm.trans hlocate)
  obtain ⟨f, hf⟩ := Disk.follow_of_locateFrom (hk.symm.trans hlocate)
  obtain ⟨hdirectory, hshort⟩ :=
    Disk.directory_of_follow hkey.2.2.1 (List.cons_ne_nil _ _) hlink hf
  exact ⟨⟨hkey, hshort, hnul, htext, hplain⟩, hdirectory⟩

/-- A record is found where its directory and itself stand. -/
theorem Findable.read (hf : Findable storage key)
    (hdirectory : d.find? (sources ++ [key]) = some .directory) {bytes : Bytes} {x : Bool}
    (hfile : d.find? (sources ++ [key] ++ [recordName]) = some (.file bytes x)) :
    d.read cwd (recordPath storage key) = .ok bytes := by
  obtain ⟨habsolute, hsteps⟩ := recordPath_behind storage hf.named
  obtain ⟨k, hk⟩ := Disk.locate_behind hsources (List.cons_ne_nil _ _) habsolute hsteps hf.nul hf.text true
  have hfollow : d.follow true true sources [key, recordName] =
      .ok (.arrived (sources ++ [key] ++ [recordName])) := by
    rw [Disk.follow_directory hf.named.2.2.1 hf.short hdirectory]
    exact Disk.follow_file (by decide) (by decide) hfile true
  suffices hfound : d.locate cwd true (recordPath storage key) =
      .ok (sources ++ [key] ++ [recordName], .plain) from Disk.read_eq hfound hfile
  rw [hk, hf.plain]
  cases k with
  | zero | succ k =>
    unfold Disk.locateFrom
    simp only [ne_eq, reduceCtorEq, not_false_eq_true, decide_true, Bool.true_or, hfollow]

end

/-! ## Records that are found for good -/

/-- The directory of a target stands. -/
theorem Disk.Steady.home {ks : String → Prop} (hd : d.Steady store ks d')
    (hhome : d.find? (store ++ ["sources"] ++ [key]) = some .directory) :
    d'.find? (store ++ ["sources"] ++ [key]) = some .directory := by
  refine hd.directory _ hhome ?_
  rintro ⟨other, rest, hrest, heq⟩
  rw [List.append_assoc] at heq
  have hnames := List.append_cancel_left heq
  simp only [List.singleton_append, List.cons.injEq, true_and] at hnames
  exact hrest hnames.2.symm

/-- A storage under an absolute path without parent steps and links is found for good. -/
theorem Open.of_plain (habsolute : (sourcesIn storage).isAbsolute = true)
    (hsteps : (sourcesIn storage).steps = store ++ ["sources"])
    (hnul : (sourcesIn storage).text.toList.contains '\x00' = false)
    (htext : (sourcesIn storage).text ≠ "")
    (hnames : ∀ n ∈ store ++ ["sources"], n ≠ ".." ∧ ¬ nameLimit < (Text.encode n).length)
    (hdirs : ∀ q, q <+: store ++ ["sources"] → w.disk.find? q = some .directory) :
    Open storage store w := by
  intro d hd
  have hdirs' : ∀ q, q <+: store ++ ["sources"] → d.find? q = some .directory := by
    refine fun q hq => hd.directory q (hdirs q hq) ?_
    rintro ⟨key, rest, hrest, rfl⟩
    have hlength := hq.length_le
    have hlong := List.length_pos_iff.mpr hrest
    simp only [List.length_append, List.length_cons, List.length_nil] at hlength
    omega
  have hfollow : ∀ free, d.follow free true [] (store ++ ["sources"]) =
      .ok (.arrived (store ++ ["sources"])) := fun _ => Disk.follow_plain hnames hdirs'
  have hlocate : d.locate w.cwd true (sourcesIn storage) =
      .ok (store ++ ["sources"], (sourcesIn storage).ending) := by
    rw [Disk.locate, if_neg (by rw [hnul]; exact Bool.false_ne_true), if_neg htext, if_pos habsolute,
      hsteps, Disk.locateFrom]
    simp only [Bool.true_or, hfollow]
  exact Disk.entryAt_eq hlocate (hdirs' _ (List.prefix_refl _)) fun hfile => by cases hfile

namespace Open

variable (hopen : Open storage store w) (hlinkless : ∀ rest t, w.disk.find? (store ++ rest) ≠ some (.link t))
  (hkey : IsEntryName key)
  (hlocate : w.disk.locate w.cwd true (recordPath storage key) = .ok (recordPlace store key, .plain))
include hopen hlinkless hkey hlocate

theorem findable : Findable storage key ∧ w.disk.find? (store ++ ["sources"] ++ [key]) = some .directory := by
  refine Findable.of_locate (hopen w.disk (.refl w.disk)) hkey (fun t => ?_) hlocate
  rw [List.append_assoc]
  exact hlinkless _ t

/-- The directory of a record that was found stands from then on. -/
theorem stands (hd : w.disk.Steady store (fun _ => False) d) :
    d.find? (store ++ ["sources"] ++ [key]) = some .directory :=
  hd.home (hopen.findable hlinkless hkey hlocate).2

/-- A record that was found once is found again. -/
theorem read (hd : w.disk.Steady store (fun _ => False) d) {bytes : Bytes} {x : Bool}
    (hfile : d.find? (recordPlace store key) = some (.file bytes x)) :
    d.read w.cwd (recordPath storage key) = .ok bytes := by
  rw [recordPlace_eq] at hfile
  exact (hopen.findable hlinkless hkey hlocate).1.read (hopen d hd)
    (hopen.stands hlinkless hkey hlocate hd) hfile

/-- A scan comes by its directory. -/
theorem mem_targetNames (hd : w.disk.Steady store (fun _ => False) d) :
    key ∈ targetNames d w.cwd storage :=
  (mem_targetNames_iff (hopen d hd)).mpr (hopen.stands hlinkless hkey hlocate hd)

end Open

/-! ## What a scan finds -/

/-- A scan finds the records that can be loaded and were never finished. -/
theorem mem_pendingRecords_iff : r ∈ pendingRecords d cwd storage ↔
    ∃ name ∈ targetNames d cwd storage,
      JobRecord.load d cwd (.of storage name) = .ok (some r) ∧ r.isPending = true := by
  rw [pendingRecords, sortRecords, List.mem_mergeSort, List.mem_filterMap]
  refine exists_congr fun name => and_congr_right fun _ => ?_
  unfold pendingIn
  cases hload : JobRecord.load d cwd (.of storage name) with
  | error e =>
    simp only [show JobRecord.load d cwd ⟨(sourcesIn storage).child name⟩ = _ from hload]
    simp [Except.toOption]
  | ok found =>
    simp only [show JobRecord.load d cwd ⟨(sourcesIn storage).child name⟩ = _ from hload]
    cases found with
    | none => simp [Except.toOption]
    | some r' =>
      by_cases hr' : r'.isPending = true
      · simp only [Except.toOption, Option.filter, hr', if_true, Option.join_some, Option.some.injEq, Except.ok.injEq]
        exact ⟨fun heq => ⟨heq, heq ▸ hr'⟩, And.left⟩
      · simp only [Except.toOption, Option.filter, hr', Option.some.injEq, Except.ok.injEq]
        refine iff_of_false (fun heq => by cases heq) ?_
        rintro ⟨rfl, hr⟩
        exact hr' hr

end Decompile
