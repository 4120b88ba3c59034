import Decompile.Proofs.Durability.Saving
import Decompile.Proofs.Durability.Found

/-!
# Trees of records

- `Houses`: the record of a key is in its place; `load_iff`: this is when it is loaded.
- `RecordTree`: the storages in which every record stands in the directory of its key.
- `RecordTree.holds_iff`: a record that is spared is loaded as before.
- `RecordTree.pendingRecords_ascending`: the records that a scan finds come in ascending order, each key
  once; `pendingRecords_eq_filter`: how two scans compare.
-/

namespace Decompile

variable {storage : FilePath} {store : Place} {ks : String → Prop} {w u : World} {r : JobRecord}
  {key name : String} {bytes : Bytes}

/-! ## Records in their places -/

/-- The record of a key is in its place. -/
structure Houses (storage : FilePath) (store : Place) (w : World) (key : String) (bytes : Bytes) :
    Prop where
  findable : Findable storage key
  home : w.disk.find? (store ++ ["sources"] ++ [key]) = some .directory
  file : ∃ x, w.disk.find? (recordPlace store key) = some (.file bytes x)

/-- The directory of a name holds a record that can be read. -/
structure Holds (storage : FilePath) (store : Place) (w : World) (name : String) (r : JobRecord) :
    Prop where
  home : w.disk.find? (store ++ ["sources"] ++ [name]) = some .directory
  loaded : JobRecord.load w.disk w.cwd (.of storage name) = .ok (some r)

/-- A directory holds one record. -/
theorem Holds.unique {r' : JobRecord} (hr : Holds storage store w name r)
    (hr' : Holds storage store w name r') : r = r' :=
  Option.some.inj (Except.ok.inj (hr.loaded.symm.trans hr'.loaded))

/-- What is loaded was read. -/
theorem JobRecord.load_eq_some_iff {d : Disk} {cwd : Place} :
    load d cwd (.of storage key) = .ok (some r) ↔
      ∃ bytes, d.read cwd (recordPath storage key) = .ok bytes ∧
        ofBytes (recordPath storage key) bytes = .ok r := by
  constructor
  · intro hload
    cases hread : d.read cwd (recordPath storage key) with
    | error e =>
      simp only [load, show d.read cwd ((Layout.of storage key).root.join ⟨recordName⟩) = _ from hread]
        at hload
      split at hload <;> cases hload
    | ok bytes =>
      refine ⟨bytes, rfl, ?_⟩
      rw [load_eq hread, ← recordPath] at hload
      cases hof : ofBytes (recordPath storage key) bytes with
      | error e =>
        rw [hof] at hload
        cases hload
      | ok r' =>
        rw [hof] at hload
        cases hload
        rfl
  · rintro ⟨bytes, hread, hof⟩
    rw [load_eq hread, ← recordPath, hof]
    rfl

/-- Names of directories are names that entries can have. -/
theorem Stored.isEntryName_home (hw : Stored storage store w)
    (hhome : w.disk.find? (store ++ ["sources"] ++ [key]) = some .directory) : IsEntryName key :=
  hw.named _ _ hhome key (List.mem_append_right _ List.mem_cons_self)

/-- A record in its place is read. -/
theorem Houses.read (hopen : Open storage store w) (hh : Houses storage store w key bytes) :
    w.disk.read w.cwd (recordPath storage key) = .ok bytes := by
  obtain ⟨x, hfile⟩ := hh.file
  rw [recordPlace_eq] at hfile
  exact hh.findable.read (hopen w.disk (.refl w.disk)) hh.home hfile

/-- A record that is read is in its place. -/
theorem Stored.houses_of_read (hw : Stored storage store w) (hopen : Open storage store w)
    (hkey : IsEntryName key) (hread : w.disk.read w.cwd (recordPath storage key) = .ok bytes) :
    Houses storage store w key bytes := by
  obtain ⟨q, x, hentry⟩ := Disk.entryAt_of_read hread
  obtain ⟨e, hlocate, hfile, hplain⟩ := Disk.entryAt_of_locate hentry
  have hlands : w.disk.Lands w.cwd (recordPath storage key) (recordPlace store key) := by
    have hlands := hw.lands (.target storage hkey) (.ofChild (n := recordName) (by decide))
    rwa [List.append_assoc] at hlands
  obtain rfl := hlands.locate _ _ _ hlocate
  rw [hplain rfl] at hlocate
  obtain ⟨hfindable, hhome⟩ := hopen.findable hw.addressed.linkless hkey hlocate
  exact ⟨hfindable, hhome, x, hfile⟩

/-- **A record is loaded** if it is in its place and its bytes say it. -/
theorem Stored.holds_iff (hw : Stored storage store w) (hopen : Open storage store w) :
    Holds storage store w key r ↔
      ∃ bytes, Houses storage store w key bytes ∧ JobRecord.ofBytes (recordPath storage key) bytes = .ok r := by
  constructor
  · rintro ⟨hhome, hload⟩
    obtain ⟨bytes, hread, hof⟩ := JobRecord.load_eq_some_iff.mp hload
    exact ⟨bytes, hw.houses_of_read hopen (hw.isEntryName_home hhome) hread, hof⟩
  · rintro ⟨bytes, hh, hof⟩
    exact ⟨hh.home, JobRecord.load_eq_some_iff.mpr ⟨bytes, hh.read hopen, hof⟩⟩

/-- A record that is spared stays in its place. -/
theorem Houses.steady (hh : Houses storage store w key bytes) (hd : w.disk.Steady store ks u.disk)
    (hkey : ks key) : Houses storage store u key bytes where
  findable := hh.findable
  home := hd.home hh.home
  file := by
    obtain ⟨x, hfile⟩ := hh.file
    exact ⟨x, (hd.files key hkey _ _).mpr hfile⟩

theorem Open.steady (hopen : Open storage store w) (hd : w.disk.Steady store ks u.disk)
    (hcwd : u.cwd = w.cwd) : Open storage store u := by
  intro d hd'
  rw [hcwd]
  exact hopen d ((hd.mono fun _ hfalse => absurd hfalse id).trans hd')

/-! ## Scans -/

theorem mem_pendingRecords_iff_holds (hopen : Open storage store w) :
    r ∈ pendingRecords w.disk w.cwd storage ↔
      ∃ name, Holds storage store w name r ∧ r.isPending = true := by
  rw [mem_pendingRecords_iff]
  refine exists_congr fun name => ?_
  rw [mem_targetNames_iff (hopen w.disk (.refl w.disk))]
  exact ⟨fun ⟨hhome, hload, hr⟩ => ⟨⟨hhome, hload⟩, hr⟩, fun ⟨⟨hhome, hload⟩, hr⟩ => ⟨hhome, hload, hr⟩⟩

theorem Disk.children_nodup (d : Disk) (p : Place) : ((d.children p).map Prod.fst).Nodup := by
  rw [List.Nodup, List.pairwise_map]
  refine List.Pairwise.filterMap _ ?_ (d.below_ascending p)
  intro a b hab x hx y hy heq
  split at hx
  · next n hn =>
    split at hy
    · next m hm =>
      obtain rfl := Option.some.inj hx
      obtain rfl := Option.some.inj hy
      rw [hn, hm, show n = m from heq] at hab
      exact Place.lt_irrefl _ hab
    · cases hy
  · cases hx

theorem targetNames_nodup (d : Disk) (cwd : Place) (storage : FilePath) :
    (targetNames d cwd storage).Nodup := by
  unfold targetNames
  split
  · exact List.nodup_nil
  · next entries hlist =>
    unfold Disk.list at hlist
    split at hlist
    · cases hlist
    · next place hplace =>
      obtain rfl := Except.ok.inj hlist
      exact (d.children_nodup place).sublist (List.filter_sublist.map _)
    · cases hlist

/-- The pending record of a directory is loaded from it. -/
theorem load_of_pendingIn {d : Disk} {cwd : Place}
    (hr : (pendingIn (sourcesIn storage) d cwd name).toOption.join = some r) :
    JobRecord.load d cwd (.of storage name) = .ok (some r) := by
  unfold pendingIn at hr
  cases hload : JobRecord.load d cwd (.of storage name) with
  | error e =>
    simp only [show JobRecord.load d cwd ⟨(sourcesIn storage).child name⟩ = _ from hload] at hr
    cases hr
  | ok found =>
    simp only [show JobRecord.load d cwd ⟨(sourcesIn storage).child name⟩ = _ from hload] at hr
    obtain ⟨hfound, -⟩ := Option.filter_eq_some_iff.mp hr
    rw [hfound]

/-! ## Trees of records -/

/-- A storage without links in which every record that can be read stands in the directory of its key. -/
structure RecordTree (storage : FilePath) (store : Place) (w : World) : Prop where
  stored : Stored storage store w
  opened : Open storage store w
  /-- A record stands in a directory. -/
  housed : ∀ key b x, w.disk.find? (recordPlace store key) = some (.file b x) →
    w.disk.find? (store ++ ["sources"] ++ [key]) = some .directory
  filed : ∀ name r, Holds storage store w name r → r.submission.targetKey = name

namespace RecordTree

/-- A record that is spared is loaded as before. -/
theorem holds_iff (hw : RecordTree storage store w) (hu : Stored storage store u) (hcwd : u.cwd = w.cwd)
    (hd : w.disk.Steady store ks u.disk) (hkey : ks key) :
    Holds storage store u key r ↔ Holds storage store w key r := by
  have hopen := hw.opened.steady hd hcwd
  rw [hu.holds_iff hopen, hw.stored.holds_iff hw.opened]
  refine exists_congr fun bytes => and_congr_left fun _ => ⟨fun hh => ?_, fun hh => hh.steady hd hkey⟩
  obtain ⟨x, hfile⟩ := hh.file
  have hfile' := (hd.files key hkey _ _).mp hfile
  exact ⟨hh.findable, hw.housed key _ _ hfile', x, hfile'⟩

/-- A pending record is found in the directory of its key. -/
theorem mem_pendingRecords_iff (hw : RecordTree storage store w) :
    r ∈ pendingRecords w.disk w.cwd storage ↔
      Holds storage store w r.submission.targetKey r ∧ r.isPending = true := by
  rw [mem_pendingRecords_iff_holds hw.opened]
  refine ⟨fun ⟨name, hr, hpending⟩ => ?_, fun ⟨hr, hpending⟩ => ⟨_, hr, hpending⟩⟩
  rw [hw.filed name r hr]
  exact ⟨hr, hpending⟩

/-- **The records that a scan finds** come in ascending order of their keys, each key once. -/
theorem pendingRecords_ascending (hw : RecordTree storage store w) :
    (pendingRecords w.disk w.cwd storage).Pairwise fun a b =>
      a.submission.targetKey < b.submission.targetKey := by
  have hsorted : (pendingRecords w.disk w.cwd storage).Pairwise fun a b =>
      (!decide (b.submission.targetKey < a.submission.targetKey)) = true := by
    refine List.pairwise_mergeSort (fun a b c hab hbc => ?_) (fun a b => ?_) _
    · simp only [Bool.not_eq_true', decide_eq_false_iff_not, String.not_lt] at hab hbc ⊢
      exact String.le_trans hab hbc
    · simp only [Bool.or_eq_true, Bool.not_eq_true', decide_eq_false_iff_not, String.not_lt]
      exact String.le_total _ _
  have hdistinct : (pendingRecords w.disk w.cwd storage).Pairwise fun a b =>
      a.submission.targetKey ≠ b.submission.targetKey := by
    have hperm : (pendingRecords w.disk w.cwd storage).Perm
        ((targetNames w.disk w.cwd storage).filterMap fun n =>
          (pendingIn (sourcesIn storage) w.disk w.cwd n).toOption.join) := List.mergeSort_perm _ _
    refine hperm.symm.pairwise ?_ fun hab heq => hab heq.symm
    have hnames : (targetNames w.disk w.cwd storage).Pairwise fun n m =>
        n ∈ targetNames w.disk w.cwd storage ∧ m ∈ targetNames w.disk w.cwd storage ∧ n ≠ m :=
      (List.Pairwise.and_mem.mp (targetNames_nodup w.disk w.cwd storage))
    refine hnames.filterMap _ ?_
    rintro n m ⟨hn, hm, hne⟩ a ha b hb heq
    have hsources := hw.opened w.disk (.refl w.disk)
    have hna := hw.filed n a ⟨(mem_targetNames_iff hsources).mp hn, load_of_pendingIn ha⟩
    have hmb := hw.filed m b ⟨(mem_targetNames_iff hsources).mp hm, load_of_pendingIn hb⟩
    exact hne (hna.symm.trans (heq.trans hmb))
  refine (hsorted.and hdistinct).imp ?_
  rintro a b ⟨hle, hne⟩
  simp only [Bool.not_eq_true', decide_eq_false_iff_not, String.not_lt] at hle
  exact String.not_le.mp fun hge => hne (String.le_antisymm hle hge)

/-- A scan that finds those of the records that have some property. -/
theorem pendingRecords_eq_filter (hw : RecordTree storage store w) (hu : RecordTree storage store u)
    {p : JobRecord → Bool} (hmem : ∀ r, r ∈ pendingRecords u.disk u.cwd storage ↔
      r ∈ pendingRecords w.disk w.cwd storage ∧ p r = true) :
    pendingRecords u.disk u.cwd storage = (pendingRecords w.disk w.cwd storage).filter p := by
  have hirrefl : ∀ {a b : JobRecord}, a.submission.targetKey < b.submission.targetKey → a ≠ b := by
    rintro a _ hlt rfl
    exact String.lt_irrefl _ hlt
  have hfiltered := hw.pendingRecords_ascending.filter p
  have hperm : (pendingRecords u.disk u.cwd storage).Perm
      ((pendingRecords w.disk w.cwd storage).filter p) := by
    refine (List.perm_ext_iff_of_nodup (hu.pendingRecords_ascending.imp hirrefl)
      (hfiltered.imp hirrefl)).mpr fun r => ?_
    rw [hmem r, List.mem_filter]
  refine hperm.eq_of_pairwise (fun a b _ _ hab hba => ?_) hu.pendingRecords_ascending hfiltered
  exact absurd (String.lt_trans hab hba) (String.lt_irrefl _)

end RecordTree

end Decompile
