import Decompile.Proofs.Disk.Anchored

/-!
# Disks that differ in contents only

Where a path leads, and what may be made there, depends on which entries stand where, and not on what
the files contain.

- `Disk.Alike`: the same entries stand at the same places, with files of perhaps other contents.
- `Alike.locate` and the lemmas after it: paths are looked up alike, and the same is planned.
- `Disk.GrowsTo`: what stands on one disk stands on the other, with files of perhaps other contents.
-/

namespace Decompile

/-- The entry, a file without its contents. -/
def Entry.emptied : Entry → Entry
  | file _ x => file [] x
  | e => e

@[simp] theorem Entry.emptied_directory : emptied .directory = .directory := rfl

@[simp] theorem Entry.emptied_link (t : String) : emptied (.link t) = .link t := rfl

@[simp] theorem Entry.emptied_file (c : Bytes) (x : Bool) : emptied (.file c x) = .file [] x := rfl

theorem Entry.emptied_eq_directory_iff {e : Entry} : e.emptied = .directory ↔ e = .directory := by
  cases e <;> simp

theorem Entry.emptied_eq_link_iff {e : Entry} {t : String} : e.emptied = .link t ↔ e = .link t := by
  cases e <;> simp

theorem Entry.emptied_eq_file_iff {e : Entry} {x : Bool} :
    e.emptied = .file [] x ↔ ∃ c, e = .file c x := by
  cases e <;> simp

namespace Disk

variable {d d' d'' : Disk} {cwd : Place} {p : FilePath} {q : Place}

/-- The same entries stand at the same places, with files of perhaps other contents. -/
def Alike (d d' : Disk) : Prop :=
  ∀ q, (d.find? q).map Entry.emptied = (d'.find? q).map Entry.emptied

/-- What stands on one disk stands on the other, with files of perhaps other contents. -/
def GrowsTo (d d' : Disk) : Prop :=
  ∀ q e, d.find? q = some e → (d'.find? q).map Entry.emptied = some e.emptied

namespace Alike

theorem refl (d : Disk) : d.Alike d := fun _ => rfl

theorem symm (h : d.Alike d') : d'.Alike d := fun q => (h q).symm

theorem trans (h : d.Alike d') (h' : d'.Alike d'') : d.Alike d'' := fun q => (h q).trans (h' q)

variable (h : d.Alike d')
include h

theorem directory (hq : d.find? q = some .directory) : d'.find? q = some .directory := by
  have hsame := h q
  rw [hq] at hsame
  obtain ⟨e, he, hempty⟩ := Option.map_eq_some_iff.mp hsame.symm
  rw [he, Entry.emptied_eq_directory_iff.mp hempty]

theorem link {t : String} (hq : d.find? q = some (.link t)) : d'.find? q = some (.link t) := by
  have hsame := h q
  rw [hq] at hsame
  obtain ⟨e, he, hempty⟩ := Option.map_eq_some_iff.mp hsame.symm
  rw [he, Entry.emptied_eq_link_iff.mp hempty]

theorem file {c : Bytes} {x : Bool} (hq : d.find? q = some (.file c x)) :
    ∃ c', d'.find? q = some (.file c' x) := by
  have hsame := h q
  rw [hq] at hsame
  obtain ⟨e, he, hempty⟩ := Option.map_eq_some_iff.mp hsame.symm
  obtain ⟨c', rfl⟩ := Entry.emptied_eq_file_iff.mp hempty
  exact ⟨c', he⟩

theorem none (hq : d.find? q = none) : d'.find? q = none := by
  have hsame := h q
  rw [hq] at hsame
  exact Option.map_eq_none_iff.mp hsame.symm

theorem growsTo : d.GrowsTo d' := fun q e he => by rw [← h q, he]; rfl

/-! ## The same paths, the same plans -/

theorem follow (free through : Bool) (here : Place) (names : List String) :
    d.follow free through here names = d'.follow free through here names := by
  induction names generalizing here with
  | nil => rfl
  | cons n rest ih =>
    unfold Disk.follow
    rw [ih]
    cases hnext : d.find? (here ++ [n]) with
    | none => simp only [hnext, h.none hnext]
    | some e =>
      cases e with
      | directory => simp only [hnext, h.directory hnext, ih]
      | link t => simp only [hnext, h.link hnext]
      | file c x =>
        obtain ⟨c', hfile⟩ := h.file hnext
        simp only [hnext, hfile]

theorem locateFrom (through : Bool) (links : Nat) (ending : PathEnd) (here : Place)
    (names : List String) :
    d.locateFrom through links ending here names = d'.locateFrom through links ending here names := by
  induction links generalizing ending here names with
  | zero =>
    unfold Disk.locateFrom
    rw [h.follow]
  | succ links ih =>
    unfold Disk.locateFrom
    rw [h.follow]
    simp only [ih]

theorem locate (through : Bool) (p : FilePath) :
    d.locate cwd through p = d'.locate cwd through p := by
  unfold Disk.locate
  rw [h.locateFrom]

theorem planMakeDirectory (p : FilePath) :
    d.planMakeDirectory cwd p = d'.planMakeDirectory cwd p := by
  have hsome : ∀ q, (d.find? q).isSome = (d'.find? q).isSome := fun q => by
    rw [← Option.isSome_map, h q, Option.isSome_map]
  unfold Disk.planMakeDirectory
  rw [h.locate]
  simp only [hsome]

theorem planCreate (p : FilePath) (executable : Bool) :
    d.planCreate cwd p executable = d'.planCreate cwd p executable := by
  unfold Disk.planCreate
  rw [h.locate]
  cases d'.locate cwd true p with
  | error e => rfl
  | ok r =>
    obtain ⟨place, ending⟩ := r
    cases hplace : d.find? place with
    | none => simp only [hplace, h.none hplace]
    | some e =>
      cases e with
      | directory => simp only [hplace, h.directory hplace]
      | link t => simp only [hplace, h.link hplace]
      | file c x =>
        obtain ⟨c', hfile⟩ := h.file hplace
        simp only [hplace, hfile]

theorem isDirectory (p : FilePath) : d.isDirectory cwd p = d'.isDirectory cwd p := by
  unfold Disk.isDirectory Disk.entryAt
  rw [h.locate]
  cases d'.locate cwd true p with
  | error e => rfl
  | ok r =>
    obtain ⟨place, ending⟩ := r
    cases hplace : d.find? place with
    | none => simp only [hplace, h.none hplace]
    | some e =>
      cases e with
      | directory => simp only [hplace, h.directory hplace]
      | link t => simp only [hplace, h.link hplace]
      | file c x =>
        obtain ⟨c', hfile⟩ := h.file hplace
        simp only [hplace, hfile]
        by_cases hending : ending = .plain <;> simp [hending]

end Alike

/-! ## Disks that grow -/

namespace GrowsTo

theorem refl (d : Disk) : d.GrowsTo d := (Alike.refl d).growsTo

theorem trans (h : d.GrowsTo d') (h' : d'.GrowsTo d'') : d.GrowsTo d'' := by
  intro q e he
  obtain ⟨e', he', hsame⟩ := Option.map_eq_some_iff.mp (h q e he)
  rw [h' q e' he', hsame]

theorem directory (h : d.GrowsTo d') (hq : d.find? q = some .directory) :
    d'.find? q = some .directory := by
  obtain ⟨e, he, hempty⟩ := Option.map_eq_some_iff.mp (h q _ hq)
  rw [he, Entry.emptied_eq_directory_iff.mp hempty]

theorem file (h : d.GrowsTo d') {c : Bytes} {x : Bool} (hq : d.find? q = some (.file c x)) :
    ∃ c', d'.find? q = some (.file c' x) := by
  obtain ⟨e, he, hempty⟩ := Option.map_eq_some_iff.mp (h q _ hq)
  obtain ⟨c', rfl⟩ := Entry.emptied_eq_file_iff.mp hempty
  exact ⟨c', he⟩

theorem keeps (h : d.GrowsTo d') : d.Keeps d' := by
  intro q e he hfile
  obtain ⟨e', he', hempty⟩ := Option.map_eq_some_iff.mp (h q e he)
  rw [he']
  cases e with
  | directory => rw [Entry.emptied_eq_directory_iff.mp hempty]
  | link t => rw [Entry.emptied_eq_link_iff.mp hempty]
  | file => cases hfile

/-- A new entry, or one that is like the old one. -/
theorem put {e : Entry} (hq : ∀ f, d.find? q = some f → e.emptied = f.emptied) :
    d.GrowsTo (d.put q e) := by
  intro r f hr
  rw [find?_put]
  split
  · next heq => rw [Option.map_some, hq f (heq ▸ hr)]
  · rw [hr, Option.map_some]

end GrowsTo

end Disk

end Decompile
