import Decompile.Disk.Change
import Decompile.Proofs.Disk.Paths

/-!
# Disks without links

On a disk without links the place of a path does not depend on the disk, so what an operation on a
path touches can be told from the path.

- `Disk.Plain`: no links, and names that entries can have.
- `Disk.Plain.locate`, `entryAt`, `read`: looking up a path.
- `Disk.Plain.walk`: what a walk finds.
- `Change.Sound`: a change that an operation on a path may come to; `Disk.Plain.apply` says that it
  leaves a plain disk behind, and `Disk.Plain.planCreate` and those after it that the operations come
  to such changes.
-/

namespace Decompile

/-- No links, and names that entries can have. -/
structure Disk.Plain (d : Disk) : Prop where
  linkless : ∀ p t, d.find? p ≠ some (.link t)
  named : ∀ p e, d.find? p = some e → ∀ n ∈ p, IsEntryName n

/-! ## Entries -/

/-- An entry that was found is in the list. -/
theorem mem_of_findEntry {l : List (Place × Entry)} {p : Place} {e : Entry}
    (h : findEntry p l = some e) : (p, e) ∈ l := by
  induction l with
  | nil => cases h
  | cons x rest ih =>
    obtain ⟨q, f⟩ := x
    rw [findEntry] at h
    split at h
    · next hp =>
      rw [hp, Option.some.inj h]
      exact List.mem_cons_self
    · exact List.mem_cons_of_mem _ (ih h)

theorem findEntry_of_mem {l : List (Place × Entry)} (hl : Ascending l) {p : Place} {e : Entry}
    (h : (p, e) ∈ l) : findEntry p l = some e := by
  induction l with
  | nil => cases h
  | cons x rest ih =>
    obtain ⟨q, f⟩ := x
    obtain ⟨hfirst, hrest⟩ := List.pairwise_cons.mp hl
    rcases List.mem_cons.mp h with heq | hmem
    · obtain ⟨rfl, rfl⟩ := Prod.mk.inj heq
      simp [findEntry]
    · have hne : p ≠ q := by
        rintro rfl
        exact Place.lt_irrefl p (hfirst (p, e) hmem)
      rw [findEntry, if_neg hne]
      exact ih hrest hmem

/-- The entry is a link. -/
def Entry.isLink : Entry → Bool
  | link _ => true
  | file _ _ | directory => false

namespace Disk

variable {d : Disk} {cwd : Place} {p : FilePath}

theorem plain_iff : d.Plain ↔
    ∀ x ∈ d.entries, x.2.isLink = false ∧ ∀ n ∈ x.1, IsEntryName n := by
  constructor
  · intro hd x hx
    have hfound : d.find? x.1 = some x.2 := findEntry_of_mem d.ascending hx
    refine ⟨?_, hd.named _ _ hfound⟩
    cases he : x.2 with
    | link t => exact absurd (he ▸ hfound) (hd.linkless _ t)
    | _ => rfl
  · intro hall
    refine ⟨fun p t hfound => ?_, fun p e hfound => (hall _ (mem_of_findEntry hfound)).2⟩
    cases (hall _ (mem_of_findEntry hfound)).1

instance (d : Disk) : Decidable d.Plain := decidable_of_iff _ plain_iff.symm

theorem eq_append_of_below? {p q r : Place} (h : below? p q = some r) : q = p ++ r := by
  induction q generalizing p with
  | nil =>
    unfold below? at h
    split at h
    · next hp =>
      obtain rfl := Option.some.inj h
      rw [hp]
      rfl
    · cases h
  | cons n q ih =>
    unfold below? at h
    cases p with
    | nil => exact Option.some.inj h
    | cons m p =>
      simp only at h
      split at h
      · next hn => rw [hn, ih h, List.cons_append]
      · cases h

/-- What stands below a place stands on the disk. -/
theorem find?_of_mem_below {p : Place} {x : Place × Entry} (hx : x ∈ d.below p) :
    d.find? (p ++ x.1) = some x.2 := by
  obtain ⟨⟨q, e⟩, hmem, hsome⟩ := List.mem_filterMap.mp hx
  split at hsome
  · next n rest hbelow =>
    obtain rfl := Option.some.inj hsome
    rw [← eq_append_of_below? hbelow]
    exact findEntry_of_mem d.ascending hmem
  · cases hsome

theorem find?_of_mem_children {p : Place} {x : String × Entry} (hx : x ∈ d.children p) :
    d.find? (p ++ [x.1]) = some x.2 := by
  obtain ⟨⟨q, e⟩, hmem, hsome⟩ := List.mem_filterMap.mp hx
  split at hsome
  · next n hone =>
    obtain rfl := Option.some.inj hsome
    have hfound := find?_of_mem_below hmem
    rwa [hone] at hfound
  · cases hsome

/-! ## Looking up paths -/

namespace Plain

theorem follow (hd : d.Plain) {free through : Bool} {here : Place} {names : List String}
    {f : Followed} (hf : d.follow free through here names = .ok f) :
    f = .arrived (Place.walk here names) := by
  induction names generalizing here with
  | nil =>
    obtain rfl := Except.ok.inj hf
    rfl
  | cons n rest ih =>
    unfold Disk.follow at hf
    split at hf
    · next hup =>
      rw [Place.walk, if_pos hup]
      exact ih hf
    · next hup =>
      rw [Place.walk, if_neg hup]
      have hlast : ∀ {g : Followed}, (free && rest.isEmpty) = true →
          Except.ok (.arrived (here ++ [n])) = (Except.ok g : Except IoError Followed) →
            g = .arrived (Place.walk (here ++ [n]) rest) := by
        intro g hfree hg
        obtain rfl := Except.ok.inj hg
        rw [Bool.and_eq_true] at hfree
        rw [List.isEmpty_iff.mp hfree.2]
        rfl
      split at hf
      · cases hf
      · simp only at hf
        split at hf
        · exact ih hf
        · next t hlink => exact absurd hlink (hd.linkless _ t)
        · split at hf
          · next hfree => exact hlast hfree hf
          · cases hf
        · split at hf
          · next hfree => exact hlast hfree hf
          · cases hf

theorem locate (hd : d.Plain) {through : Bool} {q : Place} {e : PathEnd}
    (hq : d.locate cwd through p = .ok (q, e)) : q = p.place cwd ∧ e = p.ending := by
  unfold Disk.locate at hq
  split at hq
  · cases hq
  · split at hq
    · cases hq
    · unfold Disk.locateFrom at hq
      split at hq
      · cases hq
      · next hf =>
        have harrived := hd.follow hf
        obtain ⟨rfl, rfl⟩ := Prod.mk.inj (Except.ok.inj hq)
        exact ⟨Followed.arrived.inj harrived, rfl⟩
      · next hf => cases hd.follow hf

theorem entryAt (hd : d.Plain) {through : Bool} {q : Place} {e : Entry}
    (hq : d.entryAt cwd through p = .ok (q, e)) : q = p.place cwd ∧ d.find? q = some e := by
  unfold Disk.entryAt at hq
  split at hq
  · cases hq
  · next place ending hlocate =>
    obtain ⟨rfl, -⟩ := hd.locate hlocate
    split at hq
    · cases hq
    · next c x hfound =>
      split at hq
      · obtain ⟨rfl, rfl⟩ := Prod.mk.inj (Except.ok.inj hq)
        exact ⟨rfl, hfound⟩
      · cases hq
    · next f hfound =>
      obtain ⟨rfl, rfl⟩ := Prod.mk.inj (Except.ok.inj hq)
      exact ⟨rfl, hfound⟩

theorem read (hd : d.Plain) {bytes : Bytes} (hread : d.read cwd p = .ok bytes) :
    ∃ x, d.find? (p.place cwd) = some (.file bytes x) := by
  unfold Disk.read at hread
  split at hread
  · cases hread
  · next c x hentry =>
    obtain rfl := Except.ok.inj hread
    obtain ⟨rfl, hfound⟩ := hd.entryAt hentry
    exact ⟨x, hfound⟩
  · cases hread

/-- A walk finds files at or below its root, under the names they have there. -/
theorem walk (hd : d.Plain) {f : Found} (hf : f ∈ d.walk cwd p) :
    f.path = childPath p f.names ∧ (∀ n ∈ f.names, IsEntryName n) ∧
      ∃ x, d.find? (p.place cwd ++ f.names) = some (.file f.contents x) := by
  unfold Disk.walk at hf
  split at hf
  · next c x hentry =>
    obtain rfl := List.mem_singleton.mp hf
    obtain ⟨rfl, hfound⟩ := hd.entryAt hentry
    exact ⟨rfl, fun n hn => absurd hn List.not_mem_nil, x, by rwa [List.append_nil]⟩
  · split at hf
    · next place hentry =>
      obtain ⟨rfl, -⟩ := hd.entryAt hentry
      obtain ⟨⟨names, e⟩, hmem, hsome⟩ := List.mem_filterMap.mp hf
      have hfound := find?_of_mem_below hmem
      split at hsome
      · next c x hfile =>
        obtain rfl := Option.some.inj hsome
        refine ⟨rfl, fun n hn => hd.named _ _ hfound n (List.mem_append_right _ hn), x, ?_⟩
        rw [hfound, hfile]
      · cases hsome
    · cases hf
  · cases hf

/-- The names in a directory are names that entries can have. -/
theorem list (hd : d.Plain) {entries : List (String × Entry)} (hlist : d.list cwd p = .ok entries)
    {x : String × Entry} (hx : x ∈ entries) :
    IsEntryName x.1 ∧ d.find? (p.place cwd ++ [x.1]) = some x.2 := by
  unfold Disk.list at hlist
  split at hlist
  · cases hlist
  · next place hentry =>
    obtain rfl := Except.ok.inj hlist
    obtain ⟨rfl, -⟩ := hd.entryAt hentry
    have hfound := find?_of_mem_children hx
    exact ⟨hd.named _ _ hfound _ (List.mem_append_right _ List.mem_cons_self), hfound⟩
  · cases hlist

end Plain

end Disk

/-! ## Changes -/

/-- The change makes no link, replaces no directory, and gives entries names they can have. -/
def Change.Sound (c : Change) (d : Disk) : Prop :=
  match c with
  | .makeDirectory q => d.find? q = none ∧ ∀ n ∈ q, IsEntryName n
  | .create q _ | .replace q _ => d.find? q ≠ some .directory ∧ ∀ n ∈ q, IsEntryName n
  | .append _ _ | .remove _ => True
  | .link _ _ => False

namespace Disk.Plain

variable {d : Disk} {cwd : Place} {p : FilePath} {c : Change}

theorem put (hd : d.Plain) {q : Place} {e : Entry} (he : ∀ t, e ≠ .link t)
    (hq : ∀ n ∈ q, IsEntryName n) : (d.put q e).Plain := by
  constructor
  · intro r t
    rw [find?_put]
    split
    · exact fun heq => he t (Option.some.inj heq)
    · exact hd.linkless r t
  · intro r f
    rw [find?_put]
    split
    · next heq => exact fun _ => heq ▸ hq
    · exact hd.named r f

theorem apply (hd : d.Plain) (hc : c.Sound d) : (d.apply c).Plain := by
  cases c with
  | makeDirectory q => exact hd.put (fun t ht => by cases ht) hc.2
  | create q x => exact hd.put (fun t ht => by cases ht) hc.2
  | replace q b => exact hd.put (fun t ht => by cases ht) hc.2
  | link q t => exact hc.elim
  | append q more =>
    simp only [Disk.apply]
    split
    · next b x hfile => exact hd.put (fun t ht => by cases ht) (hd.named q _ hfile)
    · exact hd
  | remove q =>
    constructor
    · intro r t
      rw [Disk.apply, find?_erase]
      split
      · intro hlink
        cases hlink
      · exact hd.linkless r t
    · intro r f
      rw [Disk.apply, find?_erase]
      split
      · intro hnone
        cases hnone
      · exact hd.named r f

/-! ## Operations on paths -/

theorem planMakeDirectory (hd : d.Plain) (hcwd : ∀ n ∈ cwd, IsEntryName n)
    (hc : d.planMakeDirectory cwd p = .ok c) :
    c = .makeDirectory (p.place cwd) ∧ c.Sound d := by
  unfold Disk.planMakeDirectory at hc
  split at hc
  · cases hc
  · next place ending hlocate =>
    obtain ⟨rfl, -⟩ := hd.locate hlocate
    split at hc
    · cases hc
    · next hfree =>
      obtain rfl := Except.ok.inj hc
      rw [Bool.or_eq_true, not_or] at hfree
      exact ⟨rfl, by simpa using hfree.2, FilePath.names_place hcwd p⟩

theorem planCreate (hd : d.Plain) (hcwd : ∀ n ∈ cwd, IsEntryName n) {executable : Bool}
    (hc : d.planCreate cwd p executable = .ok c) :
    (∃ x, c = .create (p.place cwd) x) ∧ c.Sound d := by
  unfold Disk.planCreate at hc
  split at hc
  · cases hc
  · next place ending hlocate =>
    obtain ⟨rfl, -⟩ := hd.locate hlocate
    have hnames := FilePath.names_place hcwd p
    split at hc
    · cases hc
    · next b x hfile =>
      split at hc
      · obtain rfl := Except.ok.inj hc
        exact ⟨⟨x, rfl⟩, by rw [hfile]; nofun, hnames⟩
      · cases hc
    · cases hc
    · next hnone =>
      split at hc
      · obtain rfl := Except.ok.inj hc
        exact ⟨⟨executable, rfl⟩, by rw [hnone]; nofun, hnames⟩
      · cases hc

theorem planReplace (hd : d.Plain) (hcwd : ∀ n ∈ cwd, IsEntryName n) {contents : Bytes}
    (hc : d.planReplace cwd p contents = .ok c) :
    c = .replace (p.place cwd) contents ∧ c.Sound d := by
  unfold Disk.planReplace at hc
  split at hc
  · cases hc
  · next place ending hlocate =>
    obtain ⟨rfl, -⟩ := hd.locate hlocate
    split at hc
    · cases hc
    · cases hc
    · cases hc
    · next hfree =>
      obtain rfl := Except.ok.inj hc
      exact ⟨rfl, hfree, FilePath.names_place hcwd p⟩

theorem planRemoveFile (hd : d.Plain) (hc : d.planRemoveFile cwd p = .ok c) :
    c = .remove (p.place cwd) := by
  unfold Disk.planRemoveFile at hc
  split at hc
  · cases hc
  · cases hc
  · next place e hfree hentry =>
    obtain rfl := Except.ok.inj hc
    rw [(hd.entryAt hentry).1]

theorem planRemoveTree (hd : d.Plain) {cs : List Change} (hcs : d.planRemoveTree cwd p = .ok cs) :
    ∀ c ∈ cs, ∃ rest, c = .remove (p.place cwd ++ rest) := by
  unfold Disk.planRemoveTree at hcs
  split at hcs
  · cases hcs
  · cases hcs
  · next place t hentry => exact absurd (hd.entryAt hentry).2 (hd.linkless _ t)
  · next place hentry =>
    obtain ⟨rfl, -⟩ := hd.entryAt hentry
    obtain rfl := Except.ok.inj hcs
    intro c hc
    rcases List.mem_append.mp hc with hc | hc
    · obtain ⟨x, -, rfl⟩ := List.mem_map.mp hc
      exact ⟨x.1, rfl⟩
    · obtain rfl := List.mem_singleton.mp hc
      exact ⟨[], by rw [List.append_nil]⟩

end Disk.Plain

end Decompile
