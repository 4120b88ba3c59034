/-!
# The disk

What is stored where: a finite map from places to entries. A place is the list of names from the
root down, so a place is its own address and no path has to be read to find it; paths as people
write them are looked up in `Decompile.Disk.Lookup`.

- `Entry`: a file, a directory or a symbolic link.
- `Disk`: the entries in ascending order of their places. Lexicographic order on places is the
  order of a depth-first walk that visits the entries of each directory by name.
- `Disk.find?`: the view of a disk; `find?_put`, `find?_erase` say what the operations do to it,
  and `Disk.ext_find?` that nothing else tells two disks apart.
-/

namespace Decompile

/-- The contents of a file. -/
abbrev Bytes := List UInt8

/-- Where an entry is: the names from the root down. -/
abbrev Place := List String

/-- What can stand at a place. -/
inductive Entry where
  | file (contents : Bytes) (executable : Bool)
  | directory
  | link (target : String)
  deriving DecidableEq, Repr

/-- Entries in ascending order of their places. -/
def Ascending (l : List (Place × Entry)) : Prop := l.Pairwise fun a b => a.1 < b.1

/-- Sets the entry at `p` in a list in ascending order. -/
def putEntry (p : Place) (e : Entry) : List (Place × Entry) → List (Place × Entry)
  | [] => [(p, e)]
  | (q, f) :: rest =>
    if p < q then (p, e) :: (q, f) :: rest
    else if p = q then (p, e) :: rest
    else (q, f) :: putEntry p e rest

/-- The entry at `p`. -/
def findEntry (p : Place) : List (Place × Entry) → Option Entry
  | [] => none
  | (q, f) :: rest => if p = q then some f else findEntry p rest

/-! ## The order of places -/

theorem Place.lt_irrefl (p : Place) : ¬ p < p := List.lt_irrefl p

theorem Place.lt_trans {p q r : Place} (h : p < q) (k : q < r) : p < r := List.lt_trans h k

theorem Place.lt_of_not_lt {p q : Place} (h : ¬ p < q) (k : p ≠ q) : q < p := by
  exact Decidable.byContradiction fun hn =>
    k (List.le_antisymm (List.not_lt.1 hn) (List.not_lt.1 h))

/-! ## Ascending lists -/

theorem mem_putEntry {p : Place} {e : Entry} {l : List (Place × Entry)} {x : Place × Entry}
    (h : x ∈ putEntry p e l) : x = (p, e) ∨ x ∈ l := by
  induction l with
  | nil => simpa [putEntry] using h
  | cons y rest ih =>
    obtain ⟨q, f⟩ := y
    simp only [putEntry] at h
    split at h
    · simpa using h
    · split at h
      · rcases List.mem_cons.1 h with h | h
        · exact .inl h
        · exact .inr (List.mem_cons_of_mem _ h)
      · rcases List.mem_cons.1 h with h | h
        · exact .inr (h ▸ List.mem_cons_self)
        · rcases ih h with h | h
          · exact .inl h
          · exact .inr (List.mem_cons_of_mem _ h)

theorem Ascending.putEntry {l : List (Place × Entry)} (h : Ascending l) (p : Place) (e : Entry) :
    Ascending (putEntry p e l) := by
  induction l with
  | nil => simp [Ascending, Decompile.putEntry]
  | cons y rest ih =>
    obtain ⟨q, f⟩ := y
    obtain ⟨hq, hrest⟩ := List.pairwise_cons.1 h
    simp only [Decompile.putEntry]
    split
    · next hlt =>
      refine List.pairwise_cons.2 ⟨fun x hx => ?_, h⟩
      rcases List.mem_cons.1 hx with rfl | hx
      · exact hlt
      · exact Place.lt_trans hlt (hq x hx)
    · split
      · next _ heq =>
        subst heq
        exact List.pairwise_cons.2 ⟨hq, hrest⟩
      · next hlt hne =>
        refine List.pairwise_cons.2 ⟨fun x hx => ?_, ih hrest⟩
        rcases mem_putEntry hx with rfl | hx
        · exact Place.lt_of_not_lt hlt hne
        · exact hq x hx

theorem findEntry_eq_none {p : Place} {l : List (Place × Entry)} (h : ∀ x ∈ l, p < x.1) :
    findEntry p l = none := by
  induction l with
  | nil => rfl
  | cons y rest ih =>
    have hne : p ≠ y.1 := fun heq => Place.lt_irrefl _ (heq ▸ h y List.mem_cons_self)
    simp only [findEntry, hne, if_false]
    exact ih fun x hx => h x (List.mem_cons_of_mem _ hx)

theorem findEntry_putEntry (p q : Place) (e : Entry) (l : List (Place × Entry)) :
    findEntry q (putEntry p e l) = if q = p then some e else findEntry q l := by
  induction l with
  | nil => simp [putEntry, findEntry]
  | cons y rest ih =>
    obtain ⟨r, f⟩ := y
    simp only [putEntry]
    split
    · simp [findEntry]
    · split
      · next _ heq =>
        subst heq
        by_cases hq : q = p <;> simp [findEntry, hq]
      · next _ hne =>
        by_cases hq : q = r
        · subst hq
          have : q ≠ p := fun h => hne h.symm
          simp [findEntry, this]
        · simp [findEntry, hq, ih]

/-- Two ascending lists that answer every question alike are the same. -/
theorem Ascending.ext {l k : List (Place × Entry)} (hl : Ascending l) (hk : Ascending k)
    (h : ∀ p, findEntry p l = findEntry p k) : l = k := by
  induction l generalizing k with
  | nil =>
    cases k with
    | nil => rfl
    | cons y rest => simpa [findEntry] using h y.1
  | cons x l ih =>
    cases k with
    | nil => simpa [findEntry] using h x.1
    | cons y k =>
      obtain ⟨hx, hl'⟩ := List.pairwise_cons.1 hl
      obtain ⟨hy, hk'⟩ := List.pairwise_cons.1 hk
      have hxy : x.1 = y.1 := by
        refine Decidable.byContradiction fun hne => ?_
        by_cases hlt : x.1 < y.1
        · have hnone : findEntry x.1 (y :: k) = none :=
            findEntry_eq_none fun z hz => (List.mem_cons.1 hz).elim (fun e => e ▸ hlt)
              fun hz => Place.lt_trans hlt (hy z hz)
          have := h x.1
          rw [hnone] at this
          simp [findEntry] at this
        · have hgt := Place.lt_of_not_lt hlt hne
          have hnone : findEntry y.1 (x :: l) = none :=
            findEntry_eq_none fun z hz => (List.mem_cons.1 hz).elim (fun e => e ▸ hgt)
              fun hz => Place.lt_trans hgt (hx z hz)
          have := h y.1
          rw [hnone] at this
          simp [findEntry] at this
      have hentry : x.2 = y.2 := by
        have := h x.1
        simpa [findEntry, hxy] using this
      have hhead : x = y := Prod.ext hxy hentry
      subst hhead
      congr 1
      refine ih hl' hk' fun p => ?_
      by_cases hp : p = x.1
      · subst hp
        rw [findEntry_eq_none hx, findEntry_eq_none hy]
      · have := h p
        simpa [findEntry, hp] using this

/-! ## Disks -/

/-- The entries of a disk, each at a place of its own. -/
structure Disk where
  /-- The entries in ascending order of their places. -/
  entries : List (Place × Entry)
  ascending : Ascending entries

namespace Disk

/-- The disk that holds nothing but the root directory. -/
def empty : Disk := ⟨[([], .directory)], List.pairwise_singleton _ _⟩

instance : Inhabited Disk := ⟨empty⟩

/-- The entry at a place. -/
def find? (d : Disk) (p : Place) : Option Entry := findEntry p d.entries

/-- The disk with the entry `e` at `p`. -/
def put (d : Disk) (p : Place) (e : Entry) : Disk :=
  ⟨putEntry p e d.entries, d.ascending.putEntry p e⟩

/-- The disk with nothing at `p`. -/
def erase (d : Disk) (p : Place) : Disk :=
  ⟨d.entries.filter fun x => x.1 ≠ p, d.ascending.filter _⟩

/-- The place below `p` that an address starting with `p` names. -/
def below? (p : Place) : Place → Option Place
  | [] => if p = [] then some [] else none
  | n :: rest =>
    match p with
    | [] => some (n :: rest)
    | m :: q => if m = n then below? q rest else none

/-- The entries strictly below `p`, with their places relative to `p`, in the order of a
depth-first walk. -/
def below (d : Disk) (p : Place) : List (Place × Entry) :=
  d.entries.filterMap fun x =>
    match below? p x.1 with
    | some (n :: rest) => some (n :: rest, x.2)
    | _ => none

/-- The names in the directory `p` with their entries, by name. -/
def children (d : Disk) (p : Place) : List (String × Entry) :=
  (d.below p).filterMap fun x =>
    match x.1 with
    | [n] => some (n, x.2)
    | _ => none

theorem find?_put (d : Disk) (p q : Place) (e : Entry) :
    (d.put p e).find? q = if q = p then some e else d.find? q :=
  findEntry_putEntry p q e d.entries

theorem findEntry_filter (p q : Place) (l : List (Place × Entry)) :
    findEntry q (l.filter fun x => x.1 ≠ p) = if q = p then none else findEntry q l := by
  induction l with
  | nil => simp [findEntry]
  | cons y rest ih =>
    obtain ⟨r, f⟩ := y
    by_cases hr : r = p <;> by_cases hq : q = r <;> simp_all [findEntry]

theorem find?_erase (d : Disk) (p q : Place) :
    (d.erase p).find? q = if q = p then none else d.find? q :=
  findEntry_filter p q d.entries

/-- Two disks with the same entry at every place are the same. -/
theorem ext_find? {d e : Disk} (h : ∀ p, d.find? p = e.find? p) : d = e := by
  obtain ⟨l, hl⟩ := d
  obtain ⟨k, hk⟩ := e
  obtain rfl : l = k := hl.ext hk h
  rfl

end Disk

end Decompile
