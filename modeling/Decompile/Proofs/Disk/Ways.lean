import Decompile.Proofs.Disk.Paths

/-!
# Ways below a directory

Where a path leads on a disk with links depends on the disk. A path that is written as another one
with more steps behind it goes on from where that one leads, and if those steps never turn back
behind their start and meet no link, the rest of the way can be read off the path.

- `Place.stays`: steps that never leave the directory they start from.
- `FilePath.Leads`: the path is written as another one with such steps behind it, which lead to the
  given names.
- `FilePath.Leads.join`, `child`, `childPath`, `textOfComponents`: longer paths.
-/

namespace Decompile

/-! ## Steps that stay -/

namespace Place

/-- Steps that never leave the directory in which `depth` names have been entered. -/
def stays : (depth : Nat) → List String → Bool
  | _, [] => true
  | depth, n :: ns =>
    if n = ".." then
      match depth with
      | 0 => false
      | depth + 1 => stays depth ns
    else stays (depth + 1) ns

theorem stays_mono {ns : List String} {depth deeper : Nat} (h : depth ≤ deeper)
    (hs : stays depth ns = true) : stays deeper ns = true := by
  induction ns generalizing depth deeper with
  | nil => rfl
  | cons n ns ih =>
    unfold stays at hs ⊢
    split at hs
    · next hup =>
      rw [if_pos hup]
      cases depth with
      | zero => cases hs
      | succ depth =>
        obtain ⟨k, rfl⟩ := Nat.exists_eq_add_of_le' (Nat.lt_of_lt_of_le depth.succ_pos h)
        exact ih (Nat.le_of_succ_le_succ h) hs
    · next hup =>
      rw [if_neg hup]
      exact ih (Nat.succ_le_succ h) hs

theorem stays_append {a b : List String} {depth : Nat} (ha : stays depth a = true)
    (hb : stays 0 b = true) : stays depth (a ++ b) = true := by
  induction a generalizing depth with
  | nil => exact stays_mono (Nat.zero_le _) hb
  | cons n a ih =>
    rw [List.cons_append]
    unfold stays at ha ⊢
    split at ha
    · next hup =>
      rw [if_pos hup]
      cases depth with
      | zero => cases ha
      | succ depth => exact ih ha
    · next hup =>
      rw [if_neg hup]
      exact ih ha

theorem stays_names {ns : List String} (hns : ∀ n ∈ ns, IsEntryName n) (depth : Nat) :
    stays depth ns = true := by
  induction ns generalizing depth with
  | nil => rfl
  | cons n ns ih =>
    unfold stays
    rw [if_neg (hns n List.mem_cons_self).2.2.1]
    exact ih (fun m hm => hns m (List.mem_cons_of_mem _ hm)) _

/-- Steps that stay lead to a place below their start. -/
theorem walk_of_stays {ns : List String} {here rest : Place} (hs : stays rest.length ns = true) :
    walk (here ++ rest) ns = here ++ walk rest ns := by
  induction ns generalizing rest with
  | nil => rfl
  | cons n ns ih =>
    unfold stays at hs
    unfold walk
    split at hs
    · next hup =>
      rw [if_pos hup, if_pos hup]
      cases hrest : rest.length with
      | zero =>
        rw [hrest] at hs
        cases hs
      | succ depth =>
        rw [hrest] at hs
        have hne : rest ≠ [] := by
          rintro rfl
          cases hrest
        have hlen : rest.dropLast.length = depth := by rw [List.length_dropLast, hrest]; rfl
        rw [List.dropLast_append_of_ne_nil hne, ih (by rw [hlen]; exact hs)]
    · next hup =>
      rw [if_neg hup, if_neg hup, List.append_assoc]
      exact ih (by rw [List.length_append]; exact hs)

theorem walk_of_stays_nil {ns : List String} {here : Place} (hs : stays 0 ns = true) :
    walk here ns = here ++ walk [] ns := by
  have hwalk : walk (here ++ []) ns = here ++ walk [] ns := walk_of_stays hs
  rwa [List.append_nil] at hwalk

end Place

/-- What stays below a directory by its components does so by its steps. -/
theorem Zip.stays_of_staysBelow {cs : List FilePath.Component} {depth : Nat}
    (hcs : staysBelow depth cs = true) (hnames : ∀ n, .name n ∈ cs → n ≠ "..") :
    Place.stays depth (cs.filterMap FilePath.Component.step?) = true := by
  induction cs generalizing depth with
  | nil => rfl
  | cons c cs ih =>
    replace ih := fun {depth} hcs => @ih depth hcs fun n hn => hnames n (List.mem_cons_of_mem _ hn)
    unfold staysBelow at hcs
    cases c with
    | root => cases hcs
    | here => exact ih hcs
    | name n =>
      show Place.stays depth (n :: cs.filterMap FilePath.Component.step?) = true
      unfold Place.stays
      rw [if_neg (hnames n List.mem_cons_self)]
      exact ih hcs
    | up =>
      cases depth with
      | zero => cases hcs
      | succ depth => exact ih hcs

/-- The steps of an enclosed name never leave the directory it is unpacked into. -/
theorem Zip.stays_of_isEnclosed {name : String} (hname : isEnclosed name = true) :
    Place.stays 0 (⟨name⟩ : FilePath).steps = true := by
  rw [isEnclosed, Bool.and_eq_true] at hname
  rw [← FilePath.filterMap_step?_components]
  exact stays_of_staysBelow hname.2 fun n hn => (FilePath.isEntryName_of_mem_components hn).2.2.1

/-! ## Paths that lead below a directory -/

namespace FilePath

/-- The path is written as `root` with more steps behind it. They never leave the directory that
`root` leads to, and lead to the names `rest` below it. -/
structure Leads (root : FilePath) (rest : Place) (p : FilePath) : Prop where
  absolute : p.isAbsolute = root.isAbsolute
  behind : ∃ more, more ≠ [] ∧ p.steps = root.steps ++ more ∧ Place.stays 0 more = true ∧
    Place.walk [] more = rest

namespace Leads

variable {root p q : FilePath} {rest : Place}

/-- The names that a path leads to are names that entries can have. -/
theorem names (hp : Leads root rest p) : ∀ n ∈ rest, IsEntryName n := by
  obtain ⟨more, -, hsteps, -, rfl⟩ := hp.behind
  refine Place.names_walk (fun n hn => absurd hn List.not_mem_nil) fun n hn => ?_
  exact mem_steps (p := p) (hsteps ▸ List.mem_append_right _ hn)

/-- A way behind another one. -/
theorem trans {more : Place} (hp : Leads root rest p) (hq : Leads p more q) :
    Leads root (rest ++ more) q := by
  obtain ⟨first, hne, hsteps, hfirst, rfl⟩ := hp.behind
  obtain ⟨second, -, hsteps', hsecond, rfl⟩ := hq.behind
  refine ⟨hq.absolute.trans hp.absolute, first ++ second,
    List.append_ne_nil_of_left_ne_nil hne _, ?_, Place.stays_append hfirst hsecond, ?_⟩
  · rw [hsteps', hsteps, List.append_assoc]
  · rw [Place.walk_append, Place.walk_of_stays_nil hsecond]

/-- A path that goes on from another one. -/
theorem join (hp : Leads root rest p) (hq : q.isAbsolute = false)
    (hstays : Place.stays 0 q.steps = true) :
    Leads root (rest ++ Place.walk [] q.steps) (p.join q) := by
  obtain ⟨more, hne, hsteps, hmore, rfl⟩ := hp.behind
  refine ⟨(isAbsolute_join hq).trans hp.absolute, more ++ q.steps,
    List.append_ne_nil_of_left_ne_nil hne _, ?_, Place.stays_append hmore hstays, ?_⟩
  · rw [steps_join hq, hsteps, List.append_assoc]
  · rw [Place.walk_append, Place.walk_of_stays_nil hstays]

theorem child (hp : Leads root rest p) {n : String} (hn : IsEntryName n) :
    Leads root (rest ++ [n]) (p.join ⟨n⟩) := by
  have hstep := steps_of_isEntryName hn
  have hnames : ∀ m ∈ [n], IsEntryName m := fun m hm => by rwa [List.mem_singleton.mp hm]
  have hjoin := hp.join (isAbsolute_of_isEntryName hn)
    (by rw [hstep]; exact Place.stays_names hnames 0)
  rw [hstep, Place.walk_names _ hnames] at hjoin
  exact hjoin

/-- The first path below a directory. -/
theorem ofChild {n : String} (hn : IsEntryName n) : Leads root [n] (root.join ⟨n⟩) := by
  have hrelative := isAbsolute_of_isEntryName hn
  have hnames : ∀ m ∈ [n], IsEntryName m := fun m hm => by rwa [List.mem_singleton.mp hm]
  refine ⟨isAbsolute_join hrelative, [n], List.cons_ne_nil _ _, ?_, Place.stays_names hnames 0, ?_⟩
  · rw [steps_join hrelative, steps_of_isEntryName hn]
  · exact Place.walk_names _ hnames

theorem childPath {names : List String} (hp : Leads root rest p)
    (hnames : ∀ n ∈ names, IsEntryName n) :
    Leads root (rest ++ names) (Disk.childPath p names) := by
  unfold Disk.childPath
  induction names generalizing p rest with
  | nil =>
    rw [List.append_nil]
    exact hp
  | cons n names ih =>
    have hnext := ih (hp.child (hnames n List.mem_cons_self)) fun m hm =>
      hnames m (List.mem_cons_of_mem _ hm)
    rw [List.append_assoc] at hnext
    exact hnext

/-- Names written one behind the other below a directory. -/
theorem textOfComponents {names : List String} (hp : Leads root rest p)
    (hnames : ∀ n ∈ names, IsEntryName n) :
    Leads root (rest ++ names) (p.join ⟨FilePath.textOfComponents (names.map .name)⟩) := by
  have hsteps := steps_textOfComponents hnames
  have hjoin := hp.join (isAbsolute_textOfComponents hnames)
    (by rw [hsteps]; exact Place.stays_names hnames 0)
  rw [hsteps, Place.walk_names _ hnames] at hjoin
  exact hjoin

/-- A member of an archive is written below the directory it is unpacked into. -/
theorem member (hp : Leads root rest p) {name : String} (hname : Zip.isEnclosed name = true) :
    Leads root (rest ++ (⟨name⟩ : FilePath).place []) (p.join ⟨name⟩) := by
  have hrelative := Zip.isAbsolute_of_isEnclosed hname
  have hplace : (⟨name⟩ : FilePath).place [] = Place.walk [] (⟨name⟩ : FilePath).steps := by
    rw [place, hrelative]
    rfl
  rw [hplace]
  exact hp.join hrelative (Zip.stays_of_isEnclosed hname)

end Leads

end FilePath

end Decompile
