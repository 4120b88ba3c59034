import Decompile.Proofs.Disk.Alike
import Decompile.Proofs.Disk.Parents
import Mathlib.Data.List.Induction

/-!
# Making directories step by step

A directory is made with all those above it by looking upwards for the lowest one that is there, and
by making the others after it. Below a directory without links this comes to walking down the steps,
and making what is missing on the way.

- `Disk.Rooted`: below a directory every entry stands in a directory.
- `Disk.enters`: every step leads to a directory.
- `Disk.tryMake`: what making a single directory comes to.
- `Disk.dig`: walking down the steps, and making what is missing.
- `dig_of_enters`: nothing is made where everything is there.
- `dig_again`: digging once more changes nothing, and comes to the same; only where the way turned
  back behind a directory that was made is a file in the way seen from elsewhere.
-/

namespace Decompile.Disk

variable {d d' y : Disk} {base here r : Place} {names more : List String} {made : Bool} {q : Place}

/-! ## Trees -/

/-- Below `base` every entry stands in a directory. -/
def Rooted (d : Disk) (base : Place) : Prop :=
  ∀ rest n e, d.find? (base ++ rest ++ [n]) = some e → d.find? (base ++ rest) = some .directory

/-- What is no directory has nothing below it. -/
theorem Rooted.nothing_below (hd : d.Rooted base) (hr : d.find? (base ++ r) ≠ some .directory)
    {rest : Place} (hrest : rest ≠ []) : d.find? (base ++ r ++ rest) = none := by
  induction rest using List.reverseRecOn with
  | nil => exact absurd rfl hrest
  | append_singleton rest n ih =>
    rw [List.append_assoc]
    cases hlast : d.find? (base ++ (r ++ (rest ++ [n]))) with
    | none => rfl
    | some e =>
      rw [← List.append_assoc r] at hlast
      rw [← List.append_assoc] at hlast
      have hparent := hd _ _ _ hlast
      by_cases hnil : rest = []
      · subst hnil
        rw [List.append_nil] at hparent
        exact absurd hparent hr
      · rw [← List.append_assoc, ih hnil] at hparent
        cases hparent

/-- A directory that is left upwards stands in another one. -/
theorem Rooted.dropLast (hd : d.Rooted base) (hr : d.find? (base ++ r) = some .directory)
    (hne : r ≠ []) : d.find? (base ++ r.dropLast) = some .directory := by
  rw [← List.dropLast_concat_getLast hne, ← List.append_assoc] at hr
  exact hd _ _ _ hr

/-- An entry in a directory, which is new or like the one before it. -/
theorem Rooted.put (hd : d.Rooted base) {n : String} {e : Entry}
    (hr : d.find? (base ++ r) = some .directory)
    (hold : ∀ f, d.find? (base ++ r ++ [n]) = some f → e.emptied = f.emptied) :
    (d.put (base ++ r ++ [n]) e).Rooted base := by
  intro rest m f hf
  refine (GrowsTo.put hold).directory ?_
  rw [find?_put] at hf
  split at hf
  · next heq =>
    rw [List.append_assoc, List.append_assoc] at heq
    obtain ⟨rfl, -⟩ := List.append_inj' (List.append_cancel_left heq) rfl
    exact hr
  · exact hd _ _ _ hf

/-! ## Steps -/

/-- Every step leads to a directory. -/
def enters (d : Disk) (here : Place) : List String → Bool
  | [] => true
  | n :: rest =>
    if n = ".." then d.enters here.dropLast rest
    else if nameLimit < (Text.encode n).length then false
    else
      match d.find? (here ++ [n]) with
      | some .directory => d.enters (here ++ [n]) rest
      | _ => false

/-- How it is refused to make a directory where something else stands: at the place itself, or below. -/
def blocked (here : Bool) : IoError := .fault (if here then .alreadyExists else .notDirectory)

theorem blocked_ne_notFound (here : Bool) : blocked here ≠ .fault .notFound := by
  intro heq
  cases here <;> cases heq

/-- What making the directory comes to that the steps lead to. -/
def tryMake (d : Disk) (here : Place) : List String → Except IoError Change
  | [] => .error (.fault .alreadyExists)
  | n :: rest =>
    if n = ".." then d.tryMake here.dropLast rest
    else if nameLimit < (Text.encode n).length then .error (.fault .nameTooLong)
    else
      match d.find? (here ++ [n]) with
      | some .directory => d.tryMake (here ++ [n]) rest
      | some _ => .error (blocked rest.isEmpty)
      | none =>
        if rest.isEmpty then .ok (.makeDirectory (here ++ [n])) else .error (.fault .notFound)

/-- Walks down the steps and makes what is missing. A file in the way is met from above once a
directory has been `made`, and from below otherwise. -/
def dig (d : Disk) (made : Bool) (here : Place) : List String → Except IoError Unit × Disk
  | [] => (.ok (), d)
  | n :: rest =>
    if n = ".." then d.dig made here.dropLast rest
    else if nameLimit < (Text.encode n).length then (.error (.fault .nameTooLong), d)
    else
      match d.find? (here ++ [n]) with
      | some .directory => d.dig made (here ++ [n]) rest
      | some _ => (.error (blocked (made || rest.isEmpty)), d)
      | none => (d.put (here ++ [n]) .directory).dig true (here ++ [n]) rest

/-! ## Longer ways -/

theorem enters_append (d : Disk) (here : Place) (a b : List String) :
    d.enters here (a ++ b) = (d.enters here a && d.enters (Place.walk here a) b) := by
  induction a generalizing here with
  | nil => rfl
  | cons n a ih =>
    rw [List.cons_append, enters, enters, Place.walk]
    split
    · exact ih _
    · split
      · rfl
      · split
        · exact ih _
        · rfl

/-- Making a directory behind steps that can be taken. -/
theorem tryMake_append {a : List String} (ha : d.enters here a = true) (b : List String) :
    d.tryMake here (a ++ b) = d.tryMake (Place.walk here a) b := by
  induction a generalizing here with
  | nil => rfl
  | cons n a ih =>
    rw [List.cons_append, tryMake, Place.walk]
    unfold enters at ha
    split
    · next hup =>
      rw [if_pos hup] at ha
      exact ih ha
    · next hup =>
      rw [if_neg hup] at ha
      split
      · next hlong =>
        rw [if_pos hlong] at ha
        cases ha
      · next hlong =>
        rw [if_neg hlong] at ha
        split at ha
        · next hdir =>
          simp only [hdir]
          exact ih ha
        · cases ha

/-- What can be entered is there. -/
theorem tryMake_of_enters (hnames : d.enters here names = true) :
    d.tryMake here names = .error (.fault .alreadyExists) := by
  rw [← List.append_nil names, tryMake_append hnames]
  rfl

/-- Steps that can be taken lead to a directory. -/
theorem find?_of_enters (hd : d.Rooted base) (hr : d.find? (base ++ r) = some .directory)
    (hstays : Place.stays r.length names = true) (hnames : d.enters (base ++ r) names = true) :
    d.find? (Place.walk (base ++ r) names) = some .directory := by
  induction names generalizing r with
  | nil => exact hr
  | cons n rest ih =>
    unfold Place.stays at hstays
    unfold enters at hnames
    unfold Place.walk
    split at hstays
    · next hup =>
      rw [if_pos hup] at hnames ⊢
      cases hlength : r.length with
      | zero =>
        rw [hlength] at hstays
        cases hstays
      | succ depth =>
        rw [hlength] at hstays
        have hne : r ≠ [] := List.ne_nil_of_length_eq_add_one hlength
        rw [List.dropLast_append_of_ne_nil hne] at hnames ⊢
        exact ih (hd.dropLast hr hne) (by rw [List.length_dropLast, hlength]; exact hstays) hnames
    · next hup =>
      rw [if_neg hup] at hnames ⊢
      split at hnames
      · cases hnames
      · split at hnames
        · next hdir =>
          rw [List.append_assoc] at hdir hnames ⊢
          exact ih hdir (by rw [List.length_append]; exact hstays) hnames
        · cases hnames

/-! ## What digging leaves behind -/

/-- Digging makes directories where nothing was. -/
theorem find?_dig (d : Disk) (made : Bool) (here : Place) (names : List String) (q : Place) :
    (d.dig made here names).2.find? q = d.find? q ∨
      d.find? q = none ∧ (d.dig made here names).2.find? q = some .directory := by
  induction names generalizing d made here with
  | nil => exact .inl rfl
  | cons n rest ih =>
    unfold dig
    split
    · exact ih _ _ _
    · split
      · exact .inl rfl
      · split
        · exact ih _ _ _
        · exact .inl rfl
        · next hnone =>
          have hrest := ih (d.put (here ++ [n]) .directory) true (here ++ [n])
          rw [find?_put] at hrest
          split at hrest
          · next heq =>
            subst heq
            exact .inr ⟨hnone, hrest.elim id fun h => by cases h.1⟩
          · exact hrest

theorem dig_growsTo (d : Disk) (made : Bool) (here : Place) (names : List String) :
    d.GrowsTo (d.dig made here names).2 := by
  intro q e he
  rcases d.find?_dig made here names q with hsame | ⟨hnone, -⟩
  · rw [hsame, he]
    rfl
  · rw [he] at hnone
    cases hnone

/-- Digging makes directories in directories. -/
theorem Rooted.dig (hd : d.Rooted base) (hr : d.find? (base ++ r) = some .directory)
    (hstays : Place.stays r.length names = true) : (d.dig made (base ++ r) names).2.Rooted base := by
  induction names generalizing d made r with
  | nil => exact hd
  | cons n rest ih =>
    unfold Place.stays at hstays
    unfold Disk.dig
    split at hstays
    · next hup =>
      rw [if_pos hup]
      cases hlength : r.length with
      | zero =>
        rw [hlength] at hstays
        cases hstays
      | succ depth =>
        rw [hlength] at hstays
        have hne : r ≠ [] := List.ne_nil_of_length_eq_add_one hlength
        rw [List.dropLast_append_of_ne_nil hne]
        exact ih hd (hd.dropLast hr hne) (by rw [List.length_dropLast, hlength]; exact hstays)
    · next hup =>
      rw [if_neg hup]
      have hmore : Place.stays (r ++ [n]).length rest = true := by
        rw [List.length_append]
        exact hstays
      split
      · exact hd
      · split
        · next hdir =>
          rw [List.append_assoc] at hdir ⊢
          exact ih hd hdir hmore
        · exact hd
        · next hnone =>
          have hput := hd.put (e := .directory) hr fun f hf => by rw [hnone] at hf; cases hf
          rw [List.append_assoc] at hput ⊢
          exact ih hput (by rw [find?_put, if_pos rfl]) hmore

/-- What digging has made can be entered. -/
theorem enters_dig (hdone : (d.dig made here names).1 = .ok ()) :
    (d.dig made here names).2.enters here names = true := by
  induction names generalizing d made here with
  | nil => rfl
  | cons n rest ih =>
    unfold dig at hdone ⊢
    unfold enters
    by_cases hup : n = ".."
    · rw [if_pos hup] at hdone
      simp only [if_pos hup]
      exact ih hdone
    rw [if_neg hup] at hdone
    simp only [if_neg hup]
    by_cases hlong : nameLimit < (Text.encode n).length
    · rw [if_pos hlong] at hdone
      cases hdone
    rw [if_neg hlong] at hdone
    simp only [if_neg hlong]
    cases hnext : d.find? (here ++ [n]) with
    | none =>
      simp only [hnext] at hdone ⊢
      rw [(dig_growsTo _ _ _ _).directory (by rw [find?_put, if_pos rfl])]
      exact ih hdone
    | some e =>
      cases e with
      | directory =>
        simp only [hnext] at hdone ⊢
        rw [(dig_growsTo _ _ _ _).directory hnext]
        exact ih hdone
      | link t =>
        simp only [hnext] at hdone
        cases hdone
      | file c x =>
        simp only [hnext] at hdone
        cases hdone

/-- Nothing is made where everything is there. -/
theorem dig_of_enters (hnames : d.enters here names = true) (made : Bool) :
    d.dig made here names = (.ok (), d) := by
  induction names generalizing here with
  | nil => rfl
  | cons n rest ih =>
    unfold enters at hnames
    unfold dig
    split
    · next hup =>
      rw [if_pos hup] at hnames
      exact ih hnames
    · next hup =>
      rw [if_neg hup] at hnames
      split
      · next hlong =>
        rw [if_pos hlong] at hnames
        cases hnames
      · next hlong =>
        rw [if_neg hlong] at hnames
        split at hnames
        · next hdir =>
          simp only [hdir]
          exact ih hnames
        · cases hnames

/-- Where directories stay, steps can still be taken. -/
theorem enters_of_directories
    (hdirs : ∀ q, d.find? q = some .directory → d'.find? q = some .directory)
    (hnames : d.enters here names = true) : d'.enters here names = true := by
  induction names generalizing here with
  | nil => rfl
  | cons n rest ih =>
    unfold enters at hnames ⊢
    split
    · next hup =>
      rw [if_pos hup] at hnames
      exact ih hnames
    · next hup =>
      rw [if_neg hup] at hnames
      split
      · next hlong =>
        rw [if_pos hlong] at hnames
        cases hnames
      · next hlong =>
        rw [if_neg hlong] at hnames
        split at hnames
        · next hdir =>
          simp only [hdirs _ hdir]
          exact ih hnames
        · cases hnames

/-! ## Digging once more -/

/-- Digging once more, where all that was made is there, changes nothing and comes to the same. Only
where the way turned back behind a directory that was made is a file in the way met from elsewhere. -/
theorem dig_again {turns : Prop} (hd : d.Rooted base) (hr : d.find? (base ++ r) = some .directory)
    (hstays : Place.stays r.length names = true) (hturns : ".." ∈ names → turns)
    (hfresh : made = true → turns ∨ ∀ rest, rest ≠ [] → d.find? (base ++ r ++ rest) = none)
    (hy : y.Alike (d.dig made (base ++ r) names).2) :
    ∃ result, y.dig false (base ++ r) names = (result, y) ∧
      (result = (d.dig made (base ++ r) names).1 ∨
        turns ∧ (d.dig made (base ++ r) names).1 = .error (.fault .alreadyExists) ∧
          result = .error (.fault .notDirectory)) := by
  induction names generalizing d made r with
  | nil => exact ⟨.ok (), rfl, .inl rfl⟩
  | cons n rest ih =>
    have hturns' : ".." ∈ rest → turns := fun hmem => hturns (List.mem_cons_of_mem _ hmem)
    unfold Place.stays at hstays
    unfold dig at hy ⊢
    by_cases hup : n = ".."
    · rw [if_pos hup] at hstays hy
      simp only [if_pos hup]
      have hback : turns := hturns (hup ▸ List.mem_cons_self)
      cases hlength : r.length with
      | zero =>
        rw [hlength] at hstays
        cases hstays
      | succ depth =>
        rw [hlength] at hstays
        have hne : r ≠ [] := List.ne_nil_of_length_eq_add_one hlength
        rw [List.dropLast_append_of_ne_nil hne] at hy ⊢
        exact ih hd (hd.dropLast hr hne) (by rw [List.length_dropLast, hlength]; exact hstays) hturns'
          (fun _ => .inl hback) hy
    rw [if_neg hup] at hstays hy
    simp only [if_neg hup]
    by_cases hlong : nameLimit < (Text.encode n).length
    · simp only [if_pos hlong]
      exact ⟨_, rfl, .inl rfl⟩
    rw [if_neg hlong] at hy
    simp only [if_neg hlong]
    have hlength : Place.stays (r ++ [n]).length rest = true := by
      rw [List.length_append]
      exact hstays
    -- what is in the way is met from above only below a directory that was made
    have hstuck : d.find? (base ++ r ++ [n]) ≠ none →
        ∃ result : Except IoError Unit, (.error (blocked (false || rest.isEmpty)), y) = (result, y) ∧
          (result = .error (blocked (made || rest.isEmpty)) ∨
            turns ∧ (.error (blocked (made || rest.isEmpty)) : Except IoError Unit) =
              .error (.fault .alreadyExists) ∧ result = .error (.fault .notDirectory)) := by
      intro hthere
      refine ⟨_, rfl, ?_⟩
      cases hmade : made with
      | false => exact .inl rfl
      | true =>
        cases hlast : rest.isEmpty with
        | true => exact .inl rfl
        | false =>
          refine .inr ⟨(hfresh hmade).resolve_right fun hnone => ?_, rfl, rfl⟩
          exact hthere (hnone [n] (List.cons_ne_nil _ _))
    cases hnext : d.find? (base ++ r ++ [n]) with
    | none =>
      simp only [hnext] at hy ⊢
      have hthere := hy.symm.directory ((dig_growsTo _ _ _ _).directory (by rw [find?_put, if_pos rfl]))
      simp only [hthere]
      have hput := hd.put (e := .directory) hr fun f hf => by rw [hnext] at hf; cases hf
      rw [List.append_assoc] at hy hnext hput ⊢
      refine ih hput (by rw [find?_put, if_pos rfl]) hlength hturns' (fun _ => .inr fun more hmore => ?_) hy
      -- nothing stands below a directory that has just been made
      rw [find?_put, if_neg]
      · exact hd.nothing_below (fun heq => by rw [hnext] at heq; cases heq) hmore
      · intro heq
        rw [List.append_assoc] at heq
        exact hmore (List.append_right_eq_self.mp (List.append_cancel_left heq))
    | some e =>
      cases e with
      | directory =>
        simp only [hnext] at hy ⊢
        simp only [hy.symm.directory ((dig_growsTo _ _ _ _).directory hnext)]
        rw [List.append_assoc] at hy hnext ⊢
        refine ih hd hnext hlength hturns' (fun hmade => (hfresh hmade).imp_right fun hnone => ?_) hy
        -- a fresh directory has no directory in it
        rw [← List.append_assoc, hnone [n] (List.cons_ne_nil _ _)] at hnext
        cases hnext
      | link t =>
        simp only [hnext] at hy ⊢
        simp only [hy.symm.link hnext]
        exact hstuck fun heq => by rw [hnext] at heq; cases heq
      | file c x =>
        simp only [hnext] at hy ⊢
        obtain ⟨c', hfile⟩ := hy.symm.file hnext
        simp only [hfile]
        exact hstuck fun heq => by rw [hnext] at heq; cases heq

end Decompile.Disk
