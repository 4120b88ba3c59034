import Decompile.Proofs.Disk.Digging
import Decompile.Proofs.Disk.Replaced
import Decompile.World.Files

/-!
# The paths on a way down

The directories on the way to a path are looked up by paths of their own, each one step longer than
the one before. On a disk without links below their start they say which step can be taken.

- `FilePath.Continues`, `FilePath.Down`: a path that goes on from another one by some steps.
- `Disk.Anchored.planMakeDirectory`, `isDirectory`: what the steps say of such a path.
- `FilePath.Stairs`: a row of such paths, each one step longer.
- `World.ancestors_stairs`: the paths above a path are such a row.
-/

namespace Decompile

namespace FilePath

variable {root p q : FilePath} {more front : List String} {n : String}

/-- The path goes on from `root` by the steps `more`. -/
structure Continues (root : FilePath) (more : List String) (p : FilePath) : Prop where
  absolute : p.isAbsolute = root.isAbsolute
  steps : p.steps = root.steps ++ more
  clean : '\x00' ∉ p.text.toList

/-- The path goes on from `root` by the steps `more`, and ends with the last of them. -/
structure Down (root : FilePath) (more : List String) (p : FilePath) : Prop
    extends Continues root more p where
  ending : ∀ front n, more = front ++ [n] → p.ending = if n = ".." then .dots else .plain

/-- A path below `root`. -/
theorem Continues.join (hq : q.isAbsolute = false) (hroot : '\x00' ∉ root.text.toList)
    (hclean : '\x00' ∉ q.text.toList) : Continues root q.steps (root.join q) := by
  refine ⟨isAbsolute_join hq, steps_join hq, fun hnul => ?_⟩
  rcases mem_text_join hnul with heq | hmem | hmem
  · cases heq
  · exact hroot hmem
  · exact hclean hmem

/-- The path above one that goes on. -/
theorem Continues.parent (hp : Continues root (front ++ [n]) p) (hq : p.parent? = some q) :
    Down root front q := by
  have hsteps : q.steps = root.steps ++ front := by
    rw [steps_of_parent? hq, hp.steps, ← List.append_assoc, List.dropLast_concat]
  refine ⟨⟨(steps_parent? hq).1.trans hp.absolute, hsteps, fun hnul => ?_⟩, fun f m hf => ?_⟩
  · rcases mem_text_of_parent? hq hnul with heq | heq | hmem
    · cases heq
    · cases heq
    · exact hp.clean hmem
  · rw [hf, ← List.append_assoc] at hsteps
    exact ending_of_parent? hq hsteps

/-- A row of paths, each one step longer. -/
inductive Stairs (root : FilePath) : (front more : List String) → List FilePath → Prop
  | nil (front : List String) : Stairs root front [] []
  | cons {front more : List String} {n : String} {p : FilePath} {ps : List FilePath}
    (first : Down root (front ++ [n]) p) (rest : Stairs root (front ++ [n]) more ps) :
    Stairs root front (n :: more) (p :: ps)

namespace Stairs

variable {ps : List FilePath}

/-- One more path at the end. -/
theorem concat (hps : Stairs root front more ps) (hp : Down root (front ++ more ++ [n]) p) :
    Stairs root front (more ++ [n]) (ps ++ [p]) := by
  induction hps with
  | nil front =>
    rw [List.append_nil] at hp
    exact .cons hp (.nil _)
  | cons first rest ih =>
    refine .cons first (ih ?_)
    rwa [List.append_assoc _ [_]]

/-- Each of the paths goes on by some of the steps. -/
theorem exists_down (hps : Stairs root front more ps) (hp : p ∈ ps) :
    ∃ some, some ≠ [] ∧ some <+: more ∧ Down root (front ++ some) p := by
  induction hps with
  | nil front => cases hp
  | @cons front more n q ps first rest ih =>
    rcases List.mem_cons.mp hp with rfl | hp
    · exact ⟨[n], List.cons_ne_nil _ _, List.cons_prefix_cons.mpr ⟨rfl, List.nil_prefix⟩, first⟩
    · obtain ⟨some, -, hlead, hdown⟩ := ih hp
      exact ⟨n :: some, List.cons_ne_nil _ _, List.cons_prefix_cons.mpr ⟨rfl, hlead⟩, by
        rwa [List.append_assoc] at hdown⟩

/-- The last of the paths goes on by all steps. -/
theorem exists_last (hps : Stairs root front (n :: more) ps) :
    ∃ first p, ps = first ++ [p] ∧ Down root (front ++ n :: more) p := by
  induction more generalizing front n ps with
  | nil =>
    cases hps with
    | cons first rest =>
      cases rest with
      | nil => exact ⟨[], _, rfl, first⟩
  | cons m more ih =>
    cases hps with
    | @cons _ _ _ q qs first rest =>
      obtain ⟨init, p, rfl, hp⟩ := ih rest
      exact ⟨q :: init, p, rfl, by rwa [List.append_assoc] at hp⟩

end Stairs

end FilePath

open FilePath (Continues Down Stairs)

/-- The paths above a path that goes on from `root` are a row down from a path that leads where `root`
does, and those above that one. -/
theorem World.ancestors_stairs {root p : FilePath} {more : List String} (hp : Down root more p)
    {fuel : Nat} (hfuel : more.length < fuel) :
    ∃ ps start left, World.ancestors fuel p = ps.reverse ++ World.ancestors left start ∧
      Stairs root [] more ps ∧ Down root [] start := by
  induction more using List.reverseRecOn generalizing p fuel with
  | nil => exact ⟨[], p, fuel, rfl, .nil _, hp⟩
  | append_singleton front n ih =>
    have hne : p.steps ≠ [] := by
      rw [hp.steps]
      exact List.append_ne_nil_of_right_ne_nil _
        (List.append_ne_nil_of_right_ne_nil _ (List.cons_ne_nil _ _))
    obtain ⟨q, hq⟩ := FilePath.exists_parent? hne
    obtain ⟨fuel, rfl⟩ := Nat.exists_eq_add_one_of_ne_zero (Nat.ne_zero_of_lt hfuel)
    rw [List.length_append, List.length_singleton] at hfuel
    obtain ⟨ps, start, left, heq, hstairs, hstart⟩ :=
      ih (hp.toContinues.parent hq) (by omega : front.length < fuel)
    refine ⟨ps ++ [p], start, left, ?_, hstairs.concat (by rwa [List.nil_append]), hstart⟩
    rw [World.ancestors, hq]
    simp only [FilePath.text_ne_of_steps hne, if_false, heq, List.reverse_append, List.reverse_singleton,
      List.cons_append, List.nil_append]

namespace Disk

variable {d : Disk} {cwd base r q : Place} {root p : FilePath} {more names : List String}
  {here : Place} {through free : Bool} {links : Nat} {ending : PathEnd}

/-! ## Paths to a directory -/

/-- Steps that end in a directory are taken the same way however the path ends, but for a last link
that is not followed. -/
theorem follow_of_directory {f : Followed} (hf : d.follow free true here names = .ok f)
    (hend : ∀ q, f = .arrived q → d.find? q = some .directory) (free' through' : Bool) :
    d.follow free' through' here names = .ok f ∨
      through' = false ∧ ∃ q t, d.follow free' through' here names = .ok (.arrived q) ∧
        d.find? q = some (.link t) := by
  induction names generalizing here with
  | nil => exact .inl hf
  | cons n rest ih =>
    unfold follow at hf ⊢
    by_cases hup : n = ".."
    · simp only [if_pos hup] at hf ⊢
      exact ih hf
    simp only [if_neg hup] at hf ⊢
    by_cases hlong : nameLimit < (Text.encode n).length
    · simp only [if_pos hlong] at hf
      cases hf
    simp only [if_neg hlong] at hf ⊢
    have hlast : ∀ {x : Except IoError Followed},
        (if (free && rest.isEmpty) = true then .ok (.arrived (here ++ [n])) else x) = .ok f →
          (∀ g, x ≠ .ok g) → d.find? (here ++ [n]) = some .directory := by
      intro x hx hnone
      split at hx
      · exact hend _ (Except.ok.inj hx).symm
      · exact absurd hx (hnone f)
    cases hnext : d.find? (here ++ [n]) with
    | none =>
      simp only [hnext] at hf
      have hdirectory := hlast hf nofun
      rw [hnext] at hdirectory
      cases hdirectory
    | some e =>
      cases e with
      | directory =>
        simp only [hnext] at hf ⊢
        exact ih hf
      | link t =>
        simp only [hnext, Bool.not_true, Bool.and_false, Bool.false_eq_true, if_false] at hf
        simp only
        split
        · next hstop =>
          rw [Bool.and_eq_true, Bool.not_eq_true'] at hstop
          exact .inr ⟨hstop.2, _, t, rfl, hnext⟩
        · exact .inl hf
      | file c x =>
        simp only [hnext] at hf
        have hdirectory := hlast hf nofun
        rw [hnext] at hdirectory
        cases hdirectory

/-- However a path to a directory ends, it leads to an entry, and to the directory if links are
followed. -/
theorem locateFrom_of_directory {e : PathEnd}
    (hq : d.locateFrom true links ending here names = .ok (q, e))
    (hdir : d.find? q = some .directory) (through' : Bool) (ending' : PathEnd) :
    ∃ q' e', d.locateFrom through' links ending' here names = .ok (q', e') ∧
      (d.find? q').isSome = true ∧ (through' = true → q' = q) := by
  induction links generalizing ending ending' here names with
  | zero | succ links ih =>
    unfold locateFrom at hq ⊢
    rw [Bool.true_or] at hq
    split at hq
    · cases hq
    · next s hf =>
      obtain rfl := (Prod.mk.inj (Except.ok.inj hq)).1
      rcases follow_of_directory hf (fun s hs => Followed.arrived.inj hs ▸ hdir)
        (decide (ending' ≠ .dots)) (through' || decide (ending' ≠ .plain)) with hsame | ⟨hstop, s', t, hlink, hfound⟩
      · rw [hsame]
        exact ⟨s, ending', rfl, by rw [hdir]; rfl, fun _ => rfl⟩
      · rw [hlink]
        refine ⟨s', ending', rfl, by rw [hfound]; rfl, fun hthrough => ?_⟩
        rw [hthrough, Bool.true_or] at hstop
        cases hstop
    · next start target rest hf =>
      rcases follow_of_directory hf nofun
        (decide (ending' ≠ .dots)) (through' || decide (ending' ≠ .plain)) with hsame | ⟨hstop, s', t, hlink, hfound⟩
      · rw [hsame]
        first
          | cases hq
          | exact ih hq _
      · rw [hlink]
        refine ⟨s', ending', rfl, by rw [hfound]; rfl, fun hthrough => ?_⟩
        rw [hthrough, Bool.true_or] at hstop
        cases hstop

theorem locate_of_directory (hroot : d.entryAt cwd true root = .ok (base, .directory))
    (hp : root.Continues [] p) (htext : p.text ≠ "") (through' : Bool) :
    ∃ q e, d.locate cwd through' p = .ok (q, e) ∧ (d.find? q).isSome = true ∧
      (through' = true → q = base) := by
  obtain ⟨ending, hlocate, hbase, -⟩ := entryAt_of_locate hroot
  have hsteps := hp.steps
  rw [List.append_nil] at hsteps
  unfold locate at hlocate ⊢
  rw [if_neg (by simpa using hp.clean), if_neg htext, hp.absolute, hsteps]
  split at hlocate
  · cases hlocate
  · split at hlocate
    · cases hlocate
    · exact locateFrom_of_directory hlocate hbase through' p.ending

/-- Another path to a directory that is there. -/
theorem isDirectory_of_directory (hroot : d.entryAt cwd true root = .ok (base, .directory))
    (hp : root.Continues [] p) (htext : p.text ≠ "") : d.isDirectory cwd p = true := by
  obtain ⟨-, -, hbase, -⟩ := entryAt_of_locate hroot
  obtain ⟨q, e, hlocate, -, hq⟩ := locate_of_directory hroot hp htext true
  obtain rfl := hq rfl
  rw [isDirectory, entryAt_eq hlocate hbase nofun]

theorem planMakeDirectory_of_directory (hroot : d.entryAt cwd true root = .ok (base, .directory))
    (hp : root.Continues [] p) (htext : p.text ≠ "") :
    d.planMakeDirectory cwd p = .error (.fault .alreadyExists) := by
  obtain ⟨q, e, hlocate, hsome, -⟩ := locate_of_directory hroot hp htext (p.ending = .dots)
  rw [planMakeDirectory, hlocate]
  simp [hsome]

/-! ## Paths below a directory -/

/-- A path that leads to an entry can be written down. -/
theorem clean_of_entryAt {e : Entry} (hp : d.entryAt cwd through p = .ok (q, e)) :
    '\x00' ∉ p.text.toList := by
  obtain ⟨ending, hlocate, -, -⟩ := entryAt_of_locate hp
  obtain ⟨hnul, -⟩ := text_of_locate hlocate
  simpa using hnul

/-- A path that goes on from a directory is looked up from there. -/
theorem locate_down (hroot : d.entryAt cwd true root = .ok (base, .directory)) (hmore : more ≠ [])
    (hp : root.Continues more p) (through' : Bool) :
    ∃ k, d.locate cwd through' p = d.locateFrom through' k p.ending base more := by
  have htext : p.text ≠ "" := by
    refine FilePath.text_ne_of_steps ?_
    rw [hp.steps]
    exact List.append_ne_nil_of_right_ne_nil _ hmore
  exact locate_behind hroot hmore hp.absolute hp.steps (by simpa using hp.clean) htext through'

/-- A name of a directory, which is not that of a link. -/
theorem locate_name {n : String} (hroot : d.entryAt cwd true root = .ok (base, .directory))
    (hn : IsEntryName n) (hshort : ¬ nameLimit < (Text.encode n).length) (hclean : '\x00' ∉ n.toList)
    (hlink : ∀ t, d.find? (base ++ [n]) ≠ some (.link t)) (through' : Bool) :
    d.locate cwd through' (root.join ⟨n⟩) = .ok (base ++ [n], .plain) := by
  have hp := Continues.join (FilePath.isAbsolute_of_isEntryName hn) (clean_of_entryAt hroot) hclean
  rw [FilePath.steps_of_isEntryName hn] at hp
  obtain ⟨k, hk⟩ := locate_down hroot (List.cons_ne_nil _ _) hp through'
  rw [hk, FilePath.ending_child hn]
  have hfollow : d.follow true through' base [n] = .ok (.arrived (base ++ [n])) := by
    unfold follow
    rw [if_neg hn.2.2.1, if_neg hshort]
    cases hnext : d.find? (base ++ [n]) with
    | none => simp [hnext]
    | some e =>
      cases e with
      | directory => simp [hnext, follow]
      | file => simp [hnext]
      | link t => exact absurd hnext (hlink t)
  cases k with
  | zero | succ k =>
    unfold locateFrom
    simp [hfollow]

/-- Without links on the way no path is continued elsewhere. -/
theorem locateFrom_linkless (hlinks : ∀ q t, d.find? (base ++ q) ≠ some (.link t))
    (hstays : Place.stays 0 more = true) :
    d.locateFrom through links ending base more =
      match d.follow (ending ≠ .dots) (through || ending ≠ .plain) base more with
      | .error e => .error e
      | .ok _ => .ok (base ++ Place.walk [] more, ending) := by
  cases links with
  | zero | succ links =>
    unfold locateFrom
    cases hf : d.follow (ending ≠ .dots) (through || ending ≠ .plain) base more with
    | error e => rfl
    | ok f =>
      rw [follow_of_linkless_nil hlinks hstays hf]

/-- What following the steps comes to, if the last one may be missing unless it turns back. -/
theorem follow_tryMake (hlinks : ∀ q t, d.find? (base ++ q) ≠ some (.link t))
    (hstays : Place.stays r.length names = true) (hne : names ≠ [])
    (hfree : free = decide (names.getLast hne ≠ "..")) (through' : Bool) :
    (match d.follow free through' (base ++ r) names with
      | .error e => .error e
      | .ok _ =>
        if !free || (d.find? (Place.walk (base ++ r) names)).isSome then .error (.fault .alreadyExists)
        else .ok (.makeDirectory (Place.walk (base ++ r) names))) = d.tryMake (base ++ r) names := by
  induction names generalizing r with
  | nil => exact absurd rfl hne
  | cons n rest ih =>
    unfold Place.stays at hstays
    unfold follow tryMake Place.walk
    by_cases hup : n = ".."
    · simp only [if_pos hup] at hstays ⊢
      cases hlength : r.length with
      | zero =>
        rw [hlength] at hstays
        cases hstays
      | succ depth =>
        rw [hlength] at hstays
        rw [List.dropLast_append_of_ne_nil (List.ne_nil_of_length_eq_add_one hlength)]
        by_cases hlast : rest = []
        · subst hlast
          obtain rfl : free = false := by simp [hfree, hup]
          rfl
        · rw [List.getLast_cons hlast] at hfree
          exact ih (by rw [List.length_dropLast, hlength]; exact hstays) hlast hfree
    simp only [if_neg hup] at hstays ⊢
    by_cases hlong : nameLimit < (Text.encode n).length
    · simp only [if_pos hlong]
    simp only [if_neg hlong]
    rw [List.append_assoc]
    have hmore : Place.stays (r ++ [n]).length rest = true := by
      rw [List.length_append]
      exact hstays
    by_cases hlast : rest = []
    · subst hlast
      obtain rfl : free = true := by simp [hfree, hup]
      cases hnext : d.find? (base ++ (r ++ [n])) with
      | none => simp [hnext, Place.walk]
      | some e =>
        cases e with
        | directory => simp [hnext, follow, tryMake, Place.walk]
        | link t => exact absurd hnext (hlinks _ t)
        | file c x => simp [hnext, Place.walk, blocked]
    · have hempty : rest.isEmpty = false := by simpa using hlast
      rw [List.getLast_cons hlast] at hfree
      cases hnext : d.find? (base ++ (r ++ [n])) with
      | none => simp [hempty]
      | some e =>
        cases e with
        | directory =>
          simp only
          exact ih hmore hlast hfree
        | link t => exact absurd hnext (hlinks _ t)
        | file c x => simp [hempty, blocked]

/-- What following the steps finds. -/
theorem follow_enters (hd : d.Rooted base) (hr : d.find? (base ++ r) = some .directory)
    (hlinks : ∀ q t, d.find? (base ++ q) ≠ some (.link t))
    (hstays : Place.stays r.length names = true) (free' through' : Bool) :
    (match d.follow free' through' (base ++ r) names with
      | .error _ => false
      | .ok _ => decide (d.find? (Place.walk (base ++ r) names) = some .directory)) =
      d.enters (base ++ r) names := by
  induction names generalizing r with
  | nil => simp [follow, enters, Place.walk, hr]
  | cons n rest ih =>
    unfold Place.stays at hstays
    unfold follow enters Place.walk
    by_cases hup : n = ".."
    · simp only [if_pos hup] at hstays ⊢
      cases hlength : r.length with
      | zero =>
        rw [hlength] at hstays
        cases hstays
      | succ depth =>
        rw [hlength] at hstays
        have hne : r ≠ [] := List.ne_nil_of_length_eq_add_one hlength
        rw [List.dropLast_append_of_ne_nil hne]
        exact ih (hd.dropLast hr hne) (by rw [List.length_dropLast, hlength]; exact hstays)
    simp only [if_neg hup] at hstays ⊢
    by_cases hlong : nameLimit < (Text.encode n).length
    · simp only [if_pos hlong]
    simp only [if_neg hlong]
    rw [List.append_assoc]
    have hmore : Place.stays (r ++ [n]).length rest = true := by
      rw [List.length_append]
      exact hstays
    cases hnext : d.find? (base ++ (r ++ [n])) with
    | none =>
      simp only
      split
      · rfl
      · next hf =>
        split at hf
        · next hfree =>
          rw [Bool.and_eq_true, List.isEmpty_iff] at hfree
          rw [hfree.2]
          simp [Place.walk, hnext]
        · cases hf
    | some e =>
      cases e with
      | directory =>
        simp only
        exact ih hnext hmore
      | link t => exact absurd hnext (hlinks _ t)
      | file c x =>
        simp only
        split
        · rfl
        · next hf =>
          split at hf
          · next hfree =>
            rw [Bool.and_eq_true, List.isEmpty_iff] at hfree
            rw [hfree.2]
            simp [Place.walk, hnext]
          · cases hf

namespace Anchored

variable (hd : d.Anchored cwd root base)

include hd

/-- Where a path below the directory leads, if it leads anywhere. -/
theorem locate_down (hmore : more ≠ []) (hstays : Place.stays 0 more = true)
    (hp : root.Continues more p) (through' : Bool) :
    d.locate cwd through' p =
      match d.follow (p.ending ≠ .dots) (through' || p.ending ≠ .plain) base more with
      | .error e => .error e
      | .ok _ => .ok (base ++ Place.walk [] more, p.ending) := by
  obtain ⟨k, hk⟩ := Disk.locate_down hd.leads hmore hp through'
  rw [hk, locateFrom_linkless hd.linkless hstays]

/-- Making a directory below the directory. -/
theorem planMakeDirectory (hstays : Place.stays 0 more = true) (hp : root.Down more p)
    (htext : p.text ≠ "") : d.planMakeDirectory cwd p = d.tryMake base more := by
  by_cases hmore : more = []
  · subst hmore
    exact planMakeDirectory_of_directory hd.leads hp.toContinues htext
  have hending := hp.ending _ _ (List.dropLast_concat_getLast hmore).symm
  have hfree : decide (p.ending ≠ .dots) = decide (more.getLast hmore ≠ "..") := by
    rw [hending]
    by_cases hlast : more.getLast hmore = ".." <;> simp [hlast]
  have hwalk : base ++ Place.walk [] more = Place.walk base more :=
    (Place.walk_of_stays_nil hstays).symm
  have htry := follow_tryMake (r := []) hd.linkless hstays hmore hfree
    (decide (p.ending = .dots) || decide (p.ending ≠ .plain))
  rw [Disk.planMakeDirectory, hd.locate_down hmore hstays hp.toContinues]
  rw [List.append_nil] at htry
  rw [← htry]
  cases d.follow (decide (p.ending ≠ .dots)) (decide (p.ending = .dots) || decide (p.ending ≠ .plain))
    base more with
  | error e => rfl
  | ok f => simp [hwalk]

/-- A path below the directory names a directory. -/
theorem isDirectory (hrooted : d.Rooted base) (hstays : Place.stays 0 more = true)
    (hp : root.Continues more p) (htext : p.text ≠ "") : d.isDirectory cwd p = d.enters base more := by
  by_cases hmore : more = []
  · subst hmore
    exact isDirectory_of_directory hd.leads hp htext
  obtain ⟨-, -, hbase, -⟩ := entryAt_of_locate hd.leads
  have hwalk : base ++ Place.walk [] more = Place.walk base more :=
    (Place.walk_of_stays_nil hstays).symm
  have henters := follow_enters (r := []) hrooted (by rwa [List.append_nil]) hd.linkless hstays
    (decide (p.ending ≠ .dots)) (true || decide (p.ending ≠ .plain))
  rw [List.append_nil] at henters
  rw [← henters, Disk.isDirectory, Disk.entryAt, hd.locate_down hmore hstays hp]
  cases d.follow (decide (p.ending ≠ .dots)) (true || decide (p.ending ≠ .plain)) base more with
  | error e => rfl
  | ok f =>
    simp only [hwalk]
    cases hfound : d.find? (Place.walk base more) with
    | none => simp
    | some e =>
      cases e with
      | directory => simp
      | link t => simp
      | file c x => by_cases hplain : p.ending = .plain <;> simp [hplain]

end Anchored

end Disk

end Decompile
