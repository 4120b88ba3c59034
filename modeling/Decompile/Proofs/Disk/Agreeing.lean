import Decompile.Proofs.Disk.Anchored
import Decompile.Proofs.Disk.Parents

/-!
# One path on two disks

A path means the same on two disks if they hold the same wherever it leads by.

- `Disk.follow_congr`: only the places count that the steps lead by.
- `Disk.SameAt`: a path leads to the same place on both disks, and there stands the same; the lemmas
  after it say what is found and planned there.
- `Disk.below_congr`, `SameAt.list`: what a directory holds.
- `SameAt.below`: paths below a directory without links.
-/

namespace Decompile.Disk

variable {d d' d₀ : Disk} {cwd here base : Place} {free through : Bool} {names more : List String}
  {p root : FilePath}

/-! ## Steps -/

/-- Only the places count that the steps lead by. -/
theorem follow_congr (hsame : ∀ a, a ≠ [] → a <+: names →
    d.find? (Place.walk here a) = d'.find? (Place.walk here a)) :
    d.follow free through here names = d'.follow free through here names := by
  induction names generalizing here with
  | nil => rfl
  | cons n rest ih =>
    have hrest : ∀ a, a ≠ [] → a <+: rest → d.find? (Place.walk here (n :: a)) =
        d'.find? (Place.walk here (n :: a)) := fun a _ ha =>
      hsame _ (List.cons_ne_nil _ _) (List.cons_prefix_cons.mpr ⟨rfl, ha⟩)
    unfold follow
    by_cases hup : n = ".."
    · subst hup
      rw [if_pos rfl, if_pos rfl]
      exact ih fun a hne ha => hrest a hne ha
    rw [if_neg hup, if_neg hup]
    have hnext : d.find? (here ++ [n]) = d'.find? (here ++ [n]) := by
      have hstep := hsame [n] (List.cons_ne_nil _ _) (List.prefix_append [n] rest)
      rwa [Place.walk, if_neg hup, Place.walk] at hstep
    have hdeeper : d.follow free through (here ++ [n]) rest =
        d'.follow free through (here ++ [n]) rest := by
      refine ih fun a hne ha => ?_
      have hstep := hrest a hne ha
      rwa [Place.walk, if_neg hup] at hstep
    simp only [hnext, hdeeper]

/-- Steps that meet no link are looked up alike. -/
theorem locateFrom_congr {links : Nat} {ending : PathEnd}
    (hsame : ∀ free through, d.follow free through here names = d'.follow free through here names)
    (hstraight : ∀ free through f, d.follow free through here names = .ok f → ∃ q, f = .arrived q) :
    d.locateFrom through links ending here names = d'.locateFrom through links ending here names := by
  unfold locateFrom
  rw [← hsame]
  cases hf : d.follow (ending ≠ .dots) (through || ending ≠ .plain) here names with
  | error e => rfl
  | ok f =>
    obtain ⟨q, rfl⟩ := hstraight _ _ f hf
    rfl

/-- More steps behind others that lead to a directory go on from there, on every disk that keeps what
is on the way. -/
theorem locateFrom_append_of_keeps {a b : List String} (hb : b ≠ []) {links : Nat} {ending : PathEnd}
    {e : PathEnd} (hq : d₀.locateFrom true links ending here a = .ok (base, e))
    (hbase : d₀.find? base = some .directory) :
    ∃ k, ∀ d, d₀.Keeps d → ∀ through' ending', d.locateFrom through' links ending' here (a ++ b) =
      d.locateFrom through' k ending' base b := by
  induction links generalizing ending here a with
  | zero =>
    unfold locateFrom at hq
    rw [Bool.true_or] at hq
    split at hq
    · cases hq
    · next r hf =>
      obtain rfl := (Prod.mk.inj (Except.ok.inj hq)).1
      refine ⟨0, fun d hk through' ending' => ?_⟩
      have hdir := hk _ _ hbase rfl
      have hfollow := follow_of_keeps hk hf fun s hs => Followed.arrived.inj hs ▸ ⟨_, hbase, hdir⟩
      unfold locateFrom
      rw [follow_append hb hfollow fun s hs => Followed.arrived.inj hs ▸ hdir]
      rfl
    · cases hq
  | succ links ih =>
    unfold locateFrom at hq
    rw [Bool.true_or] at hq
    split at hq
    · cases hq
    · next r hf =>
      obtain rfl := (Prod.mk.inj (Except.ok.inj hq)).1
      refine ⟨links + 1, fun d hk through' ending' => ?_⟩
      have hdir := hk _ _ hbase rfl
      have hfollow := follow_of_keeps hk hf fun s hs => Followed.arrived.inj hs ▸ ⟨_, hbase, hdir⟩
      unfold locateFrom
      rw [follow_append hb hfollow fun s hs => Followed.arrived.inj hs ▸ hdir]
      rfl
    · next start target rest hf =>
      obtain ⟨k, hk⟩ := ih hq
      have hending : ∀ ending', endingAfter ⟨target⟩ (rest ++ b) ending' = ending' := by
        intro ending'
        simp [endingAfter, hb]
      refine ⟨k, fun d hkeeps through' ending' => ?_⟩
      rw [locateFrom, follow_append hb (follow_of_keeps hkeeps hf fun _ heq => by cases heq)
        fun _ heq => by cases heq]
      simp only [followOn, hending]
      rw [← List.append_assoc]
      exact hk d hkeeps through' ending'

/-- A path without a NUL goes on from the directory that a shorter one leads to. -/
theorem locate_append_of_keeps (hroot : d₀.entryAt cwd true root = .ok (base, .directory))
    (hmore : more ≠ []) (habsolute : p.isAbsolute = root.isAbsolute)
    (hsteps : p.steps = root.steps ++ more) (hnul : '\x00' ∉ p.text.toList) :
    ∃ k, ∀ d, d₀.Keeps d → ∀ through, d.locate cwd through p =
      d.locateFrom through k p.ending base more := by
  obtain ⟨ending, hlocate, hbase, -⟩ := entryAt_of_locate hroot
  have htext : p.text ≠ "" :=
    FilePath.text_ne_of_steps (hsteps ▸ List.append_ne_nil_of_right_ne_nil _ hmore)
  unfold locate at hlocate
  split at hlocate
  · cases hlocate
  split at hlocate
  · cases hlocate
  obtain ⟨k, hk⟩ := locateFrom_append_of_keeps hmore hlocate hbase
  refine ⟨k, fun d hkeeps through => ?_⟩
  unfold locate
  rw [if_neg (by simpa using hnul), if_neg htext, habsolute, hsteps]
  exact hk d hkeeps through p.ending

theorem locate_of_nul (hnul : '\x00' ∈ p.text.toList) (d : Disk) (cwd : Place) (through : Bool) :
    d.locate cwd through p =
      .error (.reported .other "file name contained an unexpected NUL byte") := by
  unfold locate
  rw [if_pos (by simpa using hnul)]

/-- Two disks that hold the same below a place. -/
theorem below_congr (hsame : ∀ rest, d.find? (base ++ rest) = d'.find? (base ++ rest)) :
    d.below base = d'.below base := by
  have hlt : ∀ {x y : Place × Entry}, x.1 < y.1 → y.1 < x.1 → x = y := fun hxy hyx =>
    absurd (Place.lt_trans hxy hyx) (Place.lt_irrefl _)
  have hnodup : ∀ d : Disk, (d.below base).Nodup := fun d =>
    (d.below_ascending base).imp fun hxy heq => absurd (heq ▸ hxy) (Place.lt_irrefl _)
  refine List.Perm.eq_of_pairwise (fun _ _ _ _ => hlt) (d.below_ascending base) (d'.below_ascending base) ?_
  refine (List.perm_ext_iff_of_nodup (hnodup d) (hnodup d')).mpr fun x => ?_
  rw [mem_below_iff, mem_below_iff, hsame]

/-! ## Paths that mean the same -/

/-- The path leads to the same place on both disks, and there stands the same. -/
structure SameAt (d d' : Disk) (cwd : Place) (p : FilePath) : Prop where
  locate : ∀ through, d.locate cwd through p = d'.locate cwd through p
  found : ∀ through q e, d.locate cwd through p = .ok (q, e) → d.find? q = d'.find? q

namespace SameAt

section

variable (h : SameAt d d' cwd p)
include h

theorem entryAt (through : Bool) : d.entryAt cwd through p = d'.entryAt cwd through p := by
  unfold Disk.entryAt
  rw [← h.locate]
  cases hlocate : d.locate cwd through p with
  | error e => rfl
  | ok r =>
    obtain ⟨q, ending⟩ := r
    simp only [h.found through q ending hlocate]

theorem planMakeDirectory : d.planMakeDirectory cwd p = d'.planMakeDirectory cwd p := by
  unfold Disk.planMakeDirectory
  rw [← h.locate]
  cases hlocate : d.locate cwd (p.ending = .dots) p with
  | error e => rfl
  | ok r =>
    obtain ⟨q, ending⟩ := r
    simp only [h.found _ q ending hlocate]

theorem planCreate (executable : Bool) :
    d.planCreate cwd p executable = d'.planCreate cwd p executable := by
  unfold Disk.planCreate
  rw [← h.locate]
  cases hlocate : d.locate cwd true p with
  | error e => rfl
  | ok r =>
    obtain ⟨q, ending⟩ := r
    simp only [h.found _ q ending hlocate]

theorem planReplace (bytes : Bytes) :
    d.planReplace cwd p bytes = d'.planReplace cwd p bytes := by
  unfold Disk.planReplace
  rw [← h.locate]
  cases hlocate : d.locate cwd false p with
  | error e => rfl
  | ok r =>
    obtain ⟨q, ending⟩ := r
    simp only [h.found _ q ending hlocate]

theorem planRemoveFile : d.planRemoveFile cwd p = d'.planRemoveFile cwd p := by
  unfold Disk.planRemoveFile
  rw [h.entryAt]

theorem read : d.read cwd p = d'.read cwd p := by
  unfold Disk.read
  rw [h.entryAt]

end

/-- The same is listed in a directory that holds the same. -/
theorem list (h : SameAt d d' cwd p) (hbelow : ∀ q e, d.locate cwd true p = .ok (q, e) →
    ∀ rest, d.find? (q ++ rest) = d'.find? (q ++ rest)) : d.list cwd p = d'.list cwd p := by
  unfold Disk.list
  rw [← h.entryAt]
  cases hentry : d.entryAt cwd true p with
  | error e => rfl
  | ok r =>
    obtain ⟨q, e⟩ := r
    obtain ⟨ending, hlocate, -, -⟩ := entryAt_of_locate hentry
    have hchildren : d.children q = d'.children q := by
      unfold children
      rw [below_congr (hbelow q ending hlocate)]
    cases e with
    | directory => simp only [hchildren]
    | file | link => rfl

/-- A path below a directory without links, on two disks that hold the same wherever it leads by. -/
theorem below (hroot : d₀.entryAt cwd true root = .ok (base, .directory)) (hk : d₀.Keeps d)
    (hk' : d₀.Keeps d') (hlinkless : ∀ rest t, d.find? (base ++ rest) ≠ some (.link t))
    (habsolute : p.isAbsolute = root.isAbsolute) (hsteps : p.steps = root.steps ++ more)
    (hmore : more ≠ []) (hstays : Place.stays 0 more = true)
    (hsame : ∀ a, a ≠ [] → a <+: more →
      d.find? (base ++ Place.walk [] a) = d'.find? (base ++ Place.walk [] a)) :
    SameAt d d' cwd p := by
  by_cases hnul : '\x00' ∈ p.text.toList
  · refine ⟨fun through => ?_, fun through q e hlocate => ?_⟩
    · rw [locate_of_nul hnul, locate_of_nul hnul]
    · rw [locate_of_nul hnul] at hlocate
      cases hlocate
  obtain ⟨k, hlocate⟩ := locate_append_of_keeps hroot hmore habsolute hsteps hnul
  have hwalk : ∀ a, a <+: more → Place.walk base a = base ++ Place.walk [] a := fun a ha =>
    Place.walk_of_stays_nil (Place.stays_of_prefix ha hstays)
  have hstraight : ∀ free through f, d.follow free through base more = .ok f →
      f = .arrived (base ++ Place.walk [] more) := fun _ _ _ hf =>
    follow_of_linkless_nil hlinkless hstays hf
  have hcongr : ∀ through, d.locateFrom through k p.ending base more =
      d'.locateFrom through k p.ending base more := fun through =>
    locateFrom_congr (fun free through => follow_congr fun a hne ha => by
      rw [hwalk a ha]
      exact hsame a hne ha) fun free through f hf => ⟨_, hstraight free through f hf⟩
  refine ⟨fun through => by rw [hlocate d hk, hlocate d' hk', hcongr], fun through q e hq => ?_⟩
  rw [hlocate d hk] at hq
  unfold locateFrom at hq
  split at hq
  · cases hq
  · next r hf =>
    obtain rfl := (Prod.mk.inj (Except.ok.inj hq)).1
    obtain rfl := Followed.arrived.inj (hstraight _ _ _ hf)
    exact hsame more hmore (List.prefix_refl _)
  · next start target rest hf => cases hstraight _ _ _ hf

end SameAt

end Decompile.Disk
