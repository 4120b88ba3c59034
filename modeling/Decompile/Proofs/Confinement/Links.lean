import Decompile.Proofs.Disk.Anchored
import Decompile.Proofs.Disk.Ways

/-!
# Where a path leads by links alone

A directory that is still missing has a place all the same: where its path would lead once the
directories on the way are made. Only links can send a path elsewhere, so as long as the links stay
what they are, every lookup that succeeds ends there.

- `Disk.SameLinks`: two disks with the same links.
- `Disk.Addressed`: by the links of a disk a path leads to a place, below which there are none.
- `Addressed.locate`, `Addressed.lands`: where paths below it lead.
-/

namespace Decompile.Disk

variable {d d' full : Disk} {cwd here base rest : Place} {names : List String} {p root : FilePath}
  {free through : Bool}

/-- The same links stand on both disks. -/
def SameLinks (d d' : Disk) : Prop :=
  ∀ q t, d'.find? q = some (.link t) ↔ d.find? q = some (.link t)

theorem SameLinks.refl (d : Disk) : d.SameLinks d := fun _ _ => Iff.rfl

theorem SameLinks.trans {d'' : Disk} (h : d.SameLinks d') (h' : d'.SameLinks d'') :
    d.SameLinks d'' :=
  fun q t => (h' q t).trans (h q t)

theorem SameLinks.symm (h : d.SameLinks d') : d'.SameLinks d := fun q t => (h q t).symm

/-- The links of a disk are those among its entries. -/
theorem find?_link_iff {q : Place} {t : String} :
    d.find? q = some (.link t) ↔ (q, .link t) ∈ d.entries.filter fun x => x.2.isLink := by
  rw [List.mem_filter]
  exact ⟨fun hfound => ⟨mem_of_findEntry hfound, rfl⟩, fun hmem => findEntry_of_mem d.ascending hmem.1⟩

theorem sameLinks_of_entries
    (hlinks : (d.entries.filter fun x => x.2.isLink) = d'.entries.filter fun x => x.2.isLink) :
    d.SameLinks d' := by
  intro q t
  rw [find?_link_iff, find?_link_iff, hlinks]

/-! ## Two disks with the same links -/

/-- Steps that lead to a directory or a link on one disk lead there on another one too, if more steps
can be taken after them. -/
theorem follow_append_alike (hl : full.SameLinks d) {a b : List String} (hb : b ≠ []) {f g : Followed}
    (hf : full.follow free true here a = .ok f)
    (hend : ∀ q, f = .arrived q → full.find? q = some .directory) {free' through' : Bool}
    (hg : d.follow free' through' here (a ++ b) = .ok g) :
    d.followOn free' through' b f = .ok g := by
  induction a generalizing here with
  | nil =>
    obtain rfl := Except.ok.inj hf
    exact hg
  | cons n rest ih =>
    rw [List.cons_append] at hg
    unfold follow at hf
    rw [follow] at hg
    by_cases hup : n = ".."
    · rw [if_pos hup] at hf hg
      exact ih hf hg
    rw [if_neg hup] at hf hg
    by_cases hlong : nameLimit < (Text.encode n).length
    · rw [if_pos hlong] at hf
      cases hf
    rw [if_neg hlong] at hf hg
    have hmore : (rest ++ b).isEmpty = false := by simp [hb]
    have hlinks := hl (here ++ [n])
    -- the last of the first steps leads to a directory or a link
    have hlast : ∀ {x : Except IoError Followed},
        (if (free && rest.isEmpty) = true then .ok (.arrived (here ++ [n])) else x) = .ok f →
          (∀ y, x ≠ .ok y) → full.find? (here ++ [n]) = some .directory := by
      intro x hx hnone
      split at hx
      · exact hend _ (Except.ok.inj hx).symm
      · exact absurd hx (hnone f)
    cases hnext : full.find? (here ++ [n]) with
    | none =>
      simp only [hnext] at hf
      have hdirectory := hlast hf fun _ heq => by cases heq
      rw [hnext] at hdirectory
      cases hdirectory
    | some e =>
      cases e with
      | file c x =>
        simp only [hnext] at hf
        have hdirectory := hlast hf fun _ heq => by cases heq
        rw [hnext] at hdirectory
        cases hdirectory
      | link t =>
        simp only [hnext, Bool.not_true, Bool.and_false, Bool.false_eq_true, if_false] at hf
        obtain rfl := Except.ok.inj hf
        have hlink : d.find? (here ++ [n]) = some (.link t) := (hlinks t).mpr hnext
        simp only [hlink, hmore, Bool.and_false, Bool.false_and, Bool.false_eq_true, if_false] at hg
        exact hg
      | directory =>
        simp only [hnext] at hf
        simp only [hmore, Bool.and_false, Bool.false_and, Bool.false_eq_true, if_false] at hg
        split at hg
        · exact ih hf hg
        · next t hlink =>
          rw [(hlinks t).mp hlink] at hnext
          cases hnext
        · cases hg
        · cases hg

theorem locateFrom_append_alike (hl : full.SameLinks d) {a b : List String} (hb : b ≠ [])
    {links : Nat} {ending : PathEnd} {e : PathEnd}
    (hq : full.locateFrom true links ending here a = .ok (base, e))
    (hbase : full.find? base = some .directory) {through' : Bool} {ending' : PathEnd}
    {r : Place × PathEnd} (hr : d.locateFrom through' links ending' here (a ++ b) = .ok r) :
    ∃ k, d.locateFrom through' k ending' base b = .ok r := by
  induction links generalizing ending here a with
  | zero =>
    unfold locateFrom at hq hr
    rw [Bool.true_or] at hq
    split at hq
    · cases hq
    · next s hf =>
      obtain rfl := (Prod.mk.inj (Except.ok.inj hq)).1
      refine ⟨0, ?_⟩
      unfold locateFrom
      split at hr
      · cases hr
      · next t hg =>
        rw [show d.follow _ _ s b = _ from
          follow_append_alike hl hb hf (fun x hx => Followed.arrived.inj hx ▸ hbase) hg]
        exact hr
      · cases hr
    · cases hq
  | succ links ih =>
    unfold locateFrom at hq
    rw [locateFrom] at hr
    rw [Bool.true_or] at hq
    split at hq
    · cases hq
    · next s hf =>
      obtain rfl := (Prod.mk.inj (Except.ok.inj hq)).1
      refine ⟨links + 1, ?_⟩
      unfold locateFrom
      split at hr
      · cases hr
      · next t hg =>
        rw [show d.follow _ _ s b = _ from
          follow_append_alike hl hb hf (fun x hx => Followed.arrived.inj hx ▸ hbase) hg]
        exact hr
      · next hg =>
        rw [show d.follow _ _ s b = _ from
          follow_append_alike hl hb hf (fun x hx => Followed.arrived.inj hx ▸ hbase) hg]
        exact hr
    · next start target rest hf =>
      have hnever : ∀ x, Followed.redirected start target rest = .arrived x →
          full.find? x = some .directory := fun x hx => by cases hx
      split at hr
      · cases hr
      · next hg => cases Except.ok.inj (follow_append_alike hl hb hf hnever hg)
      · next hg =>
        obtain ⟨rfl, rfl, rfl⟩ :=
          Followed.redirected.inj (Except.ok.inj (follow_append_alike hl hb hf hnever hg))
        have hending : endingAfter ⟨target⟩ (rest ++ b) ending' = ending' := by
          simp [endingAfter, hb]
        simp only [hending, ← List.append_assoc] at hr
        exact ih hq hr

/-- A path behind another one goes on from the place that this one would lead to. -/
theorem locate_append_alike (hl : full.SameLinks d)
    (hroot : full.entryAt cwd true root = .ok (base, .directory)) {more : List String}
    (hmore : more ≠ []) (habsolute : p.isAbsolute = root.isAbsolute)
    (hsteps : p.steps = root.steps ++ more) {r : Place × PathEnd}
    (hr : d.locate cwd through p = .ok r) :
    ∃ k, d.locateFrom through k p.ending base more = .ok r := by
  obtain ⟨ending, hlocate, hbase, -⟩ := entryAt_of_locate hroot
  unfold locate at hlocate hr
  split at hlocate
  · cases hlocate
  · split at hlocate
    · cases hlocate
    · split at hr
      · cases hr
      · split at hr
        · cases hr
        · rw [habsolute, hsteps] at hr
          exact locateFrom_append_alike hl hmore hlocate hbase hr

/-! ## Places of directories that may be missing -/

/-- By the links of the disk the path leads to the place `base`, where there are no links, whether or
not the directories on the way are there. -/
structure Addressed (d : Disk) (cwd : Place) (root : FilePath) (base : Place) : Prop where
  leads : ∃ full : Disk, full.SameLinks d ∧ full.entryAt cwd true root = .ok (base, .directory)
  linkless : ∀ rest t, d.find? (base ++ rest) ≠ some (.link t)

namespace Addressed

theorem of_sameLinks (hd : d.Addressed cwd root base) (hl : d.SameLinks d') :
    d'.Addressed cwd root base := by
  obtain ⟨full, hfull, hleads⟩ := hd.leads
  exact ⟨⟨full, hfull.trans hl, hleads⟩, fun rest t hlink => hd.linkless rest t ((hl _ t).mp hlink)⟩

variable (hd : d.Addressed cwd root base) (hp : root.Leads rest p) {q : Place}
include hd hp

theorem locate {e : PathEnd} (hq : d.locate cwd through p = .ok (q, e)) :
    q = base ++ rest ∧ e = p.ending := by
  obtain ⟨full, hfull, hleads⟩ := hd.leads
  obtain ⟨more, hmore, hsteps, hstays, hrest⟩ := hp.behind
  obtain ⟨k, hk⟩ := locate_append_alike hfull hleads hmore hp.absolute hsteps hq
  have harrived : ∀ {free' through' : Bool} {f : Followed},
      d.follow free' through' base more = .ok f → f = .arrived (base ++ rest) := by
    intro free' through' f hf
    rw [follow_of_linkless_nil hd.linkless hstays hf, hrest]
  cases k with
  | zero | succ k =>
    unfold locateFrom at hk
    split at hk
    · cases hk
    · next r hf =>
      obtain ⟨rfl, rfl⟩ := Prod.mk.inj (Except.ok.inj hk)
      exact ⟨Followed.arrived.inj (harrived hf), rfl⟩
    · next hf => cases harrived hf

theorem lands : d.Lands cwd p (base ++ rest) where
  locate _ _ _ hq := (hd.locate hp hq).1
  linkless := hd.linkless rest

end Addressed

end Decompile.Disk
