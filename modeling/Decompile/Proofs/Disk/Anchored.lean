import Decompile.Proofs.Disk.Plain
import Decompile.Proofs.Disk.Ways

/-!
# Disks with links

A disk may hold links, also on the way to a directory. Below a directory without links a path says
by itself where it leads, and what was found there is found again as long as nothing on the way goes.

- `Disk.Keeps`: directories and links of one disk stand on another one.
- `Disk.entryAt_of_keeps`, `read_of_keeps`: what is found on the one is found on the other.
- `Disk.Lands`: a path leads to one place; what is planned there.
- `Disk.Anchored`: a path leads to a directory without links below it; `Anchored.locate` and the
  lemmas after it look up what is below.
- `Disk.filesUnder`, `Anchored.walk_eq`: what a walk below such a directory finds.
-/

namespace Decompile

/-- The entry is a file. -/
def Entry.isFile : Entry → Bool
  | file _ _ => true
  | directory | link _ => false

namespace Disk

variable {d d' : Disk} {cwd : Place} {p : FilePath} {free through : Bool} {here : Place}
  {names : List String}

/-! ## What is found again -/

/-- The directories and links of a disk stand on another one. -/
def Keeps (d d' : Disk) : Prop :=
  ∀ q e, d.find? q = some e → e.isFile = false → d'.find? q = some e

theorem Keeps.refl (d : Disk) : d.Keeps d := fun _ _ hq _ => hq

theorem Keeps.trans {d'' : Disk} (h : d.Keeps d') (h' : d'.Keeps d'') : d.Keeps d'' :=
  fun q e hq he => h' q e (h q e hq he) he

/-- Of the entries on a way only the last one may be a file. -/
theorem follow_of_keeps (hk : d.Keeps d') {f : Followed}
    (hf : d.follow free through here names = .ok f)
    (hend : ∀ q, f = .arrived q → ∃ e, d.find? q = some e ∧ d'.find? q = some e) :
    d'.follow free through here names = .ok f := by
  induction names generalizing here with
  | nil => exact hf
  | cons n rest ih =>
    unfold follow at hf ⊢
    by_cases hup : n = ".."
    · rw [if_pos hup] at hf ⊢
      exact ih hf
    rw [if_neg hup] at hf ⊢
    by_cases hlong : nameLimit < (Text.encode n).length
    · rw [if_pos hlong] at hf
      cases hf
    rw [if_neg hlong] at hf ⊢
    have hlast : ∀ {x : Except IoError Followed},
        (if (free && rest.isEmpty) = true then .ok (.arrived (here ++ [n])) else x) = .ok f →
          (∀ g, x ≠ .ok g) → (free && rest.isEmpty) = true ∧ f = .arrived (here ++ [n]) := by
      intro x hx hnone
      split at hx
      · next hfree => exact ⟨hfree, (Except.ok.inj hx).symm⟩
      · exact absurd hx (hnone f)
    cases hnext : d.find? (here ++ [n]) with
    | none =>
      simp only [hnext] at hf
      obtain ⟨-, rfl⟩ := hlast hf fun g hg => by cases hg
      obtain ⟨e, he, -⟩ := hend _ rfl
      rw [hnext] at he
      cases he
    | some e =>
      cases e with
      | directory =>
        simp only [hnext] at hf
        simp only [hk _ _ hnext rfl]
        exact ih hf
      | link t =>
        simp only [hnext] at hf
        simp only [hk _ _ hnext rfl]
        exact hf
      | file c x =>
        simp only [hnext] at hf
        obtain ⟨hfree, rfl⟩ := hlast hf fun g hg => by cases hg
        obtain ⟨e, he, he'⟩ := hend _ rfl
        rw [hnext] at he
        obtain rfl := Option.some.inj he
        simp only [he', hfree, if_true]

theorem locateFrom_of_keeps (hk : d.Keeps d') {links : Nat} {ending : PathEnd} {q : Place}
    {e : PathEnd} (hq : d.locateFrom through links ending here names = .ok (q, e))
    (hend : ∃ x, d.find? q = some x ∧ d'.find? q = some x) :
    d'.locateFrom through links ending here names = .ok (q, e) := by
  induction links generalizing ending here names with
  | zero =>
    unfold locateFrom at hq ⊢
    split at hq
    · cases hq
    · next r hf =>
      obtain ⟨rfl, rfl⟩ := Prod.mk.inj (Except.ok.inj hq)
      rw [follow_of_keeps hk hf fun s hs => Followed.arrived.inj hs ▸ hend]
    · cases hq
  | succ links ih =>
    unfold locateFrom at hq ⊢
    split at hq
    · cases hq
    · next r hf =>
      obtain ⟨rfl, rfl⟩ := Prod.mk.inj (Except.ok.inj hq)
      rw [follow_of_keeps hk hf fun s hs => Followed.arrived.inj hs ▸ hend]
    · next base target rest hf =>
      rw [follow_of_keeps hk hf nofun]
      exact ih hq

theorem entryAt_of_locate {q : Place} {e : Entry} (hq : d.entryAt cwd through p = .ok (q, e)) :
    ∃ ending, d.locate cwd through p = .ok (q, ending) ∧ d.find? q = some e ∧
      (e.isFile = true → ending = .plain) := by
  unfold entryAt at hq
  split at hq
  · cases hq
  · next place ending hlocate =>
    split at hq
    · cases hq
    · next c x hfound =>
      split at hq
      · next hplain =>
        obtain ⟨rfl, rfl⟩ := Prod.mk.inj (Except.ok.inj hq)
        exact ⟨ending, hlocate, hfound, fun _ => hplain⟩
      · cases hq
    · next f hnot hfound =>
      obtain ⟨rfl, rfl⟩ := Prod.mk.inj (Except.ok.inj hq)
      refine ⟨ending, hlocate, hfound, fun hfile => ?_⟩
      cases f with
      | file c x => exact absurd rfl (hnot c x)
      | _ => cases hfile

theorem entryAt_eq {q : Place} {ending : PathEnd} {e : Entry}
    (hlocate : d.locate cwd through p = .ok (q, ending)) (hfound : d.find? q = some e)
    (hplain : e.isFile = true → ending = .plain) : d.entryAt cwd through p = .ok (q, e) := by
  unfold entryAt
  rw [hlocate]
  simp only [hfound]
  cases e with
  | file c x => simp [hplain rfl]
  | _ => rfl

/-- What a path names is named again where the way to it stands and the entry too. -/
theorem entryAt_of_keeps (hk : d.Keeps d') {q : Place} {e : Entry}
    (hq : d.entryAt cwd through p = .ok (q, e)) (hfound : d'.find? q = some e) :
    d'.entryAt cwd through p = .ok (q, e) := by
  obtain ⟨ending, hlocate, hthere, hplain⟩ := entryAt_of_locate hq
  refine entryAt_eq ?_ hfound hplain
  unfold locate at hlocate ⊢
  split at hlocate
  · cases hlocate
  · next hnul =>
    rw [if_neg hnul]
    split at hlocate
    · cases hlocate
    · next htext =>
      rw [if_neg htext]
      exact locateFrom_of_keeps hk hlocate ⟨e, hthere, hfound⟩

/-- The file that is read. -/
theorem entryAt_of_read {bytes : Bytes} (hread : d.read cwd p = .ok bytes) :
    ∃ q x, d.entryAt cwd true p = .ok (q, .file bytes x) := by
  unfold read at hread
  split at hread
  · cases hread
  · next q c x hentry =>
    obtain rfl := Except.ok.inj hread
    exact ⟨q, x, hentry⟩
  · cases hread

theorem read_of_keeps (hk : d.Keeps d') {bytes : Bytes} (hread : d.read cwd p = .ok bytes)
    (hfile : ∀ q x, d.entryAt cwd true p = .ok (q, .file bytes x) →
      d'.find? q = some (.file bytes x)) : d'.read cwd p = .ok bytes := by
  obtain ⟨q, x, hentry⟩ := entryAt_of_read hread
  unfold read
  rw [entryAt_of_keeps hk hentry (hfile q x hentry)]

/-! ## The way below a directory -/

/-- More steps after others. -/
def followOn (d : Disk) (free through : Bool) (more : List String) :
    Followed → Except IoError Followed
  | .arrived q => d.follow free through q more
  | .redirected base target rest => .ok (.redirected base target (rest ++ more))

/-- Steps that end in a directory or at a link are taken the same way when more steps follow. -/
theorem follow_append {a b : List String} (hb : b ≠ []) {f : Followed}
    (hf : d.follow free true here a = .ok f)
    (hend : ∀ q, f = .arrived q → d.find? q = some .directory) (free' through' : Bool) :
    d.follow free' through' here (a ++ b) = d.followOn free' through' b f := by
  induction a generalizing here with
  | nil =>
    obtain rfl := Except.ok.inj hf
    rfl
  | cons n rest ih =>
    rw [List.cons_append]
    unfold follow at hf
    rw [follow]
    by_cases hup : n = ".."
    · rw [if_pos hup] at hf ⊢
      exact ih hf
    rw [if_neg hup] at hf ⊢
    by_cases hlong : nameLimit < (Text.encode n).length
    · rw [if_pos hlong] at hf
      cases hf
    rw [if_neg hlong] at hf ⊢
    have hmore : (rest ++ b).isEmpty = false := by simp [hb]
    -- the last of the first steps leads to a directory or a link
    have hlast : ∀ {x : Except IoError Followed},
        (if (free && rest.isEmpty) = true then .ok (.arrived (here ++ [n])) else x) = .ok f →
          (∀ g, x ≠ .ok g) → d.find? (here ++ [n]) = some .directory := by
      intro x hx hnone
      split at hx
      · exact hend _ (Except.ok.inj hx).symm
      · exact absurd hx (hnone f)
    cases hnext : d.find? (here ++ [n]) with
    | none =>
      simp only [hnext] at hf
      have hdirectory := hlast hf nofun
      rw [hnext] at hdirectory
      cases hdirectory
    | some e =>
      cases e with
      | directory =>
        simp only [hnext] at hf ⊢
        exact ih hf
      | link t =>
        simp only [hnext, Bool.not_true, Bool.and_false, Bool.false_eq_true, if_false] at hf
        obtain rfl := Except.ok.inj hf
        simp [hnext, hmore, followOn]
      | file c x =>
        simp only [hnext] at hf
        have hdirectory := hlast hf nofun
        rw [hnext] at hdirectory
        cases hdirectory

theorem locateFrom_append {a b : List String} (hb : b ≠ []) {links : Nat} {ending : PathEnd}
    {base : Place} {e : PathEnd} (hq : d.locateFrom true links ending here a = .ok (base, e))
    (hbase : d.find? base = some .directory) (through' : Bool) (ending' : PathEnd) :
    ∃ k, d.locateFrom through' links ending' here (a ++ b) =
      d.locateFrom through' k ending' base b := by
  induction links generalizing ending here a with
  | zero =>
    unfold locateFrom at hq
    rw [Bool.true_or] at hq
    split at hq
    · cases hq
    · next r hf =>
      obtain rfl := (Prod.mk.inj (Except.ok.inj hq)).1
      refine ⟨0, ?_⟩
      unfold locateFrom
      rw [follow_append hb hf fun s hs => Followed.arrived.inj hs ▸ hbase]
      rfl
    · cases hq
  | succ links ih =>
    unfold locateFrom at hq
    rw [Bool.true_or] at hq
    split at hq
    · cases hq
    · next r hf =>
      obtain rfl := (Prod.mk.inj (Except.ok.inj hq)).1
      refine ⟨links + 1, ?_⟩
      unfold locateFrom
      rw [follow_append hb hf fun s hs => Followed.arrived.inj hs ▸ hbase]
      rfl
    · next start target rest hf =>
      obtain ⟨k, hk⟩ := ih hq
      have hending : endingAfter ⟨target⟩ (rest ++ b) ending' = ending' := by
        simp [endingAfter, hb]
      refine ⟨k, ?_⟩
      rw [locateFrom, follow_append hb hf nofun]
      simp only [followOn, hending]
      rw [← List.append_assoc]
      exact hk

/-- A path with more steps behind another one goes on from the directory that this one leads to. -/
theorem locate_append {root : FilePath} {base : Place}
    (hroot : d.entryAt cwd true root = .ok (base, .directory)) {more : List String}
    (hmore : more ≠ []) (habsolute : p.isAbsolute = root.isAbsolute)
    (hsteps : p.steps = root.steps ++ more) {r : Place × PathEnd}
    (hr : d.locate cwd through p = .ok r) :
    ∃ k, d.locateFrom through k p.ending base more = .ok r := by
  obtain ⟨ending, hlocate, hbase, -⟩ := entryAt_of_locate hroot
  unfold locate at hlocate hr
  split at hlocate
  · cases hlocate
  · split at hlocate
    · cases hlocate
    · split at hr
      · cases hr
      · split at hr
        · cases hr
        · rw [habsolute, hsteps] at hr
          obtain ⟨k, hk⟩ := locateFrom_append hmore hlocate hbase through p.ending
          exact ⟨k, hk ▸ hr⟩

/-- Steps that stay below a place under which there are no links. -/
theorem follow_of_linkless {base rest : Place} (hd : ∀ q t, d.find? (base ++ q) ≠ some (.link t))
    {f : Followed} (hstays : Place.stays rest.length names = true)
    (hf : d.follow free through (base ++ rest) names = .ok f) :
    f = .arrived (base ++ Place.walk rest names) := by
  induction names generalizing rest with
  | nil =>
    obtain rfl := Except.ok.inj hf
    rfl
  | cons n names ih =>
    unfold follow at hf
    unfold Place.stays at hstays
    unfold Place.walk
    by_cases hup : n = ".."
    · rw [if_pos hup] at hf hstays ⊢
      cases hrest : rest.length with
      | zero =>
        rw [hrest] at hstays
        cases hstays
      | succ depth =>
        rw [hrest] at hstays
        have hne : rest ≠ [] := by
          rintro rfl
          cases hrest
        rw [List.dropLast_append_of_ne_nil hne] at hf
        exact ih (by rw [List.length_dropLast, hrest]; exact hstays) hf
    rw [if_neg hup] at hf hstays ⊢
    split at hf
    · cases hf
    have hnext : Place.stays (rest ++ [n]).length names = true := by
      rw [List.length_append]
      exact hstays
    have hlast : (free && names.isEmpty) = true →
        f = .arrived (base ++ (rest ++ [n])) → f = .arrived (base ++ Place.walk (rest ++ [n]) names) := by
      rintro hfree rfl
      rw [Bool.and_eq_true] at hfree
      rw [List.isEmpty_iff.mp hfree.2]
      rfl
    rw [List.append_assoc] at hf
    simp only at hf
    split at hf
    · exact ih hnext hf
    · next t hlink => exact absurd hlink (hd _ t)
    · split at hf
      · next hfree => exact hlast hfree (Except.ok.inj hf).symm
      · cases hf
    · split at hf
      · next hfree => exact hlast hfree (Except.ok.inj hf).symm
      · cases hf

theorem follow_of_linkless_nil {base : Place} (hd : ∀ q t, d.find? (base ++ q) ≠ some (.link t))
    {f : Followed} (hstays : Place.stays 0 names = true)
    (hf : d.follow free through base names = .ok f) : f = .arrived (base ++ Place.walk [] names) := by
  rw [← List.append_nil base] at hf
  exact follow_of_linkless hd (hstays : Place.stays [].length names = true) hf

/-- Wherever names lead from a place whose names entries can have, they lead to such a place. -/
theorem names_follow (hhere : ∀ n ∈ here, IsEntryName n)
    (hnames : ∀ n ∈ names, n ≠ "" ∧ n ≠ "." ∧ '/' ∉ n.toList) {f : Followed}
    (hf : d.follow free through here names = .ok f) :
    (∀ q, f = .arrived q → ∀ n ∈ q, IsEntryName n) ∧
      ∀ q t rest, f = .redirected q t rest → (∀ n ∈ q, IsEntryName n) ∧ ∀ n ∈ rest, n ∈ names := by
  induction names generalizing here with
  | nil =>
    obtain rfl := Except.ok.inj hf
    exact ⟨fun q hq => Followed.arrived.inj hq ▸ hhere, fun q t r hr => by cases hr⟩
  | cons n rest ih =>
    obtain ⟨hn, hrest⟩ := List.forall_mem_cons.mp hnames
    replace ih := fun {here} hhere => @ih here hhere hrest
    have hmore : ∀ {f : Followed}, ((∀ q, f = .arrived q → ∀ n ∈ q, IsEntryName n) ∧
        ∀ q t r, f = .redirected q t r → (∀ n ∈ q, IsEntryName n) ∧ ∀ m ∈ r, m ∈ rest) →
        (∀ q, f = .arrived q → ∀ n ∈ q, IsEntryName n) ∧
          ∀ q t r, f = .redirected q t r →
            (∀ n ∈ q, IsEntryName n) ∧ ∀ m ∈ r, m ∈ n :: rest := by
      rintro f ⟨harrived, hredirected⟩
      refine ⟨harrived, fun q t r hr => ?_⟩
      obtain ⟨hq, hmem⟩ := hredirected q t r hr
      exact ⟨hq, fun m hm => List.mem_cons_of_mem _ (hmem m hm)⟩
    unfold follow at hf
    by_cases hup : n = ".."
    · rw [if_pos hup] at hf
      exact hmore (ih (fun m hm => hhere m (List.dropLast_subset here hm)) hf)
    rw [if_neg hup] at hf
    split at hf
    · cases hf
    have hnext : ∀ m ∈ here ++ [n], IsEntryName m := by
      intro m hm
      rcases List.mem_append.mp hm with hm | hm
      · exact hhere m hm
      · obtain rfl := List.mem_singleton.mp hm
        exact ⟨hn.1, hn.2.1, hup, hn.2.2⟩
    have hlast : (∀ q, Followed.arrived (here ++ [n]) = .arrived q → ∀ n ∈ q, IsEntryName n) ∧
        ∀ q t r, Followed.arrived (here ++ [n]) = .redirected q t r →
          (∀ n ∈ q, IsEntryName n) ∧ ∀ m ∈ r, m ∈ n :: rest :=
      ⟨fun q hq => Followed.arrived.inj hq ▸ hnext, fun q t r hr => by cases hr⟩
    simp only at hf
    split at hf
    · exact hmore (ih hnext hf)
    · split at hf
      · exact Except.ok.inj hf ▸ hlast
      · obtain rfl := Except.ok.inj hf
        refine ⟨fun q hq => (by cases hq), fun q t r hr => ?_⟩
        obtain ⟨rfl, -, rfl⟩ := Followed.redirected.inj hr
        exact ⟨hhere, fun m hm => List.mem_cons_of_mem _ hm⟩
    · split at hf
      · exact Except.ok.inj hf ▸ hlast
      · cases hf
    · split at hf
      · exact Except.ok.inj hf ▸ hlast
      · cases hf

theorem names_locateFrom {links : Nat} {ending : PathEnd} (hhere : ∀ n ∈ here, IsEntryName n)
    (hnames : ∀ n ∈ names, n ≠ "" ∧ n ≠ "." ∧ '/' ∉ n.toList) {q : Place} {e : PathEnd}
    (hq : d.locateFrom through links ending here names = .ok (q, e)) :
    ∀ n ∈ q, IsEntryName n := by
  induction links generalizing ending here names with
  | zero =>
    unfold locateFrom at hq
    split at hq
    · cases hq
    · next r hf =>
      obtain ⟨rfl, -⟩ := Prod.mk.inj (Except.ok.inj hq)
      exact (names_follow hhere hnames hf).1 _ rfl
    · cases hq
  | succ links ih =>
    unfold locateFrom at hq
    split at hq
    · cases hq
    · next r hf =>
      obtain ⟨rfl, -⟩ := Prod.mk.inj (Except.ok.inj hq)
      exact (names_follow hhere hnames hf).1 _ rfl
    · next base target rest hf =>
      obtain ⟨hbase, hrest⟩ := (names_follow hhere hnames hf).2 _ _ _ rfl
      refine ih ?_ (fun n hn => ?_) hq
      · split
        · exact fun n hn => absurd hn List.not_mem_nil
        · exact hbase
      · rcases List.mem_append.mp hn with hn | hn
        · exact FilePath.mem_steps hn
        · exact hnames n (hrest n hn)

/-- The places that paths name have names that entries can have. -/
theorem names_locate (hcwd : ∀ n ∈ cwd, IsEntryName n) {q : Place} {e : PathEnd}
    (hq : d.locate cwd through p = .ok (q, e)) : ∀ n ∈ q, IsEntryName n := by
  unfold locate at hq
  split at hq
  · cases hq
  · split at hq
    · cases hq
    · refine names_locateFrom ?_ (fun n hn => FilePath.mem_steps hn) hq
      split
      · exact fun n hn => absurd hn List.not_mem_nil
      · exact hcwd

/-- Names of directories are followed, if they are not too long. -/
theorem follow_directories (hnames : ∀ n ∈ names, n ≠ "..") {q : Place}
    (hf : d.follow free through here names = .ok (.arrived q))
    (hdirs : ∀ r, r ≠ [] → r <+: names → d'.find? (here ++ r) = some .directory)
    (free' through' : Bool) :
    d'.follow free' through' here names = .ok (.arrived (here ++ names)) := by
  induction names generalizing here with
  | nil =>
    rw [List.append_nil]
    rfl
  | cons n names ih =>
    unfold follow at hf ⊢
    rw [if_neg (hnames n List.mem_cons_self)] at hf ⊢
    split at hf
    · cases hf
    · next hshort =>
      rw [if_neg hshort]
      have hnext : d'.find? (here ++ [n]) = some .directory :=
        hdirs [n] (List.cons_ne_nil _ _) (List.cons_prefix_cons.mpr ⟨rfl, List.nil_prefix⟩)
      simp only [hnext]
      by_cases hlast : names = []
      · subst hlast
        rfl
      · have hmore : names.isEmpty = false := by simpa using hlast
        simp only [hmore, Bool.and_false, Bool.false_and, Bool.false_eq_true, if_false] at hf
        split at hf
        · rw [ih (fun m hm => hnames m (List.mem_cons_of_mem _ hm)) hf, List.append_assoc]
          · rfl
          · intro r hr hprefix
            rw [List.append_assoc]
            exact hdirs (n :: r) (List.cons_ne_nil _ _) (List.cons_prefix_cons.mpr ⟨rfl, hprefix⟩)
        · cases hf
        · cases hf
        · cases hf

/-! ## Paths that lead to one place -/

/-- However the path is looked up, it leads to the place, at which there is no link. -/
structure Lands (d : Disk) (cwd : Place) (p : FilePath) (place : Place) : Prop where
  locate : ∀ through q e, d.locate cwd through p = .ok (q, e) → q = place
  linkless : ∀ t, d.find? place ≠ some (.link t)

namespace Lands

variable {place q : Place} (hp : d.Lands cwd p place)

include hp

theorem entryAt {e : Entry} (hq : d.entryAt cwd through p = .ok (q, e)) :
    q = place ∧ d.find? place = some e := by
  obtain ⟨ending, hlocate, hfound, -⟩ := entryAt_of_locate hq
  obtain rfl := hp.locate _ _ _ hlocate
  exact ⟨rfl, hfound⟩

theorem planMakeDirectory {c : Change} (hc : d.planMakeDirectory cwd p = .ok c) :
    c = .makeDirectory place ∧ d.find? place = none := by
  unfold Disk.planMakeDirectory at hc
  split at hc
  · cases hc
  · next r ending hlocate =>
    obtain rfl := hp.locate _ _ _ hlocate
    split at hc
    · cases hc
    · next hfree =>
      rw [Bool.or_eq_true, not_or] at hfree
      exact ⟨(Except.ok.inj hc).symm, Option.not_isSome_iff_eq_none.mp hfree.2⟩

theorem planCreate {executable : Bool} {c : Change}
    (hc : d.planCreate cwd p executable = .ok c) :
    (∃ x, c = .create place x) ∧ ∀ e, d.find? place = some e → e.isFile = true := by
  unfold Disk.planCreate at hc
  split at hc
  · cases hc
  · next r ending hlocate =>
    obtain rfl := hp.locate _ _ _ hlocate
    split at hc
    · cases hc
    · next b x hfile =>
      split at hc
      · obtain rfl := Except.ok.inj hc
        refine ⟨⟨x, rfl⟩, fun e he => ?_⟩
        rw [hfile] at he
        obtain rfl := Option.some.inj he
        rfl
      · cases hc
    · cases hc
    · next hnone =>
      split at hc
      · obtain rfl := Except.ok.inj hc
        refine ⟨⟨executable, rfl⟩, fun e he => ?_⟩
        rw [hnone] at he
        cases he
      · cases hc

theorem planReplace {contents : Bytes} {c : Change}
    (hc : d.planReplace cwd p contents = .ok c) :
    c = .replace place contents ∧ ∀ e, d.find? place = some e → e.isFile = true := by
  unfold Disk.planReplace at hc
  split at hc
  · cases hc
  · next r ending hlocate =>
    obtain rfl := hp.locate _ _ _ hlocate
    split at hc
    · cases hc
    · cases hc
    · cases hc
    · next hfree =>
      obtain rfl := Except.ok.inj hc
      refine ⟨rfl, fun e he => ?_⟩
      cases e with
      | file c x => rfl
      | directory => exact absurd he hfree
      | link t => exact absurd he (hp.linkless t)

theorem planRemoveFile {c : Change} (hc : d.planRemoveFile cwd p = .ok c) :
    c = .remove place := by
  unfold Disk.planRemoveFile at hc
  split at hc
  · cases hc
  · cases hc
  · next r e hnot hentry =>
    obtain rfl := Except.ok.inj hc
    rw [(hp.entryAt hentry).1]

theorem planRemoveTree {cs : List Change} (hcs : d.planRemoveTree cwd p = .ok cs) :
    ∀ c ∈ cs, ∃ more, c = .remove (place ++ more) := by
  unfold Disk.planRemoveTree at hcs
  split at hcs
  · cases hcs
  · cases hcs
  · next r t hentry => exact absurd (hp.entryAt hentry).2 (hp.linkless t)
  · next r hentry =>
    obtain ⟨rfl, -⟩ := hp.entryAt hentry
    obtain rfl := Except.ok.inj hcs
    intro c hc
    rcases List.mem_append.mp hc with hc | hc
    · obtain ⟨x, -, rfl⟩ := List.mem_map.mp hc
      exact ⟨x.1, rfl⟩
    · obtain rfl := List.mem_singleton.mp hc
      exact ⟨[], by rw [List.append_nil]⟩

end Lands

/-! ## Looking up what is below a directory -/

/-- The path leads to the directory `base`, and there are no links below it. -/
structure Anchored (d : Disk) (cwd : Place) (root : FilePath) (base : Place) : Prop where
  leads : d.entryAt cwd true root = .ok (base, .directory)
  linkless : ∀ rest t, d.find? (base ++ rest) ≠ some (.link t)

namespace Anchored

variable {root : FilePath} {base rest : Place} {q : Place}

/-- Directories and links that stay where they are keep a path to a directory. -/
theorem of_keeps (hd : d.Anchored cwd root base) (hk : d.Keeps d')
    (hlinkless : ∀ rest t, d'.find? (base ++ rest) ≠ some (.link t)) :
    d'.Anchored cwd root base := by
  obtain ⟨-, -, hbase, -⟩ := entryAt_of_locate hd.leads
  exact ⟨entryAt_of_keeps hk hd.leads (hk _ _ hbase rfl), hlinkless⟩

variable (hd : d.Anchored cwd root base) (hp : root.Leads rest p)

include hd hp

theorem locate {e : PathEnd} (hq : d.locate cwd through p = .ok (q, e)) :
    q = base ++ rest ∧ e = p.ending := by
  obtain ⟨more, hmore, hsteps, hstays, hrest⟩ := hp.behind
  obtain ⟨k, hk⟩ := locate_append hd.leads hmore hp.absolute hsteps hq
  have harrived : ∀ {free' through' : Bool} {f : Followed},
      d.follow free' through' base more = .ok f → f = .arrived (base ++ rest) := by
    intro free' through' f hf
    rw [follow_of_linkless_nil hd.linkless hstays hf, hrest]
  cases k with
  | zero | succ k =>
    unfold locateFrom at hk
    split at hk
    · cases hk
    · next r hf =>
      obtain ⟨rfl, rfl⟩ := Prod.mk.inj (Except.ok.inj hk)
      exact ⟨Followed.arrived.inj (harrived hf), rfl⟩
    · next hf => cases harrived hf

theorem lands : d.Lands cwd p (base ++ rest) where
  locate _ _ _ hq := (hd.locate hp hq).1
  linkless := hd.linkless rest

theorem entryAt {e : Entry} (hq : d.entryAt cwd through p = .ok (q, e)) :
    q = base ++ rest ∧ d.find? (base ++ rest) = some e :=
  (hd.lands hp).entryAt hq

theorem read {bytes : Bytes} (hread : d.read cwd p = .ok bytes) :
    ∃ x, d.find? (base ++ rest) = some (.file bytes x) := by
  obtain ⟨q, x, hentry⟩ := entryAt_of_read hread
  exact ⟨x, (hd.entryAt hp hentry).2⟩

theorem planCreate {executable : Bool} {c : Change}
    (hc : d.planCreate cwd p executable = .ok c) :
    (∃ x, c = .create (base ++ rest) x) ∧ ∀ e, d.find? (base ++ rest) = some e → e.isFile = true :=
  (hd.lands hp).planCreate hc

theorem planReplace {contents : Bytes} {c : Change}
    (hc : d.planReplace cwd p contents = .ok c) :
    c = .replace (base ++ rest) contents ∧
      ∀ e, d.find? (base ++ rest) = some e → e.isFile = true :=
  (hd.lands hp).planReplace hc

theorem planRemoveFile {c : Change} (hc : d.planRemoveFile cwd p = .ok c) :
    c = .remove (base ++ rest) :=
  (hd.lands hp).planRemoveFile hc

theorem planRemoveTree {cs : List Change} (hcs : d.planRemoveTree cwd p = .ok cs) :
    ∀ c ∈ cs, ∃ more, c = .remove (base ++ rest ++ more) :=
  (hd.lands hp).planRemoveTree hcs

end Anchored

/-! ## Walks -/

/-- The files below a place with their contents, each under the names that lead there. -/
def filesUnder (d : Disk) (base : Place) : List (Place × Bytes) :=
  (d.below base).filterMap fun x =>
    match x.2 with
    | .file c _ => some (x.1, c)
    | _ => none

theorem below?_append (p r : Place) : below? p (p ++ r) = some r := by
  induction p with
  | nil => cases r <;> rfl
  | cons m p ih =>
    rw [List.cons_append]
    unfold below?
    simp only [if_true]
    exact ih

theorem mem_below_iff {base : Place} {x : Place × Entry} :
    x ∈ d.below base ↔ x.1 ≠ [] ∧ d.find? (base ++ x.1) = some x.2 := by
  constructor
  · intro hx
    refine ⟨?_, find?_of_mem_below hx⟩
    obtain ⟨⟨q, e⟩, -, hsome⟩ := List.mem_filterMap.mp hx
    split at hsome
    · obtain rfl := Option.some.inj hsome
      exact List.cons_ne_nil _ _
    · cases hsome
  · rintro ⟨hne, hfound⟩
    refine List.mem_filterMap.mpr ⟨_, mem_of_findEntry hfound, ?_⟩
    obtain ⟨n, rest, hx⟩ := List.exists_cons_of_ne_nil hne
    simp only [below?_append, hx]
    rw [← hx]

theorem mem_filesUnder {base q : Place} {b : Bytes} :
    (q, b) ∈ d.filesUnder base ↔ q ≠ [] ∧ ∃ x, d.find? (base ++ q) = some (.file b x) := by
  unfold filesUnder
  constructor
  · intro hmem
    obtain ⟨⟨r, e⟩, hr, hsome⟩ := List.mem_filterMap.mp hmem
    obtain ⟨hne, hfound⟩ := mem_below_iff.mp hr
    split at hsome
    · next c x hfile =>
      obtain ⟨rfl, rfl⟩ := Prod.mk.inj (Option.some.inj hsome)
      exact ⟨hne, x, hfile ▸ hfound⟩
    · cases hsome
  · rintro ⟨hne, x, hfound⟩
    exact List.mem_filterMap.mpr ⟨(q, .file b x), mem_below_iff.mpr ⟨hne, hfound⟩, rfl⟩

theorem append_lt_append {base p q : Place} (h : base ++ p < base ++ q) : p < q := by
  induction base with
  | nil => exact h
  | cons n base ih =>
    rcases List.cons_lt_cons_iff.mp h with hlt | ⟨-, hrest⟩
    · exact absurd hlt (String.lt_irrefl n)
    · exact ih hrest

/-- What stands below a place comes in ascending order. -/
theorem below_ascending (d : Disk) (base : Place) : (d.below base).Pairwise fun a b => a.1 < b.1 := by
  refine List.Pairwise.filterMap _ ?_ d.ascending
  intro a b hab x hx y hy
  split at hx
  · next n rest ha =>
    split at hy
    · next m more hb =>
      obtain rfl := Option.some.inj hx
      obtain rfl := Option.some.inj hy
      rw [eq_append_of_below? ha, eq_append_of_below? hb] at hab
      exact append_lt_append hab
    · cases hy
  · cases hx

/-- The files below a place come in ascending order. -/
theorem filesUnder_ascending (d : Disk) (base : Place) :
    (d.filesUnder base).Pairwise fun a b => a.1 < b.1 := by
  refine List.Pairwise.filterMap _ ?_ (d.below_ascending base)
  intro a b hab x hx y hy
  split at hx
  · split at hy
    · obtain rfl := Option.some.inj hx
      obtain rfl := Option.some.inj hy
      exact hab
    · cases hy
  · cases hx

namespace Anchored

variable {root : FilePath} {base rest : Place}

/-- A walk from a directory finds the files below it. -/
theorem walk_eq {q r : Place} (hlook : d.entryAt cwd false p = .ok (q, .directory))
    (hthrough : d.entryAt cwd true p = .ok (r, .directory)) :
    d.walk cwd p = (d.filesUnder r).map fun x => ⟨childPath p x.1, x.1, x.2⟩ := by
  unfold walk
  rw [hlook]
  simp only [hthrough]
  rw [filesUnder, List.map_filterMap]
  congr 1
  funext x
  cases x.2 <;> rfl

/-- A walk that finds something below its root starts from a directory. -/
theorem directory_of_walk (hd : d.Anchored cwd root base) (hp : root.Leads rest p) {f : Found}
    (hf : f ∈ d.walk cwd p) (hbelow : f.path ≠ p) :
    d.entryAt cwd false p = .ok (base ++ rest, .directory) ∧
      d.entryAt cwd true p = .ok (base ++ rest, .directory) := by
  unfold walk at hf
  split at hf
  · obtain rfl := List.mem_singleton.mp hf
    exact absurd rfl hbelow
  · next e hnot hlook =>
    split at hf
    · next r hthrough =>
      obtain ⟨rfl, hfound⟩ := hd.entryAt hp hthrough
      obtain ⟨q, e⟩ := e
      obtain ⟨rfl, he⟩ := hd.entryAt hp hlook
      rw [hfound] at he
      obtain rfl := Option.some.inj he
      exact ⟨hlook, hthrough⟩
    · cases hf
  · cases hf

/-- A path that could be followed once leads to a directory where the directories on its way stand. -/
theorem entryAt_again (hd : d.Anchored cwd root base) (hd' : d'.Anchored cwd root base)
    (habsolute : p.isAbsolute = root.isAbsolute) (hsteps : p.steps = root.steps ++ rest)
    (hne : rest ≠ []) (hnames : ∀ n ∈ rest, IsEntryName n) {q : Place} {e : PathEnd}
    (hlocate : d.locate cwd through p = .ok (q, e))
    (hdirs : ∀ r, r ≠ [] → r <+: rest → d'.find? (base ++ r) = some .directory)
    (through' : Bool) :
    d'.entryAt cwd through' p = .ok (base ++ rest, .directory) := by
  have hup : ∀ n ∈ rest, n ≠ ".." := fun n hn => (hnames n hn).2.2.1
  -- on the first disk no name is too long
  have hfollow : ∃ free through r, d.follow free through base rest = .ok (.arrived r) := by
    obtain ⟨k, hk⟩ := locate_append hd.leads hne habsolute hsteps hlocate
    cases k with
    | zero | succ k =>
      unfold locateFrom at hk
      split at hk
      · cases hk
      · next r hf => exact ⟨_, _, r, hf⟩
      · next hf => cases follow_of_linkless_nil hd.linkless (Place.stays_names hnames 0) hf
  obtain ⟨free, through₀, r, hf⟩ := hfollow
  have hagain : ∀ free' through'', d'.follow free' through'' base rest = .ok (.arrived (base ++ rest)) :=
    follow_directories hup hf hdirs
  suffices hlocated : d'.locate cwd through' p = .ok (base ++ rest, p.ending) from
    entryAt_eq hlocated (hdirs rest hne (List.prefix_refl _)) nofun
  obtain ⟨ending', hroot, hbase, -⟩ := entryAt_of_locate hd'.leads
  unfold Disk.locate at hlocate hroot ⊢
  split at hlocate
  · cases hlocate
  · next hnul =>
    rw [if_neg hnul]
    split at hlocate
    · cases hlocate
    · next htext =>
      rw [if_neg htext]
      split at hroot
      · cases hroot
      · split at hroot
        · cases hroot
        · obtain ⟨k, hk⟩ := locateFrom_append hne hroot hbase through' p.ending
          rw [habsolute, hsteps, hk]
          unfold locateFrom
          rw [hagain]

end Anchored

end Disk

end Decompile
