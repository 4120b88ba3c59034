import Decompile.Proofs.Disk.Anchored

/-!
# A file that was moved to its name is read

- `Disk.FileAt`: a file stands where there was a file or nothing; `FileAt.locate`: the way there stays.
- `Disk.read_of_planReplace`: what was moved to a name is read under that name, if no link had it.
- `Disk.read_of_planReplace_child`: it is also read if a link had the name, but the directory that the
  name is in must still be found; the way there may have led through that very link.
-/

namespace Decompile

namespace Disk

variable {d d' : Disk} {cwd place here : Place} {p : FilePath} {free through : Bool}
  {names : List String}

/-- A file stands at the place, where there was a file or nothing, and all else is as it was. -/
structure FileAt (d d' : Disk) (place : Place) : Prop where
  before : ∀ e, d.find? place = some e → e.isFile = true
  after : ∃ b x, d'.find? place = some (.file b x)
  others : ∀ q, q ≠ place → d'.find? q = d.find? q

/-- Directories and links stand as before. -/
theorem FileAt.keeps (h : d.FileAt d' place) : d.Keeps d' := by
  intro q e hq he
  refine (h.others q ?_).trans hq
  rintro rfl
  rw [h.before e hq] at he
  cases he

/-- A way that may end at the place only is taken as before, whether it follows a last link or not. -/
theorem FileAt.follow (h : d.FileAt d' place) {f : Followed}
    (hf : d.follow free false here names = .ok f) (hend : ∀ q, f = .arrived q → q = place)
    (through : Bool) : d'.follow free through here names = .ok f := by
  obtain ⟨b, x, hafter⟩ := h.after
  induction names generalizing here with
  | nil => exact hf
  | cons n rest ih =>
    unfold Disk.follow at hf ⊢
    by_cases hup : n = ".."
    · rw [if_pos hup] at hf ⊢
      exact ih hf
    rw [if_neg hup] at hf ⊢
    split at hf
    · cases hf
    next hshort =>
    rw [if_neg hshort]
    -- a way that ends here ends at the place
    have hlast : ∀ {r : Except IoError Followed},
        (if (free && rest.isEmpty) = true then .ok (.arrived (here ++ [n])) else r) = .ok f →
          (∀ g, r ≠ .ok g) → (free && rest.isEmpty) = true ∧ here ++ [n] = place ∧
            f = .arrived place := by
      intro r hr hnone
      split at hr
      · next hfree =>
        obtain rfl := Except.ok.inj hr
        have hplace := hend _ rfl
        exact ⟨hfree, hplace, by rw [hplace]⟩
      · exact absurd hr (hnone f)
    cases hnext : d.find? (here ++ [n]) with
    | none =>
      simp only [hnext] at hf
      obtain ⟨hfree, hplace, rfl⟩ := hlast hf fun _ heq => by cases heq
      simp only [hplace, hafter, hfree, if_true]
    | some e =>
      cases e with
      | directory =>
        have hne : here ++ [n] ≠ place := fun heq => by cases h.before _ (heq ▸ hnext)
        simp only [hnext] at hf
        simp only [h.others _ hne, hnext]
        exact ih hf
      | link t =>
        have hne : here ++ [n] ≠ place := fun heq => by cases h.before _ (heq ▸ hnext)
        simp only [hnext, Bool.not_false, Bool.and_true] at hf
        simp only [h.others _ hne, hnext]
        split at hf
        · exact absurd (hend _ (Except.ok.inj hf).symm) hne
        · next hmore =>
          rw [Bool.not_eq_true] at hmore
          rw [hmore]
          exact hf
      | file c y =>
        simp only [hnext] at hf
        obtain ⟨hfree, hplace, rfl⟩ := hlast hf fun _ heq => by cases heq
        simp only [hplace, hafter, hfree, if_true]

/-- Where a last link is not followed, steps come after those that are. -/
theorem ne_nil_of_redirected {base : Place} {target : String} {rest : List String}
    (hf : d.follow true false here names = .ok (.redirected base target rest)) : rest ≠ [] := by
  induction names generalizing here with
  | nil => cases hf
  | cons n names ih =>
    unfold Disk.follow at hf
    by_cases hup : n = ".."
    · rw [if_pos hup] at hf
      exact ih hf
    rw [if_neg hup] at hf
    by_cases hlong : nameLimit < (Text.encode n).length
    · rw [if_pos hlong] at hf
      cases hf
    rw [if_neg hlong] at hf
    cases hnext : d.find? (here ++ [n]) with
    | none =>
      simp only [hnext] at hf
      split at hf <;> cases hf
    | some e =>
      cases e with
      | directory =>
        simp only [hnext] at hf
        exact ih hf
      | file c y =>
        simp only [hnext] at hf
        split at hf <;> cases hf
      | link t =>
        simp only [hnext] at hf
        split at hf
        · cases hf
        · next hmore =>
          obtain ⟨-, -, rfl⟩ := Followed.redirected.inj (Except.ok.inj hf)
          simpa using hmore

/-- The same of a way with links. -/
theorem FileAt.locateFrom (h : d.FileAt d' place) {links : Nat} 
    (hq : d.locateFrom false links .plain here names = .ok (place, .plain)) (through : Bool) :
    d'.locateFrom through links .plain here names = .ok (place, .plain) := by
  induction links generalizing here names with
  | zero =>
    unfold Disk.locateFrom at hq ⊢
    simp only [ne_eq, not_true_eq_false, decide_false, Bool.or_false] at hq ⊢
    split at hq
    · cases hq
    · next r hf =>
      obtain ⟨rfl, -⟩ := Prod.mk.inj (Except.ok.inj hq)
      rw [h.follow hf fun s hs => (Followed.arrived.inj hs).symm]
    · cases hq
  | succ links ih =>
    unfold Disk.locateFrom at hq ⊢
    simp only [ne_eq, not_true_eq_false, decide_false, Bool.or_false] at hq ⊢
    split at hq
    · cases hq
    · next r hf =>
      obtain ⟨rfl, -⟩ := Prod.mk.inj (Except.ok.inj hq)
      rw [h.follow hf fun s hs => (Followed.arrived.inj hs).symm]
    · next base target rest hf =>
      have hending : endingAfter ⟨target⟩ rest .plain = .plain := by
        simp [endingAfter, ne_nil_of_redirected hf]
      rw [h.follow hf fun _ heq => by cases heq]
      simp only [hending] at hq ⊢
      exact ih hq

/-- Links do not make a path end with a name that did not. -/
theorem ending_of_locateFrom {links : Nat} {ending : PathEnd} {q : Place}
    (hq : d.locateFrom through links ending here names = .ok (q, .plain)) : ending = .plain := by
  induction links generalizing ending here names with
  | zero =>
    unfold Disk.locateFrom at hq
    split at hq
    · cases hq
    · exact (Prod.mk.inj (Except.ok.inj hq)).2
    · cases hq
  | succ links ih =>
    unfold Disk.locateFrom at hq
    split at hq
    · cases hq
    · exact (Prod.mk.inj (Except.ok.inj hq)).2
    · have hafter := ih hq
      unfold endingAfter at hafter
      split at hafter
      · next hlast =>
        rw [Bool.and_eq_true] at hlast
        exact of_decide_eq_true hlast.2
      · exact hafter

/-- The place of a path is found again. -/
theorem FileAt.locate (h : d.FileAt d' place) (hq : d.locate cwd false p = .ok (place, .plain))
    (through : Bool) : d'.locate cwd through p = .ok (place, .plain) := by
  unfold Disk.locate at hq ⊢
  split at hq
  · cases hq
  next hnul =>
  rw [if_neg hnul]
  split at hq
  · cases hq
  next htext =>
  rw [if_neg htext]
  have hending := ending_of_locateFrom hq
  rw [hending] at hq ⊢
  exact h.locateFrom hq through

/-! ## Reading what was moved to its name -/

/-- A file that is moved to a name is put where the path leads, which is no directory. -/
theorem planReplace_ok {bytes : Bytes} {c : Change} (hc : d.planReplace cwd p bytes = .ok c) :
    ∃ q, c = .replace q bytes ∧ d.locate cwd false p = .ok (q, .plain) ∧
      d.find? q ≠ some .directory := by
  unfold planReplace at hc
  split at hc
  · cases hc
  · next q ending hlocate =>
    split at hc
    · cases hc
    · cases hc
    · cases hc
    · next hfree => exact ⟨q, (Except.ok.inj hc).symm, hlocate, hfree⟩

/-- A file is moved to where the path leads if that is no directory. -/
theorem planReplace_eq {q : Place} (hlocate : d.locate cwd false p = .ok (q, .plain))
    (hfree : d.find? q ≠ some .directory) (bytes : Bytes) :
    d.planReplace cwd p bytes = .ok (.replace q bytes) := by
  rw [planReplace, hlocate]
  cases hfound : d.find? q with
  | none => simp only [hfound]
  | some e =>
    cases e with
    | directory => exact absurd hfound hfree
    | file | link => simp only [hfound]

theorem read_eq {bytes : Bytes} {x : Bool} (hlocate : d.locate cwd true p = .ok (place, .plain))
    (hfile : d.find? place = some (.file bytes x)) : d.read cwd p = .ok bytes := by
  rw [read, entryAt_eq hlocate hfile fun _ => rfl]

/-- A file that is moved to a place where there was neither a directory nor a link. -/
theorem fileAt_replace {q : Place} (hfree : d.find? q ≠ some .directory)
    (hlink : ∀ t, d.find? q ≠ some (.link t)) (bytes : Bytes) :
    d.FileAt (d.apply (.replace q bytes)) q := by
  refine ⟨fun e he => ?_, ⟨bytes, false, ?_⟩, fun r hr => find?_apply_of_ne _ _ hr⟩
  · cases e with
    | file => rfl
    | directory => exact absurd he hfree
    | link t => exact absurd he (hlink t)
  · rw [apply, find?_put, if_pos rfl]

/-- What was moved to a name is read under that name, if no link had it. -/
theorem read_of_planReplace {bytes : Bytes} {c : Change}
    (hc : d.planReplace cwd p bytes = .ok c) (hlink : ∀ t, d.find? c.place ≠ some (.link t)) :
    (d.apply c).read cwd p = .ok bytes := by
  obtain ⟨q, rfl, hlocate, hfree⟩ := planReplace_ok hc
  have hfile : (d.apply (.replace q bytes)).find? q = some (.file bytes false) := by
    rw [apply, find?_put, if_pos rfl]
  exact read_eq ((fileAt_replace hfree hlink bytes).locate hlocate true) hfile

theorem text_of_locate {r : Place × PathEnd} (hr : d.locate cwd through p = .ok r) :
    p.text.toList.contains '\x00' = false ∧ p.text ≠ "" := by
  unfold Disk.locate at hr
  split at hr
  · cases hr
  next hnul =>
  split at hr
  · cases hr
  next htext => exact ⟨Bool.eq_false_iff.mpr hnul, htext⟩

/-- A path with more steps behind another one is looked up from the directory that this one leads to,
and nothing else can be in its way. -/
theorem locate_behind {root : FilePath} {base : Place}
    (hroot : d.entryAt cwd true root = .ok (base, .directory)) {more : List String}
    (hmore : more ≠ []) (habsolute : p.isAbsolute = root.isAbsolute)
    (hsteps : p.steps = root.steps ++ more) (hnul : p.text.toList.contains '\x00' = false)
    (htext : p.text ≠ "") (through : Bool) :
    ∃ k, d.locate cwd through p = d.locateFrom through k p.ending base more := by
  obtain ⟨ending, hlocate, hbase, -⟩ := entryAt_of_locate hroot
  unfold locate at hlocate ⊢
  split at hlocate
  · cases hlocate
  split at hlocate
  · cases hlocate
  rw [if_neg (by rw [hnul]; nofun), if_neg htext, habsolute, hsteps]
  exact locateFrom_append hmore hlocate hbase through _

/-- A name of a directory is looked up there. -/
theorem locate_child {root : FilePath} {base : Place}
    (hroot : d.entryAt cwd true root = .ok (base, .directory)) {n : String} (hn : IsEntryName n)
    (hnul : (root.join ⟨n⟩).text.toList.contains '\x00' = false) (htext : (root.join ⟨n⟩).text ≠ "")
    (through : Bool) :
    ∃ k, d.locate cwd through (root.join ⟨n⟩) =
      d.locateFrom through k (root.join ⟨n⟩).ending base [n] := by
  have hrelative := FilePath.isAbsolute_of_isEntryName hn
  refine locate_behind hroot (List.cons_ne_nil _ _) (FilePath.isAbsolute_join hrelative) ?_ hnul htext
    through
  rw [FilePath.steps_join hrelative, FilePath.steps_of_isEntryName hn]

theorem entryAt_of_isDirectory (h : d.isDirectory cwd p = true) :
    ∃ base, d.entryAt cwd true p = .ok (base, .directory) := by
  unfold isDirectory at h
  split at h
  · next base hentry => exact ⟨base, hentry⟩
  · cases h

/-- One step to a name, which may be missing and is not followed if it is a link. -/
theorem follow_name {n : String} (hn : IsEntryName n) {f : Followed}
    (hf : d.follow true false here [n] = .ok f) :
    f = .arrived (here ++ [n]) ∧ ¬ nameLimit < (Text.encode n).length := by
  unfold Disk.follow at hf
  rw [if_neg hn.2.2.1] at hf
  split at hf
  · cases hf
  next hshort =>
  refine ⟨?_, hshort⟩
  cases hnext : d.find? (here ++ [n]) with
  | none =>
    simp only [hnext] at hf
    exact (Except.ok.inj hf).symm
  | some e =>
    cases e with
    | directory | link | file =>
      simp only [hnext] at hf
      exact (Except.ok.inj hf).symm

/-- One step to the name of a file. -/
theorem follow_file {n : String} (hn : IsEntryName n) (hshort : ¬ nameLimit < (Text.encode n).length)
    {bytes : Bytes} {x : Bool} (hfile : d.find? (here ++ [n]) = some (.file bytes x))
    (through : Bool) : d.follow true through here [n] = .ok (.arrived (here ++ [n])) := by
  unfold Disk.follow
  rw [if_neg hn.2.2.1, if_neg hshort]
  simp only [hfile]
  rfl

/-- What was moved to a name of a directory is read, if the directory is still there. -/
theorem read_of_planReplace_child {root : FilePath} {n : String} (hn : IsEntryName n) {bytes : Bytes}
    {c : Change} (hc : d.planReplace cwd (root.join ⟨n⟩) bytes = .ok c)
    (hroot : (d.apply c).isDirectory cwd root = true) :
    (d.apply c).read cwd (root.join ⟨n⟩) = .ok bytes := by
  obtain ⟨q, rfl, hlocate, -⟩ := planReplace_ok hc
  have hfile : (d.apply (.replace q bytes)).find? q = some (.file bytes false) := by
    rw [apply, find?_put, if_pos rfl]
  obtain ⟨base, hbase⟩ := entryAt_of_isDirectory hroot
  -- the directory was there before, and the file is one of its files
  have hkeeps : (d.apply (.replace q bytes)).Keeps d := by
    intro r e he hother
    by_cases hr : r = q
    · rw [hr, hfile] at he
      obtain rfl := Option.some.inj he
      cases hother
    · rwa [find?_apply_of_ne _ _ hr] at he
  obtain ⟨-, -, hdirectory, -⟩ := entryAt_of_locate hbase
  have hbefore := entryAt_of_keeps hkeeps hbase (hkeeps _ _ hdirectory rfl)
  obtain ⟨hnul, htext⟩ := text_of_locate hlocate
  obtain ⟨k, hk⟩ := locate_child hbefore hn hnul htext false
  obtain ⟨k', hk'⟩ := locate_child hbase hn hnul htext true
  rw [hk] at hlocate
  have hending := ending_of_locateFrom hlocate
  rw [hending] at hlocate hk'
  obtain ⟨rfl, hshort⟩ : q = base ++ [n] ∧ ¬ nameLimit < (Text.encode n).length := by
    cases k with
    | zero | succ k =>
      unfold Disk.locateFrom at hlocate
      split at hlocate
      · cases hlocate
      · next r hf =>
        obtain ⟨heq, hshort⟩ := follow_name hn hf
        obtain ⟨rfl, -⟩ := Prod.mk.inj (Except.ok.inj hlocate)
        exact ⟨Followed.arrived.inj heq, hshort⟩
      · next hf => cases (follow_name hn hf).1
  suffices hlocated : (d.apply (.replace (base ++ [n]) bytes)).locate cwd true (root.join ⟨n⟩) =
      .ok (base ++ [n], .plain) from read_eq hlocated hfile
  rw [hk']
  cases k' with
  | zero | succ k' =>
    unfold Disk.locateFrom
    simp only [ne_eq, not_true_eq_false, decide_false, Bool.or_false, reduceCtorEq,
      not_false_eq_true, decide_true, follow_file hn hshort hfile]

end Disk

end Decompile
