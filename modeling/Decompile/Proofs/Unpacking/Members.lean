import Decompile.Proofs.Unpacking.Directories

/-!
# Members that are written once more

What unpacking members comes to is decided by the disk, and doing it once more changes nothing.

- `Disk.lay`, `Disk.layEach`: what writing members comes to, and the disk it leaves behind.
- `Redone`: a disk on the way of doing once more what led from one disk to another.
- `Disk.lay_again`, `layEach_again`: the members are written again, and the first failure is met
  again, with another text perhaps if a name has turned back.
- `Disk.layEach_append`, `layEach_outside`: members in several rows, and places they leave alone.
-/

namespace Decompile

open FilePath (Continues Down Stairs)

namespace Disk

/-! ## Writing members -/

/-- What writing contents to a file comes to. -/
def fill (cwd : Place) (target : FilePath) (opened : Zip.Opened) (d : Disk) :
    Except StageError Unit × Disk :=
  match d.planCreate cwd target false with
  | .error e => (.error (.ofIo e), d)
  | .ok c =>
    (match opened.failure with
      | some e => .error (.ofIo e)
      | none => .ok (), (d.apply c).apply (.append c.place opened.contents))

/-- What writing contents under a name below `dest`, which is at `base`, comes to. -/
def layAt (cwd : Place) (dest : FilePath) (base : Place) (name : String) (opened : Zip.Opened)
    (d : Disk) : Except StageError Unit × Disk :=
  match d.dig false base (⟨name⟩ : FilePath).steps.dropLast with
  | (.error e, d) => (.error (.ofIo e), d)
  | (.ok (), d) => d.fill cwd (dest.join ⟨name⟩) opened

/-- What writing a member below `dest`, which is at `base`, comes to. -/
def lay (cwd : Place) (dest : FilePath) (base : Place) (bytes : Bytes) (d : Disk) (l : Zip.Listed) :
    Except StageError Unit × Disk :=
  match Zip.openMember bytes l with
  | .error e => (.error (.ofArchive e), d)
  | .ok opened =>
    if Zip.namesDirectory l.name || !Zip.isEnclosed l.name then (.ok (), d)
    else d.layAt cwd dest base l.name opened

/-- What writing the named members one after another comes to. -/
def layEach (cwd : Place) (dest : FilePath) (base : Place) (bytes : Bytes) (ls : List Zip.Listed)
    (d : Disk) : List String → Except StageError Unit × Disk
  | [] => (.ok (), d)
  | n :: ns =>
    match Zip.find? n ls with
    | none => (.error (.ofArchive .noSuchMember), d)
    | some l =>
      match d.lay cwd dest base bytes l with
      | (.error e, d) => (.error e, d)
      | (.ok (), d) => d.layEach cwd dest base bytes ls ns

variable {d x y z : Disk} {cwd base : Place} {dest target : FilePath} {more front : List String}
  {n : String} {bytes : Bytes} {l : Zip.Listed} {ls : List Zip.Listed}

/-! ## Files behind a way -/

theorem follow_behind {here : Place} {a : List String} (ha : d.enters here a = true) (free through : Bool)
    (b : List String) :
    d.follow free through here (a ++ b) = d.follow free through (Place.walk here a) b := by
  induction a generalizing here with
  | nil => rfl
  | cons n a ih =>
    rw [List.cons_append, follow, Place.walk]
    unfold enters at ha
    split
    · next hup =>
      rw [if_pos hup] at ha
      exact ih ha
    · next hup =>
      rw [if_neg hup] at ha
      split
      · next hlong =>
        rw [if_pos hlong] at ha
        cases ha
      · next hlong =>
        rw [if_neg hlong] at ha
        split at ha
        · next hdir =>
          simp only [hdir]
          exact ih ha
        · cases ha

namespace Ground

/-- A file that can be made is no directory, and where it stands can be told from its path. -/
theorem planCreate_of_ok (hd : d.Ground cwd dest base) (hroot : dest.steps ≠ [])
    (hp : Continues dest more target) (hstays : Place.stays 0 more = true) {executable : Bool} {c : Change}
    (hc : d.planCreate cwd target executable = .ok c) :
    more ≠ [] ∧ target.ending = .plain ∧ d.follow true true base more = .ok (.arrived (base ++ Place.walk [] more)) ∧
      ∃ x, c = .create (base ++ Place.walk [] more) x ∧
        ((∃ b, d.find? (base ++ Place.walk [] more) = some (.file b x)) ∨
          d.find? (base ++ Place.walk [] more) = none) := by
  have htext : target.text ≠ "" := by
    refine FilePath.text_ne_of_steps ?_
    rw [hp.steps]
    exact List.append_ne_nil_of_left_ne_nil hroot _
  unfold Disk.planCreate at hc
  by_cases hmore : more = []
  · subst hmore
    obtain ⟨q, e, hlocate, -, hq⟩ := locate_of_directory hd.leads hp htext true
    obtain rfl := hq rfl
    rw [hlocate] at hc
    simp only [hd.there] at hc
    cases hc
  · rw [hd.locate_down hmore hstays hp] at hc
    have hplain : ∀ f, d.follow (decide (target.ending ≠ .dots)) (true || decide (target.ending ≠ .plain))
        base more = .ok f → target.ending = .plain →
          d.follow true true base more = .ok (.arrived (base ++ Place.walk [] more)) := by
      intro f hf hending
      rw [hending] at hf
      have harrived := follow_of_linkless_nil hd.linkless hstays hf
      rw [harrived] at hf
      exact hf
    cases hf : d.follow (decide (target.ending ≠ .dots)) (true || decide (target.ending ≠ .plain))
      base more with
    | error e =>
      rw [hf] at hc
      cases hc
    | ok f =>
      rw [hf] at hc
      simp only at hc
      cases hfound : d.find? (base ++ Place.walk [] more) with
      | none =>
        simp only [hfound] at hc
        split at hc
        · next hending =>
          exact ⟨hmore, hending, hplain f hf hending, executable, (Except.ok.inj hc).symm, .inr rfl⟩
        · cases hc
      | some e =>
        cases e with
        | directory =>
          simp only [hfound] at hc
          cases hc
        | link t =>
          simp only [hfound] at hc
          cases hc
        | file b x =>
          simp only [hfound] at hc
          split at hc
          · next hending =>
            exact ⟨hmore, hending, hplain f hf hending, x, (Except.ok.inj hc).symm, .inl ⟨b, rfl⟩⟩
          · cases hc

/-- A file that could be made is emptied where it is there. -/
theorem planCreate_again (hx : x.Ground cwd dest base) (hy : y.Ground cwd dest base)
    (hroot : dest.steps ≠ []) (hp : Continues dest (front ++ [n]) target)
    (hstays : Place.stays 0 (front ++ [n]) = true) (hxfront : x.enters base front = true)
    (hyfront : y.enters base front = true) {executable flag : Bool} {c : Change} {b : Bytes}
    (hc : x.planCreate cwd target executable = .ok c)
    (hfile : y.find? (base ++ Place.walk [] (front ++ [n])) = some (.file b flag)) :
    y.planCreate cwd target executable = .ok (.create (base ++ Place.walk [] (front ++ [n])) flag) := by
  obtain ⟨hne, hending, hfollow, -⟩ := hx.planCreate_of_ok hroot hp hstays hc
  have hlast : n ≠ ".." := by
    obtain ⟨m, hm, hup⟩ := FilePath.getLast?_steps hending
    rw [hp.steps, ← List.append_assoc, List.getLast?_concat] at hm
    exact Option.some.inj hm ▸ hup
  have hwalk : Place.walk base front ++ [n] = base ++ Place.walk [] (front ++ [n]) := by
    rw [← Place.walk_of_stays_nil hstays, Place.walk_append, Place.walk, if_neg hlast, Place.walk]
  have hagain : y.follow true true base (front ++ [n]) =
      .ok (.arrived (base ++ Place.walk [] (front ++ [n]))) := by
    rw [follow_behind hxfront] at hfollow
    rw [follow_behind hyfront]
    unfold follow at hfollow ⊢
    rw [if_neg hlast] at hfollow ⊢
    split at hfollow
    · cases hfollow
    · next hshort =>
      rw [if_neg hshort]
      simp only [hwalk, hfile]
      rfl
  unfold Disk.planCreate
  rw [hy.locate_down hne hstays hp, hending]
  simp only [ne_eq, reduceCtorEq, not_false_eq_true, decide_true, Bool.true_or, hagain, hfile, if_true]

/-- A disk with the same entries. -/
theorem of_alike (hx : x.Ground cwd dest base) (h : x.Alike y) : y.Ground cwd dest base := by
  refine ⟨hx.toAnchored.of_keeps h.growsTo.keeps fun rest t hlink => ?_, fun rest m e he => ?_⟩
  · exact hx.linkless rest t (h.symm.link hlink)
  · have hsame := h (base ++ rest ++ [m])
    rw [he] at hsame
    obtain ⟨e', he', -⟩ := Option.map_eq_some_iff.mp hsame
    exact h.directory (hx.rooted rest m e' he')

end Ground

end Disk

/-! ## Doing it once more -/

/-- On the way of doing once more what has led from `x` to `z`, a disk has the entries of `z`, each as
it is there or as it was on `x`. -/
structure Redone (x z y : Disk) : Prop where
  alike : y.Alike z
  mixed : ∀ q, y.find? q = x.find? q ∨ y.find? q = z.find? q

/-- The result `r` is met again, a file in the way perhaps from elsewhere if a name has turned back. -/
def MetAgain (turns : Prop) (r r' : Except StageError Unit) : Prop :=
  r' = r ∨ turns ∧ r = .error (.ofIo (.fault .alreadyExists)) ∧
    r' = .error (.ofIo (.fault .notDirectory))

/-- The name has parent steps. -/
def Zip.TurnsBack (name : String) : Prop := ".." ∈ (⟨name⟩ : FilePath).steps

namespace Redone

variable {x x' y z : Disk}

theorem start (x z : Disk) : Redone x z z := ⟨.refl z, fun _ => .inr rfl⟩

/-- What is done is done. -/
theorem finish (h : Redone z z y) : y = z := Disk.ext_find? fun q => (h.mixed q).elim id id

/-- Directories that were made are there. -/
theorem made (h : Redone x z y)
    (hmade : ∀ q, x'.find? q = x.find? q ∨ x.find? q = none ∧ x'.find? q = some .directory)
    (hgrows : x'.GrowsTo z) : Redone x' z y := by
  refine ⟨h.alike, fun q => ?_⟩
  rcases h.mixed q with hold | hnew
  · rcases hmade q with hsame | ⟨hnone, hdir⟩
    · exact .inl (hold.trans hsame.symm)
    · have hthere := h.alike.symm.directory (hgrows.directory hdir)
      rw [hold, hnone] at hthere
      cases hthere
  · exact .inr hnew

/-- A file is written once more. -/
theorem wrote (h : Redone x z y) {q : Place} {e : Entry} (hy : ∃ f, y.find? q = some f ∧ f.emptied = e.emptied) :
    Redone (x.put q e) z (y.put q e) := by
  constructor
  · intro r
    rw [Disk.find?_put]
    split
    · next heq =>
      obtain ⟨f, hf, hsame⟩ := hy
      have hthere := h.alike q
      rw [hf] at hthere
      rw [heq, ← hthere, Option.map_some, Option.map_some, hsame]
    · exact h.alike r
  · intro r
    rw [Disk.find?_put, Disk.find?_put]
    split
    · exact .inl rfl
    · exact h.mixed r

end Redone

theorem MetAgain.refl (turns : Prop) (r : Except StageError Unit) : MetAgain turns r r := .inl rfl

theorem MetAgain.mono {turns turns' : Prop} {r r' : Except StageError Unit} (h : MetAgain turns r r')
    (hturns : turns → turns') : MetAgain turns' r r' :=
  h.imp_right fun ⟨hback, hr, hr'⟩ => ⟨hturns hback, hr, hr'⟩

/-- A failure is met again as a failure, and one that will not pass as it was. -/
theorem MetAgain.exists_error {turns : Prop} {e : StageError} {r' : Except StageError Unit}
    (h : MetAgain turns (.error e) r') :
    ∃ e', r' = .error e' ∧ (e.isTransient = false → e' = e) := by
  rcases h with rfl | ⟨-, hr, rfl⟩
  · exact ⟨e, rfl, fun _ => rfl⟩
  · obtain rfl := Except.error.inj hr
    exact ⟨_, rfl, fun hnot => by cases hnot⟩

namespace Disk

variable {d x y z : Disk} {cwd base : Place} {dest : FilePath} {name : String} {opened : Zip.Opened}
  {r : Except StageError Unit} {bytes : Bytes} {l : Zip.Listed} {ls : List Zip.Listed}

/-- A member goes on from the directory it is unpacked into. -/
theorem Ground.continues (hd : d.Ground cwd dest base) (hname : Zip.isEnclosed name = true) :
    Continues dest (⟨name⟩ : FilePath).steps (dest.join ⟨name⟩) := by
  refine .join (Zip.isAbsolute_of_isEnclosed hname) (clean_of_entryAt hd.leads) ?_
  rw [Zip.isEnclosed, Bool.and_eq_true, Bool.not_eq_true'] at hname
  simpa using hname.1

/-- A file that is emptied and then written to. -/
theorem apply_create_append (d : Disk) (q : Place) (x : Bool) (b : Bytes) :
    (d.apply (.create q x)).apply (.append q b) = d.put q (.file b x) := by
  refine ext_find? fun r => ?_
  simp only [apply, find?_put, if_true, List.nil_append]
  split
  · rfl
  · rfl

/-- What was written is written again, and what failed fails again. -/
theorem layAt_again (hd : d.Ground cwd dest base) (hroot : dest.steps ≠ [])
    (hname : Zip.isEnclosed name = true) (hrun : d.layAt cwd dest base name opened = (r, x)) :
    x.Ground cwd dest base ∧ d.GrowsTo x ∧ ∃ r', MetAgain (Zip.TurnsBack name) r r' ∧
      ∀ z y, z.Ground cwd dest base → x.GrowsTo z → (r ≠ .ok () → z = x) → Redone d z y →
        ∃ y', y.layAt cwd dest base name opened = (r', y') ∧ Redone x z y' := by
  have hp := hd.continues hname
  have hstays := Zip.stays_of_isEnclosed hname
  unfold Zip.TurnsBack
  unfold layAt fill at hrun ⊢
  generalize (⟨name⟩ : FilePath).steps = steps at hp hstays hrun ⊢
  have hfront : Place.stays 0 steps.dropLast = true :=
    Place.stays_of_prefix (List.dropLast_prefix steps) hstays
  have hmade := d.find?_dig false base steps.dropLast
  have hgrows := d.dig_growsTo false base steps.dropLast
  have hground : (d.dig false base steps.dropLast).2.Ground cwd dest base := hd.dig hfront
  rcases hdig : d.dig false base steps.dropLast with ⟨r₁, d₁⟩
  rw [hdig] at hrun hmade hgrows hground
  simp only at hmade hgrows hground
  cases r₁ with
  | error e =>
    obtain ⟨rfl, rfl⟩ := Prod.mk.inj hrun
    have hbase : d.find? (base ++ []) = some .directory := by
      rw [List.append_nil]
      exact hd.there
    have hturns : ".." ∈ steps.dropLast → ".." ∈ steps := fun hmem => List.dropLast_subset steps hmem
    have halike : d₁.Alike (d.dig false (base ++ []) steps.dropLast).2 := by
      rw [List.append_nil, hdig]
      exact .refl d₁
    obtain ⟨result, hredo, hsame⟩ := dig_again hd.rooted hbase hfront hturns
      (fun hmade => by cases hmade) halike
    rw [List.append_nil] at hredo hsame
    rw [hdig] at hsame
    have hagain : ∃ e', result = .error e' ∧
        MetAgain (".." ∈ steps) (.error (.ofIo e)) (.error (.ofIo e')) := by
      rcases hsame with rfl | ⟨hback, heq, rfl⟩
      · exact ⟨e, rfl, .refl _ _⟩
      · obtain rfl := Except.error.inj heq
        exact ⟨_, rfl, .inr ⟨hback, rfl, rfl⟩⟩
    obtain ⟨e', rfl, hmet⟩ := hagain
    refine ⟨hground, hgrows, _, hmet, fun z y _ _ hz hy => ?_⟩
    obtain rfl := hz nofun
    obtain rfl := (hy.made hmade (.refl _)).finish
    rw [hredo]
    exact ⟨y, rfl, .start y y⟩
  | ok done =>
    have henters : d₁.enters base steps.dropLast = true := by
      have hall : (d.dig false base steps.dropLast).2.enters base steps.dropLast = true :=
        enters_dig (by rw [hdig])
      rwa [hdig] at hall
    cases hcreate : d₁.planCreate cwd (dest.join ⟨name⟩) false with
    | error e =>
      simp only [hcreate] at hrun
      obtain ⟨rfl, rfl⟩ := Prod.mk.inj hrun
      refine ⟨hground, hgrows, _, .refl _ _, fun z y _ _ hz hy => ?_⟩
      obtain rfl := hz nofun
      obtain rfl := (hy.made hmade (.refl _)).finish
      rw [dig_of_enters henters]
      simp only [hcreate]
      exact ⟨y, rfl, .start y y⟩
    | ok c =>
      simp only [hcreate] at hrun
      obtain ⟨hne, hending, -, flag, rfl, hfound⟩ := hground.planCreate_of_ok hroot hp hstays hcreate
      simp only [Change.place, apply_create_append] at hrun
      obtain ⟨rfl, rfl⟩ := Prod.mk.inj hrun
      obtain ⟨front, n, rfl⟩ : ∃ front n, steps = front ++ [n] :=
        ⟨_, _, (List.dropLast_concat_getLast hne).symm⟩
      rw [List.dropLast_concat] at henters hfront ⊢
      have hlast : n ≠ ".." := by
        obtain ⟨m, hm, hup⟩ := FilePath.getLast?_steps hending
        rw [hp.steps, ← List.append_assoc, List.getLast?_concat] at hm
        exact Option.some.inj hm ▸ hup
      have hplace : base ++ Place.walk [] (front ++ [n]) = base ++ Place.walk [] front ++ [n] := by
        rw [Place.walk_append, Place.walk, if_neg hlast, Place.walk, List.append_assoc]
      have hold : ∀ f, d₁.find? (base ++ Place.walk [] (front ++ [n])) = some f →
          (Entry.file opened.contents flag).emptied = f.emptied := by
        intro f hf
        rcases hfound with ⟨b, hfile⟩ | hnone
        · rw [hfile] at hf
          obtain rfl := Option.some.inj hf
          rfl
        · rw [hnone] at hf
          cases hf
      have hput : d₁.GrowsTo (d₁.put (base ++ Place.walk [] (front ++ [n])) (.file opened.contents flag)) :=
        .put hold
      refine ⟨?_, hgrows.trans hput, _, .refl _ _, fun z y hz hgrowsz _ hy => ?_⟩
      · rw [hplace] at hold ⊢
        exact hground.put rfl (hground.find?_behind hfront henters) hold
      · have hgrownz := hput.trans hgrowsz
        have hyenters : y.enters base front = true :=
          enters_of_directories (fun q hq => hy.alike.symm.directory (hgrownz.directory hq)) henters
        obtain ⟨b, hzfile⟩ := hgrowsz.file (by rw [find?_put, if_pos rfl])
        obtain ⟨b', hyfile⟩ := hy.alike.symm.file hzfile
        have hagain := hground.planCreate_again (hz.of_alike hy.alike.symm) hroot hp hstays henters
          hyenters hcreate hyfile
        rw [dig_of_enters hyenters]
        simp only [hagain, Change.place, apply_create_append]
        exact ⟨_, rfl, (hy.made hmade hgrownz).wrote ⟨_, hyfile, rfl⟩⟩

/-- The same of a member. -/
theorem lay_again (hd : d.Ground cwd dest base) (hroot : dest.steps ≠ [])
    (hrun : d.lay cwd dest base bytes l = (r, x)) :
    x.Ground cwd dest base ∧ d.GrowsTo x ∧ ∃ r', MetAgain (Zip.TurnsBack l.name) r r' ∧
      ∀ z y, z.Ground cwd dest base → x.GrowsTo z → (r ≠ .ok () → z = x) → Redone d z y →
        ∃ y', y.lay cwd dest base bytes l = (r', y') ∧ Redone x z y' := by
  unfold lay at hrun ⊢
  cases hopen : Zip.openMember bytes l with
  | error e =>
    simp only [hopen] at hrun ⊢
    obtain ⟨rfl, rfl⟩ := Prod.mk.inj hrun
    exact ⟨hd, .refl d, _, .refl _ _, fun z y _ _ _ hy => ⟨y, rfl, hy⟩⟩
  | ok opened =>
    simp only [hopen] at hrun ⊢
    split at hrun
    · next hskip =>
      obtain ⟨rfl, rfl⟩ := Prod.mk.inj hrun
      simp only [if_pos hskip]
      exact ⟨hd, .refl d, _, .refl _ _, fun z y _ _ _ hy => ⟨y, rfl, hy⟩⟩
    · next hkeep =>
      simp only [if_neg hkeep]
      rw [Bool.or_eq_true, not_or, Bool.not_eq_true', Bool.not_eq_false] at hkeep
      exact layAt_again hd hroot hkeep.2 hrun

theorem layEach_grows (hd : d.Ground cwd dest base) (hroot : dest.steps ≠ []) {names : List String}
    (hrun : d.layEach cwd dest base bytes ls names = (r, x)) :
    x.Ground cwd dest base ∧ d.GrowsTo x := by
  induction names generalizing d with
  | nil =>
    obtain ⟨-, rfl⟩ := Prod.mk.inj hrun
    exact ⟨hd, .refl d⟩
  | cons n ns ih =>
    unfold layEach at hrun
    split at hrun
    · obtain ⟨-, rfl⟩ := Prod.mk.inj hrun
      exact ⟨hd, .refl d⟩
    · next l _ =>
      split at hrun
      · next e d₁ hlay =>
        obtain ⟨-, rfl⟩ := Prod.mk.inj hrun
        obtain ⟨hground, hgrows, -⟩ := lay_again hd hroot hlay
        exact ⟨hground, hgrows⟩
      · next d₁ hlay =>
        obtain ⟨hground, hgrows, -⟩ := lay_again hd hroot hlay
        obtain ⟨hlast, hmore⟩ := ih hground hrun
        exact ⟨hlast, hgrows.trans hmore⟩

/-- **Members that are written once more**: what was written is written again without a change, and
the first member that failed fails again, wherever on the way it was begun again. -/
theorem layEach_again (hd : d.Ground cwd dest base) (hroot : dest.steps ≠ []) {names : List String}
    (hrun : d.layEach cwd dest base bytes ls names = (r, x)) :
    ∃ r', MetAgain (∃ n ∈ names, Zip.TurnsBack n) r r' ∧
      ∀ z y, z.Ground cwd dest base → x.GrowsTo z → (r ≠ .ok () → z = x) → Redone d z y →
        ∃ y', y.layEach cwd dest base bytes ls names = (r', y') ∧ Redone x z y' := by
  induction names generalizing d with
  | nil =>
    obtain ⟨rfl, rfl⟩ := Prod.mk.inj hrun
    exact ⟨_, .refl _ _, fun z y _ _ _ hy => ⟨y, rfl, hy⟩⟩
  | cons n ns ih =>
    unfold layEach at hrun ⊢
    cases hfind : Zip.find? n ls with
    | none =>
      simp only [hfind] at hrun ⊢
      obtain ⟨rfl, rfl⟩ := Prod.mk.inj hrun
      exact ⟨_, .refl _ _, fun z y _ _ _ hy => ⟨y, rfl, hy⟩⟩
    | some l =>
      have hn : l.name = n := by
        have hmatch := List.find?_some hfind
        exact beq_iff_eq.mp hmatch
      simp only [hfind] at hrun ⊢
      rcases hlay : d.lay cwd dest base bytes l with ⟨r₁, d₁⟩
      rw [hlay] at hrun
      obtain ⟨hground, hgrows, r', hmet, hagain⟩ := lay_again hd hroot hlay
      cases r₁ with
      | error e =>
        obtain ⟨rfl, rfl⟩ := Prod.mk.inj hrun
        obtain ⟨e', rfl, -⟩ := hmet.exists_error
        refine ⟨.error e', hmet.mono fun hback => ⟨n, List.mem_cons_self, hn ▸ hback⟩,
          fun z y hz hgrows hfail hy => ?_⟩
        obtain ⟨y', hredo, hy'⟩ := hagain z y hz hgrows hfail hy
        rw [hredo]
        exact ⟨y', rfl, hy'⟩
      | ok done =>
        obtain rfl : r' = .ok done := hmet.elim id fun hfail => by cases hfail.2.1
        obtain ⟨-, hmore⟩ := layEach_grows hground hroot hrun
        obtain ⟨r'', hmet', hrest⟩ := ih hground hrun
        refine ⟨r'', hmet'.mono fun ⟨m, hm, hback⟩ => ⟨m, List.mem_cons_of_mem _ hm, hback⟩,
          fun z y hz hgrowsz hfail hy => ?_⟩
        obtain ⟨y', hredo, hy'⟩ := hagain z y hz (hmore.trans hgrowsz) (fun hnot => absurd rfl hnot) hy
        rw [hredo]
        exact hrest z y' hz hgrowsz hfail hy'

/-- The members of one list, and then those of another. -/
theorem layEach_append (cwd : Place) (dest : FilePath) (base : Place) (bytes : Bytes)
    (ls : List Zip.Listed) (d : Disk) (names more : List String) :
    d.layEach cwd dest base bytes ls (names ++ more) =
      match d.layEach cwd dest base bytes ls names with
      | (.error e, d) => (.error e, d)
      | (.ok (), d) => d.layEach cwd dest base bytes ls more := by
  induction names generalizing d with
  | nil => rfl
  | cons n ns ih =>
    rw [List.cons_append, layEach, layEach]
    cases Zip.find? n ls with
    | none => rfl
    | some l =>
      simp only
      rcases d.lay cwd dest base bytes l with ⟨_ | _, d₁⟩
      · rfl
      · exact ih d₁

/-! ## Other places -/

/-- Digging stays below where it starts. -/
theorem dig_outside {made : Bool} {s : Place} {names : List String} {q : Place}
    (hstays : Place.stays s.length names = true) (hq : ¬ base <+: q) :
    (d.dig made (base ++ s) names).2.find? q = d.find? q := by
  induction names generalizing d made s with
  | nil => rfl
  | cons n rest ih =>
    unfold Place.stays at hstays
    unfold dig
    split at hstays
    · next hup =>
      rw [if_pos hup]
      cases hlength : s.length with
      | zero =>
        rw [hlength] at hstays
        cases hstays
      | succ depth =>
        rw [hlength] at hstays
        rw [List.dropLast_append_of_ne_nil (List.ne_nil_of_length_eq_add_one hlength)]
        exact ih (by rw [List.length_dropLast, hlength]; exact hstays)
    · next hup =>
      rw [if_neg hup, List.append_assoc]
      have hmore : Place.stays (s ++ [n]).length rest = true := by
        rw [List.length_append]
        exact hstays
      split
      · rfl
      · split
        · exact ih hmore
        · rfl
        · rw [ih hmore, find?_put, if_neg]
          rintro rfl
          exact hq (List.prefix_append _ _)

/-- A file is written below the directory. -/
theorem layAt_outside (hd : d.Ground cwd dest base) (hroot : dest.steps ≠ [])
    (hname : Zip.isEnclosed name = true) {q : Place} (hq : ¬ base <+: q) :
    (d.layAt cwd dest base name opened).2.find? q = d.find? q := by
  have hstays := Zip.stays_of_isEnclosed hname
  have hfront : Place.stays ([] : Place).length (⟨name⟩ : FilePath).steps.dropLast = true :=
    Place.stays_of_prefix (List.dropLast_prefix _) hstays
  have hdug : (d.dig false (base ++ []) (⟨name⟩ : FilePath).steps.dropLast).2.find? q = d.find? q :=
    dig_outside hfront hq
  rw [List.append_nil] at hdug
  have hground : (d.dig false base (⟨name⟩ : FilePath).steps.dropLast).2.Ground cwd dest base :=
    hd.dig hfront
  unfold layAt fill
  rcases hrun : d.dig false base (⟨name⟩ : FilePath).steps.dropLast with ⟨r, d₁⟩
  rw [hrun] at hdug hground
  cases r with
  | error e => exact hdug
  | ok done =>
    simp only at hdug hground ⊢
    cases hcreate : d₁.planCreate cwd (dest.join ⟨name⟩) false with
    | error e => exact hdug
    | ok c =>
      obtain ⟨-, -, -, flag, rfl, -⟩ :=
        hground.planCreate_of_ok hroot (hd.continues hname) hstays hcreate
      simp only [Change.place, apply_create_append]
      rw [find?_put, if_neg, hdug]
      rintro rfl
      exact hq (List.prefix_append _ _)

theorem lay_outside (hd : d.Ground cwd dest base) (hroot : dest.steps ≠ []) {q : Place}
    (hq : ¬ base <+: q) : (d.lay cwd dest base bytes l).2.find? q = d.find? q := by
  unfold lay
  split
  · rfl
  · split
    · rfl
    · next hkeep =>
      rw [Bool.or_eq_true, not_or, Bool.not_eq_true', Bool.not_eq_false] at hkeep
      exact layAt_outside hd hroot hkeep.2 hq

/-- Members are written below the directory. -/
theorem layEach_outside (hd : d.Ground cwd dest base) (hroot : dest.steps ≠ []) {names : List String}
    {q : Place} (hq : ¬ base <+: q) :
    (d.layEach cwd dest base bytes ls names).2.find? q = d.find? q := by
  induction names generalizing d with
  | nil => rfl
  | cons n ns ih =>
    unfold layEach
    split
    · rfl
    · next l _ =>
      have hlay : (d.lay cwd dest base bytes l).2.find? q = d.find? q := lay_outside hd hroot hq
      split
      · next hrun => rwa [hrun] at hlay
      · next d₁ hrun =>
        rw [hrun] at hlay
        rw [ih (lay_again hd hroot hrun).1, hlay]

end Disk

end Decompile
