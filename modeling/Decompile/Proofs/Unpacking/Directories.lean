import Decompile.Proofs.Unpacking.Calm

/-!
# Directories that are made with those above them

- `Disk.Ground`: a directory without links, below which every entry stands in a directory.
- `World.makeDirectories_comes`: below it a directory is made by digging down to it.
-/

namespace Decompile

open FilePath (Continues Down Stairs)

theorem FilePath.Down.text_ne {root p : FilePath} {names : List String} (hp : Down root names p)
    (hnames : names ≠ []) : p.text ≠ "" := by
  refine FilePath.text_ne_of_steps ?_
  rw [hp.steps]
  exact List.append_ne_nil_of_right_ne_nil _ hnames

/-- The path leads to a directory without links, and below it every entry stands in a directory. -/
structure Disk.Ground (d : Disk) (cwd : Place) (root : FilePath) (base : Place) : Prop
    extends d.Anchored cwd root base where
  rooted : d.Rooted base

namespace Disk.Ground

variable {d d' : Disk} {cwd base : Place} {root : FilePath} {names : List String} {made : Bool}

theorem there (hd : d.Ground cwd root base) : d.find? base = some .directory := by
  obtain ⟨-, -, hbase, -⟩ := entryAt_of_locate hd.leads
  exact hbase

/-- Digging leaves the ground as it is. -/
theorem dig (hd : d.Ground cwd root base) (hstays : Place.stays 0 names = true) :
    (d.dig made base names).2.Ground cwd root base := by
  have hrooted : (d.dig made (base ++ []) names).2.Rooted base :=
    hd.rooted.dig (by rw [List.append_nil]; exact hd.there) hstays
  rw [List.append_nil] at hrooted
  refine ⟨hd.toAnchored.of_keeps (dig_growsTo d made base names).keeps fun rest t hlink => ?_, hrooted⟩
  rcases d.find?_dig made base names (base ++ rest) with hsame | ⟨-, hnew⟩
  · exact hd.linkless rest t (hsame ▸ hlink)
  · rw [hnew] at hlink
    cases hlink

/-- An entry that is new or like the one before it leaves the ground as it is. -/
theorem put (hd : d.Ground cwd root base) {r : Place} {n : String} {e : Entry} (hlink : e.isLink = false)
    (hr : d.find? (base ++ r) = some .directory)
    (hold : ∀ f, d.find? (base ++ r ++ [n]) = some f → e.emptied = f.emptied) :
    (d.put (base ++ r ++ [n]) e).Ground cwd root base := by
  refine ⟨hd.toAnchored.of_keeps (GrowsTo.put hold).keeps fun rest t hfound => ?_, hd.rooted.put hr hold⟩
  rw [find?_put] at hfound
  split at hfound
  · obtain rfl := Option.some.inj hfound
    cases hlink
  · exact hd.linkless rest t hfound

section

variable (hd : d.Ground cwd root base) {p : FilePath} {front : List String} {n : String}
  (hfront : d.enters base front = true)

include hd hfront

/-- Making a directory behind a way that can be taken. -/
theorem plan_behind (hstays : Place.stays 0 (front ++ n :: names) = true)
    (hp : Down root (front ++ n :: names) p) :
    d.planMakeDirectory cwd p = d.tryMake (Place.walk base front) (n :: names) := by
  have htext := hp.text_ne (List.append_ne_nil_of_right_ne_nil _ (List.cons_ne_nil n names))
  rw [hd.planMakeDirectory hstays hp htext, tryMake_append hfront]

theorem isDirectory_behind (hstays : Place.stays 0 (front ++ n :: names) = true)
    (hp : Down root (front ++ n :: names) p) :
    d.isDirectory cwd p = d.enters (Place.walk base front) (n :: names) := by
  have htext := hp.text_ne (List.append_ne_nil_of_right_ne_nil _ (List.cons_ne_nil n names))
  rw [hd.isDirectory hd.rooted hstays hp.toContinues htext, enters_append, hfront, Bool.true_and]

end

/-- Where a way that can be taken leads. -/
theorem find?_behind (hd : d.Ground cwd root base) (hstays : Place.stays 0 names = true)
    (hnames : d.enters base names = true) :
    d.find? (base ++ Place.walk [] names) = some .directory := by
  rw [← Place.walk_of_stays_nil hstays]
  have hthere : d.find? (Place.walk (base ++ []) names) = some .directory :=
    find?_of_enters hd.rooted (by rw [List.append_nil]; exact hd.there) hstays
      (by rwa [List.append_nil])
  rwa [List.append_nil] at hthere

/-- A directory that was missing behind a way that can be taken. -/
theorem put_behind (hd : d.Ground cwd root base) {front : List String} {n : String}
    (hstays : Place.stays 0 (front ++ [n]) = true) (hup : n ≠ "..")
    (hshort : ¬ nameLimit < (Text.encode n).length) (hfront : d.enters base front = true)
    (hnone : d.find? (Place.walk base front ++ [n]) = none) :
    (d.put (Place.walk base front ++ [n]) .directory).Ground cwd root base ∧
      (d.put (Place.walk base front ++ [n]) .directory).enters base (front ++ [n]) = true := by
  have hlead : Place.stays 0 front = true := Place.stays_of_prefix (List.prefix_append _ _) hstays
  have hwalk : Place.walk base front = base ++ Place.walk [] front := Place.walk_of_stays_nil hlead
  constructor
  · rw [hwalk] at hnone ⊢
    exact hd.put rfl (hd.find?_behind hlead hfront) fun f hf => by rw [hnone] at hf; cases hf
  · rw [enters_append, enters_of_directories (fun q hq => ?_) hfront, Bool.true_and, enters, if_neg hup,
      if_neg hshort]
    · simp only [find?_put, if_true]
      rfl
    · rw [find?_put]
      split
      · rfl
      · exact hq

end Disk.Ground

namespace World

variable {h : Host} (hcalm : h.Calm) {w : World} {p : FilePath} {ps above missing : List FilePath}
  {e : IoError} {c : Change} {d : Disk}

include hcalm

/-! ## One directory of a row -/

section

variable {r : Except IoError Unit}

theorem makeEach_made (hplan : w.disk.planMakeDirectory w.cwd p = .ok c)
    (hrest : ∀ v, v.disk = w.disk.apply c → v.cwd = w.cwd → (makeEach h ps).Comes v r d) :
    (makeEach h (p :: ps)).Comes w r d := by
  have hmade := makeDirectory_comes hcalm p w
  simp only [hplan] at hmade
  unfold makeEach
  exact hmade.outcome hrest

theorem makeEach_there (hplan : w.disk.planMakeDirectory w.cwd p = .error (.fault .alreadyExists))
    (hdir : w.disk.isDirectory w.cwd p = true)
    (hrest : ∀ v, v.disk = w.disk → v.cwd = w.cwd → (makeEach h ps).Comes v r d) :
    (makeEach h (p :: ps)).Comes w r d := by
  have hmade := makeDirectory_comes hcalm p w
  simp only [hplan] at hmade
  unfold makeEach
  refine hmade.outcome fun v hdisk hcwd => .lift_read (isDirectory_reads p) ?_
  have hthere : ((isDirectory p).run v).1 = true := by
    show v.disk.isDirectory v.cwd p = true
    rwa [hdisk, hcwd]
  rw [if_pos ⟨rfl, hthere⟩]
  exact hrest v hdisk hcwd

theorem makeEach_refused (hplan : w.disk.planMakeDirectory w.cwd p = .error e)
    (hnot : ¬ (e = .fault .alreadyExists ∧ w.disk.isDirectory w.cwd p = true)) :
    (makeEach h (p :: ps)).Comes w (.error e) w.disk := by
  have hmade := makeDirectory_comes hcalm p w
  simp only [hplan] at hmade
  unfold makeEach
  refine hmade.outcome fun v hdisk hcwd => .lift_read (isDirectory_reads p) ?_
  have hlook : ((isDirectory p).run v).1 = w.disk.isDirectory w.cwd p := by
    show v.disk.isDirectory v.cwd p = _
    rw [hdisk, hcwd]
  rw [hlook, if_neg hnot, ← hdisk]
  exact (Try.Comes.throw e v).bind_error

end

section

variable {r : Except IoError (List FilePath)}

theorem makeLowest_made (hplan : w.disk.planMakeDirectory w.cwd p = .ok c) :
    (makeLowest h missing (p :: above)).Comes w (.ok missing) (w.disk.apply c) := by
  have hmade := makeDirectory_comes hcalm p w
  simp only [hplan] at hmade
  unfold makeLowest
  refine hmade.outcome fun v hdisk _ => ?_
  have hdone := Try.Comes.pure (ε := IoError) missing v
  rwa [hdisk] at hdone

theorem makeLowest_missing (hplan : w.disk.planMakeDirectory w.cwd p = .error (.fault .notFound))
    (hrest : ∀ v, v.disk = w.disk → v.cwd = w.cwd → (makeLowest h (p :: missing) above).Comes v r d) :
    (makeLowest h missing (p :: above)).Comes w r d := by
  have hmade := makeDirectory_comes hcalm p w
  simp only [hplan] at hmade
  unfold makeLowest
  exact hmade.outcome hrest

theorem makeLowest_there (hplan : w.disk.planMakeDirectory w.cwd p = .error (.fault .alreadyExists))
    (hdir : w.disk.isDirectory w.cwd p = true) :
    (makeLowest h missing (p :: above)).Comes w (.ok missing) w.disk := by
  have hmade := makeDirectory_comes hcalm p w
  simp only [hplan] at hmade
  unfold makeLowest
  refine hmade.outcome fun v hdisk hcwd => ?_
  show Try.Comes (ite _ _ _) _ _ _
  rw [if_neg (by decide)]
  refine .lift_read (isDirectory_reads p) ?_
  have hthere : ((isDirectory p).run v).1 = true := by
    show v.disk.isDirectory v.cwd p = true
    rwa [hdisk, hcwd]
  rw [if_pos ⟨rfl, hthere⟩, ← hdisk]
  exact .pure missing v

theorem makeLowest_refused (hplan : w.disk.planMakeDirectory w.cwd p = .error e)
    (hfound : e ≠ .fault .notFound)
    (hnot : ¬ (e = .fault .alreadyExists ∧ w.disk.isDirectory w.cwd p = true)) :
    (makeLowest h missing (p :: above)).Comes w (.error e) w.disk := by
  have hmade := makeDirectory_comes hcalm p w
  simp only [hplan] at hmade
  unfold makeLowest
  refine hmade.outcome fun v hdisk hcwd => ?_
  show Try.Comes (ite _ _ _) _ _ _
  rw [if_neg hfound]
  refine .lift_read (isDirectory_reads p) ?_
  have hlook : ((isDirectory p).run v).1 = w.disk.isDirectory w.cwd p := by
    show v.disk.isDirectory v.cwd p = _
    rw [hdisk, hcwd]
  rw [hlook, if_neg hnot, ← hdisk]
  exact .throw e v

/-- Directories that cannot be made before others are put off. -/
theorem makeLowest_passes {qs : List FilePath}
    (hqs : ∀ q ∈ qs, w.disk.planMakeDirectory w.cwd q = .error (.fault .notFound))
    (hrest : ∀ v, v.disk = w.disk → v.cwd = w.cwd →
      (makeLowest h (qs ++ missing) above).Comes v r d) :
    (makeLowest h missing (qs.reverse ++ above)).Comes w r d := by
  induction qs using List.reverseRecOn generalizing w missing with
  | nil => exact hrest w rfl rfl
  | append_singleton qs q ih =>
    rw [List.reverse_append, List.reverse_singleton, List.singleton_append, List.cons_append]
    refine makeLowest_missing hcalm (hqs q (List.mem_append_right _ List.mem_cons_self))
      fun v hdisk hcwd => ih (fun p hp => ?_) fun u hu hucwd => ?_
    · rw [hdisk, hcwd]
      exact hqs p (List.mem_append_left _ hp)
    · have hmore := hrest u (hu.trans hdisk) (hucwd.trans hcwd)
      rwa [List.append_assoc] at hmore

end

/-! ## All directories of a row -/

variable {root : FilePath} {base : Place} {front more : List String}

/-- The directories below one that was made are made one after the other. -/
theorem makeEach_comes (hstairs : Stairs root front more ps) {w : World}
    (hd : w.disk.Ground w.cwd root base) (hstays : Place.stays 0 (front ++ more) = true)
    (hfront : w.disk.enters base front = true) :
    (makeEach h ps).Comes w (w.disk.dig true (Place.walk base front) more).1
      (w.disk.dig true (Place.walk base front) more).2 := by
  induction hstairs generalizing w with
  | nil front => exact .pure () w
  | @cons front more n p ps first rest ih =>
    have hfirst : Place.stays 0 (front ++ [n]) = true :=
      Place.stays_of_prefix ((List.prefix_append_right_inj _).mpr
        (List.cons_prefix_cons.mpr ⟨rfl, List.nil_prefix⟩)) hstays
    have hplan := hd.plan_behind hfront hfirst first
    have hdir := hd.isDirectory_behind hfront hfirst first
    have hnext : ∀ v : World, v.disk = w.disk → v.cwd = w.cwd →
        w.disk.enters (Place.walk base front) [n] = true →
          (makeEach h ps).Comes v (w.disk.dig true (Place.walk base (front ++ [n])) more).1
            (w.disk.dig true (Place.walk base (front ++ [n])) more).2 := by
      intro v hv hcwd henters
      have hrest := @ih v
      rw [hv, hcwd] at hrest
      refine hrest hd (by rwa [List.append_assoc]) ?_
      rw [Disk.enters_append, hfront, henters]
      rfl
    rw [Place.walk_append] at hnext
    unfold Disk.dig
    by_cases hup : n = ".."
    · subst hup
      simp only [if_true]
      exact makeEach_there hcalm hplan (hdir.trans rfl) fun v hv hcwd => hnext v hv hcwd rfl
    simp only [if_neg hup]
    simp only [Disk.tryMake, if_neg hup] at hplan
    simp only [Disk.enters, if_neg hup] at hdir hnext
    simp only [Place.walk, if_neg hup] at hnext
    by_cases hlong : nameLimit < (Text.encode n).length
    · simp only [if_pos hlong] at hplan ⊢
      exact makeEach_refused hcalm hplan fun hand => by cases hand.1
    simp only [if_neg hlong] at hplan hdir hnext ⊢
    have hstuck : ∀ e, e ≠ .directory → w.disk.find? (Place.walk base front ++ [n]) = some e →
        (makeEach h (p :: ps)).Comes w (.error (Disk.blocked true)) w.disk := by
      intro e he hfound
      simp only [hfound] at hplan hdir
      cases e with
      | directory => exact absurd rfl he
      | link t => exact makeEach_refused hcalm hplan fun hand => by rw [hdir] at hand; cases hand.2
      | file b x => exact makeEach_refused hcalm hplan fun hand => by rw [hdir] at hand; cases hand.2
    cases hfound : w.disk.find? (Place.walk base front ++ [n]) with
    | none =>
      simp only [hfound] at hplan ⊢
      obtain ⟨hput, henters⟩ := hd.put_behind hfirst hup hlong hfront hfound
      refine makeEach_made hcalm hplan fun v hv hcwd => ?_
      have hrest := @ih v
      rw [hv, hcwd, Place.walk_append, Place.walk, if_neg hup, Place.walk] at hrest
      exact hrest hput (by rwa [List.append_assoc]) henters
    | some e =>
      cases e with
      | directory =>
        simp only [hfound] at hplan hdir hnext ⊢
        exact makeEach_there hcalm hplan hdir fun v hv hcwd => hnext v hv hcwd trivial
      | link t => exact hstuck (.link t) (fun heq => by cases heq) hfound
      | file b x => exact hstuck (.file b x) (fun heq => by cases heq) hfound

/-- Nothing is made where the directory is there. -/
theorem makeLowest_done (hroot : w.disk.entryAt w.cwd true root = .ok (base, .directory))
    (hp : Continues root [] p) (fuel : Nat) :
    (makeLowest h [] (ancestors fuel p)).Comes w (.ok []) w.disk := by
  cases fuel with
  | zero => exact .pure [] w
  | succ fuel =>
    unfold ancestors
    split
    · exact .pure [] w
    · split
      · exact .pure [] w
      · next htext =>
        exact makeLowest_there hcalm (Disk.planMakeDirectory_of_directory hroot hp htext)
          (Disk.isDirectory_of_directory hroot hp htext)

/-- From a directory that is there the others are made downwards. -/
theorem makeDown_comes (hstairs : Stairs root front more ps) {w : World}
    (habove : (makeLowest h [] above).Comes w (.ok []) w.disk) (hd : w.disk.Ground w.cwd root base)
    (hstays : Place.stays 0 (front ++ more) = true) (hfront : w.disk.enters base front = true) :
    Try.Comes (makeLowest h [] (ps.reverse ++ above) >>= makeEach h) w
      (w.disk.dig false (Place.walk base front) more).1
      (w.disk.dig false (Place.walk base front) more).2 := by
  induction hstairs generalizing above with
  | nil front => exact habove.bind fun v hv _ => hv ▸ .pure () v
  | @cons front more n p ps first rest ih =>
    have hfirst : Place.stays 0 (front ++ [n]) = true :=
      Place.stays_of_prefix ((List.prefix_append_right_inj _).mpr
        (List.cons_prefix_cons.mpr ⟨rfl, List.nil_prefix⟩)) hstays
    -- a step that can be taken brings the start one path further
    have hnext : w.disk.enters (Place.walk base front) [n] = true →
        Try.Comes (makeLowest h [] ((p :: ps).reverse ++ above) >>= makeEach h) w
          (w.disk.dig false (Place.walk base (front ++ [n])) more).1
          (w.disk.dig false (Place.walk base (front ++ [n])) more).2 := by
      intro henters
      rw [List.reverse_cons, List.append_assoc, List.singleton_append]
      refine ih (makeLowest_there hcalm ?_ ?_) (by rwa [List.append_assoc]) ?_
      · rw [hd.plan_behind hfront hfirst first, Disk.tryMake_of_enters henters]
      · rw [hd.isDirectory_behind hfront hfirst first, henters]
      rw [Disk.enters_append, hfront, henters]
      rfl
    rw [Place.walk_append] at hnext
    -- what is in the way is met by the last path of the row
    have hrefused : ∀ e, w.disk.tryMake (Place.walk base front) (n :: more) = .error e →
        e ≠ .fault .notFound → w.disk.enters (Place.walk base front) (n :: more) = false →
          Try.Comes (makeLowest h [] ((p :: ps).reverse ++ above) >>= makeEach h) w
            (.error e) w.disk := by
      intro e htry hfound henters
      obtain ⟨lead, q, hq, hdown⟩ := (Stairs.cons first rest).exists_last
      rw [hq, List.reverse_append, List.reverse_singleton, List.singleton_append, List.cons_append]
      refine (makeLowest_refused hcalm ((hd.plan_behind hfront hstays hdown).trans htry) hfound
        fun hand => ?_).bind_error
      rw [hd.isDirectory_behind hfront hstays hdown, henters] at hand
      cases hand.2
    simp only [Disk.tryMake, Disk.enters] at hrefused
    unfold Disk.dig
    by_cases hup : n = ".."
    · subst hup
      exact hnext rfl
    simp only [if_neg hup] at hrefused ⊢
    simp only [Disk.enters, Place.walk, if_neg hup] at hnext
    by_cases hlong : nameLimit < (Text.encode n).length
    · simp only [if_pos hlong] at hrefused ⊢
      exact hrefused _ rfl (fun heq => by cases heq) trivial
    simp only [if_neg hlong] at hrefused hnext ⊢
    cases hfound : w.disk.find? (Place.walk base front ++ [n]) with
    | none =>
      simp only
      obtain ⟨hput, henters⟩ := hd.put_behind hfirst hup hlong hfront hfound
      have hone := hd.plan_behind hfront hfirst first
      simp only [Disk.tryMake, if_neg hup, if_neg hlong, hfound, List.isEmpty_nil, if_true] at hone
      have hlater : ∀ q ∈ ps, w.disk.planMakeDirectory w.cwd q = .error (.fault .notFound) := by
        intro q hq
        obtain ⟨some, hne, hlead, hdown⟩ := rest.exists_down hq
        rw [List.append_assoc] at hdown
        have hsome : Place.stays 0 (front ++ n :: some) = true :=
          Place.stays_of_prefix ((List.prefix_append_right_inj _).mpr
            (List.cons_prefix_cons.mpr ⟨rfl, hlead⟩)) hstays
        have hempty : some.isEmpty = false := by simpa using hne
        rw [hd.plan_behind hfront hsome hdown]
        simp [Disk.tryMake, hup, hlong, hfound, hempty]
      have hlowest : (makeLowest h [] ((p :: ps).reverse ++ above)).Comes w (.ok ps)
          (w.disk.apply (.makeDirectory (Place.walk base front ++ [n]))) := by
        rw [List.reverse_cons, List.append_assoc, List.singleton_append]
        refine makeLowest_passes hcalm hlater fun v hv hcwd => ?_
        have hmade : (makeLowest h ps (p :: above)).Comes v (.ok ps) (v.disk.apply _) :=
          makeLowest_made hcalm (by rw [hv, hcwd]; exact hone)
        rw [hv] at hmade
        rwa [List.append_nil]
      refine hlowest.bind fun v hv hcwd => ?_
      have heach := @makeEach_comes h hcalm _ root base _ _ rest v
      rw [hv, hcwd, Place.walk_append, Place.walk, if_neg hup, Place.walk] at heach
      exact heach hput (by rwa [List.append_assoc]) henters
    | some e =>
      cases e with
      | directory =>
        simp only [hfound] at hnext ⊢
        exact hnext trivial
      | link t =>
        simp only [hfound] at hrefused ⊢
        exact hrefused _ rfl (Disk.blocked_ne_notFound _) trivial
      | file b x =>
        simp only [hfound] at hrefused ⊢
        exact hrefused _ rfl (Disk.blocked_ne_notFound _) trivial

/-- A directory is made by digging down to it. -/
theorem makeDirectories_comes (hp : Down root more p) {w : World} (hd : w.disk.Ground w.cwd root base)
    (hstays : Place.stays 0 more = true) :
    (makeDirectories h p).Comes w (w.disk.dig false base more).1 (w.disk.dig false base more).2 := by
  have hlength : more.length < p.text.length + 1 := by
    have hsteps := p.length_steps_le
    rw [hp.steps, List.length_append] at hsteps
    omega
  obtain ⟨ps, start, left, heq, hstairs, hstart⟩ := ancestors_stairs hp hlength
  unfold makeDirectories
  rw [heq]
  exact makeDown_comes hcalm hstairs (makeLowest_done hcalm hd.leads hstart.toContinues left) hd hstays
    rfl

/-- Nothing is made where the directory is there. -/
theorem makeDirectories_there (hroot : w.disk.entryAt w.cwd true root = .ok (base, .directory))
    (hp : Continues root [] p) : (makeDirectories h p).Comes w (.ok ()) w.disk :=
  (makeLowest_done hcalm hroot hp _).bind fun v hv _ => hv ▸ .pure () v

end World

end Decompile
