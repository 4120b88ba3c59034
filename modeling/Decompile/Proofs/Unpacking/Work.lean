import Decompile.Proofs.Unpacking.Members

/-!
# The work of unpacking

On a host without faults the work of unpacking comes to what the disk says, unless it gives up.

- `Try.Reaches`: the action comes to a result, unless memory has run out or the job has to stop.
- `Disk.Receives`: a directory that an archive can be unpacked to.
- `Disk.unpackEach`: what unpacking members of an archive comes to.
- `Work.extractMember_comes`: writing a member comes to `Disk.lay`.
- `Work.extract_comes`, `extract_reaches`: writing several of them comes to `Disk.unpackEach`.
-/

namespace Decompile

open FilePath (Continues)

/-! ## Giving up -/

/-- Memory has run out, or the job has to stop. -/
def StageError.givesUp : StageError → Bool
  | outOfMemory _ | cancelled => true
  | transient _ | fatal _ => false

theorem StageError.isTransient_of_givesUp {e : StageError} (he : e.givesUp = true) :
    e.isTransient = false := by
  cases e with
  | transient => cases he
  | fatal | outOfMemory | cancelled => rfl

/-- The action gives up. -/
def Try.GivesUp {α : Type} (t : Try StageError α) (w : World) : Prop :=
  ∃ e, (t.settle.run w).1 = .error e ∧ e.givesUp = true

/-- The action comes to the result, unless it gives up. -/
def Try.Reaches {α : Type} (t : Try StageError α) (w : World) (r : Except StageError α) (d : Disk) :
    Prop :=
  t.GivesUp w ∨ t.Comes w r d

namespace Try

variable {α β : Type} {t : Try StageError α} {f : α → Try StageError β} {w : World} {e : StageError}
  {d d' : Disk} {r : Except StageError α} {r' : Except StageError β}

theorem GivesUp.throw (he : e.givesUp = true) (w : World) :
    (MonadExcept.throw e : Try StageError α).GivesUp w := ⟨e, rfl, he⟩

theorem GivesUp.bind (h : t.GivesUp w) : Try.GivesUp (t >>= f) w := by
  obtain ⟨e, hrun, he⟩ := h
  refine ⟨e, ?_, he⟩
  rw [Try.run_settle_bind]
  rcases hfirst : t.settle.run w with ⟨r, v⟩
  rw [hfirst] at hrun
  obtain rfl : r = .error e := hrun
  rfl

/-- Whatever is done first, the second action gives up. -/
theorem GivesUp.lift {x : Act α} (hf : ∀ a v, (f a).GivesUp v) : Try.GivesUp (liftM x >>= f) w :=
  hf (x.run w).1 (x.run w).2

/-- What will not pass is not tried again. -/
theorem GivesUp.final (he : e.givesUp = true) (f : Unit → Try StageError β) (w : World) :
    Try.GivesUp (if (!e.isTransient) = true then MonadExcept.throw e >>= f else f ()) w := by
  rw [if_pos (by rw [StageError.isTransient_of_givesUp he]; rfl)]
  exact (GivesUp.throw he w).bind

namespace Reaches

theorem bind_cases (h : t.Reaches w r d) (herror : ∀ e, r = .error e → r' = .error e ∧ d' = d)
    (hok : ∀ a, r = .ok a → ∀ v, v.disk = d → v.cwd = w.cwd → (f a).Reaches v r' d') :
    Try.Reaches (t >>= f) w r' d' := by
  rcases h with hgive | hcomes
  · exact .inl hgive.bind
  cases r with
  | error e =>
    obtain ⟨rfl, rfl⟩ := herror e rfl
    exact .inr hcomes.bind_error
  | ok a =>
    obtain ⟨v, hrun, hdisk, hcwd⟩ := hcomes.run
    rcases hok a rfl v hdisk hcwd with ⟨e, hlast, he⟩ | hlast
    · refine .inl ⟨e, ?_, he⟩
      rw [Try.run_settle_bind, hrun]
      exact hlast
    · obtain ⟨u, hrun', hdisk', hcwd'⟩ := hlast.run
      refine .inr (.of_run (v := u) ?_ hdisk' (hcwd'.trans hcwd))
      rw [Try.run_settle_bind, hrun]
      exact hrun'

theorem bind {a : α} (h : t.Reaches w (.ok a) d)
    (hf : ∀ v, v.disk = d → v.cwd = w.cwd → (f a).Reaches v r' d') :
    Try.Reaches (t >>= f) w r' d' :=
  h.bind_cases (fun e he => by cases he) fun _ ha => Except.ok.inj ha ▸ hf

/-- The second action gives up, if the first one has not done so. -/
theorem givesUp {a : α} (h : t.Reaches w (.ok a) d) (hf : ∀ v, (f a).GivesUp v) :
    Try.GivesUp (t >>= f) w := by
  rcases h with hgive | hcomes
  · exact hgive.bind
  · obtain ⟨v, hrun, -, -⟩ := hcomes.run
    obtain ⟨e, hlast, he⟩ := hf v
    refine ⟨e, ?_, he⟩
    rw [Try.run_settle_bind, hrun]
    exact hlast

/-- The second action sees what the first one came to, and gives up if that did. -/
theorem outcome {f : Except StageError α → Try StageError β} (h : t.Reaches w r d)
    (hgive : ∀ e, e.givesUp = true → ∀ v, (f (.error e)).GivesUp v)
    (hf : ∀ v, v.disk = d → v.cwd = w.cwd → (f r).Reaches v r' d') :
    Try.Reaches (t.outcome >>= f) w r' d' := by
  rcases h with ⟨e, hrun, he⟩ | hcomes
  · obtain ⟨e', hlast, he'⟩ := hgive e he (t.settle.run w).2
    refine .inl ⟨e', ?_, he'⟩
    rw [Try.run_settle_outcome_bind, hrun]
    exact hlast
  · obtain ⟨v, hrun, hdisk, hcwd⟩ := hcomes.run
    rcases hf v hdisk hcwd with ⟨e, hlast, he⟩ | hlast
    · refine .inl ⟨e, ?_, he⟩
      rw [Try.run_settle_outcome_bind, hrun]
      exact hlast
    · obtain ⟨u, hrun', hdisk', hcwd'⟩ := hlast.run
      refine .inr (.of_run (v := u) ?_ hdisk' (hcwd'.trans hcwd))
      rw [Try.run_settle_outcome_bind, hrun]
      exact hrun'

/-- Something is done that leaves the disk as it is. -/
theorem lift {x : Act α} (hdisk : (x.run w).2.disk = w.disk) (hcwd : (x.run w).2.cwd = w.cwd)
    (hf : ∀ a v, v.disk = w.disk → v.cwd = w.cwd → (f a).Reaches v r' d') :
    Try.Reaches (liftM x >>= f) w r' d' := by
  rcases hf (x.run w).1 (x.run w).2 hdisk hcwd with ⟨e, hlast, he⟩ | hlast
  · exact .inl ⟨e, hlast, he⟩
  · exact .inr ⟨hlast.result, hlast.disk, hlast.cwd.trans hcwd⟩

/-- The action gives up on a condition, and goes on otherwise. -/
theorem throwIf {p : Prop} [Decidable p] {f : Unit → Try StageError β} (he : e.givesUp = true)
    (hf : (f ()).Reaches w r' d') :
    Try.Reaches (if p then MonadExcept.throw e >>= f else f ()) w r' d' := by
  split
  · exact .inl (GivesUp.throw he w).bind
  · exact hf

/-- What will not pass ends the work, and something else may be tried otherwise. -/
theorem retry {f : Unit → Try StageError β}
    (hfinal : e.isTransient = false → r' = .error e ∧ d' = w.disk)
    (hf : e.isTransient = true → (f ()).Reaches w r' d') :
    Try.Reaches (if (!e.isTransient) = true then MonadExcept.throw e >>= f else f ()) w r' d' := by
  cases he : e.isTransient with
  | false =>
    obtain ⟨rfl, rfl⟩ := hfinal he
    exact .inr (Try.Comes.throw e w).bind_error
  | true => exact hf he

end Reaches

end Try

namespace Work

variable {h : Host} {w : World}

/-- Looking whether memory has run out. -/
theorem breakOff_reaches (w : World) : breakOff.Reaches w (.ok ()) w.disk := by
  unfold breakOff
  refine .lift (congrArg World.disk (World.isTripped_reads w))
    (congrArg World.cwd (World.isTripped_reads w)) fun a v hdisk _ => ?_
  split
  · exact .inl (.throw rfl v)
  · exact .inr (hdisk ▸ .pure () v)

theorem checkMemory_reaches (h : Host) (w : World) : (checkMemory h).Reaches w (.ok ()) w.disk := by
  obtain ⟨hdisk, hcwd⟩ := World.pause_comes h w
  unfold checkMemory
  refine .lift hdisk hcwd fun _ v hv _ => .lift (congrArg World.disk (World.isTripped_reads v))
    (congrArg World.cwd (World.isTripped_reads v)) fun a u hu _ => ?_
  split
  · exact .inl (.throw rfl u)
  · exact .inr (hv ▸ hu ▸ .pure () u)

end Work

/-! ## The directory that is written -/

/-- The directory that the input is unpacked to is there, in the directory of the target, which is at
`root`, and has no links. -/
structure Disk.Receives (d : Disk) (cwd : Place) (l : Layout) (root : Place) : Prop
    extends d.Ground cwd l.unpacked (root ++ [areaOf .unpack]) where
  outer : d.entryAt cwd true l.root = .ok (root, .directory)

/-- What unpacking the named members comes to, for a target at `root`. -/
def Disk.unpackEach (cwd : Place) (l : Layout) (root : Place) (bytes : Bytes) (ls : List Zip.Listed)
    (d : Disk) (names : List String) : Except StageError Unit × Disk :=
  d.layEach cwd l.unpacked (root ++ [areaOf .unpack]) bytes ls names

theorem Layout.steps_unpacked (l : Layout) : l.unpacked.steps = l.root.steps ++ [areaOf .unpack] :=
  FilePath.steps_join rfl

theorem Layout.steps_unpacked_ne (l : Layout) : l.unpacked.steps ≠ [] := by
  rw [l.steps_unpacked]
  exact List.append_ne_nil_of_right_ne_nil _ (List.cons_ne_nil _ _)

namespace Disk.Receives

variable {d x : Disk} {cwd root : Place} {l : Layout} {bytes : Bytes} {m : Zip.Listed}
  {ls : List Zip.Listed} {names : List String} {r : Except StageError Unit}

theorem of_growsTo (hd : d.Receives cwd l root) (hgrows : d.GrowsTo x)
    (hx : x.Ground cwd l.unpacked (root ++ [areaOf .unpack])) : x.Receives cwd l root := by
  obtain ⟨-, -, hroot, -⟩ := entryAt_of_locate hd.outer
  exact ⟨hx, entryAt_of_keeps hgrows.keeps hd.outer (hgrows.directory hroot)⟩

theorem lay (hd : d.Receives cwd l root)
    (hrun : d.lay cwd l.unpacked (root ++ [areaOf .unpack]) bytes m = (r, x)) :
    x.Receives cwd l root := by
  obtain ⟨hground, hgrows, -⟩ := lay_again hd.toGround l.steps_unpacked_ne hrun
  exact hd.of_growsTo hgrows hground

theorem unpackEach (hd : d.Receives cwd l root)
    (hrun : d.unpackEach cwd l root bytes ls names = (r, x)) : x.Receives cwd l root := by
  obtain ⟨hground, hgrows⟩ := layEach_grows hd.toGround l.steps_unpacked_ne hrun
  exact hd.of_growsTo hgrows hground

end Disk.Receives

namespace Work

variable {h : Host} (hcalm : h.Calm) {w : World} {l : Layout} {root : Place}

include hcalm

/-- The directories above a member are made by digging. -/
theorem makeParents_comes (hd : w.disk.Receives w.cwd l root) {name : String}
    (hname : Zip.isEnclosed name = true) {parent : FilePath}
    (hparent : (l.unpacked.join ⟨name⟩).parent? = some parent) :
    (World.makeDirectories h parent).Comes w
      (w.disk.dig false (root ++ [areaOf .unpack]) (⟨name⟩ : FilePath).steps.dropLast).1
      (w.disk.dig false (root ++ [areaOf .unpack]) (⟨name⟩ : FilePath).steps.dropLast).2 := by
  have hp := hd.toGround.continues hname
  have hstays := Zip.stays_of_isEnclosed hname
  generalize (⟨name⟩ : FilePath).steps = steps at hp hstays ⊢
  by_cases hnil : steps = []
  · -- the path above is the directory of the target
    subst hnil
    have htarget : Continues l.root ([] ++ [areaOf .unpack]) (l.unpacked.join ⟨name⟩) :=
      ⟨hp.absolute.trans (FilePath.isAbsolute_join rfl), by
        rw [hp.steps, l.steps_unpacked, List.append_nil, List.nil_append], hp.clean⟩
    exact World.makeDirectories_there hcalm hd.outer (htarget.parent hparent).toContinues
  · obtain ⟨front, n, rfl⟩ : ∃ front n, steps = front ++ [n] :=
      ⟨_, _, (List.dropLast_concat_getLast hnil).symm⟩
    rw [List.dropLast_concat]
    exact World.makeDirectories_comes hcalm (hp.parent hparent) hd.toGround
      (Place.stays_of_prefix (List.prefix_append _ _) hstays)

/-- Writing contents to a file comes to what the disk says. -/
theorem fill_comes (target : FilePath) (opened : Zip.Opened) (w : World) :
    Try.Comes (do
      let place ← onDisk (World.createFile h target false)
      onDisk (World.appendTo h place opened.contents)
      match opened.failure with
      | some e => throw (.ofIo e)
      | none => pure ()) w (w.disk.fill w.cwd target opened).1 (w.disk.fill w.cwd target opened).2 := by
  have hmade := (World.createFile_comes hcalm target false w).mapError StageError.ofIo
  unfold Disk.fill
  cases hplan : w.disk.planCreate w.cwd target false with
  | error e =>
    rw [hplan] at hmade
    exact hmade.bind_error
  | ok c =>
    rw [hplan] at hmade
    refine hmade.bind fun v hv _ => ?_
    refine ((World.appendTo_comes hcalm c.place opened.contents v).mapError StageError.ofIo).bind
      fun u hu _ => ?_
    rw [hv] at hu
    simp only [← hu]
    cases opened.failure with
    | none => exact .pure () u
    | some e => exact .throw _ u

/-- Writing a member comes to what the disk says, if making the directories above it does. -/
theorem extractMember_lays {dest : FilePath} {base : Place} (bytes : Bytes) (m : Zip.Listed)
    (hmade : Zip.isEnclosed m.name = true → ∃ parent, (dest.join ⟨m.name⟩).parent? = some parent ∧
      (World.makeDirectories h parent).Comes w
        (w.disk.dig false base (⟨m.name⟩ : FilePath).steps.dropLast).1
        (w.disk.dig false base (⟨m.name⟩ : FilePath).steps.dropLast).2) :
    (extractMember h bytes dest m).Comes w (w.disk.lay w.cwd dest base bytes m).1
      (w.disk.lay w.cwd dest base bytes m).2 := by
  unfold extractMember Disk.lay
  cases Zip.openMember bytes m with
  | error e => exact .throw _ w
  | ok opened =>
    simp only
    by_cases hslash : Zip.namesDirectory m.name = true
    · simp only [hslash, Bool.true_or, if_true]
      exact .pure () w
    by_cases hname : Zip.isEnclosed m.name = true
    · simp only [hslash, hname, Bool.not_true, Bool.false_eq_true, if_false, Bool.or_false]
      obtain ⟨parent, hparent, hmade⟩ := hmade hname
      unfold Disk.layAt
      simp only [hparent]
      rcases hdig : w.disk.dig false base (⟨m.name⟩ : FilePath).steps.dropLast with ⟨r, d⟩
      rw [hdig] at hmade
      refine (hmade.mapError StageError.ofIo).bind_cases (fun e he => ?_) fun a ha v hv hcwd => ?_
      · cases r with
        | ok => cases he
        | error e' =>
          obtain rfl := Except.error.inj he
          exact ⟨rfl, rfl⟩
      · cases r with
        | error => cases ha
        | ok =>
          have hfill := fill_comes hcalm (dest.join ⟨m.name⟩) opened v
          rwa [hv, hcwd] at hfill
    · simp only [hslash, hname, Bool.not_false, Bool.or_true, Bool.false_eq_true, if_false, if_true]
      exact ⟨rfl, rfl, rfl⟩

/-- The same of the directory that the input is unpacked to. -/
theorem extractMember_comes (hd : w.disk.Receives w.cwd l root) (bytes : Bytes) (m : Zip.Listed) :
    (extractMember h bytes l.unpacked m).Comes w
      (w.disk.lay w.cwd l.unpacked (root ++ [areaOf .unpack]) bytes m).1
      (w.disk.lay w.cwd l.unpacked (root ++ [areaOf .unpack]) bytes m).2 := by
  refine extractMember_lays hcalm bytes m fun hname => ?_
  obtain ⟨parent, hparent⟩ : ∃ q, (l.unpacked.join ⟨m.name⟩).parent? = some q := by
    refine FilePath.exists_parent? ?_
    rw [(hd.toGround.continues hname).steps]
    exact List.append_ne_nil_of_left_ne_nil l.steps_unpacked_ne _
  exact ⟨parent, hparent, makeParents_comes hcalm hd hname hparent⟩

/-- Writing several members comes to what the disk says. -/
theorem extractEach_comes (bytes : Bytes) (ls : List Zip.Listed) (names : List String) {w : World}
    (hd : w.disk.Receives w.cwd l root) :
    (extractEach h bytes ls l.unpacked false names).Comes w
      (w.disk.unpackEach w.cwd l root bytes ls names).1
      (w.disk.unpackEach w.cwd l root bytes ls names).2 := by
  induction names generalizing w with
  | nil => exact .pure () w
  | cons n ns ih =>
    unfold extractEach Disk.unpackEach Disk.layEach
    simp only [Bool.false_eq_true, if_false]
    cases Zip.find? n ls with
    | none => exact (Try.Comes.throw _ w).bind_error
    | some m =>
      simp only
      have hone := extractMember_comes hcalm hd bytes m
      rcases hlay : w.disk.lay w.cwd l.unpacked (root ++ [areaOf .unpack]) bytes m with ⟨r, d⟩
      rw [hlay] at hone
      refine hone.bind_cases (fun e he => ?_) fun a ha v hv hcwd => ?_
      · obtain rfl : r = .error e := he
        exact ⟨rfl, rfl⟩
      · obtain rfl : r = .ok a := ha
        have hmore := @ih v
        rw [hv, hcwd] at hmore
        exact hmore (hd.lay hlay)

/-- So does writing them with a look at memory before each. -/
theorem extractEach_reaches (bytes : Bytes) (ls : List Zip.Listed) (names : List String) {w : World}
    (hd : w.disk.Receives w.cwd l root) :
    (extractEach h bytes ls l.unpacked true names).Reaches w
      (w.disk.unpackEach w.cwd l root bytes ls names).1
      (w.disk.unpackEach w.cwd l root bytes ls names).2 := by
  induction names generalizing w with
  | nil => exact .inr (.pure () w)
  | cons n ns ih =>
    unfold extractEach Disk.unpackEach Disk.layEach
    simp only [if_true]
    refine (checkMemory_reaches h w).bind fun v hv hcwd => ?_
    rw [← hv, ← hcwd] at hd ⊢
    cases Zip.find? n ls with
    | none => exact .inr (Try.Comes.throw _ v).bind_error
    | some m =>
      simp only
      have hone := extractMember_comes hcalm hd bytes m
      rcases hlay : v.disk.lay v.cwd l.unpacked (root ++ [areaOf .unpack]) bytes m with ⟨r, d⟩
      rw [hlay] at hone
      refine Try.Reaches.bind_cases (.inr hone) (fun e he => ?_) fun a ha u hu hucwd => ?_
      · obtain rfl : r = .error e := he
        exact ⟨rfl, rfl⟩
      · obtain rfl : r = .ok a := ha
        have hmore := @ih u
        rw [hu, hucwd] at hmore
        exact hmore (hd.lay hlay)

section

variable {archive : FilePath} {bytes : Bytes} {ls : List Zip.Listed}

/-- Unpacking members of an archive comes to what the disk says. -/
theorem extract_comes (hd : w.disk.Receives w.cwd l root)
    (hread : w.disk.read w.cwd archive = .ok bytes) (hlist : Zip.read bytes = .ok ls)
    (names : List String) :
    (extract h archive names l.unpacked false).Comes w
      (w.disk.unpackEach w.cwd l root bytes ls names).1
      (w.disk.unpackEach w.cwd l root bytes ls names).2 := by
  have hbytes := (World.readBytes_comes hcalm archive w).mapError StageError.ofIo
  rw [hread] at hbytes
  unfold extract
  refine hbytes.bind fun v hv hcwd => ?_
  rw [← hv, ← hcwd] at hd ⊢
  simp only [hlist]
  exact extractEach_comes hcalm bytes ls names hd

theorem extract_reaches (hd : w.disk.Receives w.cwd l root)
    (hread : w.disk.read w.cwd archive = .ok bytes) (hlist : Zip.read bytes = .ok ls)
    (names : List String) :
    (extract h archive names l.unpacked true).Reaches w
      (w.disk.unpackEach w.cwd l root bytes ls names).1
      (w.disk.unpackEach w.cwd l root bytes ls names).2 := by
  have hbytes := (World.readBytes_comes hcalm archive w).mapError StageError.ofIo
  rw [hread] at hbytes
  unfold extract
  refine Try.Reaches.bind (.inr hbytes) fun v hv hcwd => ?_
  rw [← hv, ← hcwd] at hd ⊢
  simp only [hlist]
  exact extractEach_reaches hcalm bytes ls names hd

end

end Work

end Decompile
