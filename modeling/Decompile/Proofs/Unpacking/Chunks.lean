import Decompile.Proofs.Unpacking.Work

/-!
# Unpacking in chunks

The chunks write the members one after the other, and a chunk that is tried once more changes nothing.

- `Disk.unpackTwice`: what unpacking members comes to where they were unpacked before.
- `Disk.Receives.unpackEach_again`, `unpackTwice_append`: the second attempt, also of members in
  several rows.
- `Disk.Offers`: an archive outside the directory that it is unpacked to.
- `attempt_reaches`, `runChunk_passes`, `runChunk_fails`: what a chunk comes to.
- `runChunks_reaches`: what all chunks come to.
-/

namespace Decompile

/-! ## Members that are written twice -/

namespace Disk

variable {d x z : Disk} {cwd root : Place} {l : Layout} {bytes : Bytes} {ls : List Zip.Listed}
  {names more : List String} {r : Except StageError Unit}

/-- What writing the members comes to where they were written before, up to the first that failed. -/
def unpackTwice (cwd : Place) (l : Layout) (root : Place) (bytes : Bytes) (ls : List Zip.Listed)
    (d : Disk) (names : List String) : Except StageError Unit :=
  ((d.unpackEach cwd l root bytes ls names).2.unpackEach cwd l root bytes ls names).1

theorem unpackEach_append (cwd : Place) (l : Layout) (root : Place) (bytes : Bytes)
    (ls : List Zip.Listed) (d : Disk) (names more : List String) :
    d.unpackEach cwd l root bytes ls (names ++ more) =
      match d.unpackEach cwd l root bytes ls names with
      | (.error e, d) => (.error e, d)
      | (.ok (), d) => d.unpackEach cwd l root bytes ls more :=
  layEach_append ..

namespace Receives

/-- Members are unpacked once more wherever on the way it was begun again. -/
theorem redo (hd : d.Receives cwd l root) (hrun : d.unpackEach cwd l root bytes ls names = (r, x)) :
    ∃ r', MetAgain (∃ n ∈ names, Zip.TurnsBack n) r r' ∧
      ∀ z y, z.Ground cwd l.unpacked (root ++ [areaOf .unpack]) → x.GrowsTo z →
        (r ≠ .ok () → z = x) → Redone d z y →
          ∃ y', y.unpackEach cwd l root bytes ls names = (r', y') ∧ Redone x z y' :=
  layEach_again hd.toGround l.steps_unpacked_ne hrun

/-- The second attempt comes to the same, a file in the way perhaps seen from elsewhere, and leaves
the disk as it is. -/
theorem unpackEach_again (hd : d.Receives cwd l root)
    (hrun : d.unpackEach cwd l root bytes ls names = (r, z)) :
    MetAgain (∃ n ∈ names, Zip.TurnsBack n) r (d.unpackTwice cwd l root bytes ls names) ∧
      z.unpackEach cwd l root bytes ls names = (d.unpackTwice cwd l root bytes ls names, z) := by
  have hz := (hd.unpackEach hrun).toGround
  obtain ⟨r', hmet, hagain⟩ := hd.redo hrun
  obtain ⟨y, hredo, hy⟩ := hagain z z hz (.refl z) (fun _ => rfl) (.start d z)
  obtain rfl := hy.finish
  unfold unpackTwice
  rw [hrun, hredo]
  exact ⟨hmet, rfl⟩

/-- A failure among the first members is the failure of all. -/
theorem unpackTwice_error (hd : d.Receives cwd l root) {e e' : StageError}
    (hrun : d.unpackEach cwd l root bytes ls names = (.error e, z))
    (htwice : d.unpackTwice cwd l root bytes ls names = .error e') (more : List String) :
    d.unpackTwice cwd l root bytes ls (names ++ more) = .error e' := by
  obtain ⟨-, hagain⟩ := hd.unpackEach_again hrun
  have hall : d.unpackEach cwd l root bytes ls (names ++ more) = (.error e, z) := by
    rw [unpackEach_append, hrun]
  unfold unpackTwice
  rw [hall, unpackEach_append, hagain, htwice]

/-- Behind members that could be written, the others decide. -/
theorem unpackTwice_append (hd : d.Receives cwd l root)
    (hrun : d.unpackEach cwd l root bytes ls names = (.ok (), x)) (more : List String) :
    d.unpackTwice cwd l root bytes ls (names ++ more) = x.unpackTwice cwd l root bytes ls more := by
  have hx := hd.unpackEach hrun
  rcases hmore : x.unpackEach cwd l root bytes ls more with ⟨r, z⟩
  obtain ⟨hz, hgrows⟩ := layEach_grows hx.toGround l.steps_unpacked_ne hmore
  obtain ⟨r₁, hmet, hfirst⟩ := hd.redo hrun
  obtain rfl : r₁ = .ok () := hmet.elim id fun hfail => by cases hfail.2.1
  obtain ⟨y, hredo, hy⟩ := hfirst z z hz hgrows (fun hnot => absurd rfl hnot) (.start d z)
  obtain ⟨r₂, -, hrest⟩ := hx.redo hmore
  obtain ⟨u, hu, -⟩ := hrest z y hz (.refl z) (fun _ => rfl) hy
  obtain ⟨v, hv, -⟩ := hrest z z hz (.refl z) (fun _ => rfl) (.start x z)
  have hall : d.unpackEach cwd l root bytes ls (names ++ more) = (r, z) := by
    rw [unpackEach_append, hrun]
    exact hmore
  unfold unpackTwice
  rw [hall, hmore, unpackEach_append, hredo]
  simp only [hu, hv]

/-- The archive is read again as it was. -/
theorem entryAt_unpackEach (hd : d.Receives cwd l root) {archive : FilePath} {q : Place} {e : Entry}
    (hentry : d.entryAt cwd true archive = .ok (q, e)) (hq : ¬ root ++ [areaOf .unpack] <+: q)
    (hrun : d.unpackEach cwd l root bytes ls names = (r, z)) :
    z.entryAt cwd true archive = .ok (q, e) := by
  obtain ⟨-, hgrows⟩ := layEach_grows hd.toGround l.steps_unpacked_ne hrun
  obtain ⟨-, -, hfile, -⟩ := entryAt_of_locate hentry
  have hsame : (d.unpackEach cwd l root bytes ls names).2.find? q = d.find? q :=
    layEach_outside hd.toGround l.steps_unpacked_ne hq
  rw [hrun] at hsame
  exact entryAt_of_keeps hgrows.keeps hentry (hsame.trans hfile)

end Receives

end Disk

/-! ## Chunks -/

/-- The archive of the job lies outside the directory that it is unpacked to. -/
structure Disk.Offers (d : Disk) (cwd : Place) (c : StageContext) (root : Place) (bytes : Bytes) : Prop
    extends d.Receives cwd c.layout root where
  archive : ∃ q x, d.entryAt cwd true c.job.submission.inputPath = .ok (q, .file bytes x) ∧
    ¬ root ++ [areaOf .unpack] <+: q

namespace Disk.Offers

variable {d z : Disk} {cwd root : Place} {c : StageContext} {bytes : Bytes} {ls : List Zip.Listed}
  {names : List String} {r : Except StageError Unit}

theorem read (hd : d.Offers cwd c root bytes) : d.read cwd c.job.submission.inputPath = .ok bytes := by
  obtain ⟨q, x, hentry, -⟩ := hd.archive
  rw [Disk.read, hentry]

theorem unpackEach (hd : d.Offers cwd c root bytes)
    (hrun : d.unpackEach cwd c.layout root bytes ls names = (r, z)) : z.Offers cwd c root bytes := by
  obtain ⟨q, x, hentry, hq⟩ := hd.archive
  exact ⟨hd.toReceives.unpackEach hrun, q, x, hd.toReceives.entryAt_unpackEach hentry hq hrun, hq⟩

end Disk.Offers

section

variable {h : Host} (hcalm : h.Calm) {c : StageContext} {root : Place} {bytes : Bytes}
  {ls : List Zip.Listed} (hlist : Zip.read bytes = .ok ls) {names : List String} {w : World}

/-- The work goes on unless the job has to stop. -/
theorem pollCancelled_reaches {α : Type} {f : Unit → Try StageError α} {r : Except StageError α} {d : Disk}
    (hf : ∀ v, v.disk = w.disk → v.cwd = w.cwd → (f ()).Reaches v r d) :
    Try.Reaches (liftM (pollCancelled h c.ticket) >>= fun stop =>
      if stop = true then MonadExcept.throw .cancelled >>= f else f ()) w r d := by
  obtain ⟨hdisk, hcwd⟩ := World.pause_comes h w
  exact .lift hdisk hcwd fun stop v hv hvcwd => .throwIf rfl (hf v hv hvcwd)

include hcalm hlist

/-- An attempt at a chunk writes its members. -/
theorem attempt_reaches (hd : w.disk.Offers w.cwd c root bytes) (index : Nat) {chunk : Chunk}
    {r : Except StageError Unit} {d : Disk}
    (hrun : w.disk.unpackEach w.cwd c.layout root bytes ls (chunk.slice names) = (r, d)) :
    (attempt h c .unpack index (.members names) chunk).Reaches w r d := by
  unfold attempt
  refine .lift rfl rfl fun _ v hv hcwd => (Work.breakOff_reaches v).bind fun u hu hucwd => ?_
  rw [← hv, ← hcwd, ← hu, ← hucwd] at hd hrun
  have hwork : (Work.processChunk h c .unpack index (.members names) chunk).Reaches u
      (u.disk.unpackEach u.cwd c.layout root bytes ls (chunk.slice names)).1
      (u.disk.unpackEach u.cwd c.layout root bytes ls (chunk.slice names)).2 :=
    Work.extract_reaches hcalm hd.toReceives hd.read hlist _
  rw [hrun] at hwork
  refine hwork.outcome (fun e he x => ?_) fun x hx _ => ?_
  · exact (Work.breakOff_reaches x).givesUp fun v => .throw he v
  · simp only at hx
    subst hx
    cases r with
    | ok => exact Work.breakOff_reaches x
    | error e =>
      exact (Work.breakOff_reaches x).bind fun v hv _ => .inr (hv ▸ .throw e v)

/-- A chunk whose members can be written is done with. -/
theorem runChunk_passes (hd : w.disk.Offers w.cwd c root bytes) (index : Nat) {chunk : Chunk} {z : Disk}
    (hrun : w.disk.unpackEach w.cwd c.layout root bytes ls (chunk.slice names) = (.ok (), z))
    (left : Nat) (failures : UInt32) :
    (runChunk h c .unpack index (.members names) chunk left failures).Reaches w
      (.ok (left, failures)) z := by
  unfold runChunk
  exact (attempt_reaches hcalm hlist hd index hrun).outcome (fun e he v => .final he _ v)
    fun v hv _ => .inr (hv ▸ .pure _ v)

/-- A chunk with a member that cannot be written fails with the first attempt, or with the second if
there is one. -/
theorem runChunk_fails (hd : w.disk.Offers w.cwd c root bytes) (index : Nat) {chunk : Chunk} {z : Disk}
    {e e' : StageError}
    (hrun : w.disk.unpackEach w.cwd c.layout root bytes ls (chunk.slice names) = (.error e, z))
    (hagain : z.unpackEach w.cwd c.layout root bytes ls (chunk.slice names) = (.error e', z))
    (hfinal : e.isTransient = false → e' = e) (left : Nat) (failures : UInt32) :
    (runChunk h c .unpack index (.members names) chunk left failures).Reaches w
      (.error (if left = 0 then e else e')) z := by
  induction left generalizing w e failures with
  | zero =>
    unfold runChunk
    refine (attempt_reaches hcalm hlist hd index hrun).outcome (fun e he v => .final he _ v)
      fun v hv _ => .retry (fun _ => ⟨rfl, hv.symm⟩) fun _ => pollCancelled_reaches fun u hu _ => ?_
    exact .inr (hv ▸ hu ▸ .throw e u)
  | succ left ih =>
    unfold runChunk
    refine (attempt_reaches hcalm hlist hd index hrun).outcome (fun e he v => .final he _ v)
      fun v hv hcwd => .retry (fun he => ⟨?_, hv.symm⟩) fun _ => pollCancelled_reaches
        fun u hu hucwd => .lift rfl rfl fun _ x hx hxcwd => .lift rfl rfl fun _ y hy hycwd => ?_
    · rw [if_neg (Nat.succ_ne_zero left), hfinal he]
    · -- the members are there already, so the failure is that of writing them again
      have hdisk : y.disk = z := hy.trans (hx.trans (hu.trans hv))
      have hplace : y.cwd = w.cwd := hycwd.trans (hxcwd.trans (hucwd.trans hcwd))
      have hoffers := hd.unpackEach hrun
      rw [← hdisk, ← hplace] at hoffers
      rw [← hplace] at hagain
      rw [if_neg (Nat.succ_ne_zero left)]
      have hmore := ih hoffers (e := e') (by rw [hdisk]; exact hagain) hagain (fun _ => rfl) (failures + 1)
      rwa [ite_self] at hmore

variable (names) in
/-- The chunks write the members one after the other. -/
theorem runChunks_reaches (hd : w.disk.Offers w.cwd c root bytes) (total index left : Nat)
    (failures : UInt32) (chunks : List Chunk) :
    (runChunks h c .unpack (.members names) total index left failures chunks).Reaches w
      (if left = 0 then
        (w.disk.unpackEach w.cwd c.layout root bytes ls
          (chunks.map fun chunk => chunk.slice names).flatten).1
      else
        w.disk.unpackTwice w.cwd c.layout root bytes ls
          (chunks.map fun chunk => chunk.slice names).flatten)
      (w.disk.unpackEach w.cwd c.layout root bytes ls
        (chunks.map fun chunk => chunk.slice names).flatten).2 := by
  induction chunks generalizing w index failures with
  | nil =>
    show Try.Reaches (pure ()) w (if left = 0 then .ok () else .ok ()) w.disk
    rw [ite_self]
    exact .inr (.pure () w)
  | cons chunk rest ih =>
    rw [List.map_cons, List.flatten_cons]
    generalize (rest.map fun chunk => chunk.slice names).flatten = more at ih ⊢
    unfold runChunks
    refine pollCancelled_reaches fun v hv hcwd => .lift rfl rfl fun _ u hu hucwd => ?_
    replace hu : u.disk = w.disk := hu.trans hv
    replace hucwd : u.cwd = w.cwd := hucwd.trans hcwd
    rw [← hu, ← hucwd] at hd ⊢
    rcases hrun : u.disk.unpackEach u.cwd c.layout root bytes ls (chunk.slice names) with ⟨e | a, z⟩
    · obtain ⟨hmet, hagain⟩ := hd.toReceives.unpackEach_again hrun
      obtain ⟨e', htwice, hfinal⟩ := hmet.exists_error
      rw [htwice] at hagain
      refine (runChunk_fails hcalm hlist hd index hrun hagain hfinal left failures).bind_cases
        (fun e₀ he₀ => ?_) fun a ha => by cases ha
      obtain rfl := Except.error.inj he₀
      rw [hd.toReceives.unpackTwice_error hrun htwice, Disk.unpackEach_append, hrun]
      refine ⟨?_, rfl⟩
      split <;> rfl
    · refine (runChunk_passes hcalm hlist hd index hrun left failures).bind fun x hx hxcwd =>
        pollCancelled_reaches fun y hy hycwd => ?_
      replace hy : y.disk = z := hy.trans hx
      replace hycwd : y.cwd = u.cwd := hycwd.trans hxcwd
      have hoffers := hd.unpackEach hrun
      rw [← hy, ← hycwd] at hoffers
      have hmore := ih hoffers (index + 1) failures
      rw [hy, hycwd] at hmore
      rw [hd.toReceives.unpackTwice_append hrun, Disk.unpackEach_append, hrun]
      exact hmore

end

end Decompile
