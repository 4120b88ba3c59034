import Decompile.Proofs.Act.Moments
import Decompile.Proofs.Markers.Tree
import Decompile.Proofs.Markers.Work

/-!
# Marking a tree

A tree is marked as begun in two steps: the mark of a beginning is put into it, and that of an earlier
end is taken out. Between them it bears both, and is as complete as before.

- `Settled`: a storage without links, whose directory of targets is found for good.
- `Disk.Started`: the tree is found, and bears the mark of a beginning.
- `Beginning`: what has been changed when a tree is not yet marked as begun.
- `markStarted_unfinished`, `markStarted_succeeds`: the two steps, up to any point and to their end.
- `markComplete_fails`, `markComplete_succeeds`: the mark of an end.
-/

namespace Decompile

open World (changesIn changesIn_append)

variable {h : Host} {storage : FilePath} {store cwd : Place} {key n : String} {kind : StageKind}
  {X : Change → Prop} {u v w : World} {d d' : Disk} {cs ds : List Change} {past : List Occurrence}

/-! ## Storages -/

/-- The storage is without links, and its directory of targets is found, whatever becomes of the
insides of targets. -/
structure Settled (storage : FilePath) (store : Place) (w : World) : Prop where
  stored : Stored storage store w
  found : Open storage store w

theorem Along.steady (hu : Along storage store key X w u) :
    w.disk.Steady store (fun _ => False) u.disk := by
  rw [hu.stretch.disk]
  exact hu.stretch.orderly.steady

namespace Settled

theorem of_steady (hw : Settled storage store w) (hv : Stored storage store v)
    (hd : w.disk.Steady store (fun _ => False) v.disk) (hcwd : v.cwd = w.cwd) : Settled storage store v := by
  refine ⟨hv, fun d hd' => ?_⟩
  rw [hcwd]
  exact hw.found d (hd.trans hd')

theorem along (hw : Settled storage store w) (hu : Along storage store key X w u) :
    Settled storage store u :=
  hw.of_steady hu.stored hu.steady hu.stretch.cwd

theorem anchored (hw : Settled storage store w) :
    w.disk.Anchored w.cwd (sourcesIn storage) (store ++ ["sources"]) where
  leads := hw.found w.disk (.refl _)
  linkless rest t := by
    rw [List.append_assoc]
    exact hw.stored.addressed.linkless _ t

end Settled

/-- The directory of targets is found after regular changes. -/
theorem Settled.anchored_replay (hw : Settled storage store w) (hcs : Orderly store key X w.disk cs) :
    (w.disk.replay cs).Anchored w.cwd (sourcesIn storage) (store ++ ["sources"]) where
  leads := hw.found _ hcs.steady
  linkless rest t hlink := hw.anchored.linkless rest t ((hcs.links _ t).mp hlink)

/-- A tree that is found is found again. -/
theorem Orderly.tree (hcs : Orderly store key X d cs) (hkey : isTargetKey key = true)
    (hkind : kind.hasMarkers = true) (hd : d.Anchored cwd (sourcesIn storage) (store ++ ["sources"]))
    (hd' : (d.replay cs).Anchored cwd (sourcesIn storage) (store ++ ["sources"]))
    (htree : d.Anchored cwd (treePath storage key kind) (areaPlace store key kind)) :
    (d.replay cs).Anchored cwd (treePath storage key kind) (areaPlace store key kind) := by
  obtain ⟨hshort, hhome, harea⟩ := (hd.tree_iff hkey).mp htree
  refine (hd'.tree_iff hkey).mpr ⟨hshort, hcs.stands hhome (not_scratch_above (List.prefix_refl _)), ?_⟩
  exact hcs.stands harea (not_scratch hkind)

/-- The tree is found, and bears the mark of a beginning. -/
structure Disk.Started (d : Disk) (cwd : Place) (storage : FilePath) (store : Place) (key : String)
    (kind : StageKind) : Prop where
  found : d.Anchored cwd (treePath storage key kind) (areaPlace store key kind)
  mark : d.HasFile (markPlace store key kind Target.startedMarker)

/-! ## Files that are stored -/

/-- Before a file is stored, directories are made. -/
theorem World.store_refused {dir : FilePath} {bytes : Bytes} {e : PersistError}
    (hu : Stored storage store u) (hf : (World.store h dir n bytes).Fails u e v) :
    Along storage store key (fun _ => False) u v := by
  have T : Twins h h (Alone (Along storage store key (fun _ => False) u)) _ _ := twins_along
  have hensure := Alone.keeps (T.ensureDirectory (p := dir) trivial).settle (.refl hu)
  unfold World.store at hf
  rcases hf.bind with hf | ⟨_, x, hmade, hf⟩
  · replace hf : (World.ensureDirectory h dir).settle.run u = (.error e, v) := hf
    rwa [hf] at hensure
  replace hmade : (World.ensureDirectory h dir).settle.run u = _ := hmade
  rw [hmade] at hensure
  rcases hf.bind with hf | ⟨_, _, -, hf⟩
  · obtain ⟨_, -, hf⟩ := hf.mapError
    exact hensure.sameDisk (.of_still (World.fails_planned hf).1)
  · exact absurd hf Try.Fails.not_pure

theorem World.store_placed (key : String) {dir target : FilePath} {bytes : Bytes}
    (hu : Stored storage store u) (hs : (World.store h dir n bytes).Succeeds u target v) :
    ∃ x c, Along storage store key (fun _ => False) u x ∧
      x.disk.planReplace x.cwd (dir.join ⟨n⟩) bytes = .ok c ∧ v = ((World.change c).run x).2 := by
  have T : Twins h h (Alone (Along storage store key (fun _ => False) u)) _ _ := twins_along
  have hensure := Alone.keeps (T.ensureDirectory (p := dir) trivial).settle (.refl hu)
  unfold World.store at hs
  obtain ⟨_, y, hmade, hs⟩ := hs.bind
  replace hmade : (World.ensureDirectory h dir).settle.run u = _ := hmade
  rw [hmade] at hensure
  obtain ⟨_, z, hreplace, hs⟩ := hs.bind
  obtain ⟨-, rfl⟩ := hs.pure
  obtain ⟨x, c, hstill, hplan, rfl⟩ := World.succeeds_planned hreplace.mapError
  exact ⟨x, c, hensure.sameDisk (.of_still hstill), hplan, rfl⟩

/-- A mark that was put into a tree, which is found. -/
theorem World.store_mark (hkey : isTargetKey key = true) (hu : Settled storage store u) (hn : Target.isMarkerName n = true)
    {target : FilePath} (hs : (World.store h (treePath storage key kind) n []).Succeeds u target v) :
    ∃ x, Along storage store key (fun _ => False) u x ∧
      x.disk.Anchored x.cwd (treePath storage key kind) (areaPlace store key kind) ∧
      Regular store key (fun c => c = .replace (markPlace store key kind n) []) x.disk
        (.replace (markPlace store key kind n) []) ∧
      v = ((World.change (.replace (markPlace store key kind n) [])).run x).2 := by
  obtain ⟨x, c, hx, hplan, rfl⟩ := World.store_placed key hu.stored hs
  have hname := isEntryName_of_isMarkerName hn
  obtain ⟨_, -, hlocate, -⟩ := Disk.planReplace_ok hplan
  have htree := (hu.along hx).anchored.tree_of_locate hkey hname hlocate
  obtain ⟨rfl, hgentle⟩ := hx.stored.gentle_replaces (htree.lands (.ofChild hname)) hplan
  exact ⟨x, hx, htree, .of_gentle hgentle (.inr rfl), rfl⟩

/-! ## Beginnings -/

/-- What has been changed when a tree is not yet marked as begun: directories are made, and perhaps the
mark of a beginning is put into the tree. -/
inductive Beginning (storage : FilePath) (cwd store : Place) (key : String) (kind : StageKind) (d : Disk) :
    List Change → Prop where
  | making {cs : List Change} (makes : Orderly store key (fun _ => False) d cs) :
    Beginning storage cwd store key kind d cs
  | marked {cs : List Change} (makes : Orderly store key (fun _ => False) d cs)
    (found : (d.replay cs).Anchored cwd (treePath storage key kind) (areaPlace store key kind))
    (regular : Regular store key
      (fun c => c = startMark store key kind) (d.replay cs)
      (startMark store key kind)) :
    Beginning storage cwd store key kind d
      (cs ++ [startMark store key kind])

namespace Beginning

/-- So have the first of these changes. -/
theorem front (h : Beginning storage cwd store key kind d cs) (hds : ds <+: cs) :
    Beginning storage cwd store key kind d ds := by
  cases h with
  | making makes => exact .making (makes.front hds)
  | @marked cs makes found regular =>
    rcases prefix_append_cases hds with hds | ⟨more, rfl, hmore⟩
    · exact .making (makes.front hds)
    · rcases List.prefix_cons_iff.mp hmore with rfl | ⟨rest, rfl, hrest⟩
      · rw [List.append_nil]
        exact .making makes
      · rw [List.prefix_nil.mp hrest]
        exact .marked makes found regular

theorem orderly (h : Beginning storage cwd store key kind d cs) :
    Orderly store key (fun c => c = startMark store key kind) d cs := by
  cases h with
  | making makes => exact makes.mono fun _ _ => False.elim
  | marked makes found regular =>
    exact Orderly.append_iff.mpr ⟨makes.mono fun _ _ => False.elim, regular, trivial⟩

/-- Once the mark of a beginning is there, the tree is found. -/
theorem started (h : Beginning storage cwd store key kind d cs) (hkey : isTargetKey key = true)
    (hkind : kind.hasMarkers = true)
    (hmark : startMark store key kind ∈ cs)
    (hanchored : ∀ ds, Orderly store key (fun _ => True) d ds →
      (d.replay ds).Anchored cwd (sourcesIn storage) (store ++ ["sources"])) :
    (d.replay cs).Started cwd storage store key kind := by
  have horderly := h.orderly
  cases h with
  | making makes => exact absurd (makes.admitted _ hmark) (by simp [Change.makes])
  | @marked cs makes found regular =>
    have hlast : Orderly store key (fun _ => True) (d.replay cs)
        [startMark store key kind] :=
      ⟨regular.mono fun _ => trivial, trivial⟩
    have hfirst := hanchored cs (makes.mono fun _ _ _ => trivial)
    have hwhole := hanchored _ (horderly.mono fun _ _ _ => trivial)
    rw [Disk.replay_append] at hwhole ⊢
    exact ⟨hlast.tree hkey hkind hfirst hwhole found, Disk.hasFile_replace _ _ _⟩

end Beginning

/-! ## The two steps of a beginning -/

/-- The mark of an earlier end is taken out, unless there is none. -/
theorem World.removeMark_succeeds (hhonest : ∀ n e, h.fault n = some e → e.kind ≠ .notFound)
    (hu : Stored storage store u)
    (htree : u.disk.Anchored u.cwd (treePath storage key kind) (areaPlace store key kind))
    (hs : (World.ifPresent (World.removeFile h
      ((treePath storage key kind).join ⟨Target.completeMarker⟩))).Succeeds u () v) :
    SameDisk u v ∧ ¬ v.disk.HasFile (markPlace store key kind Target.completeMarker) ∨
      ∃ x, SameDisk u x ∧ Regular store key
          (fun c => c = .remove (markPlace store key kind Target.completeMarker)) x.disk
          (.remove (markPlace store key kind Target.completeMarker)) ∧
        v = ((World.change (.remove (markPlace store key kind Target.completeMarker))).run x).2 := by
  have hname : IsEntryName Target.completeMarker := by decide
  unfold World.ifPresent at hs
  replace hs := hs.outcome
  rcases hrun : (World.removeFile h
    ((treePath storage key kind).join ⟨Target.completeMarker⟩)).settle.run u with ⟨e | _, x⟩
  · -- it was not there, and the host tells the truth about that
    rw [hrun] at hs
    obtain ⟨hstill, hrefused⟩ := World.fails_planned hrun
    have hpassed : e.kind = .notFound ∧ v = x := by
      by_cases hkind : e.kind = .notFound
      · simp only [hkind, if_true] at hs
        exact ⟨hkind, hs.pure.2⟩
      · simp only [if_neg hkind] at hs
        exact absurd hs Try.Succeeds.not_throw
    obtain ⟨hmissing, rfl⟩ := hpassed
    have hplan := hrefused.resolve_left fun ⟨n, hfault⟩ => hhonest n e hfault hmissing
    refine .inl ⟨.of_still hstill, fun ⟨bytes, y, hfile⟩ => ?_⟩
    rw [← hstill.cwd, ← hstill.disk] at htree
    obtain ⟨hshort, hclean⟩ := plain_of_isMarkerName (n := Target.completeMarker) rfl
    have hlocate := Disk.locate_name htree.leads hname hshort hclean (htree.linkless [_]) false
    rw [Disk.planRemoveFile, Disk.entryAt_eq hlocate hfile fun _ => rfl] at hplan
    cases hplan
  · rw [hrun] at hs
    obtain ⟨-, rfl⟩ := hs.pure
    obtain ⟨y, c, hstill, hplan, rfl⟩ := World.succeeds_planned hrun
    rw [← hstill.cwd, ← hstill.disk] at htree
    obtain ⟨rfl, hgentle⟩ := (hu.sameDisk (.of_still hstill)).gentle_removes
      (htree.lands (.ofChild hname)) hplan
    exact .inr ⟨y, .of_still hstill, .of_gentle hgentle (.inr rfl), rfl⟩

theorem World.removeMark_fails {p : FilePath} {e : IoError}
    (hf : (World.ifPresent (World.removeFile h p)).Fails u e v) : SameDisk u v := by
  have hstill : ∀ {e v}, (World.removeFile h p).Fails u e v → SameDisk u v :=
    fun hf => .of_still (World.fails_planned hf).1
  unfold World.ifPresent at hf
  replace hf := hf.outcome
  rcases hrun : (World.removeFile h p).settle.run u with ⟨e' | _, x⟩
  · rw [hrun] at hf
    by_cases hkind : e'.kind = .notFound
    · simp only [hkind, if_true] at hf
      exact absurd hf Try.Fails.not_pure
    · simp only [if_neg hkind] at hf
      obtain ⟨-, rfl⟩ := hf.throw
      exact hstill hrun
  · rw [hrun] at hf
    exact absurd hf Try.Fails.not_pure

/-- A tree that was found got the mark of a beginning, and nothing else has happened since. -/
theorem Along.begins {x : World} (hx : Along storage store key (fun _ => False) u x)
    (htree : x.disk.Anchored x.cwd (treePath storage key kind) (areaPlace store key kind))
    (hregular : Regular store key
      (fun c => c = startMark store key kind) x.disk
      (startMark store key kind))
    (hsame : SameDisk ((World.change (startMark store key kind)).run x).2 v) :
    Along storage store key (fun c => c = startMark store key kind) u v ∧
      changesIn (u.since v) =
        changesIn (u.since x) ++ [startMark store key kind] ∧
      Beginning storage u.cwd store key kind u.disk (changesIn (u.since v)) := by
  have hmade : Along storage store key
      (fun c => c = startMark store key kind) u x :=
    ⟨hx.stored, hx.stretch.mono fun _ => False.elim⟩
  have hchanges : changesIn (u.since v) =
      changesIn (u.since x) ++ [startMark store key kind] := by
    obtain ⟨new, hnew, hquiet⟩ := hsame.journal
    have hsince : u.since v = u.since x ++
        ([.changed (startMark store key kind)] ++ new) := by
      refine World.since_eq ?_
      rw [hnew, ← List.append_assoc, ← hx.stretch.journal, ← List.append_assoc]
      rfl
    rw [hsince, changesIn_append, changesIn_append, hquiet, List.append_nil]
    rfl
  refine ⟨(hmade.change hregular).sameDisk hsame, hchanges, ?_⟩
  have hdisk : x.disk = u.disk.replay (changesIn (u.since x)) := hx.stretch.disk
  rw [hchanges]
  rw [hx.stretch.cwd, hdisk] at htree
  rw [hdisk] at hregular
  exact .marked hx.stretch.orderly htree hregular

/-- What is first in a journal makes the first of the changes. -/
theorem changesIn_front {past new : List Occurrence} (hpast : past <+: new) :
    changesIn past <+: changesIn new := by
  obtain ⟨more, rfl⟩ := hpast
  rw [changesIn_append]
  exact List.prefix_append _ _

section

variable (hkey : isTargetKey key = true) (hkind : kind.hasMarkers = true)
  (hu : Settled storage store u)
include hkey hkind hu

theorem Along.started (hv : Along storage store key X u v)
    (hbegin : Beginning storage u.cwd store key kind u.disk (changesIn (u.since v)))
    (hmark : startMark store key kind ∈ changesIn (u.since v)) :
    v.disk.Started v.cwd storage store key kind := by
  rw [hv.stretch.cwd, hv.stretch.disk]
  exact hbegin.started hkey hkind hmark fun ds hds => hu.anchored_replay hds

variable (hhonest : ∀ n e, h.fault n = some e → e.kind ≠ .notFound)
include hhonest

/-- The two steps of a beginning that was made. -/
theorem Target.markStarted_steps
    (hs : (Target.markStarted h (treePath storage key kind)).Succeeds u () v) :
    ∃ y, Along storage store key (fun c => c = startMark store key kind) u y ∧
      y.disk.Started y.cwd storage store key kind ∧
      Beginning storage u.cwd store key kind u.disk (changesIn (u.since y)) ∧
      (v = y ∧ ¬ y.disk.HasFile (markPlace store key kind completeMarker) ∨
        Regular store key (fun c => c = .remove (markPlace store key kind completeMarker)) y.disk
            (.remove (markPlace store key kind completeMarker)) ∧
          v = ((World.change (.remove (markPlace store key kind completeMarker))).run y).2) := by
  unfold Target.markStarted at hs
  obtain ⟨_, x₂, hstore, hremove⟩ := hs.bind
  obtain ⟨x, hx, htree, hregular, rfl⟩ := World.store_mark hkey hu rfl hstore
  have hbegun : ∀ {y}, SameDisk
      ((World.change (startMark store key kind)).run x).2 y →
      Along storage store key (fun c => c = startMark store key kind) u y ∧
        y.disk.Started y.cwd storage store key kind ∧
        Beginning storage u.cwd store key kind u.disk (changesIn (u.since y)) := fun hsame => by
    obtain ⟨hy, hchanges, hbegin⟩ := hx.begins htree hregular hsame
    exact ⟨hy, hy.started hkey hkind hu hbegin (hchanges ▸ List.mem_append_right _ List.mem_cons_self), hbegin⟩
  obtain ⟨hmarked, hstarted, -⟩ := hbegun (.of_eq rfl rfl rfl)
  rcases World.removeMark_succeeds hhonest hmarked.stored hstarted.found hremove.mapError with
    ⟨hsame, hgone⟩ | ⟨y, hsame, hregular, rfl⟩
  · obtain ⟨hv, hstarted, hbegin⟩ := hbegun hsame
    exact ⟨v, hv, hstarted, hbegin, .inl ⟨rfl, hgone⟩⟩
  · obtain ⟨hy, hstarted, hbegin⟩ := hbegun hsame
    exact ⟨y, hy, hstarted, hbegin, .inr ⟨hregular, rfl⟩⟩

/-- **A tree that was marked as begun** bears the mark of a beginning, and no mark of an end. -/
theorem Target.markStarted_succeeds
    (hs : (Target.markStarted h (treePath storage key kind)).Succeeds u () v) :
    Along storage store key (fun _ => True) u v ∧ v.disk.Started v.cwd storage store key kind ∧
      ¬ v.disk.HasFile (markPlace store key kind completeMarker) := by
  obtain ⟨y, hy, hstarted, -, ⟨rfl, hgone⟩ | ⟨hregular, rfl⟩⟩ :=
    markStarted_steps hkey hkind hu hhonest hs
  · exact ⟨⟨hy.stored, hy.stretch.mono fun _ _ => trivial⟩, hstarted, hgone⟩
  · have hy' : Along storage store key (fun _ => True) u y := ⟨hy.stored, hy.stretch.mono fun _ _ => trivial⟩
    have hlast : Regular store key (fun _ => True) y.disk
        (.remove (markPlace store key kind completeMarker)) := hregular.mono fun _ => trivial
    have hone : Orderly store key (fun _ => True) y.disk
        [.remove (markPlace store key kind completeMarker)] := ⟨hlast, trivial⟩
    have hsettled := hu.along hy
    refine ⟨hy'.change hlast, ⟨?_, (Disk.hasFile_of_ne markPlace_ne).mpr hstarted.mark⟩,
      Disk.not_hasFile_remove _ _⟩
    exact hone.tree hkey hkind hsettled.anchored (hsettled.anchored_replay hone) hstarted.found

/-- **A beginning that is not yet made**: until the mark of an earlier end is gone, or where it cannot
be taken out, nothing else of the tree has changed. -/
theorem Target.markStarted_unfinished {r : Except PersistError Unit}
    (hrun : (Target.markStarted h (treePath storage key kind)).settle.run u = (r, v))
    (hpast : past <+: u.since v) (hnot : r = .ok () → past ≠ u.since v) :
    Beginning storage u.cwd store key kind u.disk (changesIn past) := by
  cases r with
  | error e =>
    refine Beginning.front ?_ (changesIn_front hpast)
    replace hrun : (Target.markStarted h (treePath storage key kind)).Fails u e v := hrun
    unfold Target.markStarted at hrun
    rcases hrun.bind with hstore | ⟨_, x₂, hstore, hremove⟩
    · exact .making (World.store_refused hu.stored hstore).stretch.orderly
    · obtain ⟨x, hx, htree, hregular, rfl⟩ := World.store_mark hkey hu rfl hstore
      obtain ⟨_, -, hremove⟩ := hremove.mapError
      exact (hx.begins htree hregular (World.removeMark_fails hremove)).2.2
  | ok _ =>
    obtain ⟨y, hy, -, hbegin, ⟨rfl, -⟩ | ⟨-, rfl⟩⟩ := markStarted_steps hkey hkind hu hhonest hrun
    · exact hbegin.front (changesIn_front hpast)
    · -- all but the last entry of the journal
      refine hbegin.front (changesIn_front ?_)
      have hsince : u.since ((World.change (.remove (markPlace store key kind completeMarker))).run y).2 =
          u.since y ++ [.changed (.remove (markPlace store key kind completeMarker))] := by
        refine World.since_eq ?_
        rw [← List.append_assoc, ← hy.stretch.journal]
        rfl
      rw [hsince] at hpast hnot
      rcases prefix_append_cases hpast with hfirst | ⟨more, rfl, hmore⟩
      · exact hfirst
      · rcases List.prefix_cons_iff.mp hmore with rfl | ⟨rest, rfl, hrest⟩
        · exact List.append_nil _ ▸ List.prefix_refl _
        · rw [List.prefix_nil.mp hrest] at hnot
          exact absurd rfl (hnot rfl)

end

/-! ## The mark of an end -/

theorem Target.markComplete_refused {dir : FilePath} {e : PersistError} (hu : Stored storage store u)
    (hf : (Target.markComplete h dir).Fails u e v) : Along storage store key (fun _ => False) u v := by
  unfold Target.markComplete at hf
  rcases hf.bind with hf | ⟨_, _, -, hf⟩
  · exact World.store_refused hu hf
  · exact absurd hf Try.Fails.not_pure

/-- The mark of an end is the last that is put into a tree. -/
theorem Target.markComplete_succeeds (hkey : isTargetKey key = true) (hu : Settled storage store u)
    (hs : (Target.markComplete h (treePath storage key kind)).Succeeds u () v) :
    ∃ x, Along storage store key (fun _ => False) u x ∧
      Regular store key (fun c => c = endMark store key kind) x.disk
        (endMark store key kind) ∧
      v = ((World.change (endMark store key kind)).run x).2 := by
  unfold Target.markComplete at hs
  obtain ⟨_, y, hstore, hdone⟩ := hs.bind
  obtain ⟨-, rfl⟩ := hdone.pure
  obtain ⟨x, hx, -, hregular, rfl⟩ := World.store_mark hkey hu rfl hstore
  exact ⟨x, hx, hregular, rfl⟩

end Decompile
