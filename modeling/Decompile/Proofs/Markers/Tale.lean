import Decompile.Proofs.Markers.Stage

/-!
# What the marks of a tree tell

At each point of a run the marks of a tree tell how far the stage has come that has begun it last: the
mark of an end is there just if that stage has put it there, and nothing of the tree has changed since.

- `World.changesTo`: what has changed since a world, up to a point of the journal.
- `Idle`: changes that leave a tree as it is, unless they begin it anew.
- `Tale`: what the marks tell, and that it is true; `Tale.idle`: it stays true.
-/

namespace Decompile

open World (changesIn changesIn_append)

variable {storage : FilePath} {store cwd : Place} {key : String}
  {kind : StageKind} {X : Change → Prop} {u v w : World} {d d' : Disk} {q : Place}
  {cs ds own rest : List Change} {j : List Occurrence}

/-! ## Points of a journal -/

/-- What has changed since a world, up to the end of `j`. -/
def World.changesTo (w : World) (j : List Occurrence) : List Change := changesIn (j.drop w.journal.length)

theorem World.changesTo_append (w : World) (new : List Occurrence) :
    w.changesTo (w.journal ++ new) = changesIn new := by
  rw [changesTo, List.drop_left]

theorem World.changesTo_of_le (hj : j.length ≤ w.journal.length) : w.changesTo j = [] := by
  rw [changesTo, List.drop_eq_nil_of_le hj]
  rfl

theorem World.journal_change (c : Change) (w : World) :
    ((change c).run w).2.journal = w.journal ++ [.changed c] := rfl

theorem World.disk_change (c : Change) (w : World) : ((change c).run w).2.disk = w.disk.apply c := rfl

theorem World.changesTo_change {c : Change} (hj : ((change c).run w).2.journal <+: j) :
    w.changesTo j = c :: ((change c).run w).2.changesTo j := by
  obtain ⟨more, rfl⟩ := hj
  rw [changesTo_append, journal_change, List.append_assoc, changesTo_append, changesIn_append]
  rfl

namespace Stretch

theorem grows (h : Stretch store key X u v) : u.journal <+: v.journal :=
  ⟨_, h.journal.symm⟩

/-- What is later has changed after what was first. -/
theorem changesTo_append (h : Stretch store key X u v) (hj : v.journal <+: j) :
    u.changesTo j = changesIn (u.since v) ++ v.changesTo j := by
  obtain ⟨more, rfl⟩ := hj
  rw [World.changesTo_append, h.journal, List.append_assoc, World.changesTo_append, changesIn_append]

/-- A point on the way divides the changes. -/
theorem changesTo_front (h : Stretch store key X u v) (hu : u.journal <+: j) (hv : j <+: v.journal) :
    u.changesTo j <+: changesIn (u.since v) := by
  obtain ⟨new, rfl⟩ := hu
  rw [World.changesTo_append]
  rw [h.journal, List.prefix_append_right_inj] at hv
  exact changesIn_front hv

theorem orderly_to (h : Stretch store key X u v) (hu : u.journal <+: j) (hv : j <+: v.journal) :
    Orderly store key X u.disk (u.changesTo j) :=
  h.orderly.front (h.changesTo_front hu hv)

theorem disk_to (h : Stretch store key X u v) (hj : v.journal <+: j) :
    u.disk.replay (u.changesTo j) = v.disk.replay (v.changesTo j) := by
  rw [h.changesTo_append hj, Disk.replay_append, h.disk]
  rfl

end Stretch

namespace SameDisk

theorem changesIn_since (h : SameDisk u v) : changesIn (u.since v) = [] := by
  obtain ⟨new, hnew, hquiet⟩ := h.journal
  rwa [World.since_eq hnew]

theorem changesTo (h : SameDisk u v) (hj : v.journal <+: j) : u.changesTo j = v.changesTo j := by
  have hstretch : Stretch [] "" (fun _ => True) u v := .of_sameDisk h
  rw [hstretch.changesTo_append hj, h.changesIn_since, List.nil_append]

theorem changesTo_nil (h : SameDisk u v) (hu : u.journal <+: j) (hv : j <+: v.journal) : u.changesTo j = [] := by
  have hstretch : Stretch [] "" (fun _ => True) u v := .of_sameDisk h
  have hfront := hstretch.changesTo_front hu hv
  rwa [h.changesIn_since, List.prefix_nil] at hfront

end SameDisk

/-! ## Directories of targets -/

/-- The directory of targets is found, whatever becomes of the insides of targets. -/
def Disk.Housed (d : Disk) (cwd : Place) (storage : FilePath) (store : Place) : Prop :=
  ∀ d', d.Steady store (fun _ => False) d' → d'.Anchored cwd (sourcesIn storage) (store ++ ["sources"])

theorem Settled.housed (hw : Settled storage store w) : w.disk.Housed w.cwd storage store := by
  intro d hd
  refine ⟨hw.found d hd, fun rest t hlink => hw.anchored.linkless rest t ((hd.links _ t).mp hlink)⟩

namespace Disk.Housed

theorem anchored (hd : d.Housed cwd storage store) :
    d.Anchored cwd (sourcesIn storage) (store ++ ["sources"]) :=
  hd d (.refl d)

theorem replay (hd : d.Housed cwd storage store) (hcs : Orderly store key X d cs) :
    (d.replay cs).Housed cwd storage store :=
  fun d' hd' => hd d' (hcs.steady.trans hd')

end Disk.Housed

/-! ## Changes that leave a tree alone -/

/-- The law of what leaves the tree of a stage alone, but for the mark of a beginning. -/
def Restful (store : Place) (key : String) (kind : StageKind) (c : Change) : Prop :=
  Elsewhere store key kind c ∨ c = startMark store key kind

/-- No file of the tree is created, changed or removed, but for the mark of a beginning. -/
def Untroubled (store : Place) (key : String) (kind : StageKind) (cs : List Change) : Prop :=
  ∀ c ∈ cs, areaPlace store key kind <+: c.place →
    c.makes = true ∨ c = startMark store key kind

theorem areaPlace_above_mark (n : String) : areaPlace store key kind <+: markPlace store key kind n :=
  List.prefix_append _ _

theorem Orderly.undisturbed (h : Orderly store key (Restful store key kind) d cs) :
    Untroubled store key kind cs := by
  intro c hc harea
  rcases h.admitted c hc with hmakes | helse | hmark
  · exact .inl hmakes
  · exact absurd harea helse
  · exact .inr hmark

/-- What leaves the tree alone leaves the mark of an end alone. -/
theorem Orderly.keeps_end (h : Orderly store key (Restful store key kind) d cs) :
    (d.replay cs).HasFile (markPlace store key kind Target.completeMarker) ↔
      d.HasFile (markPlace store key kind Target.completeMarker) := by
  refine (h.untouched fun c _ hc heq => ?_).hasFile_iff
  rcases hc with helse | rfl
  · exact helse (heq ▸ areaPlace_above_mark _)
  · exact markPlace_ne heq

/-- Files that are only replaced stay there. -/
theorem Orderly.hasFile (h : Orderly store key X d cs)
    (hX : ∀ c ∈ cs, X c → c.place = q → ∃ bytes, c = .replace q bytes) (hq : d.HasFile q) :
    (d.replay cs).HasFile q := by
  induction cs generalizing d with
  | nil => exact hq
  | cons c cs ih =>
    obtain ⟨hfirst, hrest⟩ := List.forall_mem_cons.mp hX
    refine ih h.2 hrest ?_
    by_cases hplace : c.place = q
    · rcases h.1.admitted with ⟨-, hmissing⟩ | hadmits
      · obtain ⟨bytes, x, hfile⟩ := hq
        rw [hplace, hfile] at hmissing
        cases hmissing
      · obtain ⟨bytes, rfl⟩ := hfirst hadmits hplace
        exact Disk.hasFile_replace _ _ _
    · exact (Disk.hasFile_of_ne (Ne.symm hplace)).mpr hq

section

variable (hkey : isTargetKey key = true) (hkind : kind.hasMarkers = true) (hd : d.Housed cwd storage store)
include hkey hkind hd

/-- A tree that was begun stays so as long as the mark of its beginning is only replaced. -/
theorem Orderly.keeps_started (h : Orderly store key X d cs)
    (hX : ∀ c ∈ cs, X c → c.place = markPlace store key kind Target.startedMarker →
      ∃ bytes, c = .replace (markPlace store key kind Target.startedMarker) bytes)
    (hstarted : d.Started cwd storage store key kind) : (d.replay cs).Started cwd storage store key kind :=
  ⟨h.tree hkey hkind hd.anchored (hd.replay h).anchored hstarted.found, h.hasFile hX hstarted.mark⟩

theorem Orderly.rests_started (h : Orderly store key (Restful store key kind) d cs)
    (hstarted : d.Started cwd storage store key kind) : (d.replay cs).Started cwd storage store key kind := by
  refine h.keeps_started hkey hkind hd (fun c _ hc heq => ?_) hstarted
  rcases hc with helse | rfl
  · exact absurd (heq ▸ areaPlace_above_mark _) helse
  · exact ⟨[], rfl⟩

end

/-- The changes leave the tree of a stage alone. If they begin it, they have made it, and its mark is
there. -/
structure Idle (storage : FilePath) (cwd store : Place) (key : String) (kind : StageKind) (d : Disk)
    (cs : List Change) : Prop where
  orderly : Orderly store key (Restful store key kind) d cs
  started : startMark store key kind ∈ cs →
    (d.replay cs).Started cwd storage store key kind

namespace Idle

theorem of_elsewhere (h : Orderly store key (Elsewhere store key kind) d cs) :
    Idle storage cwd store key kind d cs := by
  refine ⟨h.mono fun _ _ => .inl, fun hmark => ?_⟩
  rcases h.admitted _ hmark with hmakes | helse
  · cases hmakes
  · exact absurd (areaPlace_above_mark _) helse

theorem nil (d : Disk) : Idle storage cwd store key kind d [] :=
  ⟨trivial, fun hmark => absurd hmark List.not_mem_nil⟩

section

variable (hkey : isTargetKey key = true) (hkind : kind.hasMarkers = true) (hd : d.Housed cwd storage store)
include hkey hkind hd

theorem of_beginning (h : Beginning storage cwd store key kind d cs) : Idle storage cwd store key kind d cs :=
  ⟨h.orderly.mono fun _ _ => .inr,
    fun hmark => h.started hkey hkind hmark fun _ hds => (hd.replay hds).anchored⟩

theorem append (h : Idle storage cwd store key kind d cs)
    (h' : Idle storage cwd store key kind (d.replay cs) ds) : Idle storage cwd store key kind d (cs ++ ds) := by
  refine ⟨Orderly.append_iff.mpr ⟨h.orderly, h'.orderly⟩, fun hmark => ?_⟩
  rw [Disk.replay_append]
  rcases List.mem_append.mp hmark with hmark | hmark
  · exact h'.orderly.rests_started hkey hkind (hd.replay h.orderly) (h.started hmark)
  · exact h'.started hmark

end

end Idle

/-! ## What the marks tell -/

/-- The tree was begun by a stage that has changed `own`; after it `rest` has changed. The mark of an
end is there just if that stage has put it there, and then nothing of the tree has changed since. -/
structure Tale (storage : FilePath) (cwd store : Place) (key : String) (kind : StageKind)
    (own rest : List Change) (d : Disk) : Prop where
  started : d.Started cwd storage store key kind
  told : (d.HasFile (markPlace store key kind Target.completeMarker) ∧
      ∃ early late, own = early ++ endMark store key kind :: late ∧
        Untroubled store key kind (late ++ rest)) ∨
    (¬ d.HasFile (markPlace store key kind Target.completeMarker) ∧
      endMark store key kind ∉ own ++ rest)

theorem Untroubled.append (h : Untroubled store key kind cs) (h' : Untroubled store key kind ds) :
    Untroubled store key kind (cs ++ ds) :=
  fun c hc => (List.mem_append.mp hc).elim (h c) (h' c)

/-- What leaves the tree alone does not end it. -/
theorem Untroubled.not_mem (h : Untroubled store key kind cs) :
    endMark store key kind ∉ cs := by
  intro hmem
  rcases h _ hmem (areaPlace_above_mark _) with hmakes | heq
  · cases hmakes
  · exact markPlace_ne (Change.replace.inj heq).1.symm

/-- **It stays true** as long as the tree is left alone. -/
theorem Tale.idle (hkey : isTargetKey key = true) (hkind : kind.hasMarkers = true)
    (hd : d.Housed cwd storage store) (h : Tale storage cwd store key kind own rest d)
    (hcs : Idle storage cwd store key kind d cs) :
    Tale storage cwd store key kind own (rest ++ cs) (d.replay cs) := by
  refine ⟨hcs.orderly.rests_started hkey hkind hd h.started, ?_⟩
  rw [hcs.orderly.keeps_end, ← List.append_assoc]
  refine h.told.imp (fun ⟨hend, early, late, hown, hrest⟩ => ⟨hend, early, late, hown, ?_⟩)
    fun ⟨hend, hnone⟩ => ⟨hend, fun hmem => ?_⟩
  · rw [← List.append_assoc]
    exact hrest.append hcs.orderly.undisturbed
  · exact (List.mem_append.mp hmem).elim hnone hcs.orderly.undisturbed.not_mem

end Decompile
