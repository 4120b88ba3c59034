import Decompile.Proofs.Conservation.Site
import Decompile.Proofs.Durability.Spared

/-!
# Changes under a law

What happens in the directory of a target is followed change by change, so that something can be said
of each point at which the process may stop.

- `areaPlace`, `Scratch`: the directories that stages write, and those that a job clears away again.
- `Regular`: a change that a law admits, or that makes a directory; other directories stand.
- `Orderly`: one regular change after another. `Orderly.untouched`, `Orderly.stands`: what they leave
  as it is.
- `Along`: all changes since a world are regular.
- `Realm.admitting`, `twins_along`: the paths at which a law admits all that is done there.
-/

namespace Decompile

open World (changesIn changesIn_append)

variable {h : Host} {storage : FilePath} {store : Place} {key : String} {X Y : Change → Prop}
  {u v w : World} {c : Change} {cs : List Change} {d d' : Disk} {q : Place} {p : FilePath}
  {rest : List String} {kind other : StageKind}

/-! ## Places -/

/-- The directory that a stage writes for a target. -/
def areaPlace (store : Place) (key : String) (kind : StageKind) : Place :=
  store ++ ["sources", key, areaOf kind]

/-- Inside the directory of some target, and not the output of a stage of `key` that bears marks: what
stands there may be cleared away again. -/
def Scratch (store : Place) (key : String) (q : Place) : Prop :=
  Inside store q ∧ ∀ kind, kind.hasMarkers = true → q ≠ areaPlace store key kind

theorem areaPlace_append (kind : StageKind) (rest : List String) :
    store ++ ["sources", key] ++ ([areaOf kind] ++ rest) = areaPlace store key kind ++ rest := by
  simp [areaPlace]

/-- What is below the directories of different stages is different. -/
theorem areaPlace_inj {more : List String}
    (heq : areaPlace store key kind ++ rest = areaPlace store key other ++ more) :
    kind = other ∧ rest = more := by
  rw [areaPlace, areaPlace, List.append_assoc, List.append_assoc] at heq
  have hnames := List.append_cancel_left heq
  simp only [List.cons_append, List.nil_append, List.cons.injEq, true_and] at hnames
  exact ⟨areaOf_injective hnames.1, hnames.2⟩

/-- An output that bears marks is kept. -/
theorem not_scratch (hkind : kind.hasMarkers = true) : ¬ Scratch store key (areaPlace store key kind) :=
  fun hq => hq.2 kind hkind rfl

/-- So are the directories on the way there. -/
theorem not_scratch_above (hq : q <+: store ++ ["sources", key]) : ¬ Scratch store key q := by
  rintro ⟨⟨other, rest, hrest, rfl⟩, -⟩
  have hlength := hq.length_le
  have hlong := List.length_pos_iff.mpr hrest
  simp only [List.length_append, List.length_cons, List.length_nil] at hlength
  omega

/-- What is at or below an output that bears no marks may be cleared away. -/
theorem scratch_append (hbare : kind.hasMarkers = false) (rest : List String) :
    Scratch store key (areaPlace store key kind ++ rest) := by
  refine ⟨⟨key, areaOf kind :: rest, List.cons_ne_nil _ _, by simp [areaPlace]⟩, fun other hother heq => ?_⟩
  obtain ⟨rfl, -⟩ := areaPlace_inj (heq.trans (List.append_nil _).symm)
  rw [hbare] at hother
  cases hother

/-! ## Changes -/

/-- The law `X` admits the change, or it makes a directory where there is nothing. Directories stand,
except those that are cleared away again, and links are as before. -/
structure Regular (store : Place) (key : String) (X : Change → Prop) (d : Disk) (c : Change) : Prop where
  admitted : c.makes = true ∧ d.find? c.place = none ∨ X c
  stands : d.find? c.place = some .directory →
    Scratch store key c.place ∨ (d.apply c).find? c.place = some .directory
  links : d.SameLinks (d.apply c)
  named : ∀ n ∈ c.place, IsEntryName n

/-- One regular change after another. -/
def Orderly (store : Place) (key : String) (X : Change → Prop) : Disk → List Change → Prop
  | _, [] => True
  | d, c :: cs => Regular store key X d c ∧ Orderly store key X (d.apply c) cs

theorem Regular.of_gentle (hc : d.Gentle c) (hX : c.makes = true ∧ d.find? c.place = none ∨ X c) :
    Regular store key X d c :=
  ⟨hX, fun hthere => .inr (hc.stands hthere), hc.links, hc.named⟩

theorem Regular.mono (hc : Regular store key X d c) (hX : X c → Y c) : Regular store key Y d c :=
  ⟨hc.admitted.imp_right hX, hc.stands, hc.links, hc.named⟩

/-- A regular change leaves a place alone at which the law admits none. -/
theorem Regular.untouched (hc : Regular store key X d c) (hq : X c → c.place ≠ q) :
    d.Untouched (d.apply c) q := by
  by_cases hplace : c.place = q
  · obtain ⟨hmakes, hmissing⟩ := hc.admitted.resolve_right fun hX => hq hX hplace
    cases c with
    | makeDirectory r =>
      obtain rfl : r = q := hplace
      refine .inr ⟨hmissing, ?_⟩
      rw [Disk.apply, Disk.find?_put, if_pos rfl]
    | create | append | replace | link | remove => cases hmakes
  · exact .inl (Disk.find?_apply_of_ne _ _ (Ne.symm hplace))

/-- A directory that is not cleared away stands after a regular change. -/
theorem Regular.directory (hc : Regular store key X d c) (hq : d.find? q = some .directory)
    (hkept : ¬ Scratch store key q) : (d.apply c).find? q = some .directory := by
  by_cases hplace : q = c.place
  · subst hplace
    exact (hc.stands hq).resolve_left hkept
  · rwa [Disk.find?_apply_of_ne _ _ hplace]

namespace Orderly

theorem mono (hX : ∀ c ∈ cs, X c → Y c) (h : Orderly store key X d cs) : Orderly store key Y d cs := by
  induction cs generalizing d with
  | nil => trivial
  | cons c cs ih =>
    obtain ⟨hfirst, hrest⟩ := List.forall_mem_cons.mp hX
    exact ⟨h.1.mono hfirst, ih hrest h.2⟩

theorem append_iff {ds : List Change} : Orderly store key X d (cs ++ ds) ↔
    Orderly store key X d cs ∧ Orderly store key X (d.replay cs) ds := by
  induction cs generalizing d with
  | nil => exact ⟨fun h => ⟨trivial, h⟩, And.right⟩
  | cons c cs ih =>
    show (_ ∧ Orderly store key X _ (cs ++ ds)) ↔ (_ ∧ Orderly store key X _ cs) ∧ _
    rw [ih, and_assoc]
    rfl

/-- So are the first of them. -/
theorem front {ds : List Change} (h : Orderly store key X d cs) (hds : ds <+: cs) :
    Orderly store key X d ds := by
  obtain ⟨more, rfl⟩ := hds
  exact (append_iff.mp h).1

theorem admitted (h : Orderly store key X d cs) : ∀ c ∈ cs, c.makes = true ∨ X c := by
  induction cs generalizing d with
  | nil => exact fun c hc => absurd hc List.not_mem_nil
  | cons c cs ih =>
    exact List.forall_mem_cons.mpr ⟨h.1.admitted.imp_left And.left, ih h.2⟩

/-- **A place at which the law admits no change is left alone.** -/
theorem untouched (h : Orderly store key X d cs) (hq : ∀ c ∈ cs, X c → c.place ≠ q) :
    d.Untouched (d.replay cs) q := by
  induction cs generalizing d with
  | nil => exact .refl d q
  | cons c cs ih =>
    obtain ⟨hfirst, hrest⟩ := List.forall_mem_cons.mp hq
    exact (h.1.untouched hfirst).trans (ih h.2 hrest)

/-- **A directory that is not cleared away stands.** -/
theorem stands (h : Orderly store key X d cs) (hq : d.find? q = some .directory)
    (hkept : ¬ Scratch store key q) : (d.replay cs).find? q = some .directory := by
  induction cs generalizing d with
  | nil => exact hq
  | cons c cs ih => exact ih h.2 (h.1.directory hq hkept)

theorem links (h : Orderly store key X d cs) : d.SameLinks (d.replay cs) := by
  induction cs generalizing d with
  | nil => exact .refl d
  | cons c cs ih => exact h.1.links.trans (ih h.2)

theorem steady (h : Orderly store key X d cs) : d.Steady store (fun _ => False) (d.replay cs) where
  files _ hkey := hkey.elim
  directory _ hq hout := h.stands hq fun hscratch => hout hscratch.1
  links := h.links

end Orderly

/-! ## Stretches of a run -/

/-- All that has happened to the disk between two worlds are regular changes. -/
structure Stretch (store : Place) (key : String) (X : Change → Prop) (u v : World) : Prop where
  cwd : v.cwd = u.cwd
  journal : v.journal = u.journal ++ u.since v
  disk : v.disk = u.diskAfter (u.since v)
  orderly : Orderly store key X u.disk (changesIn (u.since v))

namespace Stretch

theorem of_new {new : List Occurrence} (hcwd : v.cwd = u.cwd) (hjournal : v.journal = u.journal ++ new)
    (hdisk : v.disk = u.diskAfter new) (horderly : Orderly store key X u.disk (changesIn new)) :
    Stretch store key X u v := by
  have hsince := World.since_eq hjournal
  refine ⟨hcwd, ?_, ?_, ?_⟩
  all_goals rw [hsince]; assumption

theorem refl (w : World) : Stretch store key X w w :=
  .of_new rfl (List.append_nil _).symm rfl trivial

theorem since_trans (h : Stretch store key X u v) (h' : Stretch store key Y v w) :
    u.since w = u.since v ++ v.since w :=
  World.since_eq (by rw [h'.journal, h.journal, List.append_assoc])

theorem trans (h : Stretch store key X u v) (h' : Stretch store key X v w) : Stretch store key X u w := by
  have hjournal : w.journal = u.journal ++ (u.since v ++ v.since w) := by
    rw [← List.append_assoc, ← h.journal, h'.journal]
  refine .of_new (h'.cwd.trans h.cwd) hjournal ?_ ?_
  · rw [h'.disk, World.diskAfter_append, ← h.disk]
    rfl
  · rw [changesIn_append]
    refine Orderly.append_iff.mpr ⟨h.orderly, ?_⟩
    show Orderly store key X (u.diskAfter (u.since v)) _
    rw [← h.disk]
    exact h'.orderly

theorem mono (hX : ∀ c, X c → Y c) (h : Stretch store key X u v) : Stretch store key Y u v :=
  ⟨h.cwd, h.journal, h.disk, h.orderly.mono fun c _ => hX c⟩

theorem of_sameDisk (h : SameDisk u v) : Stretch store key X u v := by
  obtain ⟨new, hjournal, hquiet⟩ := h.journal
  refine .of_new h.cwd hjournal ?_ ?_
  · rw [World.diskAfter, hquiet, h.disk]
    rfl
  · rw [hquiet]
    trivial

theorem change (hc : Regular store key X u.disk c) :
    Stretch store key X u ((World.change c).run u).2 := by
  have hjournal : ((World.change c).run u).2.journal = u.journal ++ [.changed c] := rfl
  exact .of_new rfl hjournal rfl ⟨hc, trivial⟩

end Stretch

/-- The storage is without links, and all changes since a world are regular. -/
structure Along (storage : FilePath) (store : Place) (key : String) (X : Change → Prop) (w u : World) :
    Prop where
  stored : Stored storage store u
  stretch : Stretch store key X w u

namespace Along

theorem refl (hw : Stored storage store w) : Along storage store key X w w := ⟨hw, .refl w⟩

theorem sameDisk (hu : Along storage store key X w u) (huv : SameDisk u v) :
    Along storage store key X w v :=
  ⟨hu.stored.sameDisk huv, hu.stretch.trans (.of_sameDisk huv)⟩

theorem change (hu : Along storage store key X w u) (hc : Regular store key X u.disk c) :
    Along storage store key X w ((World.change c).run u).2 :=
  ⟨hu.stored.change hc.links hc.named, hu.stretch.trans (.change hc)⟩

theorem links (hu : Along storage store key X w u) : w.disk.SameLinks u.disk := by
  rw [hu.stretch.disk]
  exact hu.stretch.orderly.links

end Along

/-! ## Paths -/

/-- The paths at which the law `X` admits all that is done there, where links are as in a world. -/
def Realm.admitting (X : Change → Prop) (w : World) : Realm where
  look _ := True
  make _ := True
  write p := ∀ d, w.disk.SameLinks d → ∀ q e, d.locate w.cwd true p = .ok (q, e) →
    (∀ x, X (.create q x)) ∧ ∀ more, X (.append q more)
  take p := ∀ d, w.disk.SameLinks d →
    ∃ q, d.Lands w.cwd p q ∧ (∀ bytes, X (.replace q bytes)) ∧ X (.remove q)

/-- **What single runs keep up whose paths the law admits**: all changes are regular. -/
theorem twins_along : Twins h h (Alone (Along storage store key X w)) (.admitting X w)
    fun u c => Regular store key X u.disk c := by
  refine Alone.twins (fun _ _ => Along.sameDisk) (fun _ _ => Along.change)
    (fun p _ u c hu hc => ?_) (fun p hp u x c hu hc => ?_) (fun p hp u bytes c hu hc => ?_)
    (fun p hp u c hu hc => ?_) (fun _ _ => trivial) fun _ _ _ _ => trivial
  · obtain ⟨hgentle, hmakes, hmissing⟩ := hu.stored.gentle_makes hc
    exact .of_gentle hgentle (.inl ⟨hmakes ▸ rfl, hmissing⟩)
  · obtain ⟨q, y, rfl, hlocate, hgentle, hlater⟩ := hu.stored.gentle_creates hc
    obtain ⟨hcreate, happend⟩ := hp u.disk hu.links q _ (hu.stretch.cwd ▸ hlocate)
    exact ⟨.of_gentle hgentle (.inr (hcreate y)),
      fun v more => .of_gentle (hlater v.disk more) (.inr (happend more))⟩
  · obtain ⟨q, hlands, hreplace, -⟩ := hp u.disk hu.links
    obtain ⟨rfl, hgentle⟩ := hu.stored.gentle_replaces (hu.stretch.cwd ▸ hlands) hc
    exact .of_gentle hgentle (.inr (hreplace bytes))
  · obtain ⟨q, hlands, -, hremove⟩ := hp u.disk hu.links
    obtain ⟨rfl, hgentle⟩ := hu.stored.gentle_removes (hu.stretch.cwd ▸ hlands) hc
    exact .of_gentle hgentle (.inr hremove)

end Decompile
