import Decompile.Proofs.Provenance.Law
import Decompile.Proofs.Twins.Alone
import Decompile.Proofs.Confinement.Run
import Decompile.Proofs.Disk.Replaced

/-!
# Records that work leaves alone

A journal lists the changes of the disk one by one, so a process that stops leaves a disk behind on
which the changes of some first part of its journal have happened (`World.diskAfter`).

Between two savings of a record, jobs work inside the directories of their targets. What they do there
touches no record at any such point, and leaves the way to all of them open.

- `Throughout`: a relation between disks holds from the start to each point at which a process may stop.
- `Throughout.sameDisk`, `Throughout.change`: where nothing happens to the disk, and where one change
  does.
- `Disk.Steady`: links are the same, and directories stand outside those of targets.
- `Spared`: nothing happens to the records of some keys, and the disk is steady at every point.
- `Realm.apart`, `twins_apart`: paths that lead to none of these records.
- `Host.Avoids`: what tools, and the requests that they make, must leave alone.
-/

namespace Decompile

/-! ## Points at which a process may stop -/

section

open World (changesIn changesIn_append)

/-- The first parts of two lists in a row. -/
theorem prefix_append_cases {α : Type} {l a b : List α} (h : l <+: a ++ b) :
    l <+: a ∨ ∃ m, l = a ++ m ∧ m <+: b := by
  rcases List.prefix_or_prefix_of_prefix h (List.prefix_append a b) with h' | ⟨m, rfl⟩
  · exact .inl h'
  · exact .inr ⟨m, rfl, (List.prefix_append_right_inj a).mp h⟩

/-- What has happened to the disk between two worlds is in the journal, and at every point in between
the disk is related to the disk at the start. -/
structure Throughout (K : Disk → Disk → Prop) (u v : World) : Prop where
  cwd : v.cwd = u.cwd
  journal : ∃ new, v.journal = u.journal ++ new ∧ v.disk = u.diskAfter new ∧
    ∀ past, past <+: new → K u.disk (u.diskAfter past)

namespace Throughout

variable {K : Disk → Disk → Prop} {u v w : World}

theorem refl (hK : ∀ d, K d d) (w : World) : Throughout K w w := by
  refine ⟨rfl, [], (List.append_nil _).symm, rfl, fun past hpast => ?_⟩
  rw [List.prefix_nil.mp hpast]
  exact hK w.disk

theorem trans (hK : ∀ d d' d'', K d d' → K d' d'' → K d d'') (h : Throughout K u v)
    (h' : Throughout K v w) : Throughout K u w := by
  obtain ⟨first, hjournal, hdisk, hfirst⟩ := h.journal
  obtain ⟨later, hjournal', hdisk', hlater⟩ := h'.journal
  have hthere : ∀ more, v.diskAfter more = u.diskAfter (first ++ more) := fun more => by
    rw [World.diskAfter_append, ← hdisk]
    rfl
  refine ⟨h'.cwd.trans h.cwd, first ++ later, ?_, ?_, fun past hpast => ?_⟩
  · rw [hjournal', hjournal, List.append_assoc]
  · rw [hdisk', hthere]
  · rcases prefix_append_cases hpast with hpast | ⟨more, rfl, hmore⟩
    · exact hfirst past hpast
    · rw [← hthere]
      refine hK _ _ _ ?_ (hlater more hmore)
      rw [hdisk]
      exact hfirst first (List.prefix_refl _)

theorem since_append (h : Throughout K u v) (h' : Throughout K v w) :
    u.since w = u.since v ++ v.since w := by
  obtain ⟨first, hjournal, -⟩ := h.journal
  obtain ⟨later, hjournal', -⟩ := h'.journal
  rw [World.since_eq hjournal, World.since_eq hjournal']
  exact World.since_eq (by rw [hjournal', hjournal, List.append_assoc])

/-- The disk at the end is one of those in between. -/
theorem disk (h : Throughout K u v) : K u.disk v.disk := by
  obtain ⟨new, -, hdisk, hpoints⟩ := h.journal
  rw [hdisk]
  exact hpoints new (List.prefix_refl _)

theorem mono {K' : Disk → Disk → Prop} (hK : ∀ d d', K d d' → K' d d') (h : Throughout K u v) :
    Throughout K' u v := by
  obtain ⟨new, hjournal, hdisk, hpoints⟩ := h.journal
  exact ⟨h.cwd, new, hjournal, hdisk, fun past hpast => hK _ _ (hpoints past hpast)⟩

theorem sameDisk (hK : ∀ d, K d d) (h : SameDisk u v) : Throughout K u v := by
  obtain ⟨new, hjournal, hquiet⟩ := h.journal
  have hstays : ∀ past, past <+: new → u.diskAfter past = u.disk := by
    rintro past ⟨rest, rfl⟩
    rw [changesIn_append] at hquiet
    rw [World.diskAfter, List.append_eq_nil_iff.mp hquiet |>.1]
    rfl
  refine ⟨h.cwd, new, hjournal, ?_, fun past hpast => ?_⟩
  · rw [hstays new (List.prefix_refl _), h.disk]
  · rw [hstays past hpast]
    exact hK u.disk

theorem change (hK : ∀ d, K d d) {c : Change} (hc : K u.disk (u.disk.apply c)) :
    Throughout K u ((World.change c).run u).2 := by
  refine ⟨rfl, [.changed c], rfl, rfl, fun past hpast => ?_⟩
  rcases List.prefix_cons_iff.mp hpast with rfl | ⟨rest, rfl, hrest⟩
  · exact hK u.disk
  · rw [List.prefix_nil.mp hrest]
    exact hc

end Throughout

end

/-! ## Work inside the directory of a target -/

open World (changesIn)

variable {h : Host} {storage : FilePath} {store cwd : Place} {ks : String → Prop} {key : String}
  {names rest : List String} {u v w : World} {p : FilePath} {c : Change} {d d' : Disk}

/-- Where the record of a key is. -/
def recordPlace (store : Place) (key : String) : Place := store ++ ["sources", key, recordName]

theorem recordPlace_inj {other : String} (h : recordPlace store key = recordPlace store other) :
    key = other := by
  have hnames := List.append_cancel_left h
  simpa using hnames

/-- The place is strictly inside the directory of a target. -/
def Inside (store q : Place) : Prop := ∃ key rest, rest ≠ [] ∧ q = store ++ "sources" :: key :: rest

/-- The records of some keys are the same files, links are the same, and directories stand unless they
are inside those of targets. -/
structure Disk.Steady (store : Place) (ks : String → Prop) (d d' : Disk) : Prop where
  files : ∀ key, ks key → ∀ b x, d'.find? (recordPlace store key) = some (.file b x) ↔
    d.find? (recordPlace store key) = some (.file b x)
  directory : ∀ q, d.find? q = some .directory → ¬ Inside store q → d'.find? q = some .directory
  links : d.SameLinks d'

namespace Disk.Steady

theorem refl (d : Disk) : d.Steady store ks d :=
  ⟨fun _ _ _ _ => .rfl, fun _ hq _ => hq, .refl d⟩

theorem trans {d'' : Disk} (h : d.Steady store ks d') (h' : d'.Steady store ks d'') :
    d.Steady store ks d'' :=
  ⟨fun key hkey b x => (h'.files key hkey b x).trans (h.files key hkey b x),
    fun q hq hout => h'.directory q (h.directory q hq hout) hout, h.links.trans h'.links⟩

theorem mono {ks' : String → Prop} (hks : ∀ key, ks' key → ks key) (h : d.Steady store ks d') :
    d.Steady store ks' d' :=
  ⟨fun key hkey => h.files key (hks key hkey), h.directory, h.links⟩

end Disk.Steady

/-- The disk is steady at every point between two worlds, and the records of some keys are not saved. -/
structure Spared (store : Place) (ks : String → Prop) (u v : World) : Prop where
  points : Throughout (Disk.Steady store ks) u v
  unsaved : ∀ c ∈ changesIn (u.since v), ∀ key, ks key → ∀ b, c ≠ .replace (recordPlace store key) b

namespace Spared

theorem refl (w : World) : Spared store ks w w where
  points := .refl Disk.Steady.refl w
  unsaved c hc := by
    rw [World.since_eq (List.append_nil _).symm] at hc
    exact absurd hc List.not_mem_nil

theorem trans (h : Spared store ks u v) (h' : Spared store ks v w) : Spared store ks u w where
  points := .trans (fun _ _ _ => .trans) h.points h'.points
  unsaved c hc := by
    rw [h.points.since_append h'.points, World.changesIn_append] at hc
    exact (List.mem_append.mp hc).elim (h.unsaved c) (h'.unsaved c)

theorem of_sameDisk (huv : SameDisk u v) : Spared store ks u v where
  points := .sameDisk Disk.Steady.refl huv
  unsaved c hc := by
    obtain ⟨new, hjournal, hquiet⟩ := huv.journal
    rw [World.since_eq hjournal, hquiet] at hc
    exact absurd hc List.not_mem_nil

theorem mono {ks' : String → Prop} (hks : ∀ key, ks' key → ks key) (h : Spared store ks u v) :
    Spared store ks' u v :=
  ⟨h.points.mono fun _ _ => .mono hks, fun c hc key hkey => h.unsaved c hc key (hks key hkey)⟩

end Spared

/-! ## Changes -/

namespace Disk

theorem not_directory_of_planCreate {x : Bool} (hc : d.planCreate cwd p x = .ok c) :
    d.find? c.place ≠ some .directory := by
  unfold planCreate at hc
  split at hc
  · cases hc
  · next q e hlocate =>
    split at hc
    · cases hc
    · next hfound =>
      split at hc
      · obtain rfl := Except.ok.inj hc
        rw [Change.place, hfound]
        exact fun heq => by cases heq
      · cases hc
    · cases hc
    · next hfound =>
      split at hc
      · obtain rfl := Except.ok.inj hc
        rw [Change.place, hfound]
        exact fun heq => by cases heq
      · cases hc

theorem entryAt_of_planRemoveFile (hc : d.planRemoveFile cwd p = .ok c) :
    ∃ e, d.entryAt cwd false p = .ok (c.place, e) ∧ e ≠ .directory := by
  unfold planRemoveFile at hc
  split at hc
  · cases hc
  · cases hc
  · next q e hfree hentry =>
    obtain rfl := Except.ok.inj hc
    exact ⟨e, hentry, hfree⟩

end Disk

/-- The change leaves directories and links as they are, and is at a place that can be. -/
structure Disk.Gentle (d : Disk) (c : Change) : Prop where
  stands : d.find? c.place = some .directory → (d.apply c).find? c.place = some .directory
  links : d.SameLinks (d.apply c)
  named : ∀ n ∈ c.place, IsEntryName n

namespace Stored

variable (hw : Stored storage store w)
include hw

theorem gentle_makes (hc : w.disk.planMakeDirectory w.cwd p = .ok c) :
    w.disk.Gentle c ∧ c = .makeDirectory c.place ∧ w.disk.find? c.place = none := by
  obtain ⟨through, q, e, hlocate, rfl, hmissing⟩ := Disk.locate_of_planMakeDirectory hc
  refine ⟨⟨fun hthere => ?_, Disk.sameLinks_apply (fun t hlink => ?_) (fun _ _ heq => by cases heq),
    Disk.names_locate hw.cwd hlocate⟩, rfl, hmissing⟩
  · rw [Change.place, hmissing] at hthere
    cases hthere
  · rw [Change.place, hmissing] at hlink
    cases hlink

/-- What is made may be written to later. -/
theorem gentle_creates {x : Bool} (hc : w.disk.planCreate w.cwd p x = .ok c) :
    ∃ q y, c = .create q y ∧ w.disk.locate w.cwd true p = .ok (q, .plain) ∧ w.disk.Gentle c ∧
      ∀ d : Disk, ∀ more, d.Gentle (.append q more) := by
  obtain ⟨q, hlocate, ⟨y, rfl⟩, hlink⟩ := Disk.locate_of_planCreate hc
  have hnames := Disk.names_locate hw.cwd hlocate
  refine ⟨q, y, rfl, hlocate, ⟨fun hthere => absurd hthere (Disk.not_directory_of_planCreate hc),
    Disk.sameLinks_apply hlink fun _ _ heq => (by cases heq), hnames⟩, fun d more =>
      ⟨fun hthere => ?_, Disk.sameLinks_append _ _ _, hnames⟩⟩
  replace hthere : d.find? q = some .directory := hthere
  simp only [Disk.apply, hthere, Change.place]

theorem gentle_replaces {q : Place} {bytes : Bytes} (hlands : w.disk.Lands w.cwd p q)
    (hc : w.disk.planReplace w.cwd p bytes = .ok c) : c = .replace q bytes ∧ w.disk.Gentle c := by
  obtain ⟨rfl, hfile⟩ := hlands.planReplace hc
  obtain ⟨_, heq, hlocate, hfree⟩ := Disk.planReplace_ok hc
  cases heq
  exact ⟨rfl, fun hthere => absurd hthere hfree,
    Disk.sameLinks_apply hlands.linkless fun _ _ heq => (by cases heq), Disk.names_locate hw.cwd hlocate⟩

theorem gentle_removes {q : Place} (hlands : w.disk.Lands w.cwd p q)
    (hc : w.disk.planRemoveFile w.cwd p = .ok c) : c = .remove q ∧ w.disk.Gentle c := by
  obtain rfl := hlands.planRemoveFile hc
  obtain ⟨e, hentry, hfree⟩ := Disk.entryAt_of_planRemoveFile hc
  obtain ⟨-, hfound⟩ := hlands.entryAt hentry
  refine ⟨rfl, fun hthere => ?_, Disk.sameLinks_apply hlands.linkless fun _ _ heq => (by cases heq),
    hw.named _ _ hfound⟩
  exact absurd (Option.some.inj (hfound.symm.trans hthere)) hfree

end Stored

/-- The change leaves the disk steady, and is not at the record of one of the keys unless it makes a
directory there. -/
structure Mild (store : Place) (ks : String → Prop) (u : World) (c : Change) : Prop where
  elsewhere : ∀ key, ks key → c.place = recordPlace store key →
    c = .makeDirectory c.place ∧ u.disk.find? c.place = none
  stands : u.disk.find? c.place = some .directory →
    Inside store c.place ∨ (u.disk.apply c).find? c.place = some .directory
  links : u.disk.SameLinks (u.disk.apply c)
  named : ∀ n ∈ c.place, IsEntryName n

theorem Mild.of_gentle (hc : u.disk.Gentle c) (helsewhere : ∀ key, ks key → c.place = recordPlace store key →
    c = .makeDirectory c.place ∧ u.disk.find? c.place = none) : Mild store ks u c :=
  ⟨helsewhere, fun hthere => .inr (hc.stands hthere), hc.links, hc.named⟩

theorem Mild.steady (hc : Mild store ks u c) : u.disk.Steady store ks (u.disk.apply c) where
  files key hkey b x := by
    by_cases hplace : recordPlace store key = c.place
    · obtain ⟨hmakes, hmissing⟩ := hc.elsewhere key hkey hplace.symm
      have hmade : (u.disk.apply c).find? c.place = some .directory := by
        rw [hmakes, Disk.apply, Disk.find?_put]
        exact if_pos rfl
      rw [hplace, hmissing, hmade]
      exact iff_of_false (fun heq => by cases heq) fun heq => by cases heq
    · rw [Disk.find?_apply_of_ne _ _ hplace]
  directory q hq hout := by
    by_cases hplace : q = c.place
    · rw [hplace] at hq hout ⊢
      exact (hc.stands hq).resolve_left hout
    · rwa [Disk.find?_apply_of_ne _ _ hplace]
  links := hc.links

theorem Mild.spared (hc : Mild store ks u c) : Spared store ks u ((World.change c).run u).2 where
  points := .change Disk.Steady.refl hc.steady
  unsaved c' hc' key hkey b heq := by
    have hsince : u.since ((World.change c).run u).2 = [.changed c] := World.since_eq rfl
    rw [hsince] at hc'
    obtain rfl := List.mem_singleton.mp hc'
    have hmakes := (hc.elsewhere key hkey (heq ▸ rfl)).1
    rw [heq] at hmakes
    cases hmakes

/-- The storage is without links, and the records of some keys have been spared since a world. -/
structure Guarded (storage : FilePath) (store : Place) (ks : String → Prop) (w u : World) : Prop where
  stored : Stored storage store u
  spared : Spared store ks w u

namespace Guarded

theorem refl (hw : Stored storage store w) : Guarded storage store ks w w := ⟨hw, .refl w⟩

theorem sameDisk (hu : Guarded storage store ks w u) (huv : SameDisk u v) :
    Guarded storage store ks w v :=
  ⟨hu.stored.sameDisk huv, hu.spared.trans (.of_sameDisk huv)⟩

theorem change (hu : Guarded storage store ks w u) (hc : Mild store ks u c) :
    Guarded storage store ks w ((World.change c).run u).2 :=
  ⟨hu.stored.change hc.links hc.named, hu.spared.trans hc.spared⟩

theorem sameCwd (hu : Guarded storage store ks w u) : u.cwd = w.cwd := hu.spared.points.cwd

theorem links (hu : Guarded storage store ks w u) : w.disk.SameLinks u.disk :=
  hu.spared.points.disk.links

end Guarded

/-! ## Paths -/

/-- The paths that lead to none of the records of some keys, where links are as they are in a world. -/
def Realm.apart (store : Place) (ks : String → Prop) (w : World) : Realm where
  look _ := True
  make _ := True
  write p := ∀ d, w.disk.SameLinks d → ∀ q e, d.locate w.cwd true p = .ok (q, e) →
    ∀ key, ks key → q ≠ recordPlace store key
  take p := ∀ d, w.disk.SameLinks d → ∃ q, d.Lands w.cwd p q ∧ ∀ key, ks key → q ≠ recordPlace store key

/-- **What single runs keep up whose paths lead to none of some records**: these records are spared. -/
theorem twins_apart :
    Twins h h (Alone (Guarded storage store ks w)) (.apart store ks w) (Mild store ks) := by
  refine Alone.twins (fun _ _ => Guarded.sameDisk) (fun _ _ => Guarded.change)
    (fun p _ u c hu hc => ?_) (fun p hp u x c hu hc => ?_) (fun p hp u bytes c hu hc => ?_)
    (fun p hp u c hu hc => ?_) (fun _ _ => trivial) fun _ _ _ _ => trivial
  · obtain ⟨hgentle, hmakes, hmissing⟩ := hu.stored.gentle_makes hc
    exact .of_gentle hgentle fun _ _ _ => ⟨hmakes, hmissing⟩
  · obtain ⟨q, y, rfl, hlocate, hgentle, hlater⟩ := hu.stored.gentle_creates hc
    have hapart := hp u.disk hu.links q _ (hu.sameCwd ▸ hlocate)
    exact ⟨.of_gentle hgentle fun key hkey heq => absurd heq (hapart key hkey),
      fun v more => .of_gentle (hlater v.disk more) fun key hkey heq => absurd heq (hapart key hkey)⟩
  · obtain ⟨q, hlands, hapart⟩ := hp u.disk hu.links
    obtain ⟨rfl, hgentle⟩ := hu.stored.gentle_replaces (hu.sameCwd ▸ hlands) hc
    exact .of_gentle hgentle fun key hkey heq => absurd heq (hapart key hkey)
  · obtain ⟨q, hlands, hapart⟩ := hp u.disk hu.links
    obtain ⟨rfl, hgentle⟩ := hu.stored.gentle_removes (hu.sameCwd ▸ hlands) hc
    exact .of_gentle hgentle fun key hkey heq => absurd heq (hapart key hkey)

end Decompile
