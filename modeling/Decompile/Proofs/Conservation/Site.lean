import Decompile.Proofs.Disk.Areas
import Decompile.Proofs.Disk.Written
import Decompile.Proofs.Provenance.Files
import Mathlib.Logic.Relation

/-!
# Where a job works

A job works in the directory of its target. The disk may hold links everywhere else: what the job
does below that directory is known by the paths it uses, as long as the way there stands.

- `Site`, `Site.Fresh`: the directory of a target, found with nothing in it but perhaps a record.
- `Site.Sited`: a disk on which the way to the directory stands.
- `Site.Sound`, `Sited.apply`: changes that keep it so.
- `Site.Alters`: an action makes such changes only, and only those that are admitted.
- `Course.untouched`: a place that no admitted change is about is left alone.
-/

namespace Decompile

/-- The change makes a directory. -/
def Change.makes : Change → Bool
  | .makeDirectory _ => true
  | _ => false

/-- Where a job works, and the disk it has found. -/
structure Site where
  /-- The directory of all targets. -/
  sources : FilePath
  cwd : Place
  /-- Where the directory of all targets is. -/
  base : Place
  key : String
  before : Disk

namespace Site

variable (s : Site)

/-- Where the directory of the target is. -/
def target : Place := s.base ++ [s.key]

/-- Where the directory is that a stage writes. -/
def area (kind : StageKind) : Place := s.base ++ [s.key, areaOf kind]

theorem area_eq (kind : StageKind) : s.area kind = s.target ++ [areaOf kind] := by
  rw [area, target, List.append_assoc]
  rfl

/-- The directory of the target is there, with nothing in it but perhaps a record, and there are no
links among the targets. -/
structure Fresh : Prop where
  cwd : ∀ n ∈ s.cwd, IsEntryName n
  anchored : s.before.Anchored s.cwd s.sources s.base
  there : s.before.find? s.target = some .directory
  bare : ∀ rest e, s.before.find? (s.target ++ rest) = some e →
    rest = [] ∨ rest = [recordName] ∧ e.isFile = true

theorem fresh_iff : s.Fresh ↔ (∀ n ∈ s.cwd, IsEntryName n) ∧
    s.before.entryAt s.cwd true s.sources = .ok (s.base, .directory) ∧
    s.before.find? s.target = some .directory ∧
    ∀ x ∈ s.before.entries, (s.base <+: x.1 → x.2.isLink = false) ∧
      (s.target <+: x.1 → x.1 = s.target ∨ x.1 = s.target ++ [recordName] ∧ x.2.isFile = true) := by
  constructor
  · rintro ⟨hcwd, ⟨hleads, hlinkless⟩, hthere, hbare⟩
    refine ⟨hcwd, hleads, hthere, fun x hx => ?_⟩
    have hfound : s.before.find? x.1 = some x.2 := findEntry_of_mem s.before.ascending hx
    constructor
    · rintro ⟨rest, hrest⟩
      cases he : x.2 with
      | link t => exact absurd (he ▸ hrest ▸ hfound) (hlinkless rest t)
      | _ => rfl
    · rintro ⟨rest, hrest⟩
      rcases hbare rest x.2 (hrest ▸ hfound) with rfl | ⟨rfl, hfile⟩
      · exact .inl (hrest.symm.trans (List.append_nil _))
      · exact .inr ⟨hrest.symm, hfile⟩
  · rintro ⟨hcwd, hleads, hthere, hall⟩
    refine ⟨hcwd, ⟨hleads, fun rest t hlink => ?_⟩, hthere, fun rest e hfound => ?_⟩
    · cases (hall _ (mem_of_findEntry hlink)).1 (List.prefix_append _ _)
    · rcases (hall _ (mem_of_findEntry hfound)).2 (List.prefix_append _ _) with heq | ⟨heq, hfile⟩
      · exact .inl (List.append_cancel_left (heq.trans (List.append_nil _).symm))
      · exact .inr ⟨List.append_cancel_left heq, hfile⟩

instance : Decidable s.Fresh := decidable_of_iff _ s.fresh_iff.symm

/-- The way to the directory stands, and what is below it has names that entries can have. -/
structure Sited (d : Disk) : Prop where
  keeps : s.before.Keeps d
  linkless : ∀ rest t, d.find? (s.base ++ rest) ≠ some (.link t)
  named : ∀ rest e, d.find? (s.target ++ rest) = some e → ∀ n ∈ rest, IsEntryName n

variable {s} {d : Disk} {c : Change}

theorem Fresh.sited (hs : s.Fresh) : s.Sited s.before where
  keeps := .refl _
  linkless := hs.anchored.linkless
  named rest e hfound := by
    rcases hs.bare rest e hfound with rfl | ⟨rfl, -⟩
    · exact fun n hn => absurd hn List.not_mem_nil
    · exact fun n hn => List.mem_singleton.mp hn ▸ by decide

theorem Fresh.anchoredOn (hs : s.Fresh) (hd : s.Sited d) : d.Anchored s.cwd s.sources s.base :=
  hs.anchored.of_keeps hd.keeps hd.linkless

/-- In the directories that stages write there was nothing. -/
theorem Fresh.free (hs : s.Fresh) (kind : StageKind) (rest : List String) :
    s.before.find? (s.area kind ++ rest) = none := by
  cases hfound : s.before.find? (s.area kind ++ rest) with
  | none => rfl
  | some e =>
    rw [area_eq, List.append_assoc] at hfound
    rcases hs.bare _ e hfound with hnil | ⟨hrecord, -⟩
    · cases hnil
    · exact absurd (List.cons.inj hrecord).1 (areaOf_ne_recordName kind)

/-! ## Changes -/

/-- Below the directory of the target the place has names that entries can have. -/
def Clean (s : Site) (q : Place) : Prop := ∀ rest, q = s.target ++ rest → ∀ n ∈ rest, IsEntryName n

/-- The change makes no link, replaces no directory or link, removes nothing of what was found but
files, and gives what it makes a name that an entry can have. -/
def Sound (s : Site) (d : Disk) : Change → Prop
  | .makeDirectory q => d.find? q = none ∧ s.Clean q
  | .create q _ | .replace q _ => (∀ e, d.find? q = some e → e.isFile = true) ∧ s.Clean q
  | .append _ _ => True
  | .remove q => ∀ e, s.before.find? q = some e → e.isFile = true
  | .link _ _ => False

/-- A change leaves every other place alone, and all places if it makes a directory. -/
theorem Sound.untouched (hc : s.Sound d c) {q : Place} (hq : c.makes = true ∨ c.place ≠ q) :
    d.Untouched (d.apply c) q := by
  by_cases hplace : q = c.place
  · rcases hq with hmakes | hne
    · cases c with
      | makeDirectory p =>
        obtain rfl : q = p := hplace
        refine .inr ⟨hc.1, ?_⟩
        rw [Disk.apply, Disk.find?_put, if_pos rfl]
      | _ => cases hmakes
    · exact absurd hplace.symm hne
  · exact .inl (Disk.find?_apply_of_ne d c hplace)

/-- Directories and links stay unless something is removed. -/
theorem Sound.keeps (hc : s.Sound d c) (hremove : ∀ q, c ≠ .remove q) : d.Keeps (d.apply c) := by
  intro q e hq he
  by_cases hplace : q = c.place
  · cases c with
    | makeDirectory p =>
      obtain rfl : q = p := hplace
      rw [hc.1] at hq
      cases hq
    | create p x | replace p b =>
      obtain rfl : q = p := hplace
      rw [hc.1 e hq] at he
      cases he
    | append p more =>
      obtain rfl : q = p := hplace
      cases e with
      | file b x => cases he
      | directory | link t =>
        simp only [Disk.apply, hq]
    | remove p => exact absurd rfl (hremove p)
    | link p t => exact hc.elim
  · rw [Disk.find?_apply_of_ne d c hplace, hq]

theorem Sited.keeps_apply (hd : s.Sited d) (hc : s.Sound d c) : s.before.Keeps (d.apply c) := by
  by_cases hremove : ∀ q, c ≠ .remove q
  · exact hd.keeps.trans (hc.keeps hremove)
  · obtain ⟨p, rfl⟩ : ∃ p, c = .remove p := by simpa using hremove
    intro q e hq he
    by_cases hplace : q = p
    · subst hplace
      rw [hc e hq] at he
      cases he
    · rw [Disk.find?_apply_of_ne d _ hplace, hd.keeps q e hq he]

/-- What stands after a change stood before, or the change has made it. -/
theorem Sound.find?_apply (hc : s.Sound d c) {q : Place} {e : Entry}
    (hq : (d.apply c).find? q = some e) :
    d.find? q = some e ∨ (∀ t, e ≠ .link t) ∧ ((∃ f, d.find? q = some f) ∨ s.Clean q) := by
  by_cases hplace : q = c.place
  · cases c with
    | makeDirectory p =>
      obtain rfl : q = p := hplace
      rw [Disk.apply, Disk.find?_put, if_pos rfl] at hq
      obtain rfl := Option.some.inj hq
      exact .inr ⟨fun t ht => (by cases ht), .inr hc.2⟩
    | create p x | replace p b =>
      obtain rfl : q = p := hplace
      rw [Disk.apply, Disk.find?_put, if_pos rfl] at hq
      obtain rfl := Option.some.inj hq
      exact .inr ⟨fun t ht => (by cases ht), .inr hc.2⟩
    | append p more =>
      obtain rfl : q = p := hplace
      simp only [Disk.apply] at hq
      split at hq
      · next b x hfile =>
        rw [Disk.find?_put, if_pos rfl] at hq
        obtain rfl := Option.some.inj hq
        exact .inr ⟨fun t ht => (by cases ht), .inl ⟨_, hfile⟩⟩
      · exact .inl hq
    | remove p =>
      obtain rfl : q = p := hplace
      rw [Disk.apply, Disk.find?_erase, if_pos rfl] at hq
      cases hq
    | link p t => exact hc.elim
  · rw [Disk.find?_apply_of_ne d c hplace] at hq
    exact .inl hq

theorem Sited.apply (hd : s.Sited d) (hc : s.Sound d c) : s.Sited (d.apply c) where
  keeps := hd.keeps_apply hc
  linkless rest t hlink := by
    rcases hc.find?_apply hlink with hold | ⟨hnone, -⟩
    · exact hd.linkless rest t hold
    · exact hnone t rfl
  named rest e hfound := by
    rcases hc.find?_apply hfound with hold | ⟨-, ⟨f, hold⟩ | hclean⟩
    · exact hd.named rest e hold
    · exact hd.named rest f hold
    · exact hclean rest rfl

/-! ## Courses of events -/

/-- One thing that happens while a job works. -/
inductive Turn (s : Site) (X : Change → Prop) (w v : World) : Prop where
  /-- The disk stays as it is. -/
  | aside (new : List Occurrence) (journal : v.journal = w.journal ++ new)
    (quiet : World.changesIn new = []) (disk : v.disk = w.disk) (cwd : v.cwd = w.cwd)
  | change (c : Change) (journal : v.journal = w.journal ++ [.changed c])
    (disk : v.disk = w.disk.apply c) (cwd : v.cwd = w.cwd) (sound : s.Sound w.disk c)
    (admitted : c.makes = true ∨ X c)

/-- What happens while a job works, with the changes that `X` admits; directories are made wherever
there is nothing. -/
def Course (s : Site) (X : Change → Prop) : World → World → Prop :=
  Relation.ReflTransGen (s.Turn X)

/-- The world is one in which the job works at the site. -/
structure Hosts (s : Site) (w : World) : Prop where
  cwd : w.cwd = s.cwd
  sited : s.Sited w.disk

variable {X Y : Change → Prop} {w v u : World}

theorem Course.hosts (hc : s.Course X w v) (hw : s.Hosts w) : s.Hosts v := by
  induction hc with
  | refl => exact hw
  | tail _ turn ih =>
    cases turn with
    | aside new journal quiet disk cwd => exact ⟨cwd.trans ih.cwd, disk ▸ ih.sited⟩
    | change c journal disk cwd sound admitted =>
      exact ⟨cwd.trans ih.cwd, disk ▸ ih.sited.apply sound⟩

theorem Course.mono (hc : s.Course X w v) (hXY : ∀ c, X c → Y c) : s.Course Y w v := by
  induction hc with
  | refl => exact .refl
  | tail _ turn ih =>
    refine ih.tail ?_
    cases turn with
    | aside new journal quiet disk cwd => exact .aside new journal quiet disk cwd
    | change c journal disk cwd sound admitted =>
      exact .change c journal disk cwd sound (admitted.imp id (hXY c))

/-- **A place that no admitted change is about is left alone.** -/
theorem Course.untouched (hc : s.Course X w v) {q : Place} (hq : ∀ c, X c → c.place ≠ q) :
    w.disk.Untouched v.disk q := by
  induction hc with
  | refl => exact .refl _ _
  | tail _ turn ih =>
    refine ih.trans ?_
    cases turn with
    | aside new journal quiet disk cwd =>
      rw [disk]
      exact .refl _ _
    | change c journal disk cwd sound admitted =>
      rw [disk]
      exact sound.untouched (admitted.imp id (hq c))

/-- Directories and links stay unless something is removed. -/
theorem Course.keeps (hc : s.Course X w v) (hX : ∀ q, ¬ X (.remove q)) : w.disk.Keeps v.disk := by
  induction hc with
  | refl => exact .refl _
  | tail _ turn ih =>
    refine ih.trans ?_
    cases turn with
    | aside new journal quiet disk cwd => exact disk ▸ .refl _
    | change c journal disk cwd sound admitted =>
      rw [disk]
      refine sound.keeps fun q hq => ?_
      subst hq
      exact hX q (admitted.resolve_left nofun)

/-- A course is written down in the journal. -/
theorem Course.journal (hc : s.Course X w v) :
    v.journal = w.journal ++ w.since v ∧ v.disk = w.diskAfter (w.since v) := by
  induction hc with
  | refl =>
    rw [World.since_eq (List.append_nil _).symm, List.append_nil]
    exact ⟨rfl, rfl⟩
  | @tail x y _ turn ih =>
    obtain ⟨hjournal, hdisk⟩ := ih
    have hsince : ∀ {new : List Occurrence}, y.journal = x.journal ++ new →
        w.since y = w.since x ++ new := fun hnew =>
      World.since_eq (by rw [hnew, ← List.append_assoc, ← hjournal])
    cases turn with
    | aside new journal quiet disk cwd =>
      rw [hsince journal, World.diskAfter_append, ← hdisk, quiet, journal, ← List.append_assoc,
        ← hjournal]
      exact ⟨rfl, disk⟩
    | change c journal disk cwd sound admitted =>
      rw [hsince journal, World.diskAfter_append, ← hdisk, journal, ← List.append_assoc,
        ← hjournal]
      exact ⟨rfl, disk⟩

/-- An action that begins at the site makes the changes that `X` admits. -/
def Alters (s : Site) (X : Change → Prop) (w v : World) : Prop := s.Hosts w → s.Course X w v

instance : Std.Refl (s.Alters X) := ⟨fun _ _ => .refl⟩

instance : IsTrans World (s.Alters X) where
  trans _ _ _ hu hv hw := (hu hw).trans (hv ((hu hw).hosts hw))

theorem Alters.mono (ha : s.Alters X w v) (hXY : ∀ c, X c → Y c) : s.Alters Y w v :=
  fun hw => (ha hw).mono hXY

/-- What leaves the disk alone. -/
theorem Alters.of_still (h : Still w v) : s.Alters X w v := by
  obtain ⟨new, hjournal, hquiet⟩ := h.journal
  exact fun _ => .single (.aside new hjournal (World.changesIn_of_isQuiet hquiet) h.disk h.cwd)

theorem Alters.of_note {o : Occurrence} (hjournal : v.journal = w.journal ++ [o])
    (hdisk : v.disk = w.disk) (hcwd : v.cwd = w.cwd) (ho : ∀ c, o ≠ .changed c) :
    s.Alters X w v := by
  refine fun _ => .single (.aside [o] hjournal ?_ hdisk hcwd)
  cases o with
  | changed c => exact absurd rfl (ho c)
  | _ => rfl

theorem Hosts.of_still (hw : s.Hosts w) (h : Still w v) : s.Hosts v :=
  ⟨h.cwd.trans hw.cwd, h.disk ▸ hw.sited⟩

end Site

/-- An action that leaves the disk alone. -/
theorem Act.Keeps.alters {s : Site} {X : Change → Prop} {α : Type} {x : Act α}
    (hx : Act.Keeps Still x) : Act.Keeps (s.Alters X) x :=
  hx.mono fun _ _ => Site.Alters.of_still

theorem Try.Keeps.alters {s : Site} {X : Change → Prop} {ε α : Type} {t : Try ε α}
    (ht : Try.Keeps Still t) : Try.Keeps (s.Alters X) t :=
  Act.Keeps.alters ht

end Decompile
