import Decompile.Proofs.Durability.Work
import Decompile.Proofs.Lifecycle.Replay
import Decompile.Proofs.Record.Text

/-!
# What becomes of a record

The effects of a job are saved in its record before they are told. What a process that stops leaves
behind is read off the rows of steps by which a job comes to where it stops.

- `JobRecord.follow`, `Follows`: the record that effects make of another.
- `announcedOn`, `savesOf`: what a journal tells of a job, and how often it saves its record.
- `Account`: the steps of a job that saves and tells its effects.
- `Snapshot`, `Points`, `Account.points`: what is there at every point of them.
-/

namespace Decompile

open World (changesIn messagesOn)

/-! ## Effects and records -/

/-- The change of the record that an effect asks for. -/
def Effect.edit? : Effect → Option RecordEdit
  | .stageChanged s st => some (.stage s.ordinal st)
  | .startStage _ => none
  | .finish o ranOutOfMemory _ => some (.finish o ranOutOfMemory)

/-- The message that an effect asks for. -/
def Effect.announcement? (j : Job) : Effect → Option BusMessage
  | .stageChanged s st => some (.stageChanged j.targetKey s st)
  | .startStage _ => none
  | .finish o ranOutOfMemory detail => some (.terminal (terminalOf j o ranOutOfMemory detail))

/-- The record that effects make of a record, but for the time of the last change. -/
def JobRecord.follow (r : JobRecord) (es : List Effect) : JobRecord :=
  (es.filterMap Effect.edit?).foldl (fun r e => e.apply r r.updated) r

/-- The record is what effects make of another, but for the time of the last change. -/
structure JobRecord.Follows (r₀ : JobRecord) (es : List Effect) (r : JobRecord) : Prop where
  dated : r.Dated
  eq : r = { r₀.follow es with updated := r.updated }

namespace JobRecord

variable {r₀ r : JobRecord} {es more : List Effect} {now : Timestamp}

theorem follow_append (r : JobRecord) (es more : List Effect) :
    r.follow (es ++ more) = (r.follow es).follow more := by
  rw [follow, List.filterMap_append, List.foldl_append]
  rfl

/-- The time of the last change does not bear on other fields. -/
theorem apply_updated (e : RecordEdit) (r : JobRecord) (t now : Timestamp) :
    ∃ t', e.apply { r with updated := t } now = { e.apply r r.updated with updated := t' } ∧
      (t' = t ∨ t' = now) := by
  cases e with
  | finish o oom => exact ⟨now, rfl, .inr rfl⟩
  | stage ordinal st =>
    cases hs : r.stages[ordinal]? with
    | none => exact ⟨t, by simp [RecordEdit.apply, setStage, hs], .inl rfl⟩
    | some s => exact ⟨now, by simp [RecordEdit.apply, setStage, hs], .inr rfl⟩

theorem Follows.refl (hr : r.Dated) : Follows r [] r := ⟨hr, rfl⟩

/-- An effect that changes nothing. -/
theorem Follows.skip (hr : Follows r₀ es r) {e : Effect} (he : e.edit? = none) :
    Follows r₀ (es ++ [e]) r := by
  refine ⟨hr.dated, ?_⟩
  have hsame : r₀.follow (es ++ [e]) = r₀.follow es := by
    rw [follow_append]
    simp [follow, he]
  rw [hsame]
  exact hr.eq

/-- An effect that changes the record. -/
theorem Follows.edit (hr : Follows r₀ es r) {e : Effect} {x : RecordEdit} (he : e.edit? = some x)
    (hnow : now.Dated) : Follows r₀ (es ++ [e]) (x.apply r now) := by
  obtain ⟨t, happly, ht⟩ := apply_updated x (r₀.follow es) r.updated now
  have hlast : r₀.follow (es ++ [e]) = x.apply (r₀.follow es) (r₀.follow es).updated := by
    rw [follow_append]
    simp [follow, he]
  rw [← hr.eq] at happly
  have hdated : t.Dated := by
    rcases ht with rfl | rfl
    · exact hr.dated.updated
    · exact hnow
  have hcreated : (x.apply r now).created = r.created := by
    cases x with
    | finish o oom => rfl
    | stage ordinal st =>
      cases hs : r.stages[ordinal]? with
      | none => simp [RecordEdit.apply, setStage, hs]
      | some s => simp [RecordEdit.apply, setStage, hs]
  refine ⟨⟨hcreated ▸ hr.dated.created, ?_⟩, ?_⟩
  · rw [happly]
    exact hdated
  · rw [hlast, happly]

end JobRecord

/-- What the message says of its job is what the record says. -/
def BusMessage.ReflectedIn (r : JobRecord) : BusMessage → Prop
  | .status _ _ => True
  | .stageChanged _ s st => (r.stages[s.ordinal]?).map StageRecord.state = some st
  | .terminal result => r.outcome = some result.outcome ∧ r.ranOutOfMemory = result.ranOutOfMemory

/-! ## Journals -/

/-- The message is about a stage or the end of the job, not about progress. -/
def BusMessage.isAnnouncement : BusMessage → Bool
  | .status _ _ => false
  | .stageChanged _ _ _ | .terminal _ => true

/-- What a journal tells about the stages and the end of the job of a key, oldest first. -/
def announcedOn (key : String) (journal : List Occurrence) : List BusMessage :=
  (messagesOn key journal).filter BusMessage.isAnnouncement

/-- The contents that were saved at a place, oldest first. -/
def savesOf (place : Place) (journal : List Occurrence) : List Bytes :=
  (changesIn journal).filterMap fun c =>
    match c with
    | .replace p contents => if p = place then some contents else none
    | _ => none

theorem announcedOn_append (key : String) (a b : List Occurrence) :
    announcedOn key (a ++ b) = announcedOn key a ++ announcedOn key b := by
  rw [announcedOn, messagesOn, List.filterMap_append, List.filter_append]
  rfl

theorem savesOf_append (place : Place) (a b : List Occurrence) :
    savesOf place (a ++ b) = savesOf place a ++ savesOf place b := by
  rw [savesOf, World.changesIn_append, List.filterMap_append]
  rfl

/-- Of a list that comes to nothing every first part does. -/
theorem eq_nil_of_prefix {α β : Type} {f : List α → List β} {past new : List α}
    (happend : ∀ a b, f (a ++ b) = f a ++ f b) (hnew : f new = []) (hpast : past <+: new) :
    f past = [] := by
  obtain ⟨rest, rfl⟩ := hpast
  rw [happend] at hnew
  exact (List.append_eq_nil_iff.mp hnew).1

/-! ## Steps -/

variable {store : Place} {a : Accepted} {w u v : World} {seen done es : List Effect} {e : Effect}
  {r : JobRecord} {past new : List Occurrence}

/-- The saving of a record as one change of the disk. -/
def saveChange (store : Place) (key : String) (r : JobRecord) : Change :=
  .replace (recordPlace store key) (Text.encode r.render)

/-- The steps by which a job that saves and tells its effects comes from one world to another; `done`
are the effects that it has saved, `seen` those that it has told as well. -/
inductive Account (store : Place) (a : Accepted) (w : World) :
    World → List Effect → List Effect → JobRecord → Prop where
  /-- The record is there as it was first saved. -/
  | start (dated : a.record.Dated) (file : w.disk.find? (recordPlace store a.job.targetKey) =
      some (.file (Text.encode a.record.render) false)) :
    Account store a w w [] [] a.record
  /-- Other things happen. -/
  | quiet {u v : World} {seen done : List Effect} {r : JobRecord}
    (before : Account store a w u seen done r) (spared : Spared store (· = a.job.targetKey) u v)
    (hushed : announcedOn a.job.targetKey (u.since v) = []) :
    Account store a w v seen done r
  /-- An effect is nothing for the record and nothing for listeners. -/
  | skip {u : World} {es : List Effect} {e : Effect} {r : JobRecord}
    (before : Account store a w u es es r) (edit : e.edit? = none)
    (announcement : e.announcement? a.job = none) :
    Account store a w u (es ++ [e]) (es ++ [e]) r
  /-- An effect is saved. -/
  | save {u : World} {es : List Effect} {e : Effect} {r : JobRecord} {x : RecordEdit}
    {now : Timestamp} (before : Account store a w u es es r) (edit : e.edit? = some x)
    (dated : now.Dated)
    (free : u.disk.find? (recordPlace store a.job.targetKey) ≠ some .directory)
    (links : u.disk.SameLinks (u.disk.apply (saveChange store a.job.targetKey (x.apply r now)))) :
    Account store a w ((World.change (saveChange store a.job.targetKey (x.apply r now))).run u).2
      es (es ++ [e]) (x.apply r now)
  /-- An effect that was saved is told. -/
  | tell {u : World} {es : List Effect} {e : Effect} {r : JobRecord} {m : BusMessage}
    (before : Account store a w u es (es ++ [e]) r)
    (announcement : e.announcement? a.job = some m) (reflected : m.ReflectedIn r) :
    Account store a w ((World.publish a.job.targetKey m).run u).2 (es ++ [e]) (es ++ [e]) r

/-! ## What is there at every point -/

/-- What is there when a process stops at a point: the record of the effects that were saved, all of
which were told but for the last. -/
structure Snapshot (store : Place) (a : Accepted) (w : World) (past : List Occurrence)
    (seen done : List Effect) (r : JobRecord) : Prop where
  file : (w.diskAfter past).find? (recordPlace store a.job.targetKey) =
    some (.file (Text.encode r.render) false)
  follows : a.record.Follows done r
  saves : (savesOf (recordPlace store a.job.targetKey) past).length =
    (done.filterMap Effect.edit?).length
  told : announcedOn a.job.targetKey past = seen.filterMap (Effect.announcement? a.job)
  ahead : seen = done ∨ ∃ e, done = seen ++ [e]
  reflected : ∀ earlier m, past = earlier ++ [.published a.job.targetKey m] → m.ReflectedIn r
  steady : w.disk.Steady store (fun _ => False) (w.diskAfter past)

/-- Everything that happened is in the journal, and at every point of it a first part of the effects
was saved. -/
structure Points (store : Place) (a : Accepted) (w u : World) (seen done : List Effect)
    (r : JobRecord) : Prop where
  cwd : u.cwd = w.cwd
  journal : u.journal = w.journal ++ w.since u
  disk : u.disk = w.diskAfter (w.since u)
  whole : Snapshot store a w (w.since u) seen done r
  points : ∀ past, past <+: w.since u → ∃ seen' done' r', done' <+: done ∧
    Snapshot store a w past seen' done' r'

namespace Snapshot

theorem start (dated : a.record.Dated) (file : w.disk.find? (recordPlace store a.job.targetKey) =
    some (.file (Text.encode a.record.render) false)) : Snapshot store a w [] [] [] a.record where
  file := file
  follows := .refl dated
  saves := rfl
  told := rfl
  ahead := .inl rfl
  reflected earlier m heq := by simp at heq
  steady := .refl w.disk

/-- What happens besides leaves everything as it is. -/
theorem quiet (hu : Snapshot store a w new seen done r) (hdisk : u.disk = w.diskAfter new)
    (huv : Spared store (· = a.job.targetKey) u v)
    (hushed : announcedOn a.job.targetKey (u.since v) = []) (hpast : past <+: u.since v) :
    Snapshot store a w (new ++ past) seen done r := by
  obtain ⟨later, hjournal, -, hpoints⟩ := huv.points.journal
  have hsteady := hpoints past (by rwa [World.since_eq hjournal] at hpast)
  have hthere : w.diskAfter (new ++ past) = u.diskAfter past := by
    rw [World.diskAfter_append, ← hdisk]
    rfl
  have htold := eq_nil_of_prefix (announcedOn_append a.job.targetKey) hushed hpast
  have hsaves : savesOf (recordPlace store a.job.targetKey) past = [] := by
    refine eq_nil_of_prefix (savesOf_append _) (List.filterMap_eq_nil_iff.mpr fun c hc => ?_) hpast
    split
    · refine if_neg ?_
      rintro rfl
      exact huv.unsaved _ hc _ rfl _ rfl
    · rfl
  constructor
  case file =>
    rw [hthere, hsteady.files _ rfl, hdisk]
    exact hu.file
  case follows => exact hu.follows
  case saves => rw [savesOf_append, hsaves, List.append_nil, hu.saves]
  case told => rw [announcedOn_append, htold, List.append_nil, hu.told]
  case ahead => exact hu.ahead
  case reflected =>
    intro earlier m heq
    rcases List.eq_nil_or_concat past with rfl | ⟨past, o, rfl⟩
    · rw [List.append_nil] at heq
      exact hu.reflected earlier m heq
    · -- what is told besides is about progress
      rw [List.concat_eq_append, ← List.append_assoc] at heq
      obtain ⟨-, hlast⟩ := List.append_inj' heq rfl
      obtain rfl := List.singleton_inj.mp hlast
      cases m with
      | status k event => exact trivial
      | stageChanged k s st =>
        rw [List.concat_eq_append, announcedOn_append] at htold
        simp [announcedOn, messagesOn, BusMessage.isAnnouncement] at htold
      | terminal result =>
        rw [List.concat_eq_append, announcedOn_append] at htold
        simp [announcedOn, messagesOn, BusMessage.isAnnouncement] at htold
  case steady =>
    rw [hthere]
    refine hu.steady.trans ?_
    rw [← hdisk]
    exact hsteady.mono fun _ hfalse => absurd hfalse id

theorem skip (hu : Snapshot store a w new es es r) (edit : e.edit? = none)
    (announcement : e.announcement? a.job = none) :
    Snapshot store a w new (es ++ [e]) (es ++ [e]) r where
  file := hu.file
  follows := hu.follows.skip edit
  saves := by
    rw [hu.saves, List.filterMap_append]
    simp [edit]
  told := by
    rw [hu.told, List.filterMap_append]
    simp [announcement]
  ahead := .inl rfl
  reflected := hu.reflected
  steady := hu.steady

theorem save {x : RecordEdit} {now : Timestamp} (hu : Snapshot store a w new es es r)
    (hdisk : u.disk = w.diskAfter new) (edit : e.edit? = some x) (dated : now.Dated)
    (free : u.disk.find? (recordPlace store a.job.targetKey) ≠ some .directory)
    (links : u.disk.SameLinks (u.disk.apply (saveChange store a.job.targetKey (x.apply r now)))) :
    Snapshot store a w (new ++ [.changed (saveChange store a.job.targetKey (x.apply r now))]) es
      (es ++ [e]) (x.apply r now) := by
  have hthere : w.diskAfter (new ++ [.changed (saveChange store a.job.targetKey (x.apply r now))]) =
      u.disk.apply (saveChange store a.job.targetKey (x.apply r now)) := by
    rw [World.diskAfter_append, ← hdisk]
    rfl
  constructor
  case file =>
    rw [hthere, saveChange, Disk.apply, Disk.find?_put, if_pos rfl]
  case follows => exact hu.follows.edit edit dated
  case saves =>
    rw [savesOf_append, List.length_append, hu.saves, List.filterMap_append, List.length_append]
    simp [savesOf, changesIn, saveChange, edit]
  case told =>
    rw [announcedOn_append, hu.told]
    simp [announcedOn, messagesOn]
  case ahead => exact .inr ⟨e, rfl⟩
  case reflected =>
    intro earlier m heq
    obtain ⟨-, hlast⟩ := List.append_inj' heq rfl
    cases List.singleton_inj.mp hlast
  case steady =>
    rw [hthere]
    refine hu.steady.trans (hdisk ▸ ⟨fun _ hfalse => absurd hfalse id, fun q hq _ => ?_, links⟩)
    rw [saveChange, Disk.find?_apply_of_ne, hq]
    rintro rfl
    exact free hq

theorem tell {m : BusMessage} (hu : Snapshot store a w new es (es ++ [e]) r)
    (announcement : e.announcement? a.job = some m) (reflected : m.ReflectedIn r) :
    Snapshot store a w (new ++ [.published a.job.targetKey m]) (es ++ [e]) (es ++ [e]) r := by
  have hthere : w.diskAfter (new ++ [.published a.job.targetKey m]) = w.diskAfter new := by
    rw [World.diskAfter_append]
    rfl
  have hannounces : m.isAnnouncement = true := by
    cases e with
    | startStage s => cases announcement
    | stageChanged s st =>
      obtain rfl := Option.some.inj announcement
      rfl
    | finish o oom detail =>
      obtain rfl := Option.some.inj announcement
      rfl
  constructor
  case file =>
    rw [hthere]
    exact hu.file
  case follows => exact hu.follows
  case saves =>
    rw [savesOf_append, List.length_append, hu.saves]
    simp [savesOf, changesIn]
  case told =>
    rw [announcedOn_append, hu.told, List.filterMap_append]
    simp [announcedOn, messagesOn, hannounces, announcement]
  case ahead => exact .inl rfl
  case reflected =>
    intro earlier m' heq
    obtain ⟨-, hlast⟩ := List.append_inj' heq rfl
    obtain ⟨-, rfl⟩ := Occurrence.published.inj (List.singleton_inj.mp hlast)
    exact reflected
  case steady =>
    rw [hthere]
    exact hu.steady

end Snapshot

namespace Points

/-- One more occurrence. -/
theorem concat {seen' done' : List Effect} {r' : JobRecord} {o : Occurrence}
    (hu : Points store a w u seen done r) (hcwd : v.cwd = u.cwd) (hjournal : v.journal = u.journal ++ [o])
    (hdisk : v.disk = w.diskAfter (w.since u ++ [o])) (hdone : done <+: done')
    (hlast : Snapshot store a w (w.since u ++ [o]) seen' done' r') : Points store a w v seen' done' r' := by
  have hsince : w.since v = w.since u ++ [o] :=
    World.since_eq (by rw [hjournal, hu.journal, List.append_assoc])
  refine ⟨hcwd.trans hu.cwd, ?_, hsince ▸ hdisk, hsince ▸ hlast, fun past hpast => ?_⟩
  · rw [hsince, hjournal, hu.journal, List.append_assoc]
  · rw [hsince] at hpast
    rcases List.prefix_concat_iff.mp hpast with rfl | hpast
    · exact ⟨seen', done', r', List.prefix_refl _, hlast⟩
    · obtain ⟨s, d, r'', hd, hthere⟩ := hu.points past hpast
      exact ⟨s, d, r'', hd.trans hdone, hthere⟩

end Points

/-- **At every point** there is the record of a first part of the effects, of which all were told but
for the last. -/
theorem Account.points (hu : Account store a w u seen done r) : Points store a w u seen done r := by
  induction hu with
  | start dated file =>
    have hnone : w.since w = [] := World.since_eq (List.append_nil _).symm
    refine ⟨rfl, by rw [hnone, List.append_nil], by rw [hnone]; rfl, ?_, fun past hpast => ?_⟩
    · rw [hnone]
      exact .start dated file
    · rw [hnone] at hpast
      rw [List.prefix_nil.mp hpast]
      exact ⟨[], [], a.record, List.prefix_refl _, .start dated file⟩
  | quiet before spared hushed ih =>
    obtain ⟨later, hjournal, hdisk, -⟩ := spared.points.journal
    have hlater := World.since_eq hjournal
    have hsince : w.since _ = w.since _ ++ later :=
      World.since_eq (by rw [hjournal, ih.journal, List.append_assoc])
    refine ⟨spared.points.cwd.trans ih.cwd, ?_, ?_, ?_, fun past hpast => ?_⟩
    · rw [hsince, hjournal, ih.journal, List.append_assoc]
    · rw [hsince, World.diskAfter_append, ← ih.disk]
      exact hdisk
    · rw [hsince]
      exact ih.whole.quiet ih.disk spared hushed (hlater ▸ List.prefix_refl _)
    · rw [hsince] at hpast
      rcases prefix_append_cases hpast with hpast | ⟨more, rfl, hmore⟩
      · exact ih.points past hpast
      · exact ⟨_, _, _, List.prefix_refl _, ih.whole.quiet ih.disk spared hushed (hlater ▸ hmore)⟩
  | skip before edit announcement ih =>
    refine ⟨ih.cwd, ih.journal, ih.disk, ih.whole.skip edit announcement, fun past hpast => ?_⟩
    obtain ⟨s, d, r', hd, hthere⟩ := ih.points past hpast
    exact ⟨s, d, r', hd.trans (List.prefix_append _ _), hthere⟩
  | save before edit dated free links ih =>
    refine ih.concat rfl rfl ?_ (List.prefix_append _ _) (ih.whole.save ih.disk edit dated free links)
    rw [World.diskAfter_append, ← ih.disk]
    rfl
  | tell before announcement reflected ih =>
    refine ih.concat rfl rfl ?_ (List.prefix_refl _) (ih.whole.tell announcement reflected)
    rw [World.diskAfter_append, ← ih.disk]
    rfl

end Decompile
