import Decompile.Proofs.Durability.Account
import Decompile.Proofs.Protocol.Bus
import Decompile.Proofs.Record.Storage
import Decompile.Proofs.Session

/-!
# The saving of a record, and of other ones

- `saveFailed`, `AllSaved`: no record of a target failed to be stored.
- `Saving`: what a record that was saved leaves as it is, and what it leaves behind.
- `Engine.Elsewhere`: an engine goes on without taking up or running jobs of some keys.
- `Elsewhere.undisturbed`: the records of these keys are spared, and nothing is announced about them.
-/

namespace Decompile

/-! ## A record that is saved -/

section

variable {h : Host} {store : Place} {w u m v : World}

/-- The complaint about a record that could not be stored. -/
def saveFailed (l : Layout) (e : PersistError) : LogRecord :=
  ⟨.error, Engine.logTarget, "Failed to save job record in " ++ Text.quote .plain l.root.text ++ ": "
    ++ e.message⟩

/-- Between two worlds no record of a target failed to be stored. -/
def AllSaved (l : Layout) (u v : World) : Prop := ∀ e, .logged (saveFailed l e) ∉ u.since v

/-- What is true between two worlds is true of both parts. -/
theorem AllSaved.parts {l : Layout} (hs : AllSaved l u v) (hum : ∃ new, m.journal = u.journal ++ new)
    (hmv : ∃ new, v.journal = m.journal ++ new) : AllSaved l u m ∧ AllSaved l m v := by
  obtain ⟨first, hfirst⟩ := hum
  obtain ⟨later, hlater⟩ := hmv
  have hsince : u.since v = first ++ later :=
    World.since_eq (by rw [hlater, hfirst, List.append_assoc])
  constructor
  · intro e he
    rw [World.since_eq hfirst] at he
    exact hs e (hsince ▸ List.mem_append_left _ he)
  · intro e he
    rw [World.since_eq hlater] at he
    exact hs e (hsince ▸ List.mem_append_right _ he)

theorem Told.grows {key : String} {ms : List BusMessage} (ht : Told h key ms u v) :
    ∃ new, v.journal = u.journal ++ new := by
  obtain ⟨new, hjournal, -⟩ := ht.journal
  exact ⟨new, hjournal⟩

/-- Where only progress is told, nothing is announced. -/
theorem Told.hushed {key : String} {ms : List BusMessage} (ht : Told h key ms u v)
    (hms : ∀ m ∈ ms, m.isAnnouncement = false) : announcedOn key (u.since v) = [] := by
  obtain ⟨new, hjournal, hpublished⟩ := ht.journal
  rw [World.since_eq hjournal, announcedOn, World.messagesOn_of_publishedIn hpublished]
  exact List.filter_eq_nil_iff.mpr fun m hm => by simp [hms m hm]

/-- What is told on another key is nothing on this one. -/
theorem Told.hushed_of_ne {key other : String} {ms : List BusMessage} (ht : Told h other ms u v)
    (hne : key ≠ other) : announcedOn key (u.since v) = [] := by
  obtain ⟨new, hjournal, hpublished⟩ := ht.journal
  rw [World.since_eq hjournal, announcedOn, World.messagesOn_of_ne hpublished hne]
  rfl

/-- A record that was saved was moved to its name in one step, the last of all. -/
theorem JobRecord.save_steps {l : Layout} {r : JobRecord} (hsave : (r.save h l).Succeeds u () v) :
    ∃ m₁ m c, (World.ensureDirectory h l.root).Succeeds u () m₁ ∧ (World.access h).Succeeds m₁ () m ∧
      m.disk.planReplace m.cwd (l.root.join ⟨recordName⟩) (Text.encode r.render) = .ok c ∧
      v = ((World.change c).run m).2 := by
  unfold save World.store at hsave
  obtain ⟨_, _, hstore, hrun⟩ := hsave.bind
  obtain ⟨-, rfl⟩ := hrun.pure
  obtain ⟨_, m₁, hensure, hrun⟩ := hstore.bind
  obtain ⟨_, _, hreplace, hrun⟩ := hrun.bind
  obtain ⟨-, rfl⟩ := hrun.pure
  obtain ⟨_, m, haccess, hplan⟩ := hreplace.mapError.bind
  obtain ⟨c, _, hc, hchange⟩ := hplan.bind
  obtain ⟨hc, rfl⟩ := World.plan_succeeds hc
  obtain ⟨-, rfl⟩ := Prod.mk.inj hchange
  exact ⟨m₁, _, c, hensure, haccess, hc, rfl⟩

/-- The record of a target is saved: up to the last step everything is as it was, and then the record is
there. -/
structure Saving (h : Host) (store : Place) (l : Layout) (own : String) (r : JobRecord) (u m v : World) :
    Prop where
  guarded : Guarded h.settings.storage store (fun _ => True) u m
  idle : m.monitor = none
  told : ∀ key, Told h key [] u m
  free : m.disk.find? (recordPlace store own) ≠ some .directory
  links : m.disk.SameLinks (m.disk.apply (saveChange store own r))
  moved : v = ((World.change (saveChange store own r)).run m).2
  stored : Stored h.settings.storage store v
  found : v.disk.locate v.cwd true (l.root.join ⟨recordName⟩) = .ok (recordPlace store own, .plain)

/-- **The saving of a record** touches nothing but the record. -/
theorem JobRecord.save_saving {own : String} {l : Layout} {r : JobRecord}
    (hroot : h.settings.storage.Behind ["sources", own] l.root)
    (hu : Stored h.settings.storage store u) (hidle : u.monitor = none)
    (hsave : (r.save h l).Succeeds u () v) : ∃ m, Saving h store l own r u m v := by
  obtain ⟨m₁, m, c, hensure, haccess, hplan, rfl⟩ := save_steps hsave
  have T : Twins h h (Alone (Guarded h.settings.storage store (fun _ => True) u)) _ _ := twins_apart
  have hg₁ := hensure ▸ Alone.keeps (T.ensureDirectory (p := l.root) trivial).settle (.refl hu)
  have hg := haccess ▸ Alone.keeps T.access.settle hg₁
  have hs₁ := (hensure.keeps (World.ensureDirectory_moves l.root)).silent hidle
  have hs := (haccess.keeps World.access_moves).silent hs₁.1
  have hlands : m.disk.Lands m.cwd (l.root.join ⟨recordName⟩) (recordPlace store own) := by
    have hlands := hg.stored.lands hroot (.ofChild (n := recordName) (by decide))
    rwa [List.append_assoc] at hlands
  obtain ⟨rfl, -⟩ := hlands.planReplace hplan
  obtain ⟨_, heq, hlocate, hfree⟩ := Disk.planReplace_ok hplan
  cases heq
  have hlinks : m.disk.SameLinks (m.disk.apply (saveChange store own r)) :=
    Disk.sameLinks_apply hlands.linkless fun _ _ heq => by cases heq
  exact ⟨m, {
    guarded := hg
    idle := hs.1
    told := fun key => (hs₁.2 key).append (hs.2 key)
    free := hfree
    links := hlinks
    moved := rfl
    stored := hg.stored.change hlinks (Disk.names_locate hg.stored.cwd hlocate)
    found := (Disk.fileAt_replace hfree hlands.linkless _).locate hlocate true }⟩

/-- Where links are the same, the same paths are to be avoided. -/
theorem Host.Avoids.of_sameLinks {ks : String → Prop} (ha : h.Avoids store ks w) (hcwd : u.cwd = w.cwd)
    (hlinks : w.disk.SameLinks u.disk) : h.Avoids store ks u where
  writes past d i p bytes hp d' hd q e hq :=
    ha.writes past d i p bytes hp d' (hlinks.trans hd) q e (hcwd ▸ hq)
  submits := ha.submits

end

/-! ## Records that are not touched -/

variable {h : Host} {store : Place} {ks : String → Prop} {w u v : World}

/-- An engine at rest has spared the records of some keys since a world, and announced nothing about
them. -/
structure Undisturbed (h : Host) (store : Place) (ks : String → Prop) (w u : World) : Prop where
  guarded : Guarded h.settings.storage store ks w u
  rest : AtRest h u
  hushed : ∀ key, ks key → announcedOn key (w.since u) = []

namespace Undisturbed

theorem refl (hw : Stored h.settings.storage store w) (hrest : AtRest h w) : Undisturbed h store ks w w where
  guarded := .refl hw
  rest := hrest
  hushed key _ := by
    rw [World.since_eq (List.append_nil _).symm]
    rfl

/-- The next step tells of a job that is none of these. -/
theorem told (hu : Undisturbed h store ks w u) (hv : Guarded h.settings.storage store ks w v)
    {own : String} {ms : List BusMessage} (htold : Told h own ms u v) (hidle : v.monitor = none)
    (hown : ∀ key, ks key → key ≠ own ∨ ms = []) : Undisturbed h store ks w v where
  guarded := hv
  rest := hu.rest.of_told htold hidle
  hushed key hkey := by
    obtain ⟨new, hjournal, hpublished⟩ := htold.journal
    obtain ⟨past, hpast, -⟩ := hu.guarded.spared.points.journal
    have hsince : w.since v = w.since u ++ u.since v := by
      rw [World.since_eq hpast, World.since_eq hjournal]
      exact World.since_eq (by rw [hjournal, hpast, List.append_assoc])
    rw [hsince, announcedOn_append, hu.hushed key hkey, List.nil_append]
    rcases hown key hkey with hne | rfl
    · exact htold.hushed_of_ne hne
    · rw [World.since_eq hjournal, announcedOn, World.messagesOn_eq, hpublished]
      rfl

/-- The next step is silent. -/
theorem silent (hu : Undisturbed h store ks w u) (hv : Guarded h.settings.storage store ks w v)
    (hsilent : Silent h u v) : Undisturbed h store ks w v :=
  hu.told hv ((hsilent hu.rest.idle).2 "") (hsilent hu.rest.idle).1 fun _ _ => .inr rfl

/-- Listeners come and go. -/
theorem listeners (hu : Undisturbed h store ks w u) (bus : Bus) : Undisturbed h store ks w { u with bus := bus } where
  guarded := hu.guarded.sameDisk ⟨rfl, rfl, [], (List.append_nil _).symm, rfl⟩
  rest := ⟨hu.rest.idle, hu.rest.planned⟩
  hushed := hu.hushed

/-- A job leaves the queue. -/
theorem less (hu : Undisturbed h store ks w u) {before after : List Accepted} {b : Accepted}
    (waits : u.waiting = before ++ b :: after) :
    Undisturbed h store ks w { u with waiting := before ++ after } where
  guarded := hu.guarded.sameDisk ⟨rfl, rfl, [], (List.append_nil _).symm, rfl⟩
  rest := by
    refine ⟨hu.rest.idle, fun c hc => hu.rest.planned c ?_⟩
    rw [waits]
    exact (List.sublist_cons_self b after).append_left before |>.subset hc
  hushed := hu.hushed

end Undisturbed

namespace Engine

/-- An engine goes on without taking up or running jobs of some keys: requests of others are submitted,
others' jobs that wait run one after another in any order, jobs are asked to stop, listeners come, take
their messages and leave, and time passes. -/
inductive Elsewhere (h : Host) (ks : String → Prop) (w : World) : World → Prop where
  | refl : Elsewhere h ks w w
  | submit {u : World} (hu : Elsewhere h ks w u) (s : Submission) (other : ¬ ks s.targetKey) :
    Elsewhere h ks w ((submit h s).settle.run u).2
  | run {u : World} (hu : Elsewhere h ks w u) {before after : List Accepted} {b : Accepted}
    (waits : u.waiting = before ++ b :: after) (other : ¬ ks b.job.targetKey) :
    Elsewhere h ks w ((runJob h b).run { u with waiting := before ++ after }).2
  | cancel {u : World} (hu : Elsewhere h ks w u) (key : String) :
    Elsewhere h ks w ((cancelJob key).run u).2
  | subscribe {u : World} (hu : Elsewhere h ks w u) (key : String) :
    Elsewhere h ks w ((World.subscribe key).run u).2
  | drain {u : World} (hu : Elsewhere h ks w u) (id : Nat) :
    Elsewhere h ks w ((World.drain id).run u).2
  | unsubscribe {u : World} (hu : Elsewhere h ks w u) (id : Nat) :
    Elsewhere h ks w ((World.unsubscribe id).run u).2
  | pass {u : World} (hu : Elsewhere h ks w u) : Elsewhere h ks w ((World.pause h).run u).2

/-- **An engine that goes on elsewhere** spares the records of these keys, and announces nothing about
them. -/
theorem Elsewhere.undisturbed (hw : Stored h.settings.storage store w) (hrest : AtRest h w)
    (ha : h.Avoids store ks w) (hu : Elsewhere h ks w u) : Undisturbed h store ks w u := by
  induction hu with
  | refl => exact .refl hw hrest
  | submit _ s other ih =>
    exact ih.silent (submit_guarded hw other ih.guarded) (submit_silent s _)
  | @run u _ before after b waits other ih =>
    have hplanned := ih.rest.planned b (by simp [waits])
    have hless := ih.less waits
    obtain ⟨ms, -, hidle, htold⟩ := runJob_tells (h := h) hplanned.positional
      { u with waiting := before ++ after } hless.rest.idle
    exact hless.told (runJob_guarded hw ha hplanned other hless.guarded) htold hidle
      fun key hkey => .inl fun heq => other (heq ▸ hkey)
  | @cancel u _ key ih =>
    exact ih.silent (ih.guarded.sameDisk ((World.cancel_still key).sameDisk u)) (cancelJob_silent key u)
  | subscribe _ key ih => exact ih.listeners _
  | drain _ id ih => exact ih.listeners _
  | unsubscribe _ id ih => exact ih.listeners _
  | pass _ ih =>
    exact ih.silent (ih.guarded.sameDisk (World.pause_still.sameDisk _)) (World.pause_moves _).silent

end Engine

end Decompile
