import Decompile.Proofs.Cancellation.Run
import Decompile.Proofs.Durability.Mirror
import Decompile.Proofs.Refusal.Law
import Decompile.Proofs.Resume.Tree
import Decompile.Proofs.Unpacking.Calm

/-!
# Requests for records that are there

Where a request has a record already, saving the record of its job is one replacement, so what the
request comes to is decided by its plan, by the holders of its key, and by the fault of one moment.

- `Houses.run_save`: saving over a record.
- `Engine.submit_turn`: a request for a record is taken on, or turned down with nothing left of it.
- `Engine.resubmitAll_resubmitted`: the requests of many records, one after another; `turns` are the
  worlds that they are submitted in.
-/

namespace Decompile

variable {h : Host} {store : Place} {ks : String → Prop} {rs : List JobRecord} {u v w : World}
  {r : JobRecord} {s : Submission} {key : String} {bytes : Bytes}

/-! ## Saving over a record -/

/-- A path below another one is written with all letters of both. -/
theorem FilePath.mem_join_text {p q : FilePath} {c : Char} (hq : q.isAbsolute = false)
    (hc : c ∈ p.text.toList ∨ c ∈ q.text.toList) : c ∈ (p.join q).text.toList := by
  unfold join
  rw [hq, Bool.false_or]
  split
  · next hempty =>
    rw [String.isEmpty_iff.mp hempty] at hc
    exact hc.resolve_left List.not_mem_nil
  · split
    · rw [String.toList_append]
      exact List.mem_append.mpr hc
    · rw [String.toList_append, String.toList_append, List.append_assoc]
      exact List.mem_append.mpr (hc.imp_right (List.mem_append_right _))

/-- The key of a record that can be looked up is without zero bytes. -/
theorem Findable.clean {storage : FilePath} (hf : Findable storage key) : '\x00' ∉ key.toList := by
  intro hmem
  have hroot : '\x00' ∈ (Layout.of storage key).root.text.toList :=
    FilePath.mem_join_text (FilePath.isAbsolute_of_isEntryName hf.named) (.inr hmem)
  have hrecord : '\x00' ∈ (recordPath storage key).text.toList :=
    FilePath.mem_join_text (by decide) (.inl hroot)
  have hnul := hf.nul
  rw [List.contains_iff_mem.mpr hrecord] at hnul
  cases hnul

section

variable (hu : Stored h.settings.storage store u) (hopen : Open h.settings.storage store u)
  (hh : Houses h.settings.storage store u key bytes)
include hopen hh

/-- The directory of a record is there. -/
theorem Houses.entryAt : u.disk.entryAt u.cwd true (Layout.of h.settings.storage key).root =
    .ok (store ++ ["sources"] ++ [key], .directory) := by
  have hlocate := Disk.locate_name (hopen u.disk (.refl u.disk)) hh.findable.named hh.findable.short
    hh.findable.clean (fun t heq => by rw [hh.home] at heq; cases heq) true
  exact Disk.entryAt_eq hlocate hh.home fun hfile => by cases hfile

/-- A record is put in place of the one that is there. -/
theorem Houses.planReplace (contents : Bytes) :
    u.disk.planReplace u.cwd (recordPath h.settings.storage key) contents =
      .ok (.replace (recordPlace store key) contents) := by
  obtain ⟨x, hfile⟩ := hh.file
  rw [recordPlace_eq] at hfile
  have hlocate := Disk.locate_name (hh.entryAt hopen) (n := recordName) (by decide) (by decide) (by decide)
    (fun t heq => by rw [hfile] at heq; cases heq) false
  rw [Disk.planReplace, recordPath, hlocate]
  simp only [hfile, recordPlace_eq]

end

/-- A record is replaced at once, if the operation meets no fault. -/
theorem Houses.run_replaceFile (hopen : Open h.settings.storage store u)
    (hh : Houses h.settings.storage store u key bytes) (contents : Bytes) :
    (World.replaceFile h (recordPath h.settings.storage key) contents).settle.run u =
      match h.fault (u.clock + 1) with
      | some e => (.error e, ((World.pause h).run u).2)
      | none => (.ok (), ((World.change (.replace (recordPlace store key) contents)).run
          ((World.pause h).run u).2).2) := by
  have hpause := World.pause_still (h := h) u
  unfold World.replaceFile
  rw [Try.run_settle_bind, World.run_access]
  cases h.fault (u.clock + 1) with
  | some e => rfl
  | none =>
    show (do World.change (← World.plan fun d cwd => d.planReplace cwd
      (recordPath h.settings.storage key) contents) : Try IoError Unit).settle.run
        ((World.pause h).run u).2 = _
    rw [Try.run_settle_bind, World.run_plan, hpause.disk, hpause.cwd, hh.planReplace hopen]
    rfl

/-- **Saving over a record** replaces it at once, if the operation meets no fault. -/
theorem Houses.run_save (hopen : Open h.settings.storage store u)
    (hh : Houses h.settings.storage store u key bytes) (r : JobRecord) :
    (r.save h (.of h.settings.storage key)).settle.run u =
      match h.fault (u.clock + 1) with
      | some e => (.error (.io e), ((World.pause h).run u).2)
      | none => (.ok (), ((World.change (saveChange store key r)).run ((World.pause h).run u).2).2) := by
  have hensure : (World.ensureDirectory h (Layout.of h.settings.storage key).root).settle.run u =
      (.ok (), u) := by
    have hdirectory : ((World.isDirectory (Layout.of h.settings.storage key).root).run u).1 = true := by
      show u.disk.isDirectory u.cwd _ = true
      rw [Disk.isDirectory, hh.entryAt hopen]
    have hexists : ((World.pathExists (Layout.of h.settings.storage key).root).run u).1 = true := by
      show u.disk.exists? u.cwd _ = true
      rw [Disk.exists?, hh.entryAt hopen]
      rfl
    unfold World.ensureDirectory
    rw [Try.run_settle_lift_bind, hexists, if_pos rfl, Try.run_settle_lift_bind]
    rw [show ((World.isDirectory _).run ((World.pathExists _).run u).2).1 = true from hdirectory]
    rfl
  have hreplace := hh.run_replaceFile hopen (Text.encode r.render)
  unfold JobRecord.save World.store
  rw [Try.run_settle_bind, Try.run_settle_bind, hensure]
  dsimp only
  rw [Try.run_settle_bind, Try.run_settle_mapError]
  rw [show (Layout.of h.settings.storage key).root.join ⟨recordName⟩ = recordPath h.settings.storage key
    from rfl, hreplace]
  cases h.fault (u.clock + 1) <;> rfl

/-- A record that was saved over another one has met no fault. -/
theorem Houses.of_saved (hopen : Open h.settings.storage store u)
    (hh : Houses h.settings.storage store u key bytes)
    (hsave : (r.save h (.of h.settings.storage key)).Succeeds u () v) :
    h.fault (u.clock + 1) = none ∧ v.disk = u.disk.apply (saveChange store key r) := by
  rw [Try.Succeeds, hh.run_save hopen] at hsave
  cases hfault : h.fault (u.clock + 1) with
  | some d =>
    rw [hfault] at hsave
    cases (Prod.mk.inj hsave).1
  | none =>
    rw [hfault] at hsave
    refine ⟨rfl, ?_⟩
    rw [← (Prod.mk.inj hsave).2, ← (World.pause_still (h := h) u).disk]
    rfl

/-- A record that was not saved over another one has met a fault, and has changed no file. -/
theorem Houses.of_unsaved (hopen : Open h.settings.storage store u)
    (hh : Houses h.settings.storage store u key bytes) {e : PersistError}
    (hsave : (r.save h (.of h.settings.storage key)).Fails u e v) :
    h.fault (u.clock + 1) ≠ none ∧ SameDisk u v := by
  rw [Try.Fails, hh.run_save hopen] at hsave
  cases hfault : h.fault (u.clock + 1) with
  | none =>
    rw [hfault] at hsave
    cases (Prod.mk.inj hsave).1
  | some d =>
    rw [hfault] at hsave
    refine ⟨Option.some_ne_none d, ?_⟩
    rw [← (Prod.mk.inj hsave).2]
    exact World.pause_still.sameDisk _

/-- One stretch after another. -/
theorem Undisturbed.trans (hu : Undisturbed h store ks u v) (hv : Undisturbed h store ks v w) :
    Undisturbed h store ks u w where
  guarded := ⟨hv.guarded.stored, hu.guarded.spared.trans hv.guarded.spared⟩
  rest := hv.rest
  hushed key hkey := by
    rw [hu.guarded.spared.points.since_append hv.guarded.spared.points, announcedOn_append,
      hu.hushed key hkey, hv.hushed key hkey]
    rfl

/-! ## One request -/

namespace Engine

/-- The request is planned, and the record of its job can be saved. -/
def Savable (h : Host) (s : Submission) (w : World) : Prop :=
  ∃ job v, Job.plan s h.catalog.has = .ok job ∧
    ((JobRecord.new job (h.time w.clock)).save h (.of h.settings.storage job.targetKey)).Succeeds w () v

/-- What is left by a request that was taken on for a record. -/
structure TakenOn (h : Host) (store : Place) (s : Submission) (u v : World) : Prop where
  job : ∃ a, a.job.targetKey = s.targetKey ∧ v.waiting = u.waiting ++ [a] ∧ Recorded h store a v
  others : ∀ q, q ≠ recordPlace store s.targetKey → v.disk.find? q = u.disk.find? q
  holders : ∀ key, key ≠ s.targetKey → v.registry.holder? key = u.registry.holder? key
  undisturbed : ∀ ks : String → Prop, ¬ ks s.targetKey → Undisturbed h store ks u v

/-- What is left by a request that was turned down for a record. -/
structure TurnedDown (h : Host) (store : Place) (u v : World) : Prop where
  files : v.disk = u.disk
  waiting : v.waiting = u.waiting
  holders : v.registry.holders = u.registry.holders
  undisturbed : ∀ ks, Undisturbed h store ks u v

section

variable (hu : Stored h.settings.storage store u) (hopen : Open h.settings.storage store u)
  (hh : Houses h.settings.storage store u s.targetKey bytes)
include hopen hh

/-- The record of a request can be saved if it is planned and the saving meets no fault. -/
theorem savable_iff : Savable h s u ↔
    (∃ job, Job.plan s h.catalog.has = .ok job) ∧ h.fault (u.clock + 1) = none := by
  constructor
  · rintro ⟨job, v, plan, hsave⟩
    rw [Job.targetKey_of_plan plan] at hsave
    exact ⟨⟨job, plan⟩, (hh.of_saved hopen hsave).1⟩
  · rintro ⟨⟨job, plan⟩, hfault⟩
    refine ⟨job, ((World.change (saveChange store s.targetKey (.new job (h.time u.clock)))).run
      ((World.pause h).run u).2).2, plan, ?_⟩
    rw [Job.targetKey_of_plan plan, Try.Succeeds, hh.run_save hopen, hfault]

include hu

/-- What a request leaves behind whose record could not be saved. -/
theorem turnedDown_of_unsaved (hrest : AtRest h u) {job : Job} {ticket : Nat} {registry : Registry}
    (claimed : u.registry.claim s.targetKey = some (ticket, registry)) {e : PersistError} {m : World}
    (hsave : ((JobRecord.new job (h.time u.clock)).save h (.of h.settings.storage s.targetKey)).Fails
      { u with registry, journal := u.journal ++ [.claimed s.targetKey ticket] } e m)
    (hsilent : Silent h u { m with
      registry := m.registry.release s.targetKey ticket
      journal := m.journal ++ [.released s.targetKey ticket] }) :
    ¬ Savable h s u ∧ TurnedDown h store u { m with
      registry := m.registry.release s.targetKey ticket
      journal := m.journal ++ [.released s.targetKey ticket] } := by
  have hcalm : Calm { u with registry, journal := u.journal ++ [.claimed s.targetKey ticket] } m :=
    (Try.Keeps.of_run (JobRecord.save_moves _ _) hsave).calm
  have hclaimed : SameDisk u { u with registry, journal := u.journal ++ [.claimed s.targetKey ticket] } :=
    .of_note (o := .claimed s.targetKey ticket) rfl rfl rfl rfl
  have hreleased : SameDisk m { m with
      registry := m.registry.release s.targetKey ticket
      journal := m.journal ++ [.released s.targetKey ticket] } :=
    .of_note (o := .released s.targetKey ticket) rfl rfl rfl rfl
  obtain ⟨hfault, hsame⟩ := Houses.of_unsaved
    (u := { u with registry, journal := u.journal ++ [.claimed s.targetKey ticket] }) hopen
    ⟨hh.findable, hh.home, hh.file⟩ hsave
  refine ⟨fun hsavable => hfault ((savable_iff hopen hh).mp hsavable).2, ?_⟩
  constructor
  case files => exact hsame.disk
  case waiting => exact hcalm.waiting
  case holders => exact (LeftAlone.of_claim claimed hcalm).active
  case undisturbed =>
    intro ks
    have hlast : Guarded h.settings.storage store ks u _ :=
      (((Guarded.refl hu).sameDisk hclaimed).sameDisk hsame).sameDisk hreleased
    exact (Undisturbed.refl hu hrest).silent hlast hsilent

/-- What a request leaves behind whose record was saved. -/
theorem takenOn_of_saved (hclock : ∀ n, (h.time n).Dated) (hrest : AtRest h u) {job : Job} {ticket : Nat}
    {registry : Registry} (plan : Job.plan s h.catalog.has = .ok job)
    (claimed : u.registry.claim s.targetKey = some (ticket, registry)) {m : World}
    (hsave : ((JobRecord.new job (h.time u.clock)).save h (.of h.settings.storage s.targetKey)).Succeeds
      { u with registry, journal := u.journal ++ [.claimed s.targetKey ticket] } () m)
    {said : LogRecord} (hrun : (submit h s).Succeeds u () { m with
      journal := m.journal ++ [.logged said]
      waiting := m.waiting ++ [⟨job, .new job (h.time u.clock), ticket⟩] }) :
    Savable h s u ∧ TakenOn h store s u { m with
      journal := m.journal ++ [.logged said]
      waiting := m.waiting ++ [⟨job, .new job (h.time u.clock), ticket⟩] } := by
  have hcalm : Calm { u with registry, journal := u.journal ++ [.claimed s.targetKey ticket] } m :=
    (Try.Keeps.of_run (JobRecord.save_moves _ _) hsave).calm
  obtain ⟨hfault, hdisk⟩ := Houses.of_saved
    (u := { u with registry, journal := u.journal ++ [.claimed s.targetKey ticket] }) hopen
    ⟨hh.findable, hh.home, hh.file⟩ hsave
  refine ⟨(savable_iff hopen hh).mpr ⟨⟨job, plan⟩, hfault⟩, ?_⟩
  constructor
  case job =>
    have hlast : m.waiting ++ [⟨job, .new job (h.time u.clock), ticket⟩] =
        u.waiting ++ [⟨job, .new job (h.time u.clock), ticket⟩] := by
      rw [hcalm.waiting]
    exact ⟨_, Job.targetKey_of_plan plan, hlast, submit_recorded hclock hu hrest hrun hlast⟩
  case others =>
    intro q hq
    show m.disk.find? q = _
    rw [hdisk]
    exact Disk.find?_apply_of_ne _ _ hq
  case holders =>
    intro key hne
    show m.registry.holder? key = _
    rw [hcalm.alike.holder?, Registry.holder?_of_claim claimed, if_neg hne]
  case undisturbed =>
    intro ks hks
    have hguarded := submit_guarded (h := h) hu hks (.refl hu)
    have hsilent := submit_silent (h := h) s u
    rw [show (submit h s).settle.run u = _ from hrun] at hguarded hsilent
    exact (Undisturbed.refl hu hrest).silent hguarded hsilent

/-- **A request for a record** is taken on if its record can be saved and its key is free. -/
theorem submit_turn (hclock : ∀ n, (h.time n).Dated) (hrest : AtRest h u) :
    (Savable h s u ∧ u.registry.holder? s.targetKey = none ∧
      ∃ v, (submit h s).Succeeds u () v ∧ TakenOn h store s u v) ∨
    (¬ (Savable h s u ∧ u.registry.holder? s.targetKey = none) ∧
      ∃ e v, (submit h s).Fails u e v ∧ TurnedDown h store u v) := by
  have hsubmitted := submit_submitted (h := h) s u
  have hsilent := submit_silent (h := h) s u
  have hnothing : TurnedDown h store u u := ⟨rfl, rfl, rfl, fun ks => .refl hu hrest⟩
  rcases hrun : (submit h s).settle.run u with ⟨result, v⟩
  rw [hrun] at hsubmitted hsilent
  cases hsubmitted with
  | refused plan =>
    refine .inr ⟨?_, _, v, hrun, hnothing⟩
    rintro ⟨⟨job, -, plan', -⟩, -⟩
    rw [plan] at plan'
    cases plan'
  | active plan held =>
    refine .inr ⟨fun hboth => ?_, _, v, hrun, hnothing⟩
    rw [Job.targetKey_of_plan plan, Registry.claim_eq_none] at held
    obtain ⟨t, ht⟩ := held
    rw [hboth.2] at ht
    cases ht
  | unsaved plan claimed save =>
    rw [Job.targetKey_of_plan plan] at claimed save hrun hsilent
    obtain ⟨hnot, hdown⟩ := turnedDown_of_unsaved hu hopen hh hrest claimed save hsilent
    exact .inr ⟨fun hboth => hnot hboth.1, _, _, hrun, hdown⟩
  | accepted plan claimed save said =>
    rw [Job.targetKey_of_plan plan] at claimed save
    obtain ⟨hsavable, htaken⟩ := takenOn_of_saved hu hopen hh hclock hrest plan claimed save hrun
    exact .inl ⟨hsavable, (Registry.claim_spec claimed).1, _, hrun, htaken⟩

end

/-! ## One request after another -/

/-- The records whose requests are submitted again, each with the world in which its turn comes. -/
def turns (h : Host) : List JobRecord → World → List (JobRecord × World)
  | [], _ => []
  | r :: rs, w => (r, w) :: turns h rs ((resubmitAll h [r]).run w).2

theorem map_fst_turns (rs : List JobRecord) (w : World) : (turns h rs w).map Prod.fst = rs := by
  induction rs generalizing w with
  | nil => rfl
  | cons r rs ih => rw [turns, List.map_cons, ih]

theorem run_resubmitAll_one (r : JobRecord) (w : World) : (resubmitAll h [r]).run w =
    match (submit h r.submission).settle.run w with
    | (.ok (), v) => ([r.submission.targetKey], v)
    | (.error e, v) => ([], ((World.log .warn logTarget ("Could not resume " ++ r.submission.targetKey ++
        ": " ++ e.message)).run v).2) := by
  unfold resubmitAll
  rw [Act.run_bind]
  rcases (submit h r.submission).settle.run w with ⟨e | ⟨⟩, v⟩
  · rfl
  · rfl

/-- Records come one after another. -/
theorem run_resubmitAll_cons (r : JobRecord) (rs : List JobRecord) (w : World) :
    (resubmitAll h (r :: rs)).run w =
      (((resubmitAll h [r]).run w).1 ++ ((resubmitAll h rs).run ((resubmitAll h [r]).run w).2).1,
        ((resubmitAll h rs).run ((resubmitAll h [r]).run w).2).2) := by
  rw [run_resubmitAll_one, resubmitAll]
  simp only [Act.run_bind]
  rcases (submit h r.submission).settle.run w with ⟨e | ⟨⟩, v⟩
  · rfl
  · rfl

/-- The records of a list are in their places, to be submitted again. -/
structure Poised (h : Host) (store : Place) (rs : List JobRecord) (u : World) : Prop where
  stored : Stored h.settings.storage store u
  opened : Open h.settings.storage store u
  rest : AtRest h u
  housed : ∀ r ∈ rs, ∃ bytes, Houses h.settings.storage store u r.submission.targetKey bytes
  distinct : rs.Pairwise fun a b => a.submission.targetKey ≠ b.submission.targetKey

/-- A job that was taken on for a record, some time ago. -/
def Resumed (h : Host) (store : Place) (u v : World) (a : Accepted) : Prop :=
  ∃ m, Undisturbed h store (fun _ => False) u m ∧ Recorded h store a m ∧
    Undisturbed h store (· = a.job.targetKey) m v

/-- What is left when the requests of some records were submitted again, of which those of `keys` were
taken on. -/
structure Resubmitted (h : Host) (store : Place) (rs : List JobRecord) (u : World) (keys : List String)
    (v : World) : Prop where
  sublist : keys.Sublist (rs.map fun r => r.submission.targetKey)
  exact : ∀ r m, (r, m) ∈ turns h rs u → (r.submission.targetKey ∈ keys ↔
    Savable h r.submission m ∧ u.registry.holder? r.submission.targetKey = none)
  decided : ∀ r m, (r, m) ∈ turns h rs u → (Savable h r.submission m ↔
    (∃ job, Job.plan r.submission h.catalog.has = .ok job) ∧ h.fault (m.clock + 1) = none)
  untouched : ∀ q, (∀ key ∈ keys, q ≠ recordPlace store key) → v.disk.find? q = u.disk.find? q
  undisturbed : ∀ ks : String → Prop, (∀ key ∈ keys, ¬ ks key) → Undisturbed h store ks u v
  jobs : ∃ as, v.waiting = u.waiting ++ as ∧ (as.map fun a => a.job.targetKey) = keys ∧
    ∀ a ∈ as, Resumed h store u v a

theorem TurnedDown.logged (hv : TurnedDown h store u v) (level : LogLevel) (target text : String) :
    TurnedDown h store u ((World.log level target text).run v).2 where
  files := hv.files
  waiting := hv.waiting
  holders := hv.holders
  undisturbed ks := by
    have hlog := World.log_moves (h := h) (N := fun _ => False) level target text v
    exact (hv.undisturbed ks).silent ((hv.undisturbed ks).guarded.sameDisk
      ((World.log_still level target text).sameDisk v)) hlog.silent

/-- One record is done with. -/
theorem Poised.next (hu : Poised h store (r :: rs) u)
    (hv : ∀ ks : String → Prop, ¬ ks r.submission.targetKey → Undisturbed h store ks u v) :
    Poised h store rs v where
  stored := (hv (fun _ => False) id).guarded.stored
  opened := by
    have hspared := (hv (fun _ => False) id).guarded.spared.points
    exact hu.opened.steady hspared.disk hspared.cwd
  rest := (hv (fun _ => False) id).rest
  housed r' hr' := by
    obtain ⟨bytes, hh⟩ := hu.housed r' (List.mem_cons_of_mem _ hr')
    have hne := (List.pairwise_cons.mp hu.distinct).1 r' hr'
    have hspared := (hv (· = r'.submission.targetKey) hne).guarded.spared.points
    exact ⟨bytes, hh.steady hspared.disk rfl⟩
  distinct := (List.pairwise_cons.mp hu.distinct).2

/-- A job that was taken on some time ago was so from an earlier world. -/
theorem Resumed.earlier {a : Accepted} (huv : Undisturbed h store (fun _ => False) u v)
    (ha : Resumed h store v w a) : Resumed h store u w a := by
  obtain ⟨m, hvm, hrecorded, hmw⟩ := ha
  exact ⟨m, huv.trans hvm, hrecorded, hmw⟩

/-- The first request is taken on. -/
theorem Resubmitted.taken {keys : List String} (hrun : ((resubmitAll h [r]).run u).2 = v)
    (hdistinct : (r :: rs).Pairwise fun a b => a.submission.targetKey ≠ b.submission.targetKey)
    (hdecided : Savable h r.submission u ↔
      (∃ job, Job.plan r.submission h.catalog.has = .ok job) ∧ h.fault (u.clock + 1) = none)
    (hsavable : Savable h r.submission u) (hfree : u.registry.holder? r.submission.targetKey = none)
    (hv : TakenOn h store r.submission u v) (hw : Resubmitted h store rs v keys w) :
    Resubmitted h store (r :: rs) u (r.submission.targetKey :: keys) w := by
  obtain ⟨hne, hdistinct⟩ := List.pairwise_cons.mp hdistinct
  have hother : ∀ {r' m}, (r', m) ∈ turns h rs v → r'.submission.targetKey ≠ r.submission.targetKey := by
    intro r' m hmem heq
    have hr' := List.mem_map_of_mem (f := Prod.fst) hmem
    rw [map_fst_turns] at hr'
    exact hne r' hr' heq.symm
  have hkeys : r.submission.targetKey ∉ keys := by
    intro hmem
    obtain ⟨r', hr', heq⟩ := List.mem_map.mp (hw.sublist.subset hmem)
    exact hne r' hr' heq.symm
  constructor
  case sublist => exact hw.sublist.cons_cons _
  case exact =>
    intro r' m hmem
    rw [turns, hrun] at hmem
    rcases List.mem_cons.mp hmem with heq | hmem
    · cases heq
      exact iff_of_true List.mem_cons_self ⟨hsavable, hfree⟩
    · rw [List.mem_cons, or_iff_right (hother hmem), hw.exact r' m hmem, hv.holders _ (hother hmem)]
  case decided =>
    intro r' m hmem
    rw [turns, hrun] at hmem
    rcases List.mem_cons.mp hmem with heq | hmem
    · cases heq
      exact hdecided
    · exact hw.decided r' m hmem
  case untouched =>
    intro q hq
    obtain ⟨hfirst, hrest⟩ := List.forall_mem_cons.mp hq
    rw [hw.untouched q hrest, hv.others q hfirst]
  case undisturbed =>
    intro ks hks
    obtain ⟨hfirst, hrest⟩ := List.forall_mem_cons.mp hks
    exact (hv.undisturbed ks hfirst).trans (hw.undisturbed ks hrest)
  case jobs =>
    obtain ⟨a, hkey, hwaiting, hrecorded⟩ := hv.job
    obtain ⟨as, hwaiting', hmap, has⟩ := hw.jobs
    refine ⟨a :: as, ?_, ?_, List.forall_mem_cons.mpr ⟨?_, fun b hb => ?_⟩⟩
    · rw [hwaiting', hwaiting, List.append_assoc]
      rfl
    · rw [List.map_cons, hkey, hmap]
    · refine ⟨v, hv.undisturbed _ id, hrecorded, hw.undisturbed _ fun key hmem heq => ?_⟩
      exact hkeys (hkey ▸ heq ▸ hmem)
    · exact (has b hb).earlier (hv.undisturbed _ id)

/-- The first request is turned down. -/
theorem Resubmitted.down {keys : List String} (hrun : ((resubmitAll h [r]).run u).2 = v)
    (hdistinct : (r :: rs).Pairwise fun a b => a.submission.targetKey ≠ b.submission.targetKey)
    (hdecided : Savable h r.submission u ↔
      (∃ job, Job.plan r.submission h.catalog.has = .ok job) ∧ h.fault (u.clock + 1) = none)
    (hnot : ¬ (Savable h r.submission u ∧ u.registry.holder? r.submission.targetKey = none))
    (hv : TurnedDown h store u v) (hw : Resubmitted h store rs v keys w) :
    Resubmitted h store (r :: rs) u keys w := by
  obtain ⟨hne, hdistinct⟩ := List.pairwise_cons.mp hdistinct
  have hkeys : r.submission.targetKey ∉ keys := by
    intro hmem
    obtain ⟨r', hr', heq⟩ := List.mem_map.mp (hw.sublist.subset hmem)
    exact hne r' hr' heq.symm
  constructor
  case sublist => exact hw.sublist.cons _
  case exact =>
    intro r' m hmem
    rw [turns, hrun] at hmem
    rcases List.mem_cons.mp hmem with heq | hmem
    · cases heq
      exact iff_of_false hkeys hnot
    · rw [hw.exact r' m hmem, Registry.holder?, Registry.holder?, hv.holders]
  case decided =>
    intro r' m hmem
    rw [turns, hrun] at hmem
    rcases List.mem_cons.mp hmem with heq | hmem
    · cases heq
      exact hdecided
    · exact hw.decided r' m hmem
  case untouched => exact fun q hq => (hw.untouched q hq).trans (by rw [hv.files])
  case undisturbed => exact fun ks hks => (hv.undisturbed ks).trans (hw.undisturbed ks hks)
  case jobs =>
    obtain ⟨as, hwaiting, hmap, has⟩ := hw.jobs
    exact ⟨as, hwaiting.trans (by rw [hv.waiting]), hmap, fun a ha => (has a ha).earlier (hv.undisturbed _)⟩

/-- **The requests of records that are in their places** are taken on if their new records can be saved
when their turn comes and their keys are free. -/
theorem resubmitAll_resubmitted (hclock : ∀ n, (h.time n).Dated) (rs : List JobRecord)
    (hu : Poised h store rs u) :
    Resubmitted h store rs u ((resubmitAll h rs).run u).1 ((resubmitAll h rs).run u).2 := by
  induction rs generalizing u with
  | nil =>
    refine ⟨.slnil, fun _ _ hmem => absurd hmem List.not_mem_nil,
      fun _ _ hmem => absurd hmem List.not_mem_nil, fun _ _ => rfl,
      fun ks _ => .refl hu.stored hu.rest, [], (List.append_nil _).symm, rfl,
      fun a ha => absurd ha List.not_mem_nil⟩
  | cons r rs ih =>
    obtain ⟨bytes, hh⟩ := hu.housed r List.mem_cons_self
    have hrun := run_resubmitAll_one (h := h) r u
    have hdecided := savable_iff hu.opened hh
    rw [run_resubmitAll_cons]
    rcases submit_turn hu.stored hu.opened hh hclock hu.rest with
      ⟨hsavable, hfree, v, hsubmit, hv⟩ | ⟨hnot, e, v, hsubmit, hv⟩
    · rw [show (submit h r.submission).settle.run u = _ from hsubmit] at hrun
      rw [hrun]
      exact .taken (by rw [hrun]) hu.distinct hdecided hsavable hfree hv (ih (hu.next hv.undisturbed))
    · rw [show (submit h r.submission).settle.run u = _ from hsubmit] at hrun
      rw [hrun]
      have hlogged := hv.logged .warn logTarget ("Could not resume " ++ r.submission.targetKey ++ ": " ++
        e.message)
      exact .down (by rw [hrun]) hu.distinct hdecided hnot hlogged
        (ih (hu.next fun ks _ => hlogged.undisturbed ks))

end Engine

end Decompile
