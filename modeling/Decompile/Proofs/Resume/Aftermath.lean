import Decompile.Proofs.Resume.Again

/-!
# What a resumption comes to

Jobs that were interrupted have records without outcome. An engine that starts looks for these records
and submits their requests again, in the order of their keys.

- `Engine.WorksOff`: an engine works off jobs that wait.
- `Engine.resumptions`: the records without outcome, each with the world in which its turn comes.
- `Engine.resumePending_exact`: which keys are resumed, what else changes, and what is left when the jobs
  have been worked off.
-/

namespace Decompile

variable {h : Host} {store : Place} {ks : String → Prop} {u v v' w : World} {r : JobRecord}
  {a : Accepted} {as done : List Accepted} {keys : List String} {key name : String}

namespace Engine

/-! ## Working off -/

/-- An engine works off jobs that wait: those of the list are run, one after another, and all their
records are saved; meanwhile jobs are asked to stop, listeners come, take their messages and leave, and
time passes. -/
inductive WorksOff (h : Host) (w : World) : List Accepted → World → Prop where
  | refl : WorksOff h w [] w
  | run {done : List Accepted} {u : World} (hu : WorksOff h w done u) {before after : List Accepted}
    {a : Accepted} (waits : u.waiting = before ++ a :: after)
    (saved : AllSaved (.of h.settings.storage a.job.targetKey) u
      ((runJob h a).run { u with waiting := before ++ after }).2) :
    WorksOff h w (done ++ [a]) ((runJob h a).run { u with waiting := before ++ after }).2
  | cancel {done : List Accepted} {u : World} (hu : WorksOff h w done u) (key : String) :
    WorksOff h w done ((cancelJob key).run u).2
  | subscribe {done : List Accepted} {u : World} (hu : WorksOff h w done u) (key : String) :
    WorksOff h w done ((World.subscribe key).run u).2
  | drain {done : List Accepted} {u : World} (hu : WorksOff h w done u) (id : Nat) :
    WorksOff h w done ((World.drain id).run u).2
  | unsubscribe {done : List Accepted} {u : World} (hu : WorksOff h w done u) (id : Nat) :
    WorksOff h w done ((World.unsubscribe id).run u).2
  | pass {done : List Accepted} {u : World} (hu : WorksOff h w done u) :
    WorksOff h w done ((World.pause h).run u).2

namespace WorksOff

/-- It goes on elsewhere, if all these jobs are others. -/
theorem elsewhere (hu : WorksOff h w done u) (hdone : ∀ a ∈ done, ¬ ks a.job.targetKey) :
    Elsewhere h ks w u := by
  induction hu with
  | refl => exact .refl
  | run _ waits _ ih =>
    obtain ⟨hdone, hlast⟩ := List.forall_mem_append.mp hdone
    exact (ih hdone).run waits (hlast _ List.mem_cons_self)
  | cancel _ key ih => exact (ih hdone).cancel key
  | subscribe _ key ih => exact (ih hdone).subscribe key
  | drain _ id ih => exact (ih hdone).drain id
  | unsubscribe _ id ih => exact (ih hdone).unsubscribe id
  | pass _ ih => exact (ih hdone).pass

/-- Each of the jobs has its run, and before and after it goes on elsewhere. -/
theorem split (hu : WorksOff h w done u) (hdone : (done.map fun a => a.job.targetKey).Nodup)
    (ha : a ∈ done) : ∃ (m : World) (before after : List Accepted), Elsewhere h (· = a.job.targetKey) w m ∧
      m.waiting = before ++ a :: after ∧
      AllSaved (.of h.settings.storage a.job.targetKey) m
        ((runJob h a).run { m with waiting := before ++ after }).2 ∧
      Elsewhere h (· = a.job.targetKey) ((runJob h a).run { m with waiting := before ++ after }).2 u := by
  induction hu with
  | refl => exact absurd ha List.not_mem_nil
  | @run done u hu before after b waits saved ih =>
    rw [List.map_append, List.nodup_append] at hdone
    obtain ⟨hfront, -, hdistinct⟩ := hdone
    have hne : ∀ c ∈ done, c.job.targetKey ≠ b.job.targetKey := fun c hc =>
      hdistinct _ (List.mem_map_of_mem hc) _ List.mem_cons_self
    rcases List.mem_append.mp ha with ha | ha
    · obtain ⟨m, front, back, hbefore, hwaits, hsaved, hafter⟩ := ih hfront ha
      exact ⟨m, front, back, hbefore, hwaits, hsaved, hafter.run waits (hne a ha).symm⟩
    · obtain rfl := List.mem_singleton.mp ha
      exact ⟨u, before, after, hu.elsewhere hne, waits, saved, .refl⟩
  | cancel _ key ih =>
    obtain ⟨m, front, back, hbefore, hwaits, hsaved, hafter⟩ := ih hdone ha
    exact ⟨m, front, back, hbefore, hwaits, hsaved, hafter.cancel key⟩
  | subscribe _ key ih =>
    obtain ⟨m, front, back, hbefore, hwaits, hsaved, hafter⟩ := ih hdone ha
    exact ⟨m, front, back, hbefore, hwaits, hsaved, hafter.subscribe key⟩
  | drain _ id ih =>
    obtain ⟨m, front, back, hbefore, hwaits, hsaved, hafter⟩ := ih hdone ha
    exact ⟨m, front, back, hbefore, hwaits, hsaved, hafter.drain id⟩
  | unsubscribe _ id ih =>
    obtain ⟨m, front, back, hbefore, hwaits, hsaved, hafter⟩ := ih hdone ha
    exact ⟨m, front, back, hbefore, hwaits, hsaved, hafter.unsubscribe id⟩
  | pass _ ih =>
    obtain ⟨m, front, back, hbefore, hwaits, hsaved, hafter⟩ := ih hdone ha
    exact ⟨m, front, back, hbefore, hwaits, hsaved, hafter.pass⟩

end WorksOff

/-- A job that is over has ended. -/
theorem finish_of_outcome {chain : List Stage} (hc : Positional chain) {key : String} {ms : List Message}
    (hended : ((JobState.new key chain).run ms).1.outcome ≠ none) :
    ∃ e ∈ ((JobState.new key chain).run ms).2, e.isFinish = true := by
  obtain ⟨p, hjob, htrace, -⟩ := Phase.run_phase hc key ms
  rw [hjob] at hended
  obtain ⟨o, ho⟩ := Option.ne_none_iff_exists'.mp hended
  rw [htrace]
  exact ⟨_, Phase.finish_mem_trace.mpr ⟨ho, rfl, rfl⟩, rfl⟩

/-- **A job that was taken on for a record and worked off** leaves a record that is not pending. -/
theorem Resumed.finished (hclock : ∀ n, (h.time n).Dated) (ha : Resumed h store u v a)
    (hopen : Open h.settings.storage store u) (havoids : h.Avoids store (fun _ => True) u)
    (hdone : WorksOff h v done v') (hdistinct : (done.map fun a => a.job.targetKey).Nodup)
    (hmem : a ∈ done) : ∃ r, Holds h.settings.storage store v' a.job.targetKey r ∧
      r.submission.targetKey = a.job.targetKey ∧ r.isPending = false := by
  obtain ⟨m, hum, hrecorded, hmv⟩ := ha
  have hopen' : Open h.settings.storage store m :=
    hopen.steady hum.guarded.spared.points.disk hum.guarded.spared.points.cwd
  have havoids' : h.Avoids store (· = a.job.targetKey) m :=
    (havoids.of_sameLinks hum.guarded.sameCwd hum.guarded.links).mono fun _ _ => trivial
  obtain ⟨n, before, after, hbefore, waits, hsaved, hafter⟩ := hdone.split hdistinct hmem
  have hbefore' := hmv.trans (hbefore.undisturbed hmv.guarded.stored hmv.rest
    (havoids'.of_sameLinks hmv.guarded.sameCwd hmv.guarded.links))
  obtain ⟨ms, r, hlived⟩ := hrecorded.lives hclock havoids' hbefore' waits hsaved
  have hpoints := (hlived.account.aside (hafter.undisturbed hlived.stored hlived.rest
    (havoids'.of_sameLinks hlived.account.points.cwd
      (hlived.account.points.disk ▸ hlived.account.points.whole.steady.links)))).points
  have hleft := hpoints.whole.left hopen' hrecorded (List.prefix_refl _)
  have hsteady := hpoints.whole.steady
  rw [← hpoints.disk] at hsteady
  refine ⟨r, ⟨?_, ?_⟩, ?_, ?_⟩
  · exact hopen'.stands hrecorded.stored.addressed.linkless hrecorded.planned.isEntryName hrecorded.found
      hsteady
  · rw [hpoints.disk, hpoints.cwd]
    exact hleft.loaded
  · obtain ⟨t, hfollowed⟩ := hleft.followed
    obtain ⟨now, hfresh⟩ := hrecorded.fresh
    rw [hfollowed]
    show (a.record.follow _).submission.targetKey = _
    rw [JobRecord.submission_follow, hfresh]
    rfl
  · obtain ⟨e, he, hfinish⟩ := finish_of_outcome hrecorded.planned.positional hlived.ended
    rw [Bool.eq_false_iff]
    intro hpending
    have hnone := hleft.pending.mp hpending e he
    rw [hfinish] at hnone
    cases hnone

/-! ## Resuming -/

theorem run_logAll (rs : List LogRecord) (w : World) :
    (logAll rs).run w = ((), { w with journal := w.journal ++ rs.map .logged }) := by
  induction rs generalizing w with
  | nil =>
    rw [List.map_nil, List.append_nil]
    rfl
  | cons r rs ih =>
    unfold logAll
    rw [Act.run_bind]
    show (logAll rs).run { w with journal := w.journal ++ [.logged r] } = _
    rw [ih]
    simp

/-- The world after interrupted jobs were looked for: records that cannot be read are noted in it. -/
def noted (h : Host) (w : World) : World :=
  { w with journal := w.journal ++ (unreadableRecords w.disk w.cwd h.settings.storage).map .logged }

theorem run_resumePending (w : World) : (resumePending h).run w =
    (resubmitAll h (pendingRecords w.disk w.cwd h.settings.storage)).run (noted h w) := by
  have hfind : (findPending h).run w = (pendingRecords w.disk w.cwd h.settings.storage, noted h w) := by
    unfold findPending
    rw [Act.run_get_bind, Act.run_bind, run_logAll]
    rfl
  unfold resumePending
  rw [Act.run_bind, hfind]

/-- The interrupted jobs of a storage, each with the world in which its turn to be resumed comes. -/
def resumptions (h : Host) (w : World) : List (JobRecord × World) :=
  turns h (pendingRecords w.disk w.cwd h.settings.storage) (noted h w)

section

variable (hw : RecordTree h.settings.storage store w) (hrest : AtRest h w)
include hw hrest

theorem noted_undisturbed (ks : String → Prop) : Undisturbed h store ks w (noted h w) := by
  have hfind : ((logAll (unreadableRecords w.disk w.cwd h.settings.storage)).run w).2 = noted h w := by
    rw [run_logAll]
    rfl
  have hmoves := logAll_moves (h := h) (N := fun _ => False)
    (unreadableRecords w.disk w.cwd h.settings.storage) w
  have hsame : SameDisk w (noted h w) := by
    refine ⟨rfl, rfl, _, rfl, List.filterMap_eq_nil_iff.mpr fun o ho => ?_⟩
    obtain ⟨said, -, rfl⟩ := List.mem_map.mp ho
    rfl
  rw [hfind] at hmoves
  exact (Undisturbed.refl hw.stored hrest).silent ((Guarded.refl hw.stored).sameDisk hsame) hmoves.silent

/-- The records that a scan finds are in their places. -/
theorem poised_noted : Poised h store (pendingRecords w.disk w.cwd h.settings.storage) (noted h w) where
  stored := (noted_undisturbed hw hrest fun _ => False).guarded.stored
  opened := hw.opened
  rest := (noted_undisturbed hw hrest fun _ => False).rest
  housed r hr := by
    obtain ⟨hholds, -⟩ := hw.mem_pendingRecords_iff.mp hr
    obtain ⟨bytes, hh, -⟩ := (hw.stored.holds_iff hw.opened).mp hholds
    exact ⟨bytes, hh.findable, hh.home, hh.file⟩
  distinct := by
    refine hw.pendingRecords_ascending.imp fun {a b} hlt heq => ?_
    rw [heq] at hlt
    exact String.lt_irrefl _ hlt

/-- Resuming submits the requests of pending records again. -/
theorem resumePending_resubmitted (hclock : ∀ n, (h.time n).Dated)
    (hrun : (resumePending h).run w = (keys, v)) :
    Resubmitted h store (pendingRecords w.disk w.cwd h.settings.storage) (noted h w) keys v := by
  have hall := resubmitAll_resubmitted hclock _ (poised_noted hw hrest)
  rw [run_resumePending] at hrun
  rwa [hrun] at hall

/-- **The keys that are resumed**, whatever keys are active. -/
theorem mem_resumed_iff (hclock : ∀ n, (h.time n).Dated) (hrun : (resumePending h).run w = (keys, v)) :
    key ∈ keys ↔ ∃ r m, Holds h.settings.storage store w key r ∧ r.outcome = none ∧
      (r, m) ∈ resumptions h w ∧ Savable h r.submission m ∧ w.registry.holder? key = none := by
  have hall := resumePending_resubmitted hw hrest hclock hrun
  constructor
  · intro hkey
    obtain ⟨r, hr, rfl⟩ := List.mem_map.mp (hall.sublist.subset hkey)
    obtain ⟨hholds, hpending⟩ := hw.mem_pendingRecords_iff.mp hr
    rw [← map_fst_turns (h := h) (pendingRecords w.disk w.cwd h.settings.storage) (noted h w)] at hr
    obtain ⟨⟨_, m⟩, hturn, rfl⟩ := List.mem_map.mp hr
    obtain ⟨hsavable, hfree⟩ := (hall.exact _ m hturn).mp hkey
    exact ⟨_, m, hholds, Option.isNone_iff_eq_none.mp hpending, hturn, hsavable, hfree⟩
  · rintro ⟨r, m, hholds, -, hturn, hsavable, hfree⟩
    obtain rfl := hw.filed _ _ hholds
    exact (hall.exact r m hturn).mpr ⟨hsavable, hfree⟩

omit hrest in
/-- A record without outcome has its turn. -/
theorem exists_turn (hholds : Holds h.settings.storage store w key r) (hr : r.outcome = none) :
    ∃ m, (r, m) ∈ resumptions h w := by
  obtain rfl := hw.filed _ _ hholds
  have hmem := hw.mem_pendingRecords_iff.mpr ⟨hholds, Option.isNone_iff_eq_none.mpr hr⟩
  rw [← map_fst_turns (h := h) (pendingRecords w.disk w.cwd h.settings.storage) (noted h w)] at hmem
  obtain ⟨⟨_, m⟩, hturn, rfl⟩ := List.mem_map.mp hmem
  exact ⟨m, hturn⟩

end

/-! ## The whole -/

/-- What is left when the jobs that were resumed have been worked off. -/
structure Settled (h : Host) (store : Place) (w : World) (keys : List String) (v : World) : Prop where
  /-- Pending are the records that were not resumed. -/
  pending : pendingRecords v.disk v.cwd h.settings.storage =
    (pendingRecords w.disk w.cwd h.settings.storage).filter fun r => r.submission.targetKey ∉ keys
  /-- The records that were not resumed are the same files. -/
  kept : ∀ key, key ∉ keys → ∀ bytes x, v.disk.find? (recordPlace store key) = some (.file bytes x) ↔
    w.disk.find? (recordPlace store key) = some (.file bytes x)
  /-- Where nothing can be saved that could not be saved before, nothing is resumed again. -/
  again : ∀ more z, (resumePending h).run v = (more, z) →
    (∀ r m n, (r, m) ∈ resumptions h w → (r, n) ∈ resumptions h v → Savable h r.submission n →
      Savable h r.submission m) → more = []

section

variable (hclock : ∀ n, (h.time n).Dated) (hw : Reached h w)
  (htree : RecordTree h.settings.storage store w) (hnone : w.registry.holders = [])
  (hrun : (resumePending h).run w = (keys, v)) (havoids : h.Avoids store (fun _ => True) w)
  (hdone : WorksOff h v done v') (hperm : done.Perm v.waiting)
include hclock hw htree hnone hrun

/-- Waiting are the jobs that are resumed. -/
theorem exists_resumed_waiting : ∃ as, v.waiting = as ∧ (as.map fun a => a.job.targetKey) = keys ∧
    ∀ a ∈ as, Resumed h store (noted h w) v a := by
  obtain ⟨as, hwaiting, hkeys, has⟩ := (resumePending_resubmitted htree hw.atRest hclock hrun).jobs
  have hempty : w.waiting = [] := by
    refine List.eq_nil_iff_forall_not_mem.mpr fun a ha => ?_
    have hheld := hw.holding.held a ha
    rw [Registry.holder?, hnone] at hheld
    cases hheld
  refine ⟨as, ?_, hkeys, has⟩
  rw [hwaiting, show (noted h w).waiting = [] from hempty, List.nil_append]

omit hnone in
/-- Resumed are no two jobs for one key. -/
theorem resumed_ascending : keys.Pairwise (· < ·) :=
  (List.pairwise_map.mpr htree.pendingRecords_ascending).sublist
    (resumePending_resubmitted htree hw.atRest hclock hrun).sublist

include hperm

/-- Worked off are the keys that are resumed. -/
theorem done_perm : (done.map fun a => a.job.targetKey).Perm keys := by
  obtain ⟨as, hwaiting, hkeys, -⟩ := exists_resumed_waiting hclock hw htree hnone hrun
  have hmap := hperm.map fun a => a.job.targetKey
  rwa [hwaiting, hkeys] at hmap

include havoids hdone

/-- Records of other keys are spared all along. -/
theorem worksOff_undisturbed (hks : ∀ key ∈ keys, ¬ ks key) : Undisturbed h store ks w v' := by
  have hbefore := (noted_undisturbed htree hw.atRest ks).trans
    ((resumePending_resubmitted htree hw.atRest hclock hrun).undisturbed ks hks)
  have hdone' : ∀ a ∈ done, ¬ ks a.job.targetKey := fun a ha =>
    hks _ ((done_perm hclock hw htree hnone hrun hperm).mem_iff.mp (List.mem_map_of_mem ha))
  refine hbefore.trans ((hdone.elsewhere hdone').undisturbed hbefore.guarded.stored hbefore.rest ?_)
  exact (havoids.of_sameLinks hbefore.guarded.sameCwd hbefore.guarded.links).mono fun _ _ => trivial

/-- The record of a job that was resumed is there, and it is not pending. -/
theorem exists_finished (hkey : key ∈ keys) : ∃ r, Holds h.settings.storage store v' key r ∧
    r.submission.targetKey = key ∧ r.isPending = false := by
  have hkeys := done_perm hclock hw htree hnone hrun hperm
  obtain ⟨as, hwaiting, -, has⟩ := exists_resumed_waiting hclock hw htree hnone hrun
  obtain ⟨a, ha, rfl⟩ := List.mem_map.mp (hkeys.mem_iff.mpr hkey)
  have hdistinct : (done.map fun a => a.job.targetKey).Nodup := by
    refine hkeys.nodup_iff.mpr ((resumed_ascending hclock hw htree hrun).imp ?_)
    rintro x _ hlt rfl
    exact String.lt_irrefl x hlt
  have hopen : Open h.settings.storage store (noted h w) := htree.opened
  exact (has a (hwaiting ▸ hperm.mem_iff.mp ha)).finished hclock hopen
    (havoids.of_sameLinks rfl (.refl _)) hdone hdistinct ha

/-- When the jobs are worked off, records stand in the directories of their keys again. -/
theorem recordTree_of_worksOff : RecordTree h.settings.storage store v' := by
  have hquiet : Undisturbed h store (· ∉ keys) w v' :=
    worksOff_undisturbed hclock hw htree hnone hrun havoids hdone hperm fun _ hkey hnot => hnot hkey
  have hsteady := hquiet.guarded.spared.points
  have hfinished : ∀ {key}, key ∈ keys → ∃ r, Holds h.settings.storage store v' key r ∧
      r.submission.targetKey = key ∧ r.isPending = false :=
    exists_finished hclock hw htree hnone hrun havoids hdone hperm
  constructor
  case stored => exact hquiet.guarded.stored
  case opened => exact htree.opened.steady hsteady.disk hsteady.cwd
  case housed =>
    intro key b x hfile
    by_cases hkey : key ∈ keys
    · obtain ⟨r, hr, -⟩ := hfinished hkey
      exact hr.home
    · exact hsteady.disk.home (htree.housed key b x ((hsteady.disk.files key hkey b x).mp hfile))
  case filed =>
    intro name r hr
    by_cases hkey : name ∈ keys
    · obtain ⟨r', hr', hname, -⟩ := hfinished hkey
      rw [hr.unique hr', hname]
    · exact htree.filed name r ((htree.holds_iff hquiet.guarded.stored hsteady.cwd hsteady.disk hkey).mp hr)

/-- A record that is pending then was so before, and was not resumed. -/
theorem pending_of_worksOff_iff : Holds h.settings.storage store v' key r ∧ r.isPending = true ↔
    (Holds h.settings.storage store w key r ∧ r.isPending = true) ∧ key ∉ keys := by
  have hquiet : Undisturbed h store (· ∉ keys) w v' :=
    worksOff_undisturbed hclock hw htree hnone hrun havoids hdone hperm fun _ hkey hnot => hnot hkey
  have hsteady := hquiet.guarded.spared.points
  by_cases hkey : key ∈ keys
  · refine iff_of_false (fun ⟨hr, hpending⟩ => ?_) fun hboth => hboth.2 hkey
    obtain ⟨r', hr', -, hover⟩ := exists_finished hclock hw htree hnone hrun havoids hdone hperm hkey
    rw [hr.unique hr', hover] at hpending
    cases hpending
  · rw [htree.holds_iff hquiet.guarded.stored hsteady.cwd hsteady.disk hkey, and_iff_left hkey]

/-- **When the jobs that were resumed are worked off**, pending are the others, as they were. -/
theorem settled_of_worksOff : Settled h store w keys v' := by
  have htree' := recordTree_of_worksOff hclock hw htree hnone hrun havoids hdone hperm
  have hquiet : Undisturbed h store (· ∉ keys) w v' :=
    worksOff_undisturbed hclock hw htree hnone hrun havoids hdone hperm fun _ hkey hnot => hnot hkey
  have hpending : ∀ {key r}, Holds h.settings.storage store v' key r ∧ r.isPending = true ↔
      (Holds h.settings.storage store w key r ∧ r.isPending = true) ∧ key ∉ keys :=
    pending_of_worksOff_iff hclock hw htree hnone hrun havoids hdone hperm
  constructor
  case pending =>
    refine htree.pendingRecords_eq_filter htree' fun r => ?_
    rw [htree.mem_pendingRecords_iff, htree'.mem_pendingRecords_iff, hpending, decide_eq_true_iff]
  case kept => exact hquiet.guarded.spared.points.disk.files
  case again =>
    intro more z hrun' hsame
    refine List.eq_nil_iff_forall_not_mem.mpr fun key hmem => ?_
    obtain ⟨r, n, hr, hnone', hturn', hsavable, -⟩ :=
      (mem_resumed_iff htree' hquiet.rest hclock hrun').mp hmem
    obtain ⟨⟨hr, -⟩, hkey⟩ := hpending.mp ⟨hr, Option.isNone_iff_eq_none.mpr hnone'⟩
    obtain ⟨m, hturn⟩ := exists_turn htree hr hnone'
    refine hkey ((mem_resumed_iff htree hw.atRest hclock hrun).mpr ⟨r, m, hr, hnone', hturn,
      hsame r m n hturn hturn' hsavable, ?_⟩)
    rw [Registry.holder?, hnone]
    rfl

end

/-- What a resumption comes to. -/
structure ResumedAll (h : Host) (store : Place) (w : World) (keys : List String) (v : World) : Prop where
  ascending : keys.Pairwise (· < ·)
  /-- Resumed are the records without outcome whose requests are planned and whose new records can be
  saved when their turn comes. -/
  exact : ∀ key, key ∈ keys ↔ ∃ r m, Holds h.settings.storage store w key r ∧ r.outcome = none ∧
    (r, m) ∈ resumptions h w ∧ Savable h r.submission m
  /-- A new record can be saved if the request is planned and the operation meets no fault. -/
  decided : ∀ r m, (r, m) ∈ resumptions h w → (Savable h r.submission m ↔
    (∃ job, Job.plan r.submission h.catalog.has = .ok job) ∧ h.fault (m.clock + 1) = none)
  /-- Each of the records without outcome has its turn. -/
  complete : ∀ key r, Holds h.settings.storage store w key r → r.outcome = none →
    ∃ m, (r, m) ∈ resumptions h w
  /-- Nothing but the records of the jobs that are resumed changes. -/
  untouched : ∀ q, (∀ key ∈ keys, q ≠ recordPlace store key) → v.disk.find? q = w.disk.find? q
  /-- Later, when all jobs that were resumed have been worked off. -/
  settled : h.Avoids store (fun _ => True) w → ∀ done z, WorksOff h v done z → done.Perm v.waiting →
    Settled h store w keys z

/-- **Resuming is complete and exact.** -/
theorem resumePending_exact (hclock : ∀ n, (h.time n).Dated) (hw : Reached h w)
    (htree : RecordTree h.settings.storage store w) (hnone : w.registry.holders = [])
    (hrun : (resumePending h).run w = (keys, v)) : ResumedAll h store w keys v where
  ascending := resumed_ascending hclock hw htree hrun
  exact key := by
    have hfree : w.registry.holder? key = none := by
      rw [Registry.holder?, hnone]
      rfl
    rw [mem_resumed_iff htree hw.atRest hclock hrun]
    simp only [hfree, and_true]
  decided := (resumePending_resubmitted htree hw.atRest hclock hrun).decided
  complete key r := exists_turn htree
  untouched := (resumePending_resubmitted htree hw.atRest hclock hrun).untouched
  settled havoids done z hdone hperm :=
    settled_of_worksOff hclock hw htree hnone hrun havoids hdone hperm

/-- The record of a job that was interrupted, or that has ended. -/
def recordOf (key : String) (attempts : UInt32) (outcome : Option Outcome) : JobRecord where
  submission := { plainRequest with targetKey := key, maxAttempts := attempts }
  backend := .jadx
  stages := [⟨.unpack, .running⟩, ⟨.convert, .enqueued⟩, ⟨.resources, .enqueued⟩]
  outcome := outcome
  ranOutOfMemory := false
  created := .ofEpoch 0 0
  updated := .ofEpoch 0 0

theorem recordOf_dated (key : String) (attempts : UInt32) (outcome : Option Outcome) :
    (recordOf key attempts outcome).Dated := ⟨rfl, rfl⟩

/-- A storage with the files of four records. -/
def storageOf (a b c d : Bytes) : World :=
  .new ([("a", a), ("b", b), ("c", c), ("d", d)].foldl (fun disk x =>
      (disk.put ["store", "sources", x.1] .directory).put ["store", "sources", x.1, recordName]
        (.file x.2 false))
    ((Disk.empty.put ["store"] .directory).put ["store", "sources"] .directory)) []

theorem find?_storageOf (a b c d : Bytes) :
    (storageOf a b c d).disk.find? (recordPlace ["store"] "a") = some (.file a false) ∧
    (storageOf a b c d).disk.find? (recordPlace ["store"] "b") = some (.file b false) ∧
    (storageOf a b c d).disk.find? (recordPlace ["store"] "c") = some (.file c false) ∧
    (storageOf a b c d).disk.find? (recordPlace ["store"] "d") = some (.file d false) := by
  simp [storageOf, recordPlace, World.new, Disk.find?_put, recordName]

/-- A storage with the record of a job that was interrupted, of one that has failed, of none, and of one
whose request is not planned. -/
def mixedStorage : World :=
  storageOf (Text.encode (recordOf "a" 1 none).render) (Text.encode (recordOf "b" 1 (some .failed)).render)
    (Text.encode "broken") (Text.encode (recordOf "d" 0 none).render)

/-- The directories of this storage. -/
theorem mem_of_home {name : String}
    (hhome : mixedStorage.disk.find? ["store", "sources", name] = some .directory) :
    name ∈ ["a", "b", "c", "d"] := by
  have hdirs : ∀ x ∈ mixedStorage.disk.entries, x.2 = .directory → x.1.length = 3 →
      x.1.getLast? ∈ ["a", "b", "c", "d"].map some := by
    decide +kernel
  have hname := hdirs _ (mem_of_findEntry hhome) rfl rfl
  rw [show [("store" : String), "sources", name].getLast? = some name from rfl] at hname
  obtain ⟨n, hn, heq⟩ := List.mem_map.mp hname
  rwa [← Option.some.inj heq]

/-- The records of this storage that can be read. -/
theorem holds_mixedStorage (hstored : Stored ⟨"/store"⟩ ["store"] mixedStorage)
    (hopen : Open ⟨"/store"⟩ ["store"] mixedStorage) {name : String} {r : JobRecord}
    (hr : Holds ⟨"/store"⟩ ["store"] mixedStorage name r) :
    (name = "a" ∧ r = recordOf "a" 1 none) ∨ (name = "b" ∧ r = recordOf "b" 1 (some .failed)) ∨
      (name = "d" ∧ r = recordOf "d" 0 none) := by
  obtain ⟨bytes, hh, hof⟩ := (hstored.holds_iff hopen).mp hr
  obtain ⟨x, hfile⟩ := hh.file
  have hfound : ∀ {key : String} {contents : Bytes}, name = key →
      mixedStorage.disk.find? (recordPlace ["store"] key) = some (.file contents false) →
        JobRecord.ofBytes (recordPath ⟨"/store"⟩ key) contents = .ok r := by
    rintro key contents rfl hcontents
    rw [hfile] at hcontents
    cases hcontents
    exact hof
  obtain ⟨ha, hb, hc, hd⟩ := find?_storageOf (Text.encode (recordOf "a" 1 none).render)
    (Text.encode (recordOf "b" 1 (some .failed)).render) (Text.encode "broken") (Text.encode (recordOf "d" 0 none).render)
  have hname := mem_of_home hr.home
  simp only [List.mem_cons, List.not_mem_nil, or_false] at hname
  rcases hname with hname | hname | hname | hname
  · have hread := hfound hname ha
    rw [JobRecord.ofBytes_render (recordOf_dated _ _ _)] at hread
    exact .inl ⟨hname, (Except.ok.inj hread).symm⟩
  · have hread := hfound hname hb
    rw [JobRecord.ofBytes_render (recordOf_dated _ _ _)] at hread
    exact .inr (.inl ⟨hname, (Except.ok.inj hread).symm⟩)
  · have hbroken : JobRecord.ofBytes (recordPath ⟨"/store"⟩ "c") (Text.encode "broken") =
        .error (.parse (recordPath ⟨"/store"⟩ "c") "unreadable record") := by
      decide +kernel
    have hread := hfound hname hc
    rw [hbroken] at hread
    cases hread
  · have hread := hfound hname hd
    rw [JobRecord.ofBytes_render (recordOf_dated _ _ _)] at hread
    exact .inr (.inr ⟨hname, (Except.ok.inj hread).symm⟩)

/-- This storage is a tree of records. -/
theorem recordTree_mixedStorage : RecordTree ⟨"/store"⟩ ["store"] mixedStorage := by
  have hstored : Stored ⟨"/store"⟩ ["store"] mixedStorage :=
    .of_entries mixedStorage.disk (fun n hn => absurd hn List.not_mem_nil)
      (by decide +kernel) rfl (by decide +kernel) (by decide +kernel)
  have hdirs : ∀ n < 3, mixedStorage.disk.find? (["store", "sources"].take n) = some .directory := by
    decide +kernel
  have hopen : Open ⟨"/store"⟩ ["store"] mixedStorage :=
    .of_plain (by decide +kernel) (by decide +kernel) (by decide +kernel) (by decide +kernel)
      (by decide +kernel) fun q hq => List.prefix_iff_eq_take.mp hq ▸
        hdirs q.length (Nat.lt_succ_of_le hq.length_le)
  refine ⟨hstored, hopen, fun key b x hfile => ?_, fun name r hr => ?_⟩
  · have hfiles : ∀ x ∈ mixedStorage.disk.entries, x.2.isFile = true →
        mixedStorage.disk.find? x.1.dropLast = some .directory := by
      decide +kernel
    exact hfiles _ (mem_of_findEntry hfile) rfl
  · rcases holds_mixedStorage hstored hopen hr with ⟨rfl, rfl⟩ | ⟨rfl, rfl⟩ | ⟨rfl, rfl⟩
    · rfl
    · rfl
    · rfl

/-- Of the four only the first is resumed. -/
theorem resumePending_exact_mixed : ∃ v, (resumePending (idleHost "/store")).run mixedStorage = (["a"], v) ∧
    ResumedAll (idleHost "/store") ["store"] mixedStorage ["a"] v := by
  have hclock : ∀ n, ((idleHost "/store").time n).Dated := fun _ => rfl
  have htree := recordTree_mixedStorage
  rcases hrun : (resumePending (idleHost "/store")).run mixedStorage with ⟨keys, v⟩
  have hall := resumePending_exact hclock (.new _ _) htree rfl hrun
  have hkeys : ∀ key, key ∈ keys ↔ key ∈ ["a"] := by
    intro key
    rw [hall.exact, List.mem_singleton]
    constructor
    · rintro ⟨r, m, hholds, hnone, hturn, hsavable⟩
      obtain ⟨⟨job, hplan⟩, -⟩ := (hall.decided r m hturn).mp hsavable
      rcases holds_mixedStorage htree.stored htree.opened hholds with ⟨rfl, -⟩ | ⟨-, rfl⟩ | ⟨-, rfl⟩
      · rfl
      · cases hnone
      · cases hplan
    · rintro rfl
      have hholds : Holds ⟨"/store"⟩ ["store"] mixedStorage "a" (recordOf "a" 1 none) := by
        refine (htree.stored.holds_iff htree.opened).mpr
          ⟨_, ⟨?_, by decide +kernel, false, (find?_storageOf _ _ _ _).1⟩,
            JobRecord.ofBytes_render (recordOf_dated _ _ _) _⟩
        exact ⟨by decide +kernel, by decide +kernel, by decide +kernel, by decide +kernel, by decide +kernel⟩
      obtain ⟨m, hturn⟩ := hall.complete _ _ hholds rfl
      exact ⟨_, m, hholds, rfl, hturn, (hall.decided _ m hturn).mpr ⟨⟨_, rfl⟩, rfl⟩⟩
  have hnodup : keys.Nodup := by
    refine hall.ascending.imp ?_
    rintro x _ hlt rfl
    exact String.lt_irrefl x hlt
  obtain rfl : keys = ["a"] :=
    List.perm_singleton.mp ((List.perm_ext_iff_of_nodup hnodup (List.nodup_singleton _)).mpr hkeys)
  exact ⟨v, rfl, hall⟩

/-- A storage in which the directory of a target is a link to a directory with the record of an
interrupted job. -/
def linkedStorage : World :=
  .new ([(["1.dex"], .file [1] false), (["kept"], .directory),
      (["kept", recordName], .file (Text.encode (recordOf "b" 1 none).render) false), (["store"], .directory),
      (["store", "sources"], .directory), (["store", "sources", "b"], Entry.link "../../kept")].foldl
    (fun d x => d.put x.1 x.2) Disk.empty) []

/-- The directory of a target may be a link: its record is loaded, its job was interrupted, its request is
planned and its new record can be saved, but it is not resumed. -/
theorem linked_record_not_resumed : ∃ v,
    JobRecord.load linkedStorage.disk linkedStorage.cwd (.of ⟨"/store"⟩ "b") =
      .ok (some (recordOf "b" 1 none)) ∧
    (∀ name r, linkedStorage.disk.find? ["store", "sources", name] ≠ none →
      JobRecord.load linkedStorage.disk linkedStorage.cwd (.of ⟨"/store"⟩ name) = .ok (some r) →
        r.submission.targetKey = name) ∧
    (recordOf "b" 1 none).outcome = none ∧
    Savable (idleHost "/store") (recordOf "b" 1 none).submission linkedStorage ∧
    linkedStorage.registry.holders = [] ∧
    (resumePending (idleHost "/store")).run linkedStorage = ([], v) := by
  have hlocate : linkedStorage.disk.locate linkedStorage.cwd true (recordPath ⟨"/store"⟩ "b") =
      .ok (["kept", recordName], .plain) := by
    decide +kernel
  have hfile : linkedStorage.disk.find? ["kept", recordName] =
      some (.file (Text.encode (recordOf "b" 1 none).render) false) := by
    simp [linkedStorage, World.new, Disk.find?_put, recordName]
  have hload : JobRecord.load linkedStorage.disk linkedStorage.cwd (.of ⟨"/store"⟩ "b") =
      .ok (some (recordOf "b" 1 none)) :=
    JobRecord.load_of_read (recordOf_dated _ _ _) (Disk.read_eq hlocate hfile)
  have hnames : ∀ x ∈ linkedStorage.disk.entries, x.1.length = 3 → x.1.getLast? = some "b" := by
    decide +kernel
  have hsaved : (((JobRecord.new ⟨(recordOf "b" 1 none).submission, .jadx, chainOf .jadx⟩
      ((idleHost "/store").time 0)).save (idleHost "/store") (.of ⟨"/store"⟩ "b")).settle.run
        linkedStorage).1 = .ok () := by
    decide +kernel
  have hnone : ((resumePending (idleHost "/store")).run linkedStorage).1 = [] := by
    decide +kernel
  refine ⟨_, hload, fun name r hthere hname => ?_, rfl, ⟨_, _, rfl, Prod.ext hsaved rfl⟩, rfl,
    Prod.ext hnone rfl⟩
  obtain ⟨e, he⟩ := Option.ne_none_iff_exists'.mp hthere
  obtain rfl : name = "b" := Option.some.inj (hnames _ (mem_of_findEntry he) rfl)
  rw [hload] at hname
  cases hname
  rfl

end Engine

end Decompile
