import Decompile.Proofs.Durability.Saving
import Decompile.Proofs.Durability.Found
import Decompile.Proofs.Durability.Run
import Decompile.Proofs.Lifecycle.Trace

/-!
# A record mirrors its job

- `Recorded`: a job was taken on, and its record was saved.
- `Recorded.lives`: from then on, and while its job runs, it is kept up.
- `Left`: what a process that stops at a point leaves of the job.
- `Engine.record_mirrors`: this is so at every point.
-/

namespace Decompile

variable {h : Host} {store : Place} {a : Accepted} {w w₀ w₁ w₂ w₃ w₄ u v : World}
  {seen done es : List Effect} {r : JobRecord} {past : List Occurrence}

/-! ## Taking on -/

/-- A job was taken on at a storage without links: its record is found as it was first saved. -/
structure Recorded (h : Host) (store : Place) (a : Accepted) (w : World) : Prop where
  planned : a.Planned h
  fresh : ∃ now, a.record = .new a.job now
  dated : a.record.Dated
  stored : Stored h.settings.storage store w
  rest : AtRest h w
  file : w.disk.find? (recordPlace store a.job.targetKey) =
    some (.file (Text.encode a.record.render) false)
  found : w.disk.locate w.cwd true (recordPath h.settings.storage a.job.targetKey) =
    .ok (recordPlace store a.job.targetKey, .plain)

theorem Accepted.Planned.isEntryName (ha : a.Planned h) : IsEntryName a.job.targetKey := by
  obtain ⟨s, hs⟩ := ha
  exact isEntryName_of_isTargetKey (Job.isTargetKey_of_plan hs)

theorem Accepted.Planned.behind (ha : a.Planned h) :
    h.settings.storage.Behind ["sources", a.job.targetKey]
      (Layout.of h.settings.storage a.job.targetKey).root :=
  .target h.settings.storage ha.isEntryName

/-- A request that is taken on begins a job. -/
theorem Engine.submit_recorded (hclock : ∀ n, (h.time n).Dated) (hw : Stored h.settings.storage store w)
    (hrest : AtRest h w) {s : Submission} (hsubmit : (submit h s).Succeeds w () v)
    {earlier : List Accepted} (hlast : v.waiting = earlier ++ [a]) : Recorded h store a v := by
  have hrun : (submit h s).settle.run w = (.ok (), v) := hsubmit
  have hrest' := hrest.of_silent (submit_silent (h := h) s w)
  have hsubmitted := submit_submitted (h := h) s w
  rw [hrun] at hrest' hsubmitted
  cases hsubmitted with
  | @accepted job plan ticket registry claimed u save said =>
    obtain ⟨-, ha⟩ := List.append_inj' hlast rfl
    obtain rfl := List.singleton_inj.mp ha
    have hplanned : Accepted.Planned h ⟨job, .new job (h.time w.clock), ticket⟩ := ⟨s, plan⟩
    have hclaimed : Stored h.settings.storage store
        { w with registry, journal := w.journal ++ [.claimed job.targetKey ticket] } :=
      hw.sameDisk (.of_note (o := .claimed job.targetKey ticket) rfl rfl rfl rfl)
    obtain ⟨m, hsaving⟩ := JobRecord.save_saving hplanned.behind hclaimed hrest.idle save
    exact {
      planned := hplanned
      fresh := ⟨_, rfl⟩
      dated := ⟨hclock _, hclock _⟩
      stored := hsaving.stored.sameDisk (.of_note (o := .logged said) rfl rfl rfl rfl)
      rest := hrest'
      file := by
        show u.disk.find? _ = _
        rw [hsaving.moved]
        show (m.disk.apply _).find? _ = _
        rw [saveChange, Disk.apply, Disk.find?_put, if_pos rfl]
      found := hsaving.found }

/-! ## Running -/

/-- Other things happen meanwhile. -/
theorem Account.aside (hu : Account store a w u seen done r)
    (hv : Undisturbed h store (· = a.job.targetKey) u v) : Account store a w v seen done r :=
  hu.quiet hv.guarded.spared (hv.hushed _ rfl)

/-- A record is kept up for some messages of its job. -/
structure Lived (h : Host) (store : Place) (a : Accepted) (w u : World) (ms : List Message)
    (r : JobRecord) : Prop where
  account : Account store a w u ((JobState.new a.job.targetKey a.job.chain).run ms).2
    ((JobState.new a.job.targetKey a.job.chain).run ms).2 r
  ended : ((JobState.new a.job.targetKey a.job.chain).run ms).1.outcome ≠ none
  stored : Stored h.settings.storage store u
  rest : AtRest h u

/-- **A job that is run** keeps up its record from its first message to its last. -/
theorem Recorded.lives (hclock : ∀ n, (h.time n).Dated) (hw : Recorded h store a w)
    (ha : h.Avoids store (· = a.job.targetKey) w)
    (hu : Undisturbed h store (· = a.job.targetKey) w u) {before after : List Accepted}
    (waits : u.waiting = before ++ a :: after)
    (hsaved : AllSaved (.of h.settings.storage a.job.targetKey) u
      ((Engine.runJob h a).run { u with waiting := before ++ after }).2) :
    ∃ ms r, Lived h store a w ((Engine.runJob h a).run { u with waiting := before ++ after }).2 ms r := by
  obtain ⟨now, hfresh⟩ := hw.fresh
  have hless := hu.less waits
  replace hsaved : AllSaved (.of h.settings.storage a.job.targetKey)
      { u with waiting := before ++ after }
      ((Engine.runJob h a).run { u with waiting := before ++ after }).2 := hsaved
  generalize { u with waiting := before ++ after } = u' at hless hsaved ⊢
  let t := Task.ofAccepted a
  have hstart : Running h store a w u' t [] [] := {
    keeping := ⟨(Account.start hw.dated hw.file).aside hless, hless.guarded.stored, hless.rest.idle, rfl⟩
    run := rfl
    length := by
      show a.record.stages.length = _
      rw [hfresh]
      exact List.length_map _ }
  have hparts := hsaved.parts (Task.runFor_grows t.messageBound t u') ⟨_, rfl⟩
  obtain ⟨ms, es, hrun⟩ := hstart.runFor hclock hw.planned.positional hw.planned.behind ha t.messageBound
    hparts.1
  obtain ⟨said, ⟨-, transcript, -, -, hended, -⟩, -, -⟩ := Task.runFor_transcript (h := h)
    hw.planned.positional (Nat.le_refl _) u' hless.rest.idle
  simp only [List.nil_append] at hrun
  have hlast := hrun.keeping.released a.job.targetKey a.ticket
  obtain ⟨told, -, hidle, htold⟩ := Engine.runJob_tells (h := h) hw.planned.positional u' hless.rest.idle
  refine ⟨ms, ((t.runFor h t.messageBound).run u').1.record, ?_, ?_, hlast.stored,
    hless.rest.of_told htold hidle⟩
  · rw [hrun.run]
    exact hlast.account
  · rw [hrun.run]
    show ((t.runFor h t.messageBound).run u').1.state.outcome ≠ none
    rw [show ((t.runFor h t.messageBound).run u').1.state.outcome = _ from hended]
    exact fun heq => by cases heq

/-! ## Records of effects -/

namespace JobRecord

theorem follow_concat (r : JobRecord) (es : List Effect) (e : Effect) :
    r.follow (es ++ [e]) = match e.edit? with
      | some x => x.apply (r.follow es) (r.follow es).updated
      | none => r.follow es := by
  rw [follow_append]
  cases he : e.edit? <;> simp [follow, he]

theorem submission_follow (r : JobRecord) (es : List Effect) :
    (r.follow es).submission = r.submission := by
  induction es using List.reverseRecOn with
  | nil => rfl
  | append_singleton es e ih =>
    rw [follow_concat]
    cases e with
    | startStage s => exact ih
    | finish o oom detail => exact ih
    | stageChanged s st =>
      simp only [Effect.edit?, RecordEdit.apply, setStage]
      split <;> exact ih

/-- The states of the stages are those that the changes lead to. -/
theorem states_follow (r : JobRecord) (es : List Effect) :
    (r.follow es).stages.map StageRecord.state = replay (r.stages.map StageRecord.state) es := by
  induction es using List.reverseRecOn with
  | nil => rfl
  | append_singleton es e ih =>
    rw [follow_concat, replay_append, ← ih]
    cases e with
    | startStage s => rfl
    | finish o oom detail => rfl
    | stageChanged s st =>
      simp only [Effect.edit?, RecordEdit.apply, setStage]
      cases hs : (r.follow es).stages[s.ordinal]? with
      | none =>
        have hout : ((r.follow es).stages.map StageRecord.state).length ≤ s.ordinal := by
          rw [List.length_map]
          exact List.getElem?_eq_none_iff.mp hs
        exact (List.set_eq_of_length_le hout).symm
      | some now => simp [replay, replayOne, List.map_set]

/-- Without an end there is no outcome. -/
theorem outcome_follow (r : JobRecord) {es : List Effect} (hes : ∀ e ∈ es, e.isFinish = false) :
    (r.follow es).outcome = r.outcome := by
  induction es using List.reverseRecOn with
  | nil => rfl
  | append_singleton es e ih =>
    rw [List.forall_mem_append, List.forall_mem_singleton] at hes
    rw [follow_concat]
    cases e with
    | startStage s => exact ih hes.1
    | finish o oom detail => cases hes.2
    | stageChanged s st =>
      simp only [Effect.edit?, RecordEdit.apply, setStage]
      split <;> exact ih hes.1

end JobRecord

/-! ## What is left behind -/

/-- **What a process that stops leaves of a job**: a record of the effects `done` that were saved so far,
of which `seen` were told. -/
structure Left (h : Host) (store : Place) (a : Accepted) (w : World) (past : List Occurrence)
    (seen done : List Effect) (r : JobRecord) : Prop where
  /-- The record is whole. -/
  loaded : JobRecord.load (w.diskAfter past) w.cwd (.of h.settings.storage a.job.targetKey) =
    .ok (some r)
  /-- It is the first record with the changes made that the effects ask for. -/
  followed : ∃ t, r = { a.record.follow done with updated := t }
  states : r.stages.map StageRecord.state = replay (.replicate a.job.chain.length .enqueued) done
  /-- When the effects of some messages are saved, the stages are as they are in the job. -/
  settled : ∀ ms, ((JobState.new a.job.targetKey a.job.chain).run ms).2 = done →
    r.stages.map StageRecord.state = ((JobState.new a.job.targetKey a.job.chain).run ms).1.states
  saves : (savesOf (recordPlace store a.job.targetKey) past).length =
    (done.filterMap Effect.edit?).length
  told : announcedOn a.job.targetKey past = seen.filterMap (Effect.announcement? a.job)
  /-- An effect is saved before it is told. -/
  ahead : seen = done ∨ ∃ e, done = seen ++ [e]
  /-- A message that was told just now says what the record says. -/
  reflected : ∀ earlier m, past = earlier ++ [.published a.job.targetKey m] → m.ReflectedIn r
  /-- An end that was told is in the record from then on. -/
  terminal : ∀ result, .terminal result ∈ announcedOn a.job.targetKey past →
    r.outcome = some result.outcome ∧ r.ranOutOfMemory = result.ranOutOfMemory
  pending : r.isPending = true ↔ ∀ e ∈ done, e.isFinish = false
  /-- A scan finds the record if it is pending. -/
  scanned : r ∈ pendingRecords (w.diskAfter past) w.cwd h.settings.storage ↔ r.isPending = true
  /-- A scan finds the key then, and only then if no other directory has a record of it. -/
  listed : (∀ name r', JobRecord.load (w.diskAfter past) w.cwd (.of h.settings.storage name) =
      .ok (some r') → r'.submission.targetKey = a.job.targetKey → name = a.job.targetKey) →
    (a.job.targetKey ∈ (pendingRecords (w.diskAfter past) w.cwd h.settings.storage).map
      (fun r => r.submission.targetKey) ↔ r.isPending = true)

/-- A first part of the effects of a job holds its end only as its last effect. -/
theorem finish_of_prefix {key : String} {chain : List Stage} (hc : Positional chain) {ms : List Message}
    (hdone : done <+: ((JobState.new key chain).run ms).2) {o : Outcome} {oom : Bool}
    {detail : Option String} (hfinish : .finish o oom detail ∈ done) :
    ∃ earlier, done = earlier ++ [.finish o oom detail] := by
  obtain ⟨earlier, later, rfl⟩ := List.append_of_mem hfinish
  obtain ⟨rest, hrest⟩ := hdone
  obtain ⟨p, -, htrace, -⟩ := Phase.run_phase hc key ms
  rw [List.append_assoc, List.cons_append, htrace] at hrest
  obtain ⟨hlater, -⟩ := List.append_eq_nil_iff.mp (Phase.finish_last hrest.symm)
  rw [hlater]
  exact ⟨earlier, rfl⟩

theorem Snapshot.left (hopen : Open h.settings.storage store w) (hw : Recorded h store a w)
    (hsnap : Snapshot store a w past seen done r) {ms : List Message}
    (hdone : done <+: ((JobState.new a.job.targetKey a.job.chain).run ms).2) :
    Left h store a w past seen done r := by
  obtain ⟨now, hfresh⟩ := hw.fresh
  have hc := hw.planned.positional
  have hload : JobRecord.load (w.diskAfter past) w.cwd (.of h.settings.storage a.job.targetKey) =
      .ok (some r) :=
    JobRecord.load_of_read hsnap.follows.dated
      (hopen.read hw.stored.addressed.linkless hw.planned.isEntryName hw.found hsnap.steady hsnap.file)
  have hstates : r.stages.map StageRecord.state = replay (.replicate a.job.chain.length .enqueued) done := by
    have hfirst : a.record.stages.map StageRecord.state = .replicate a.job.chain.length .enqueued := by
      rw [hfresh]
      simp [JobRecord.new, Function.comp_def, List.map_const']
    rw [hsnap.follows.eq, ← hfirst]
    exact JobRecord.states_follow _ _
  have hkey : r.submission.targetKey = a.job.targetKey := by
    rw [hsnap.follows.eq]
    show (a.record.follow done).submission.targetKey = _
    rw [JobRecord.submission_follow, hfresh]
    rfl
  have hfinished : ∀ o oom detail, .finish o oom detail ∈ done →
      r.outcome = some o ∧ r.ranOutOfMemory = oom := by
    intro o oom detail hfinish
    obtain ⟨earlier, rfl⟩ := finish_of_prefix hc hdone hfinish
    rw [hsnap.follows.eq, JobRecord.follow_concat]
    exact ⟨rfl, rfl⟩
  have hpending : r.isPending = true ↔ ∀ e ∈ done, e.isFinish = false := by
    constructor
    · intro hr e he
      cases e with
      | startStage s => rfl
      | stageChanged s st => rfl
      | finish o oom detail =>
        rw [JobRecord.isPending, (hfinished o oom detail he).1] at hr
        cases hr
    · intro hnone
      rw [JobRecord.isPending, hsnap.follows.eq]
      show (a.record.follow done).outcome.isNone = true
      rw [JobRecord.outcome_follow _ hnone, hfresh]
      rfl
  have hscanned : r ∈ pendingRecords (w.diskAfter past) w.cwd h.settings.storage ↔ r.isPending = true := by
    rw [mem_pendingRecords_iff]
    refine ⟨fun ⟨_, _, _, hr⟩ => hr, fun hr => ⟨a.job.targetKey, ?_, hload, hr⟩⟩
    exact hopen.mem_targetNames hw.stored.addressed.linkless hw.planned.isEntryName hw.found hsnap.steady
  constructor
  case loaded => exact hload
  case followed => exact ⟨r.updated, hsnap.follows.eq⟩
  case states => exact hstates
  case settled =>
    intro ms' hms'
    have hlogs := JobState.logs_run (j := .new a.job.targetKey a.job.chain)
      (by rwa [JobState.stages_new]) ms'
    rw [hstates, ← hms', ← hlogs.states, states_new]
  case saves => exact hsnap.saves
  case told => exact hsnap.told
  case ahead => exact hsnap.ahead
  case reflected => exact hsnap.reflected
  case terminal =>
    intro result hresult
    rw [hsnap.told] at hresult
    obtain ⟨e, he, hannounces⟩ := List.mem_filterMap.mp hresult
    have hmem : e ∈ done := by
      rcases hsnap.ahead with rfl | ⟨last, rfl⟩
      · exact he
      · exact List.mem_append_left _ he
    cases e with
    | startStage s => cases hannounces
    | stageChanged s st => cases hannounces
    | finish o oom detail =>
      obtain rfl := BusMessage.terminal.inj (Option.some.inj hannounces)
      exact hfinished o oom detail hmem
  case pending => exact hpending
  case scanned => exact hscanned
  case listed =>
    intro honly
    rw [List.mem_map]
    constructor
    · rintro ⟨r', hr', hother⟩
      obtain ⟨name, -, hfound, hr⟩ := mem_pendingRecords_iff.mp hr'
      rw [honly name r' hfound hother, hload] at hfound
      cases hfound
      exact hr
    · exact fun hr => ⟨r, hscanned.mpr hr, hkey⟩

/-- **A record mirrors its job.** -/
theorem Engine.record_mirrors (hclock : ∀ n, (h.time n).Dated) (hw : Reached h w)
    (hstored : Stored h.settings.storage store w) {s : Submission}
    (hsubmit : (submit h s).Succeeds w () w₁) {earlier : List Accepted}
    (hlast : w₁.waiting = earlier ++ [a]) (hopen : Open h.settings.storage store w₁)
    (ha : h.Avoids store (· = a.job.targetKey) w₁)
    (hmeanwhile : Elsewhere h (· = a.job.targetKey) w₁ w₂) {before after : List Accepted}
    (waits : w₂.waiting = before ++ a :: after)
    (hrun : (runJob h a).run { w₂ with waiting := before ++ after } = ((), w₃))
    (hsaved : AllSaved (.of h.settings.storage a.job.targetKey) w₂ w₃)
    (hafter : Elsewhere h (· = a.job.targetKey) w₃ w₄) :
    ∃ ms, ((JobState.new a.job.targetKey a.job.chain).run ms).1.outcome ≠ none ∧
      ∀ past, past <+: w₁.since w₄ → ∃ seen done r,
        done <+: ((JobState.new a.job.targetKey a.job.chain).run ms).2 ∧
        Left h store a w₁ past seen done r := by
  have hrecorded := submit_recorded hclock hstored hw.atRest hsubmit hlast
  have hundisturbed := hmeanwhile.undisturbed hrecorded.stored hrecorded.rest ha
  obtain rfl : ((runJob h a).run { w₂ with waiting := before ++ after }).2 = w₃ := congrArg Prod.snd hrun
  obtain ⟨ms, r, hlived⟩ := hrecorded.lives hclock ha hundisturbed waits hsaved
  have havoids := ha.of_sameLinks hlived.account.points.cwd
    (hlived.account.points.disk ▸ hlived.account.points.whole.steady.links)
  have hpoints := (hlived.account.aside (hafter.undisturbed hlived.stored hlived.rest havoids)).points
  refine ⟨ms, hlived.ended, fun past hpast => ?_⟩
  obtain ⟨seen, done, r', hdone, hsnap⟩ := hpoints.points past hpast
  exact ⟨seen, done, r', hdone, hsnap.left hopen hrecorded hdone⟩

namespace Engine

/-- An input, and nothing else. -/
def firstInput : World := .new (Disk.empty.put ["1.dex"] (.file [1] false)) []

/-- The job of a single request that is run at once. -/
theorem record_mirrors_single : ∃ a w₁ w₃,
    (∀ n, ((idleHost "/store").time n).Dated) ∧ Reached (idleHost "/store") firstInput ∧
    Stored ⟨"/store"⟩ ["store"] firstInput ∧
    (submit (idleHost "/store") plainRequest).Succeeds firstInput () w₁ ∧ w₁.waiting = [] ++ [a] ∧
    Open ⟨"/store"⟩ ["store"] w₁ ∧ (idleHost "/store").Avoids ["store"] (· = a.job.targetKey) w₁ ∧
    (runJob (idleHost "/store") a).run { w₁ with waiting := [] ++ [] } = ((), w₃) ∧
    AllSaved (.of ⟨"/store"⟩ a.job.targetKey) w₁ w₃ ∧
    ∃ ms, ((JobState.new a.job.targetKey a.job.chain).run ms).1.outcome ≠ none ∧
      ∀ past, past <+: w₁.since w₃ → ∃ seen done r,
        done <+: ((JobState.new a.job.targetKey a.job.chain).run ms).2 ∧
        Left (idleHost "/store") ["store"] a w₁ past seen done r := by
  have hclock : ∀ n, ((idleHost "/store").time n).Dated := fun _ => rfl
  have hstored : Stored ⟨"/store"⟩ ["store"] firstInput :=
    .of_entries (firstInput.disk.put ["store"] .directory) (fun n hn => absurd hn List.not_mem_nil)
      (by decide +kernel) (by decide +kernel) rfl (by decide +kernel)
  have hdone : ((submit (idleHost "/store") plainRequest).settle.run firstInput).1 = .ok () := by
    decide +kernel
  have hlength : ((submit (idleHost "/store") plainRequest).settle.run firstInput).2.waiting.length = 1 := by
    decide +kernel
  have hdirs : ∀ n < 3, ((submit (idleHost "/store") plainRequest).settle.run firstInput).2.disk.find?
      (["store", "sources"].take n) = some .directory := by
    decide +kernel
  have hcalm : ∀ b ∈ ((submit (idleHost "/store") plainRequest).settle.run firstInput).2.waiting,
      ((World.recordsIn (((submit (idleHost "/store") plainRequest).settle.run firstInput).2.since
        ((runJob (idleHost "/store") b).run
          { ((submit (idleHost "/store") plainRequest).settle.run firstInput).2 with
            waiting := [] ++ [] }).2)).all fun r => r.level != .error) = true := by
    decide +kernel
  rcases hrun : (submit (idleHost "/store") plainRequest).settle.run firstInput with ⟨result, w₁⟩
  rw [hrun] at hdone hlength hdirs hcalm
  replace hdone : result = .ok () := hdone
  subst hdone
  obtain ⟨a, hlast⟩ : ∃ a, w₁.waiting = [] ++ [a] := List.length_eq_one_iff.mp hlength
  have hopen : Open ⟨"/store"⟩ ["store"] w₁ :=
    .of_plain (by decide +kernel) (by decide +kernel) (by decide +kernel) (by decide +kernel)
      (by decide +kernel) fun q hq => List.prefix_iff_eq_take.mp hq ▸
        hdirs q.length (Nat.lt_succ_of_le hq.length_le)
  have havoids : (idleHost "/store").Avoids ["store"] (· = a.job.targetKey) w₁ :=
    ⟨fun _ _ _ _ _ hp => absurd hp List.not_mem_nil, fun _ _ _ _ hs => absurd hs List.not_mem_nil⟩
  have hsaved : AllSaved (.of ⟨"/store"⟩ a.job.targetKey) w₁
      ((runJob (idleHost "/store") a).run { w₁ with waiting := [] ++ [] }).2 := by
    intro e he
    have hlevel := List.all_eq_true.mp (hcalm a (by rw [hlast]; exact List.mem_cons_self)) _
      (List.mem_filterMap.mpr ⟨_, he, rfl⟩)
    cases hlevel
  exact ⟨a, w₁, _, hclock, .new _ _, hstored, hrun, hlast, hopen, havoids, rfl, hsaved,
    record_mirrors hclock (.new _ _) hstored hrun hlast hopen havoids .refl hlast rfl hsaved .refl⟩

/-- A host whose tool writes over a record. -/
def meddlingHost : Host where
  settings := .forStorage ⟨"/store"⟩
  catalog := .complete 17
  memoryCeiling := 100
  interlude _ := []
  fault _ := none
  tool _ _ _ := ⟨[.writeFile ⟨"/store/sources/a/job.ron"⟩ (Text.encode "broken")], .error (.fatal "halted")⟩
  time n := .ofEpoch 0 n

/-- The tool of a job may write over the record of another one that waits. Every record was saved and the
storage has no links, but none is loaded. -/
theorem record_lost_to_tool : ∃ w w₁ v,
    (submit meddlingHost { plainRequest with targetKey := "b" }).Succeeds firstInput () w ∧
    (submit meddlingHost plainRequest).Succeeds w () w₁ ∧
    (runWaiting meddlingHost 1).run w₁ = ((), v) ∧
    ((World.recordsIn v.journal).all fun r => r.level != .error) = true ∧
    JobRecord.load v.disk v.cwd (.of ⟨"/store"⟩ "a") =
      .error (.parse (recordPath ⟨"/store"⟩ "a") "unreadable record") := by
  have hfacts :
      ((submit meddlingHost { plainRequest with targetKey := "b" }).settle.run firstInput).1 = .ok () ∧
      ((submit meddlingHost plainRequest).settle.run
        ((submit meddlingHost { plainRequest with targetKey := "b" }).settle.run firstInput).2).1 =
          .ok () ∧
      ((World.recordsIn ((runWaiting meddlingHost 1).run ((submit meddlingHost plainRequest).settle.run
        ((submit meddlingHost { plainRequest with targetKey := "b" }).settle.run
          firstInput).2).2).2.journal).all fun r => r.level != .error) = true ∧
      (let v := ((runWaiting meddlingHost 1).run ((submit meddlingHost plainRequest).settle.run
        ((submit meddlingHost { plainRequest with targetKey := "b" }).settle.run firstInput).2).2).2
      v.disk.read v.cwd (recordPath ⟨"/store"⟩ "a")) = .ok (Text.encode "broken") := by
    decide +kernel
  have hbroken : JobRecord.ofBytes (recordPath ⟨"/store"⟩ "a") (Text.encode "broken") =
      .error (.parse (recordPath ⟨"/store"⟩ "a") "unreadable record") := by
    decide +kernel
  rcases hfirst : (submit meddlingHost { plainRequest with targetKey := "b" }).settle.run firstInput
    with ⟨result, w⟩
  rw [hfirst] at hfacts
  obtain ⟨rfl, hfacts⟩ := hfacts
  rcases hsecond : (submit meddlingHost plainRequest).settle.run w with ⟨result, w₁⟩
  rw [hsecond] at hfacts
  obtain ⟨rfl, hcalm, hread⟩ := hfacts
  dsimp only at hcalm hread
  rcases hthird : (runWaiting meddlingHost 1).run w₁ with ⟨⟨⟩, v⟩
  rw [hthird] at hcalm hread
  refine ⟨w, w₁, v, hfirst, hsecond, hthird, hcalm, ?_⟩
  rw [JobRecord.load_eq hread, ← recordPath, hbroken]
  rfl

end Engine

end Decompile
