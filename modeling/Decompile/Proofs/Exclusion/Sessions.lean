import Decompile.Proofs.Exclusion.Mutual

/-!
# Sessions are interleavings

The functions of the engine run one job after another, and the requests and wishes that come while a
tool runs. Whatever they do is a row of the small steps that jobs make at once.

- `Fleet.Reachable`, `Fleet.Waits`: fleets that steps lead to, and whose waiting jobs stand in line.
- `Interleaves`, `Drives`: what leads from one world to another is a row of steps, of others or of
  one of the jobs too.
- `Engine.Reached.interleaved`: every world that an engine can come to is that of such a fleet.
-/

namespace Decompile

variable {h : Host}

/-- The job stands in line. -/
def Stand.isQueued : Stand → Bool
  | .queued _ => true
  | _ => false

namespace Fleet

/-- Some steps lead to the fleet. -/
def Reachable (h : Host) (f : Fleet) : Prop :=
  ∃ (disk : Disk) (cwd : Place) (es : List Event), Run h (.new disk cwd) es f

/-- The jobs that wait stand in line, each once. -/
structure Waits (f : Fleet) : Prop where
  stands : ∀ a ∈ f.world.waiting, f.stand a.ticket = some (.queued a)
  once : (f.world.waiting.map Accepted.ticket).Nodup

/-- Every job but that of the ticket stands where it stood. -/
def Beside (ticket : Option Nat) (f g : Fleet) : Prop :=
  ∀ t s, some t ≠ ticket → f.stand t = some s → g.stand t = some s

theorem Reachable.step {f g : Fleet} {e : Event} (hf : Reachable h f) (hs : Step h f e g) :
    Reachable h g := by
  obtain ⟨disk, cwd, es, hrun⟩ := hf
  exact ⟨disk, cwd, es ++ [e], hrun.snoc hs⟩

/-- A ticket that was not given out belongs to no job. -/
theorem Reachable.stand_eq_none {f : Fleet} (hf : Reachable h f) {t : Nat}
    (ht : f.world.registry.nextTicket ≤ t) : f.stand t = none := by
  obtain ⟨disk, cwd, es, hrun⟩ := hf
  cases hs : f.stand t with
  | none => rfl
  | some s =>
    have hlt := (hrun.kept.stands t s hs).1
    omega

theorem Beside.trans {ticket : Option Nat} {f g k : Fleet} (hf : Beside ticket f g)
    (hg : Beside ticket g k) : Beside ticket f k :=
  fun t s ht hs => hg t s ht (hf t s ht hs)

theorem beside_move (f : Fleet) (ticket : Nat) (s : Stand) (w : World) :
    Beside (some ticket) f (f.move ticket s w) := by
  intro t s' ht hs
  rw [move_stand_of_ne f fun heq => ht (congrArg some heq)]
  exact hs

/-- A job that does not stand in line moves, and the same jobs wait. -/
theorem Waits.move {f : Fleet} (hf : f.Waits) {ticket : Nat} {s : Stand} {w : World}
    (hwaiting : w.waiting = f.world.waiting) (hs : ∀ a, f.stand ticket ≠ some (.queued a)) :
    (f.move ticket s w).Waits := by
  refine ⟨fun a ha => ?_, ?_⟩
  · have hqueued := hf.stands a (hwaiting ▸ ha)
    refine beside_move f ticket s w _ _ (fun heq => hs a ?_) hqueued
    rw [← Option.some.inj heq]
    exact hqueued
  · show (w.waiting.map Accepted.ticket).Nodup
    rw [hwaiting]
    exact hf.once

/-- The jobs stay as they stand, and the same jobs wait. -/
theorem Waits.stay {f : Fleet} (hf : f.Waits) {w : World} (hwaiting : w.waiting = f.world.waiting) :
    Waits ⟨w, f.stand⟩ := by
  refine ⟨fun a ha => hf.stands a (hwaiting ▸ ha), ?_⟩
  show (w.waiting.map Accepted.ticket).Nodup
  rw [hwaiting]
  exact hf.once

end Fleet

open Fleet

/-! ## What others do -/

/-- What leads from the one world to the other is a row of steps, in which the jobs that were taken
on before stay where they stand. -/
def Interleaves (h : Host) (w v : World) : Prop :=
  ∀ f : Fleet, Reachable h f → f.Waits → f.world = w →
    ∃ g : Fleet, Reachable h g ∧ g.Waits ∧ g.world = v ∧ Beside none f g

instance : Std.Refl (Interleaves h) :=
  ⟨fun _ f hf hwaits hw => ⟨f, hf, hwaits, hw, fun _ _ _ hs => hs⟩⟩

instance : IsTrans World (Interleaves h) where
  trans _ _ _ hu hv f hf hwaits hw := by
    obtain ⟨g, hg, hgwaits, hgworld, hbeside⟩ := hu f hf hwaits hw
    obtain ⟨k, hk, hkwaits, hkworld, hbeside'⟩ := hv g hg hgwaits hgworld
    exact ⟨k, hk, hkwaits, hkworld, hbeside.trans hbeside'⟩

namespace Interleaves

variable {w v : World}

/-- The registry stays as it is, and the same jobs wait. -/
theorem elsewhere (hregistry : v.registry = w.registry) (hwaiting : v.waiting = w.waiting) :
    Interleaves h w v := by
  rintro f hf hwaits rfl
  exact ⟨⟨v, f.stand⟩, hf.step (.elsewhere hregistry hwaiting), hwaits.stay hwaiting, rfl,
    fun _ _ _ hs => hs⟩

/-- Somebody is asked to stop. -/
theorem cancel {key : String} (hregistry : v.registry = w.registry.cancel key)
    (hwaiting : v.waiting = w.waiting) : Interleaves h w v := by
  obtain ⟨said, hsaid⟩ := World.run_cancel key w
  have hkept : ((Engine.cancelJob key).run w).2.waiting = w.waiting := by
    show ((World.cancel key).run w).2.waiting = w.waiting
    rw [hsaid]
  have hasked : Interleaves h w ((Engine.cancelJob key).run w).2 := by
    rintro f hf hwaits rfl
    exact ⟨⟨_, f.stand⟩, hf.step (.cancel key), hwaits.stay hkept, rfl, fun _ _ _ hs => hs⟩
  have hsame : Interleaves h ((Engine.cancelJob key).run w).2 v := by
    refine elsewhere ?_ (hwaiting.trans hkept.symm)
    show v.registry = ((World.cancel key).run w).2.registry
    rw [hsaid, hregistry]
  exact IsTrans.trans _ _ _ hasked hsame

end Interleaves

/-- What leads from the one world to the other is a row of steps, in which the job of the ticket
comes from one stand to another and all others that were taken on before stay where they stand. -/
def Drives (h : Host) (ticket : Nat) (s : Stand) (w : World) (s' : Stand) (v : World) : Prop :=
  ∀ f : Fleet, Reachable h f → f.Waits → f.world = w → f.stand ticket = some s →
    ∃ g : Fleet, Reachable h g ∧ g.Waits ∧ g.world = v ∧ g.stand ticket = some s' ∧
      Beside (some ticket) f g

namespace Drives

variable {ticket : Nat} {s s₁ s₂ : Stand} {w u v : World}

theorem refl : Drives h ticket s w s w :=
  fun f hf hwaits hw hs => ⟨f, hf, hwaits, hw, hs, fun _ _ _ hs => hs⟩

theorem trans (h₁ : Drives h ticket s w s₁ u) (h₂ : Drives h ticket s₁ u s₂ v) :
    Drives h ticket s w s₂ v := by
  intro f hf hwaits hw hs
  obtain ⟨g, hg, hgwaits, hgworld, hgs, hbeside⟩ := h₁ f hf hwaits hw hs
  obtain ⟨k, hk, hkwaits, hkworld, hks, hbeside'⟩ := h₂ g hg hgwaits hgworld hgs
  exact ⟨k, hk, hkwaits, hkworld, hks, hbeside.trans hbeside'⟩

/-- What others do leaves the job where it stands. -/
theorem of_interleaves (hi : Interleaves h w v) : Drives h ticket s w s v := by
  intro f hf hwaits hw hs
  obtain ⟨g, hg, hgwaits, hgworld, hbeside⟩ := hi f hf hwaits hw
  exact ⟨g, hg, hgwaits, hgworld, hbeside _ _ nofun hs, fun t s' _ => hbeside t s' nofun⟩

/-- One step of a job that does not stand in line. -/
theorem step (hstep : ∀ f : Fleet, f.world = w → f.stand ticket = some s →
      ∃ e, Step h f e (f.move ticket s' v)) (hs : s.isQueued = false)
    (hwaiting : v.waiting = w.waiting) : Drives h ticket s w s' v := by
  intro f hf hwaits hw hstand
  obtain ⟨e, he⟩ := hstep f hw hstand
  have hkept : (f.move ticket s' v).Waits := by
    refine hwaits.move (by rw [hwaiting, hw]) fun a ha => ?_
    rw [hstand] at ha
    rw [Option.some.inj ha] at hs
    cases hs
  exact ⟨_, hf.step he, hkept, rfl, move_stand_self f ticket s' v, beside_move f ticket s' v⟩

end Drives

/-- A job that is to store its record goes to do so. -/
theorem save_drives {job : Job} {record : JobRecord} {u v : World} {ticket : Nat}
    {r : Except PersistError Unit}
    (save : (record.save h (.of h.settings.storage job.targetKey)).settle.run u = (r, v)) :
    Drives h ticket (.claimed job record) u (standAfterSave job record r) v := by
  have hsave : Try.Keeps Idles (record.save h (.of h.settings.storage job.targetKey)) :=
    fun u => (JobRecord.save_moves _ _ u).idles
  refine .step (fun f hw hs => ?_) rfl (hsave.of_run save).waiting
  subst hw
  exact ⟨_, .save hs save⟩

/-- A request that claims its key and goes to store its record. -/
theorem Engine.claim_drives {s : Submission} {job : Job} {w u v : World} {ticket : Nat}
    {r : Except PersistError Unit} (plan : Job.plan s h.catalog.has = .ok job)
    (granted : (claim job.targetKey).settle.run w = (.ok ticket, u))
    (hwaiting : u.waiting = w.waiting)
    (save : ((JobRecord.new job (h.time u.clock)).save h
      (.of h.settings.storage job.targetKey)).settle.run u = (r, v))
    {f : Fleet} (hf : Reachable h f) (hwaits : f.Waits) (hw : f.world = w) :
    f.stand ticket = none ∧ ∃ g : Fleet, Reachable h g ∧ g.Waits ∧ g.world = v ∧
      g.stand ticket = some (standAfterSave job (.new job (h.time u.clock)) r) ∧
      Beside (some ticket) f g := by
  subst hw
  obtain ⟨registry, hclaimed, -⟩ := claim_granted granted
  have hnone : f.stand ticket = none :=
    hf.stand_eq_none (Nat.le_of_eq (Registry.claim_spec hclaimed).2.1.symm)
  have hclaim : Step h f (.claimed ticket job.targetKey)
      (f.move ticket (.claimed job (.new job (h.time u.clock))) u) := .claim plan granted
  have hkept : (f.move ticket (.claimed job (.new job (h.time u.clock))) u).Waits := by
    refine hwaits.move hwaiting fun a ha => ?_
    rw [hnone] at ha
    cases ha
  obtain ⟨g, hg, hgwaits, hgworld, hgs, hbeside⟩ :=
    save_drives save _ (hf.step hclaim) hkept rfl (move_stand_self ..)
  exact ⟨hnone, g, hg, hgwaits, hgworld, hgs, (beside_move _ _ _ _).trans hbeside⟩

/-- The job of a new ticket is not among those that were taken on before. -/
theorem Fleet.Beside.of_fresh {f g : Fleet} {ticket : Nat} (hnone : f.stand ticket = none)
    (hg : Beside (some ticket) f g) : Beside none f g := by
  intro t s _ hs
  refine hg t s (fun heq => ?_) hs
  rw [← Option.some.inj heq, hs] at hnone
  cases hnone

/-- A request is a claim, a record that is stored, and a place in line or a release. -/
theorem Engine.Submitted.interleaves {s : Submission} {w v : World} {r : Except SubmitError Unit}
    (hs : Submitted h s w r v) : Interleaves h w v := by
  cases hs with
  | refused plan => exact Std.Refl.refl w
  | active plan held => exact Std.Refl.refl w
  | @unsaved job plan ticket registry claimed e v save =>
    intro f hf hwaits hw
    obtain ⟨hnone, g, hg, hgwaits, hgworld, hgs, hbeside⟩ :=
      claim_drives plan (run_claim claimed) rfl save hf hwaits hw
    have hgone : Drives h ticket (.unsaved job) v .gone
        ((Engine.release job.targetKey ticket).run v).2 := by
      refine .step (fun f hw hs => ?_) rfl rfl
      subst hw
      exact ⟨_, .giveUp hs⟩
    obtain ⟨k, hk, hkwaits, hkworld, -, hbeside'⟩ := hgone g hg hgwaits hgworld hgs
    exact ⟨k, hk, hkwaits, hkworld, (hbeside.trans hbeside').of_fresh hnone⟩
  | @accepted job plan ticket registry claimed v save said =>
    intro f hf hwaits hw
    obtain ⟨hnone, g, hg, hgwaits, rfl, hgs, hbeside⟩ :=
      claim_drives plan (run_claim claimed) rfl save hf hwaits hw
    generalize ha : (⟨job, .new job (h.time w.clock), ticket⟩ : Accepted) = a
    replace hgs : g.stand a.ticket = some (.stored a.job a.record) := by rw [← ha]; exact hgs
    replace hbeside : Beside (some a.ticket) f g := by rw [← ha]; exact hbeside
    replace hnone : f.stand a.ticket = none := by rw [← ha]; exact hnone
    clear ha
    have hlined := hg.step (.enqueue hgs)
    have hsaid := hlined.step (.elsewhere (w := { g.world with
      journal := g.world.journal ++ [.logged said]
      waiting := g.world.waiting ++ [a] }) rfl rfl)
    have hlate := beside_move g a.ticket (.queued a)
      { g.world with waiting := g.world.waiting ++ [a] }
    have hne : ∀ b ∈ g.world.waiting, b.ticket ≠ a.ticket := by
      intro b hb heq
      have hstand := hgwaits.stands b hb
      rw [heq, hgs] at hstand
      cases hstand
    refine ⟨_, hsaid, ⟨fun b hb => ?_, ?_⟩, rfl, (hbeside.trans hlate).of_fresh hnone⟩
    · rcases List.mem_append.mp hb with hb | hb
      · exact hlate _ _ (fun heq => hne b hb (Option.some.inj heq)) (hgwaits.stands b hb)
      · obtain rfl := List.mem_singleton.mp hb
        exact move_stand_self ..
    · show ((g.world.waiting ++ [a]).map Accepted.ticket).Nodup
      rw [List.map_append]
      refine List.nodup_append.mpr ⟨hgwaits.once, List.nodup_singleton _, fun t ht t' ht' heq => ?_⟩
      obtain ⟨b, hb, rfl⟩ := List.mem_map.mp ht
      exact hne b hb (heq.trans (List.mem_singleton.mp ht'))

theorem Moves.interleaves {N : Occurrence → Prop} {w v : World} (hm : Moves h N w v) :
    Interleaves h w v := by
  refine hm.keep_answers (fun _ _ _ hm hanswer => ?_)
    (fun _ s w => (Engine.submit_submitted s w).interleaves) fun _ _ _ => .elsewhere rfl rfl
  cases hm with
  | cancel key said => exact .cancel rfl rfl
  | answer s admitted => exact hanswer s admitted
  | _ => exact .elsewhere rfl rfl

/-- A stage is a row of steps of others. -/
theorem runStage_interleaves (c : StageContext) (stage : Stage) :
    Act.Keeps (Interleaves h) (runStage h c stage) := by
  have hN : Admits (fun _ => True) c.job.targetKey :=
    ⟨fun _ => trivial, fun _ _ => trivial, fun _ _ => trivial⟩
  refine runStage_keep (fun _ _ hm => hm.interleaves) (fun _ _ => .elsewhere rfl rfl)
    (fun _ _ _ => .elsewhere rfl rfl) ?_
  exact Act.Keeps.mono (collectAndRun_moves hN (fun _ _ => trivial) stage.kind)
    fun _ _ hm => hm.interleaves

/-! ## What a job does -/

namespace Task

/-- A short action leaves the jobs that wait alone. -/
theorem perform_waiting (t : Task) {a : Action} (short : ∀ s, a ≠ .run s) (w : World) :
    ((t.perform h a).run w).2.waiting = w.waiting := by
  cases a with
  | run s => exact absurd rfl (short s)
  | record edit => exact (record_idles t edit w).waiting
  | _ => rfl

/-- An action is a step, or the begin of a stage, what others do meanwhile, and its result. -/
theorem perform_drives (t : Task) (a : Action) (todo : List Action) (w : World) :
    Drives h t.ticket (.working t (a :: todo)) w (.working ((t.perform h a).run w).1 todo)
      ((t.perform h a).run w).2 := by
  by_cases short : ∀ s, a ≠ .run s
  · refine .step (fun f hw hstand => ?_) rfl (t.perform_waiting short w)
    subst hw
    exact ⟨_, .act hstand short rfl⟩
  · obtain ⟨s, rfl⟩ : ∃ s, a = .run s := by simpa using short
    have hbegin : Drives h t.ticket (.working t (.run s :: todo)) w (.staging t s todo) w := by
      refine .step (fun f hw hstand => ?_) rfl rfl
      subst hw
      exact ⟨_, .start hstand⟩
    have hothers := runStage_interleaves (h := h) (t.context h) s w
    have hrun : (t.perform h (.run s)).run w =
        ({ t with queue := t.queue ++
            [.stageFinished s.ordinal ((runStage h (t.context h) s).run w).1] },
          ((runStage h (t.context h) s).run w).2) := rfl
    rw [hrun]
    generalize (runStage h (t.context h) s).run w = out at hothers ⊢
    obtain ⟨result, v⟩ := out
    have hreport : Drives h t.ticket (.staging t s todo) v
        (.working { t with queue := t.queue ++ [.stageFinished s.ordinal result] } todo) v := by
      refine .step (fun f hw hstand => ?_) rfl rfl
      subst hw
      exact ⟨_, .report hstand _⟩
    exact hbegin.trans ((Drives.of_interleaves hothers).trans hreport)

theorem performAll_drives : ∀ (as : List Action) (t : Task) (w : World),
    Drives h t.ticket (.working t as) w (.working ((t.performAll h as).run w).1 [])
      ((t.performAll h as).run w).2
  | [], _, _ => .refl
  | a :: as, t, w => by
    have hfirst := t.perform_drives (h := h) a as w
    obtain ⟨r, queue, hfst⟩ := t.perform_fst (h := h) a w
    have hrest := performAll_drives as ((t.perform h a).run w).1 ((t.perform h a).run w).2
    have hticket : ((t.perform h a).run w).1.ticket = t.ticket := by rw [hfst]
    rw [hticket] at hrest
    exact hfirst.trans hrest

/-- A message is taken, and its actions follow. -/
theorem step_drives (t : Task) {m : Message} {rest : List Message} (hq : t.queue = m :: rest)
    (w : World) :
    Drives h t.ticket (.working t []) w (.working ((t.step h m rest).run w).1 [])
      ((t.step h m rest).run w).2 := by
  rw [run_step]
  have hwaiting : ((World.pause h).run w).2.waiting = w.waiting := (World.pause_moves w).idles.waiting
  have hpoll : (pollCancelled h t.ticket).run w =
      (((World.pause h).run w).2.registry.isCancelled t.ticket, ((World.pause h).run w).2) := rfl
  generalize ((World.pause h).run w).2 = v at hwaiting hpoll ⊢
  obtain ⟨-, hticket, -⟩ := t.taken_eq (v.registry.isCancelled t.ticket) m rest
  have hall := performAll_drives (h := h)
    ((t.taken (v.registry.isCancelled t.ticket) m rest).2.flatMap
      (Effect.actions (t.taken (v.registry.isCancelled t.ticket) m rest).1.job))
    (t.taken (v.registry.isCancelled t.ticket) m rest).1 v
  rw [hticket] at hall
  refine Drives.trans (.step (fun f hw hstand => ?_) rfl hwaiting) hall
  subst hw
  exact ⟨_, .take hstand hq hpoll⟩

theorem runFor_drives (fuel : Nat) (t : Task) (w : World) :
    Drives h t.ticket (.working t []) w (.working ((t.runFor h fuel).run w).1 [])
      ((t.runFor h fuel).run w).2 := by
  induction fuel generalizing t w with
  | zero => exact .refl
  | succ fuel ih =>
    have hone := (t.runFor_fst (h := h) 1 w).2
    rw [runFor_succ] at hone ⊢
    cases hq : t.queue with
    | nil => exact .refl
    | cons m rest =>
      have hrest := ih ((t.step h m rest).run w).1 ((t.step h m rest).run w).2
      have hticket : ((t.step h m rest).run w).1.ticket = t.ticket := by
        rw [hq] at hone
        exact hone
      rw [hticket] at hrest
      exact (t.step_drives hq w).trans hrest

end Task

namespace Engine

/-- A job that waits begins, does all it has to do, and is dropped. -/
theorem runJob_interleaves {f : Fleet} (hf : Reachable h f) (hwaits : f.Waits)
    {before after : List Accepted} {a : Accepted} (waits : f.world.waiting = before ++ a :: after) :
    ∃ g : Fleet, Reachable h g ∧ g.Waits ∧
      g.world = ((runJob h a).run { f.world with waiting := before ++ after }).2 := by
  have hstand : f.stand a.ticket = some (.queued a) := hwaits.stands a (by simp [waits])
  have honce := hwaits.once
  rw [waits, List.map_append, List.map_cons] at honce
  have hother : ∀ b ∈ before ++ after, b.ticket ≠ a.ticket := by
    intro b hb heq
    refine (List.nodup_middle.mp honce).notMem ?_
    rw [← List.map_append, ← heq]
    exact List.mem_map_of_mem hb
  generalize hw : { f.world with waiting := before ++ after } = w
  have hbegun : Reachable h (f.move a.ticket (.working (.ofAccepted a) []) w) :=
    hw ▸ hf.step (.begin hstand waits)
  have hkept : (f.move a.ticket (.working (.ofAccepted a) []) w).Waits := by
    subst hw
    refine ⟨fun b hb => ?_, ?_⟩
    · rw [move_stand_of_ne f (hother b hb)]
      refine hwaits.stands b ?_
      rw [waits]
      exact ((List.sublist_cons_self a after).append_left before).subset hb
    · show ((before ++ after).map Accepted.ticket).Nodup
      rw [List.map_append]
      exact (List.nodup_middle.mp honce).of_cons
  obtain ⟨g, hg, hgwaits, hgworld, hgstand, -⟩ := Task.runFor_drives (h := h)
    (Task.ofAccepted a).messageBound (.ofAccepted a) w _ hbegun hkept rfl (move_stand_self ..)
  have hjob := (Task.runFor_fst (h := h) (Task.ofAccepted a).messageBound (.ofAccepted a) w).1
  generalize hran : ((Task.ofAccepted a).runFor h (Task.ofAccepted a).messageBound).run w = ran
    at hgworld hgstand hjob
  have hend : ((runJob h a).run w).2 = ((release a.job.targetKey a.ticket).run ran.2).2 := by
    rw [← hran]
    rfl
  have hdropped : Drives h a.ticket (.working ran.1 []) ran.2 .gone
      ((release a.job.targetKey a.ticket).run ran.2).2 := by
    refine .step (fun k hk hkstand => ?_) rfl rfl
    rw [← hk, show a.job.targetKey = ran.1.job.targetKey from congrArg Job.targetKey hjob.symm]
    exact ⟨_, .drop (.inl hkstand)⟩
  obtain ⟨k, hk, hkwaits, hkworld, -, -⟩ := hdropped g hg hgwaits hgworld hgstand
  exact ⟨k, hk, hkwaits, hkworld.trans hend.symm⟩

/-- **Sessions are interleavings.** Every world that an engine can come to is one that steps of jobs
lead to, with the jobs that wait in line. -/
theorem Reached.interleaved {w : World} (hw : Reached h w) :
    ∃ f : Fleet, Reachable h f ∧ f.Waits ∧ f.world = w := by
  have hgo : ∀ {w v : World}, (∃ f : Fleet, Reachable h f ∧ f.Waits ∧ f.world = w) →
      Interleaves h w v → ∃ f : Fleet, Reachable h f ∧ f.Waits ∧ f.world = v := by
    rintro w v ⟨f, hf, hwaits, hworld⟩ hi
    obtain ⟨g, hg, hgwaits, hgworld, -⟩ := hi f hf hwaits hworld
    exact ⟨g, hg, hgwaits, hgworld⟩
  have hsubmit : ∀ s, Try.Keeps (Interleaves h) (Engine.submit h s) :=
    fun s w => (submit_submitted s w).interleaves
  induction hw with
  | new disk cwd =>
    exact ⟨.new disk cwd, ⟨disk, cwd, [], .nil⟩,
      ⟨fun a ha => absurd ha List.not_mem_nil, List.nodup_nil⟩, rfl⟩
  | submit _ s ih => exact hgo ih (hsubmit s _)
  | resume _ ih => exact hgo ih (resumePending_keep (fun _ _ hm => hm.interleaves) hsubmit _)
  | @cancel w _ key ih =>
    obtain ⟨said, hsaid⟩ := World.run_cancel key w
    refine hgo ih ?_
    show Interleaves h w ((World.cancel key).run w).2
    rw [hsaid]
    exact .cancel rfl rfl
  | run _ waits ih =>
    obtain ⟨f, hf, hwaits, rfl⟩ := ih
    exact runJob_interleaves hf hwaits waits
  | subscribe _ key ih => exact hgo ih (.elsewhere rfl rfl)
  | drain _ id ih => exact hgo ih (.elsewhere rfl rfl)
  | unsubscribe _ id ih => exact hgo ih (.elsewhere rfl rfl)
  | pass _ ih => exact hgo ih (World.pause_moves (N := fun _ => False) _).interleaves
  | edit _ disk ih => exact hgo ih (.elsewhere rfl rfl)

end Engine

end Decompile
