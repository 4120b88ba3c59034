import Decompile.Engine.Resume
import Decompile.Proofs.Protocol.Run

/-!
# Sessions of an engine

- `Engine.Reached`: the worlds that an engine can come to, whatever is asked of it and in whatever
  order.
- `AtRest`, `Reached.atRest`: between two jobs nothing is watched, and every job that waits was
  planned.
-/

namespace Decompile

variable {h : Host}

/-- Nothing is watched, and every job that waits was planned. -/
structure AtRest (h : Host) (w : World) : Prop where
  idle : w.monitor = none
  planned : ∀ a ∈ w.waiting, a.Planned h

/-- A request that is planned keeps its own words, and gets the chain of the backend it names. -/
theorem Job.of_plan {s : Submission} {available : Backend → Bool} {j : Job}
    (hj : Job.plan s available = .ok j) :
    s.check = .ok () ∧ backendNamed s.backend = .ok j.backend ∧ available j.backend = true ∧
      j = ⟨s, j.backend, chainOf j.backend⟩ := by
  unfold Job.plan at hj
  cases hcheck : s.check with
  | error e =>
    rw [hcheck] at hj
    cases hj
  | ok _ =>
    cases hnamed : backendNamed s.backend with
    | error e =>
      rw [hcheck, hnamed] at hj
      cases hj
    | ok b =>
      rw [hcheck, hnamed] at hj
      replace hj : (chainIfAvailable b available >>= fun chain => .ok (⟨s, b, chain⟩ : Job)) =
        .ok j := hj
      by_cases hb : available b = true
      · rw [chainIfAvailable, if_pos hb] at hj
        cases hj
        exact ⟨rfl, rfl, hb, rfl⟩
      · rw [chainIfAvailable, if_neg hb] at hj
        cases hj

/-- A job has the key of its request. -/
theorem Job.targetKey_of_plan {s : Submission} {available : Backend → Bool} {j : Job}
    (hj : Job.plan s available = .ok j) : j.targetKey = s.targetKey := by
  obtain ⟨-, -, -, heq⟩ := Job.of_plan hj
  rw [heq]
  rfl

/-- The stages of a planned job know their positions. -/
theorem Accepted.Planned.positional {a : Accepted} (ha : a.Planned h) :
    Positional a.job.chain := by
  obtain ⟨s, hs⟩ := ha
  obtain ⟨-, -, -, hjob⟩ := Job.of_plan hs
  rw [hjob]
  exact positional_chainOf _

/-- What is told leaves an engine at rest, if it ends with nothing watched. -/
theorem AtRest.of_told {key : String} {ms : List BusMessage} {w v : World} (hw : AtRest h w)
    (ht : Told h key ms w v) (hv : v.monitor = none) : AtRest h v := by
  refine ⟨hv, fun a ha => ?_⟩
  obtain ⟨more, hmore, hplanned⟩ := ht.waiting
  rw [hmore] at ha
  rcases List.mem_append.mp ha with ha | ha
  · exact hw.planned a ha
  · exact hplanned a ha

theorem AtRest.of_silent {w v : World} (hw : AtRest h w) (hv : Silent h w v) : AtRest h v := by
  obtain ⟨hidle, htold⟩ := hv hw.idle
  exact hw.of_told (htold "") hidle

namespace Engine

theorem logAll_moves {N : Occurrence → Prop} :
    ∀ rs : List LogRecord, Act.Keeps (Moves h N) (logAll rs)
  | [] => .pure ()
  | r :: rs => by
    unfold logAll
    have hnote : Act.Keeps (Moves h N) (World.note (.logged r)) := fun _ => .single (.aside _ rfl)
    exact hnote.bind fun _ => logAll_moves rs

theorem findPending_moves {N : Occurrence → Prop} : Act.Keeps (Moves h N) (findPending h) := by
  unfold findPending
  exact Act.Keeps.get.bind fun w => (logAll_moves _).bind fun _ => .pure _

/-- What files and requests keep, resuming jobs keeps. -/
theorem resumePending_keep {R : World → World → Prop} [Std.Refl R] [IsTrans World R]
    (hfiles : ∀ u v, Moves h (fun _ => False) u v → R u v)
    (hsubmit : ∀ s, Try.Keeps R (submit h s)) : Act.Keeps R (resumePending h) := by
  have hall : ∀ rs : List JobRecord, Act.Keeps R (resubmitAll h rs) := by
    intro rs
    induction rs with
    | nil => exact .pure []
    | cons r rs ih =>
      unfold resubmitAll
      refine (hsubmit r.submission).settle.bind fun result => ?_
      cases result with
      | ok _ => exact ih.bind fun keys => .pure _
      | error e => exact ((World.log_moves _ _ _).mono hfiles).bind fun _ => ih
  unfold resumePending
  exact (findPending_moves.mono hfiles).bind fun rs => hall rs

theorem cancelJob_silent (key : String) : Act.Keeps (Silent h) (cancelJob key) := by
  intro w
  obtain ⟨said, hsaid⟩ := World.run_cancel key w
  show Silent h w ((World.cancel key).run w).2
  rw [hsaid]
  refine .of_told rfl fun _ => ⟨⟨_, rfl, ?_⟩, [], (List.append_nil _).symm, by simp⟩
  simp [World.publishedIn]

/-- The worlds that an engine can come to: requests are submitted, interrupted jobs resumed, jobs
asked to stop, jobs that wait run one after another in any order; listeners come, take their messages
and leave; and between all that time passes and others change the disk. -/
inductive Reached (h : Host) : World → Prop where
  | new (disk : Disk) (cwd : Place) : Reached h (.new disk cwd)
  | submit {w : World} (hw : Reached h w) (s : Submission) :
    Reached h ((submit h s).settle.run w).2
  | resume {w : World} (hw : Reached h w) : Reached h ((resumePending h).run w).2
  | cancel {w : World} (hw : Reached h w) (key : String) : Reached h ((cancelJob key).run w).2
  | run {w : World} (hw : Reached h w) {before after : List Accepted} {a : Accepted}
    (waits : w.waiting = before ++ a :: after) :
    Reached h ((runJob h a).run { w with waiting := before ++ after }).2
  | subscribe {w : World} (hw : Reached h w) (key : String) :
    Reached h ((World.subscribe key).run w).2
  | drain {w : World} (hw : Reached h w) (id : Nat) : Reached h ((World.drain id).run w).2
  | unsubscribe {w : World} (hw : Reached h w) (id : Nat) :
    Reached h ((World.unsubscribe id).run w).2
  | pass {w : World} (hw : Reached h w) : Reached h ((World.pause h).run w).2
  | edit {w : World} (hw : Reached h w) (disk : Disk) : Reached h { w with disk := disk }

/-- Between two jobs an engine is at rest. -/
theorem Reached.atRest {w : World} (hw : Reached h w) : AtRest h w := by
  induction hw with
  | new disk cwd => exact ⟨rfl, fun a ha => absurd ha List.not_mem_nil⟩
  | submit _ s ih => exact ih.of_silent (submit_silent s _)
  | resume _ ih => exact ih.of_silent (resumePending_keep (fun _ _ => Moves.silent) submit_silent _)
  | cancel _ key ih => exact ih.of_silent (cancelJob_silent key _)
  | subscribe _ key ih => exact ⟨ih.idle, ih.planned⟩
  | drain _ id ih => exact ⟨ih.idle, ih.planned⟩
  | unsubscribe _ id ih => exact ⟨ih.idle, ih.planned⟩
  | pass _ ih => exact ih.of_silent (World.pause_moves _).silent
  | edit _ disk ih => exact ⟨ih.idle, ih.planned⟩
  | @run w _ before after a waits ih =>
    have hrest : AtRest h { w with waiting := before ++ after } := by
      refine ⟨ih.idle, fun b hb => ih.planned b ?_⟩
      rw [waits]
      exact (List.sublist_cons_self a after).append_left before |>.subset hb
    have ha : a.Planned h := ih.planned a (by simp [waits])
    obtain ⟨ms, -, hidle, htold⟩ := runJob_tells ha.positional _ hrest.idle
    exact hrest.of_told htold hidle

/-- Running the jobs that wait, in order, is one way to go on. -/
theorem Reached.runWaiting {w : World} (hw : Reached h w) (fuel : Nat) :
    Reached h ((runWaiting h fuel).run w).2 := by
  induction fuel generalizing w with
  | zero => exact hw
  | succ fuel ih =>
    unfold Engine.runWaiting
    rw [Act.run_get_bind]
    cases hwaiting : w.waiting with
    | nil => exact hw
    | cons a rest =>
      have hwaits : w.waiting = [] ++ a :: rest := hwaiting
      have hrun := hw.run hwaits
      rw [List.nil_append] at hrun
      show Reached h ((Engine.runWaiting h fuel).run
        ((runJob h a).run { w with waiting := rest }).2).2
      exact ih hrun

end Engine

end Decompile
