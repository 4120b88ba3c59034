import Decompile.Proofs.Act.StageMoves
import Decompile.Proofs.Protocol.Transcript

/-!
# What is told

- `publishedIn`: what a journal tells, with the keys.
- `Told`: from one world to another certain messages are told on a key, and no others on any key.
- `Progress`, `Quiet`: what is told are notices of progress, and in the end nothing is watched.
- `runStage_quiet`: between its two changes of state a stage tells of its progress only.
-/

namespace Decompile

variable {h : Host} {key : String}

namespace World

/-- The messages of a journal with their keys, oldest first. -/
def publishedIn (journal : List Occurrence) : List (String × BusMessage) :=
  journal.filterMap fun o =>
    match o with
    | .published key m => some (key, m)
    | _ => none

theorem publishedIn_append (a b : List Occurrence) :
    publishedIn (a ++ b) = publishedIn a ++ publishedIn b :=
  List.filterMap_append

theorem messagesOn_eq (key : String) (journal : List Occurrence) :
    messagesOn key journal =
      (publishedIn journal).filterMap fun x => if x.1 = key then some x.2 else none := by
  rw [messagesOn, publishedIn, List.filterMap_filterMap]
  congr 1
  funext o
  cases o <;> rfl

/-- When everything is told on one key, these are the messages on that key. -/
theorem messagesOn_of_publishedIn {journal : List Occurrence} {ms : List BusMessage}
    (hms : publishedIn journal = ms.map (Prod.mk key)) : messagesOn key journal = ms := by
  rw [messagesOn_eq, hms, List.filterMap_map]
  simp [Function.comp_def]

/-- There are none on any other key. -/
theorem messagesOn_of_ne {journal : List Occurrence} {ms : List BusMessage}
    (hms : publishedIn journal = ms.map (Prod.mk key)) {other : String} (hne : other ≠ key) :
    messagesOn other journal = [] := by
  rw [messagesOn_eq, hms, List.filterMap_map]
  simp [Function.comp_def, hne.symm]

end World

open World (publishedIn)

/-! ## Messages between two worlds -/

/-- From the one world to the other `ms` is told on `key`, and nothing else. Requests may have been
taken on meanwhile. -/
structure Told (h : Host) (key : String) (ms : List BusMessage) (w v : World) : Prop where
  journal : ∃ new, v.journal = w.journal ++ new ∧ publishedIn new = ms.map (Prod.mk key)
  waiting : ∃ more, v.waiting = w.waiting ++ more ∧ ∀ a ∈ more, a.Planned h

namespace Told

theorem refl (w : World) : Told h key [] w w where
  journal := ⟨[], (List.append_nil _).symm, rfl⟩
  waiting := ⟨[], (List.append_nil _).symm, fun _ ha => absurd ha List.not_mem_nil⟩

theorem append {ms more : List BusMessage} {u v w : World} (hu : Told h key ms u v)
    (hv : Told h key more v w) : Told h key (ms ++ more) u w := by
  obtain ⟨⟨new₁, hj₁, hp₁⟩, ⟨late₁, hw₁, hl₁⟩⟩ := hu
  obtain ⟨⟨new₂, hj₂, hp₂⟩, ⟨late₂, hw₂, hl₂⟩⟩ := hv
  constructor
  · refine ⟨new₁ ++ new₂, ?_, ?_⟩
    · rw [hj₂, hj₁, List.append_assoc]
    · rw [World.publishedIn_append, hp₁, hp₂, List.map_append]
  · refine ⟨late₁ ++ late₂, ?_, ?_⟩
    · rw [hw₂, hw₁, List.append_assoc]
    · exact List.forall_mem_append.mpr ⟨hl₁, hl₂⟩

/-- An entry of the journal that tells nothing. -/
theorem of_note {o : Occurrence} {w v : World} (hj : v.journal = w.journal ++ [o])
    (hw : v.waiting = w.waiting) (ho : publishedIn [o] = []) : Told h key [] w v where
  journal := ⟨[o], hj, ho⟩
  waiting := ⟨[], hw.trans (List.append_nil _).symm, fun _ ha => absurd ha List.not_mem_nil⟩

/-- Neither the journal nor the jobs that wait change. -/
theorem of_eq {w v : World} (hj : v.journal = w.journal) (hw : v.waiting = w.waiting) :
    Told h key [] w v where
  journal := ⟨[], hj.trans (List.append_nil _).symm, rfl⟩
  waiting := ⟨[], hw.trans (List.append_nil _).symm, fun _ ha => absurd ha List.not_mem_nil⟩

/-- One message is told. -/
theorem single {m : BusMessage} {w v : World} (hj : v.journal = w.journal ++ [.published key m])
    (hw : v.waiting = w.waiting) : Told h key [m] w v where
  journal := ⟨[.published key m], hj, rfl⟩
  waiting := ⟨[], hw.trans (List.append_nil _).symm, fun _ ha => absurd ha List.not_mem_nil⟩

end Told

/-! ## What a move tells -/

/-- A move tells nothing, or a message it is free to tell, or a reading of the memory that is
watched, or it answers a request. Only a reading touches the watch. -/
theorem Move.told {N : Occurrence → Prop} {w v : World} (hm : Move h N w v) :
    (v.monitor = w.monitor ∧ ∀ key, Told h key [] w v) ∨
    (∃ key m, N (.published key m) ∧ v.monitor = w.monitor ∧ Told h key [m] w v) ∨
    (∃ m percent, w.monitor = some m ∧ v.monitor = some (m.observe percent) ∧
      Told h m.key [.status m.key (.memory percent)] w v) ∨
    (∃ s, (∀ active r, N (.answered active r)) ∧ v = ((Work.answer h s).run w).2) := by
  cases hm with
  | tick => exact .inl ⟨rfl, fun _ => .of_eq rfl rfl⟩
  | change c => exact .inl ⟨rfl, fun _ => .of_note rfl rfl rfl⟩
  | call i admitted => exact .inl ⟨rfl, fun _ => .of_note rfl rfl rfl⟩
  | attempt ticket kind chunk admitted => exact .inl ⟨rfl, fun _ => .of_note rfl rfl rfl⟩
  | cancel k said =>
    refine .inl ⟨rfl, fun _ => ⟨⟨_, rfl, ?_⟩, [], (List.append_nil _).symm, by simp⟩⟩
    simp [publishedIn]
  | aside o free =>
    refine .inl ⟨rfl, fun _ => .of_note rfl rfl ?_⟩
    cases o with
    | published k m => cases free
    | _ => rfl
  | tell k m admitted => exact .inr (.inl ⟨k, m, admitted, rfl, .single rfl rfl⟩)
  | read m percent watched =>
    exact .inr (.inr (.inl ⟨m, percent, watched, rfl, .single rfl rfl⟩))
  | answer s admitted => exact .inr (.inr (.inr ⟨s, admitted, rfl⟩))

/-- From a world in which nothing is watched to one in which nothing is watched, nothing is told. -/
def Silent (h : Host) (w v : World) : Prop :=
  w.monitor = none → v.monitor = none ∧ ∀ key, Told h key [] w v

instance : Std.Refl (Silent h) := ⟨fun w hw => ⟨hw, fun _ => .refl w⟩⟩

instance : IsTrans World (Silent h) where
  trans _ _ _ hu hv hw := by
    obtain ⟨hidle, hfirst⟩ := hu hw
    obtain ⟨hidle', hsecond⟩ := hv hidle
    exact ⟨hidle', fun key => (hfirst key).append (hsecond key)⟩

/-- What tells nothing and leaves the watch alone is silent. -/
theorem Silent.of_told {w v : World} (hm : v.monitor = w.monitor)
    (ht : ∀ key, Told h key [] w v) : Silent h w v :=
  fun hw => ⟨hm.trans hw, ht⟩

/-- Unless something is watched, work that is free to tell nothing tells nothing. -/
theorem Moves.silent {w v : World} (hm : Moves h (fun _ => False) w v) : Silent h w v := by
  refine hm.keep fun w v hm hidle => ?_
  rcases hm.told with ⟨hmon, htold⟩ | ⟨k, m, hfree, -⟩ | ⟨m, percent, hwatched, -⟩ | ⟨s, hfree, -⟩
  · exact ⟨hmon.trans hidle, htold⟩
  · exact absurd hfree id
  · rw [hidle] at hwatched
    cases hwatched
  · exact absurd (hfree true none) id

/-- A job that is taken on is told to nobody. -/
theorem Told.accepted {a : Accepted} (ha : a.Planned h) (w : World) (said : LogRecord) :
    Told h key [] w
      { w with journal := w.journal ++ [.logged said], waiting := w.waiting ++ [a] } := by
  refine ⟨⟨[.logged said], rfl, rfl⟩, [a], rfl, fun b hb => ?_⟩
  rwa [List.mem_singleton.mp hb]

theorem Engine.submit_silent (s : Submission) : Try.Keeps (Silent h) (submit h s) :=
  fun w => (submit_submitted s w).keep (fun _ _ => Moves.silent)
    (fun _ _ _ _ => .of_told rfl fun _ => .of_note rfl rfl rfl)
    (fun _ _ _ => .of_told rfl fun _ => .of_note rfl rfl rfl)
    (fun u _ said ha => .of_told rfl fun _ => .accepted ha u said)

/-! ## Progress -/

/-- What is told are notices of progress. -/
def Progress (h : Host) (key : String) (w v : World) : Prop :=
  ∃ events : List ProgressEvent, (∀ e ∈ events, e.isProgress = true) ∧
    Told h key (events.map (.status key)) w v

theorem Progress.of_told {w v : World} (ht : Told h key [] w v) : Progress h key w v :=
  ⟨[], fun _ he => absurd he List.not_mem_nil, ht⟩

theorem Progress.single {e : ProgressEvent} (he : e.isProgress = true)
    {w v : World} (ht : Told h key [.status key e] w v) : Progress h key w v := by
  refine ⟨[e], fun x hx => ?_, ht⟩
  obtain rfl := List.mem_singleton.mp hx
  exact he

theorem Progress.trans {u v w : World} (hu : Progress h key u v) (hv : Progress h key v w) :
    Progress h key u w := by
  obtain ⟨first, hfirst, htold₁⟩ := hu
  obtain ⟨second, hsecond, htold₂⟩ := hv
  refine ⟨first ++ second, List.forall_mem_append.mpr ⟨hfirst, hsecond⟩, ?_⟩
  rw [List.map_append]
  exact htold₁.append htold₂

/-- What the work of a stage tells and notes. -/
def ofStage (key : String) : Occurrence → Prop
  | .called _ | .attempted _ _ _ | .answered _ _ => True
  | .published k m => k = key ∧ ∃ e : ProgressEvent, m = .status key e ∧ e.kind = .status
  | _ => False

theorem admits_ofStage : Admits (ofStage key) key where
  call _ := trivial
  answer _ _ := trivial
  status e he := ⟨rfl, e, rfl, he⟩

/-- Memory is watched for the key, if at all. -/
def WatchedFor (key : String) (w : World) : Prop := ∀ m, w.monitor = some m → m.key = key

/-- Progress is told, and who watches memory stays the same. -/
structure Works (h : Host) (key : String) (w v : World) : Prop where
  watched : WatchedFor key w → WatchedFor key v
  idle : w.monitor = none → v.monitor = none
  progress : WatchedFor key w → Progress h key w v

instance : Std.Refl (Works h key) := ⟨fun w => ⟨id, id, fun _ => .of_told (.refl w)⟩⟩

instance : IsTrans World (Works h key) where
  trans _ _ _ hu hv :=
    ⟨hv.watched ∘ hu.watched, hv.idle ∘ hu.idle,
      fun hw => (hu.progress hw).trans (hv.progress (hu.watched hw))⟩

/-- A move that leaves the watch alone. -/
theorem Works.of_progress {w v : World} (hm : v.monitor = w.monitor) (hp : Progress h key w v) :
    Works h key w v := by
  refine ⟨fun hw => ?_, fun hw => hm.trans hw, fun _ => hp⟩
  rwa [WatchedFor, hm]

/-- A move that is free to do what a stage does, if answers to requests keep to it too. -/
theorem Move.works {N : Occurrence → Prop} (hN : ∀ o, N o → ofStage key o) {w v : World}
    (hm : Move h N w v) (hanswer : ∀ s, (∀ active r, N (.answered active r)) →
      Works h key w ((Work.answer h s).run w).2) : Works h key w v := by
  rcases hm.told with ⟨hmon, htold⟩ | ⟨k, m, hfree, hmon, htold⟩ | ⟨m, percent, hw, hv, htold⟩ |
    ⟨s, hfree, rfl⟩
  · exact .of_progress hmon (.of_told (htold key))
  · obtain ⟨rfl, e, rfl, he⟩ := hN _ hfree
    exact .of_progress hmon (.single (by rw [ProgressEvent.isProgress, he]) htold)
  · refine ⟨fun hwatched n hn => ?_, fun hidle => ?_, fun hwatched => ?_⟩
    · obtain rfl := Option.some.inj (hv.symm.trans hn)
      exact hwatched m hw
    · rw [hw] at hidle
      cases hidle
    · obtain rfl : m.key = key := hwatched m hw
      exact .single rfl htold
  · exact hanswer s hfree

/-- What tells nothing and leaves the watch alone does so too. -/
theorem Works.of_told {w v : World} (hm : v.monitor = w.monitor) (ht : Told h key [] w v) :
    Works h key w v :=
  .of_progress hm (.of_told ht)

theorem Moves.works {w v : World} (hm : Moves h (ofStage key) w v) : Works h key w v :=
  hm.keep_answers (fun hN _ _ hm hanswer => hm.works hN hanswer)
    (fun hfiles s w => (Engine.submit_submitted s w).keep hfiles
      (fun _ _ _ _ => .of_told rfl (.of_note rfl rfl rfl))
      (fun _ _ _ => .of_told rfl (.of_note rfl rfl rfl))
      (fun u _ said ha => .of_told rfl (.accepted ha u said)))
    fun _ _ _ => .of_told rfl (.of_note rfl rfl rfl)

/-! ## A stage -/

/-- From a world in which nothing is watched to one in which nothing is watched, progress is told. -/
def Quiet (h : Host) (key : String) (w v : World) : Prop :=
  w.monitor = none → v.monitor = none ∧ Progress h key w v

instance : Std.Refl (Quiet h key) := ⟨fun w hw => ⟨hw, .of_told (.refl w)⟩⟩

instance : IsTrans World (Quiet h key) where
  trans _ _ _ hu hv hw := by
    obtain ⟨hidle, hfirst⟩ := hu hw
    obtain ⟨hidle', hsecond⟩ := hv hidle
    exact ⟨hidle', hfirst.trans hsecond⟩

theorem watchedFor_of_idle {w : World} (hw : w.monitor = none) : WatchedFor key w := by
  intro m hm
  rw [hw] at hm
  cases hm

theorem Works.quiet {w v : World} (hw : Works h key w v) : Quiet h key w v :=
  fun hidle => ⟨hw.idle hidle, hw.progress (watchedFor_of_idle hidle)⟩

/-- From a world in which memory may be watched for a key to one in which nothing is watched,
progress is told. -/
def EndsWatch (h : Host) (key : String) (w v : World) : Prop :=
  WatchedFor key w → v.monitor = none ∧ Progress h key w v

/-- Work done while memory is watched comes before what ends the watch. -/
theorem endsWatch_of_works {α β : Type} {x : Act α} {f : α → Try StageError β}
    (hx : Act.Keeps (Moves h (ofStage key)) x) (hf : ∀ a, Try.Keeps (EndsWatch h key) (f a)) :
    Try.Keeps (EndsWatch h key) (liftM x >>= f) := by
  refine .lift_comp hx hf fun u v w hu hv hwatched => ?_
  have hworks := hu.works
  obtain ⟨hidle, hprogress⟩ := hv (hworks.watched hwatched)
  exact ⟨hidle, (hworks.progress hwatched).trans hprogress⟩

variable {c : StageContext}

/-- Stopping to watch ends the watch. -/
theorem endsWatch_of_stop {β : Type} {f : Unit → Try StageError β}
    (hf : ∀ a, Try.Keeps (Quiet h key) (f a)) :
    Try.Keeps (EndsWatch h key) (liftM stopMonitor >>= f) := by
  have hstop : Act.Keeps (fun w v => v.monitor = none ∧ Told h key [] w v) stopMonitor :=
    fun w => ⟨rfl, .of_eq rfl rfl⟩
  refine .lift_comp hstop hf fun u v w hu hv _ => ?_
  obtain ⟨hidle, hprogress⟩ := hv hu.1
  exact ⟨hidle, (Progress.of_told hu.2).trans hprogress⟩

/-- A watch that begins is ended by what follows. -/
theorem quiet_of_start {β : Type} {f : Unit → Try StageError β}
    (hf : ∀ a, Try.Keeps (EndsWatch h c.job.targetKey) (f a)) :
    Try.Keeps (Quiet h c.job.targetKey) (liftM (startMonitor h c) >>= f) := by
  have hstart : Act.Keeps (fun w v => WatchedFor c.job.targetKey v ∧
      Told h c.job.targetKey [] w v) (startMonitor h c) := by
    refine fun w => ⟨fun m hm => ?_, .of_eq rfl rfl⟩
    obtain rfl := Option.some.inj hm
    rfl
  refine .lift_comp hstart hf fun u v w hu hv _ => ?_
  obtain ⟨hidle, hprogress⟩ := hv hu.1
  exact ⟨hidle, (Progress.of_told hu.2).trans hprogress⟩

theorem Act.Keeps.quiet {α : Type} {x : Act α} (hx : Act.Keeps (Moves h (ofStage key)) x) :
    Act.Keeps (Quiet h key) x :=
  hx.mono fun _ _ hm => hm.works.quiet

theorem Try.Keeps.quiet {ε α : Type} {t : Try ε α} (ht : Try.Keeps (Moves h (ofStage key)) t) :
    Try.Keeps (Quiet h key) t :=
  Act.Keeps.quiet ht

theorem runWatched_quiet (kind : StageKind) :
    Try.Keeps (Quiet h c.job.targetKey) (runWatched h c kind) := by
  have hwork : Try.Keeps (Moves h (ofStage c.job.targetKey)) (collectAndRun h c kind) :=
    collectAndRun_moves admits_ofStage (fun _ _ => trivial) kind
  unfold runWatched
  refine quiet_of_start fun _ => endsWatch_of_works World.pause_moves fun _ => ?_
  refine endsWatch_of_works hwork fun r => endsWatch_of_works World.pause_moves fun _ => ?_
  refine endsWatch_of_stop fun _ => ?_
  cases r with
  | error e => exact .throw e
  | ok items =>
    refine (finishOutput_moves c kind).quiet.bind fun _ => ?_
    split
    · refine (discardConsumed_moves c kind items).quiet.outcome.bind fun r => ?_
      cases r with
      | ok _ => exact .pure ()
      | error e => exact .lift (World.log_moves _ _ _).quiet
    · exact .pure ()

/-- **Between its two changes of state a stage tells of its progress only**, and leaves nothing
watched behind, whatever comes of it. -/
theorem runStage_quiet (c : StageContext) (stage : Stage) :
    Act.Keeps (Quiet h c.job.targetKey) (runStage h c stage) := by
  have hstarted : Act.Keeps (Quiet h c.job.targetKey) (World.emit c.job.targetKey
      ((ProgressEvent.status stage.kind.title "Started").withSecondary c.job.submission.label)) :=
    (World.emit_moves (admits_ofStage.status _ rfl)).quiet
  have hwork : Try.Keeps (Quiet h c.job.targetKey) (workOfStage h c stage.kind) := by
    unfold workOfStage
    exact (prepareOutput_moves c stage.kind).quiet.bind fun _ => runWatched_quiet stage.kind
  unfold runStage
  refine (World.log_moves _ _ _).quiet.bind fun _ => hstarted.bind fun _ => ?_
  refine hwork.settle.bind fun r => ?_
  split
  · exact (World.log_moves _ _ _).quiet.bind fun _ => .pure _
  · exact (World.log_moves _ _ _).quiet.bind fun _ => .pure _
  · exact (World.log_moves _ _ _).quiet.bind fun _ => .pure _

end Decompile
