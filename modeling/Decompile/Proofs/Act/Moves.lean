import Decompile.Proofs.Act.Keeps
import Decompile.Stage.Work
import Mathlib.Logic.Relation

/-!
# What the work does to a world

Everything that the engine does while it works on a stage, and everything that others do meanwhile,
is a row of small moves.

- `Occurrence.isAside`: what may be noted at any time.
- `Move`, `Moves`: one move, and a row of them.
- `pause_moves` and the lemmas after it: file operations and records are such rows.
- `Engine.Submitted`: what becomes of a request.
-/

namespace Decompile

/-- The entry says what was logged, or that memory was read. -/
def Occurrence.isAside : Occurrence → Bool
  | .logged _ | .happened (.sample _) => true
  | _ => false

/-- The job is one that a request was planned as. -/
def Accepted.Planned (h : Host) (a : Accepted) : Prop :=
  ∃ s, Job.plan s h.catalog.has = .ok a.job

/-- One move. What is told and noted, asides apart, is among what `N` admits; readings of the memory
that is watched are told whatever `N` says. -/
inductive Move (h : Host) (N : Occurrence → Prop) (w : World) : World → Prop where
  | tick : Move h N w { w with clock := w.clock + 1 }
  | change (c : Change) :
    Move h N w { w with disk := w.disk.apply c, journal := w.journal ++ [.changed c] }
  | aside (o : Occurrence) (free : o.isAside = true) :
    Move h N w { w with journal := w.journal ++ [o] }
  | call (i : Invocation) (admitted : N (.called i)) :
    Move h N w { w with journal := w.journal ++ [.called i] }
  | attempt (ticket : Nat) (kind : StageKind) (chunk : Nat)
    (admitted : N (.attempted ticket kind chunk)) :
    Move h N w { w with journal := w.journal ++ [.attempted ticket kind chunk] }
  | tell (key : String) (m : BusMessage) (admitted : N (.published key m)) :
    Move h N w { w with
      bus := w.bus.publish key m
      journal := w.journal ++ [.published key m] }
  | read (m : Monitor) (percent : Float) (watched : w.monitor = some m) :
    Move h N w { w with
      bus := w.bus.publish m.key (.status m.key (.memory percent))
      journal := w.journal ++ [.published m.key (.status m.key (.memory percent))]
      monitor := some (m.observe percent) }
  | cancel (key : String) (said : List LogRecord) :
    Move h N w { w with
      registry := w.registry.cancel key
      journal := w.journal ++ .happened (.cancel key) :: said.map .logged }
  /-- A request is answered while a tool runs. -/
  | answer (s : Submission) (admitted : ∀ active r, N (.answered active r)) :
    Move h N w ((Work.answer h s).run w).2

/-- A row of moves. -/
def Moves (h : Host) (N : Occurrence → Prop) : World → World → Prop :=
  Relation.ReflTransGen (Move h N)

namespace Moves

variable {h : Host} {N : Occurrence → Prop}

instance : Std.Refl (Moves h N) := ⟨fun _ => .refl⟩

instance : IsTrans World (Moves h N) := ⟨fun _ _ _ hu hv => Relation.ReflTransGen.trans hu hv⟩

theorem single {w v : World} (m : Move h N w v) : Moves h N w v := Relation.ReflTransGen.single m

/-- What every move keeps, a row of moves keeps. -/
theorem keep {R : World → World → Prop} [Std.Refl R] [IsTrans World R]
    (hR : ∀ w v, Move h N w v → R w v) {w v : World} (hm : Moves h N w v) : R w v := by
  induction hm with
  | refl => exact Std.Refl.refl w
  | tail _ m ih => exact IsTrans.trans _ _ _ ih (hR _ _ m)

/-- What little freedom allows, more of it allows too. -/
theorem mono {N' : Occurrence → Prop} (hN : ∀ o, N o → N' o) {w v : World} (hm : Moves h N w v) :
    Moves h N' w v := by
  refine hm.keep fun w v hm => .single ?_
  cases hm with
  | tick => exact .tick
  | change c => exact .change c
  | aside o free => exact .aside o free
  | call i admitted => exact .call i (hN _ admitted)
  | attempt ticket kind chunk admitted => exact .attempt ticket kind chunk (hN _ admitted)
  | tell key m admitted => exact .tell key m (hN _ admitted)
  | read m percent watched => exact .read m percent watched
  | cancel key said => exact .cancel key said
  | answer s admitted => exact .answer s fun active r => hN _ (admitted active r)

end Moves

variable {h : Host} {N : Occurrence → Prop}

/-! ## Moments -/

namespace World

theorem log_moves (level : LogLevel) (target text : String) :
    Act.Keeps (Moves h N) (log level target text) :=
  fun _ => .single (.aside _ rfl)

theorem change_moves (c : Change) : Act.Keeps (Moves h N) (change c) :=
  fun _ => .single (.change c)

theorem emit_moves {key : String} {e : ProgressEvent}
    (admitted : N (.published key (.status key e))) : Act.Keeps (Moves h N) (emit key e) :=
  fun _ => .single (.tell key _ admitted)

theorem sample_moves (used : UInt64) : Act.Keeps (Moves h N) (sample h used) := by
  intro w
  unfold sample
  rw [Act.run_get_bind]
  cases hm : w.monitor with
  | none => exact .refl
  | some m =>
    let percent := percentUsed used h.memoryCeiling
    have hread : Moves h N w _ := .single (.read m percent hm)
    have hwarn : Act.Keeps (Moves h N)
        (if (m.observe percent).tripped && !m.tripped then
          log .warn "decaf_engine::memory"
            ("Memory above threshold for " ++ countText (m.observe percent).watch.streak.toNat ++
              " consecutive samples")
        else pure ()) := by
      split
      · exact log_moves _ _ _
      · exact .pure ()
    exact hread.trans (hwarn _)

/-- Asking a job to stop says so in the log if there is one. -/
theorem run_cancel (key : String) (w : World) :
    ∃ said : List LogRecord, ((cancel key).run w).2 =
      { w with registry := w.registry.cancel key, journal := w.journal ++ said.map .logged } := by
  unfold cancel
  rw [Act.run_get_bind]
  split
  · exact ⟨[⟨.info, "decaf_engine::runner", "Cancellation requested for " ++ key⟩], rfl⟩
  · refine ⟨[], ?_⟩
    rw [List.map_nil, List.append_nil]
    rfl

theorem happen_moves (x : Happening) : Act.Keeps (Moves h N) (happen h x) := by
  cases x with
  | cancel key =>
    intro w
    obtain ⟨said, hsaid⟩ := run_cancel key { w with journal := w.journal ++ [.happened (.cancel key)] }
    show Moves h N w ((cancel key).run _).2
    rw [hsaid, List.append_assoc]
    exact .single (.cancel key said)
  | sample used =>
    have hnote : Act.Keeps (Moves h N) (note (.happened (.sample used))) :=
      fun _ => .single (.aside _ rfl)
    exact hnote.bind fun _ => sample_moves used

theorem happenAll_moves : ∀ xs : List Happening, Act.Keeps (Moves h N) (happenAll h xs)
  | [] => .pure ()
  | x :: xs => by
    unfold happenAll
    exact (happen_moves x).bind fun _ => happenAll_moves xs

/-- A moment passes. -/
theorem pause_moves : Act.Keeps (Moves h N) (pause h) := by
  intro w
  have htick : Moves h N w _ := .single .tick
  exact htick.trans (happenAll_moves (h.interlude w.clock) _)

theorem run_now (w : World) : (now h).run w = (h.time w.clock, w) := rfl

theorem now_reads : Act.Reads (now h) := fun _ => rfl

theorem isCancelled_reads (ticket : Nat) : Act.Reads (isCancelled ticket) := fun _ => rfl

theorem isTripped_reads : Act.Reads isTripped := by
  intro w
  unfold isTripped
  rw [Act.run_get_bind]
  cases w.monitor <;> rfl

/-! ## Files -/

theorem access_moves : Try.Keeps (Moves h N) (access h) := by
  unfold access
  refine .bind (.lift pause_moves) fun _ => .bind .get fun w => ?_
  cases h.fault w.clock with
  | some e => exact .throw e
  | none => exact .pure ()

theorem run_plan {α : Type} (f : Disk → Place → Except IoError α) (w : World) :
    (plan f).settle.run w = (f w.disk w.cwd, w) := by
  have hget : (Try.settle (MonadState.get : Try IoError World)).run w = (.ok w, w) := rfl
  unfold plan
  rw [Try.run_settle_bind, hget]
  cases hf : f w.disk w.cwd with
  | ok a =>
    simp only [hf]
    rfl
  | error e =>
    simp only [hf]
    rfl

theorem plan_moves {α : Type} (f : Disk → Place → Except IoError α) :
    Try.Keeps (Moves h N) (plan f) := by
  unfold plan
  refine .bind .get fun w => ?_
  cases f w.disk w.cwd with
  | ok a => exact .pure a
  | error e => exact .throw e

theorem pathExists_reads (p : FilePath) : Act.Reads (pathExists p) := fun _ => rfl

theorem isDirectory_reads (p : FilePath) : Act.Reads (isDirectory p) := fun _ => rfl

theorem isFile_reads (p : FilePath) : Act.Reads (isFile p) := fun _ => rfl

theorem readBytes_moves (p : FilePath) : Try.Keeps (Moves h N) (readBytes h p) := by
  unfold readBytes
  exact access_moves.bind fun _ => plan_moves _

theorem listDirectory_moves (p : FilePath) : Try.Keeps (Moves h N) (listDirectory h p) := by
  unfold listDirectory
  exact access_moves.bind fun _ => plan_moves _

/-- A change that a plan comes to. -/
theorem planned_change_moves (f : Disk → Place → Except IoError Change) :
    Try.Keeps (Moves h N) (do access h; change (← plan f)) :=
  access_moves.bind fun _ => (plan_moves f).bind fun c => .lift (change_moves c)

theorem makeDirectory_moves (p : FilePath) : Try.Keeps (Moves h N) (makeDirectory h p) :=
  planned_change_moves _

theorem makeEach_moves : ∀ ps : List FilePath, Try.Keeps (Moves h N) (makeEach h ps)
  | [] => .pure ()
  | p :: ps => by
    unfold makeEach
    refine (makeDirectory_moves p).outcome.bind fun r => ?_
    cases r with
    | ok _ => exact .bind (.pure ()) fun _ => makeEach_moves ps
    | error e =>
      refine .bind (.lift (isDirectory_reads p).keeps) fun there => ?_
      split
      · exact makeEach_moves ps
      · exact (Try.Keeps.throw e).bind fun _ => makeEach_moves ps

theorem makeLowest_moves :
    ∀ missing ps : List FilePath, Try.Keeps (Moves h N) (makeLowest h missing ps)
  | missing, [] => .pure missing
  | missing, p :: above => by
    unfold makeLowest
    refine (makeDirectory_moves p).outcome.bind fun r => ?_
    cases r with
    | ok _ => exact .pure missing
    | error e =>
      show Try.Keeps _ (ite _ _ _)
      split
      · exact makeLowest_moves (p :: missing) above
      · refine .bind (.lift (isDirectory_reads p).keeps) fun there => ?_
        split
        · exact .pure missing
        · exact .throw e

theorem makeDirectories_moves (p : FilePath) : Try.Keeps (Moves h N) (makeDirectories h p) := by
  unfold makeDirectories
  exact (makeLowest_moves _ _).bind fun missing => makeEach_moves missing

theorem createFile_moves (p : FilePath) (executable : Bool) :
    Try.Keeps (Moves h N) (createFile h p executable) := by
  unfold createFile
  refine access_moves.bind fun _ => (plan_moves _).bind fun c => ?_
  exact .bind (.lift (change_moves c)) fun _ => .pure c.place

theorem appendTo_moves (place : Place) (more : Bytes) :
    Try.Keeps (Moves h N) (appendTo h place more) := by
  unfold appendTo
  exact access_moves.bind fun _ => .lift (change_moves _)

theorem writeFile_moves (p : FilePath) (contents : Bytes) :
    Try.Keeps (Moves h N) (writeFile h p contents) := by
  unfold writeFile
  exact (createFile_moves p false).bind fun place => appendTo_moves place contents

theorem replaceFile_moves (p : FilePath) (contents : Bytes) :
    Try.Keeps (Moves h N) (replaceFile h p contents) :=
  planned_change_moves _

theorem removeFile_moves (p : FilePath) : Try.Keeps (Moves h N) (removeFile h p) :=
  planned_change_moves _

theorem changeAll_moves : ∀ cs : List Change, Try.Keeps (Moves h N) (changeAll h cs)
  | [] => .pure ()
  | c :: cs => by
    unfold changeAll
    exact access_moves.bind fun _ => .bind (.lift (change_moves c)) fun _ => changeAll_moves cs

theorem removeTree_moves (p : FilePath) : Try.Keeps (Moves h N) (removeTree h p) := by
  unfold removeTree
  exact (plan_moves _).bind fun cs => changeAll_moves cs

theorem ifPresent_moves {t : Try IoError Unit} (ht : Try.Keeps (Moves h N) t) :
    Try.Keeps (Moves h N) (ifPresent t) := by
  unfold ifPresent
  refine ht.outcome.bind fun r => ?_
  cases r with
  | ok _ => exact .pure ()
  | error e =>
    show Try.Keeps _ (ite _ _ _)
    split
    · exact .pure ()
    · exact .throw e

theorem copyFile_moves (source target : FilePath) :
    Try.Keeps (Moves h N) (copyFile h source target) := by
  unfold copyFile
  refine access_moves.bind fun _ => (plan_moves _).bind fun found => ?_
  obtain ⟨place, entry⟩ := found
  cases entry with
  | file contents executable =>
    refine (createFile_moves target executable).bind fun copy => ?_
    exact (readBytes_moves source).bind fun bytes => appendTo_moves copy bytes
  | directory => exact .throw _
  | link _ => exact .throw _

theorem ensureDirectory_moves (dir : FilePath) :
    Try.Keeps (Moves h N) (ensureDirectory h dir) := by
  unfold ensureDirectory
  refine .bind (.lift (pathExists_reads dir).keeps) fun there => ?_
  split
  · refine .bind (.lift (isDirectory_reads dir).keeps) fun fits => ?_
    split
    · exact .throw _
    · exact .pure ()
  · exact (makeDirectories_moves dir).mapError

theorem store_moves (dir : FilePath) (name : String) (contents : Bytes) :
    Try.Keeps (Moves h N) (store h dir name contents) := by
  unfold store
  refine (ensureDirectory_moves dir).bind fun _ => ?_
  exact (replaceFile_moves _ contents).mapError.bind fun _ => .pure _

end World

/-! ## Records, markers and requests -/

theorem Target.markStarted_moves (dir : FilePath) :
    Try.Keeps (Moves h N) (markStarted h dir) := by
  unfold markStarted
  refine (World.store_moves dir startedMarker []).bind fun _ => ?_
  exact (World.ifPresent_moves (World.removeFile_moves _)).mapError

theorem Target.markComplete_moves (dir : FilePath) :
    Try.Keeps (Moves h N) (markComplete h dir) := by
  unfold markComplete
  exact (World.store_moves dir completeMarker []).bind fun _ => .pure ()

theorem JobRecord.save_moves (l : Layout) (r : JobRecord) :
    Try.Keeps (Moves h N) (r.save h l) := by
  unfold save
  exact (World.store_moves l.root recordName _).bind fun _ => .pure ()

namespace Engine

/-- What becomes of a request: it is turned down, or its key is claimed, its record is stored, and
it waits to be run. A record that cannot be stored costs it its key again. -/
inductive Submitted (h : Host) (s : Submission) (w : World) :
    Except SubmitError Unit → World → Prop where
  | refused {e : ConfigurationError} (plan : Job.plan s h.catalog.has = .error e) :
    Submitted h s w (.error (.configuration e)) w
  | active {job : Job} (plan : Job.plan s h.catalog.has = .ok job)
    (held : w.registry.claim job.targetKey = none) :
    Submitted h s w (.error (.alreadyActive job.targetKey)) w
  | unsaved {job : Job} (plan : Job.plan s h.catalog.has = .ok job) {ticket : Nat}
    {registry : Registry} (claimed : w.registry.claim job.targetKey = some (ticket, registry))
    {e : PersistError} {v : World}
    (save : ((JobRecord.new job (h.time w.clock)).save h
      (.of h.settings.storage job.targetKey)).settle.run
        { w with registry, journal := w.journal ++ [.claimed job.targetKey ticket] } =
          (.error e, v)) :
    Submitted h s w (.error (.persist e))
      { v with
        registry := v.registry.release job.targetKey ticket
        journal := v.journal ++ [.released job.targetKey ticket] }
  | accepted {job : Job} (plan : Job.plan s h.catalog.has = .ok job) {ticket : Nat}
    {registry : Registry} (claimed : w.registry.claim job.targetKey = some (ticket, registry))
    {v : World}
    (save : ((JobRecord.new job (h.time w.clock)).save h
      (.of h.settings.storage job.targetKey)).settle.run
        { w with registry, journal := w.journal ++ [.claimed job.targetKey ticket] } = (.ok (), v))
    (said : LogRecord) :
    Submitted h s w (.ok ())
      { v with
        journal := v.journal ++ [.logged said]
        waiting := v.waiting ++ [⟨job, .new job (h.time w.clock), ticket⟩] }

/-- A key that is free is claimed. -/
theorem run_claim {key : String} {w : World} {ticket : Nat} {registry : Registry}
    (claimed : w.registry.claim key = some (ticket, registry)) :
    (claim key).settle.run w =
      (.ok ticket, { w with registry, journal := w.journal ++ [.claimed key ticket] }) := by
  have hget : (Try.settle (MonadState.get : Try SubmitError World)).run w = (.ok w, w) := rfl
  unfold claim
  rw [Try.run_settle_bind, hget]
  simp only [claimed]
  rfl

theorem run_claim_of_none {key : String} {w : World} (held : w.registry.claim key = none) :
    (claim key).settle.run w = (.error (.alreadyActive key), w) := by
  have hget : (Try.settle (MonadState.get : Try SubmitError World)).run w = (.ok w, w) := rfl
  unfold claim
  rw [Try.run_settle_bind, hget]
  simp only [held]
  rfl

theorem submit_submitted (s : Submission) (w : World) :
    Submitted h s w ((submit h s).settle.run w).1 ((submit h s).settle.run w).2 := by
  unfold submit accept
  rw [Try.run_settle_bind]
  cases hplan : Job.plan s h.catalog.has with
  | error e => exact .refused hplan
  | ok job =>
    simp only [Try.run_settle_bind (claim job.targetKey)]
    cases hclaim : w.registry.claim job.targetKey with
    | none =>
      rw [run_claim_of_none hclaim]
      exact .active hplan hclaim
    | some granted =>
      obtain ⟨ticket, registry⟩ := granted
      rw [run_claim hclaim]
      simp only [Try.run_settle_lift_bind, Try.run_settle_outcome_bind, World.run_now]
      rcases hsave : ((JobRecord.new job (h.time w.clock)).save h
        (.of h.settings.storage job.targetKey)).settle.run
          { w with registry, journal := w.journal ++ [.claimed job.targetKey ticket] }
        with ⟨e | u, v⟩
      · exact .unsaved hplan hclaim hsave
      · exact .accepted hplan hclaim hsave _

/-- What its steps keep, a request keeps. -/
theorem Submitted.keep {R : World → World → Prop} [Std.Refl R] [IsTrans World R]
    {s : Submission} {w v : World} {r : Except SubmitError Unit} (hs : Submitted h s w r v)
    (hfiles : ∀ u v, Moves h (fun _ => False) u v → R u v)
    (hclaim : ∀ (u : World) (key : String) (ticket : Nat) (registry : Registry),
      R u { u with registry, journal := u.journal ++ [.claimed key ticket] })
    (hrelease : ∀ (u : World) (key : String) (ticket : Nat), R u ((release key ticket).run u).2)
    (haccept : ∀ (u : World) (a : Accepted) (said : LogRecord), a.Planned h →
      R u { u with journal := u.journal ++ [.logged said], waiting := u.waiting ++ [a] }) :
    R w v := by
  have hsave : ∀ job : Job, Try.Keeps R ((JobRecord.new job (h.time w.clock)).save h
      (.of h.settings.storage job.targetKey)) := fun _ u => hfiles _ _ (JobRecord.save_moves _ _ u)
  cases hs with
  | refused plan => exact Std.Refl.refl w
  | active plan held => exact Std.Refl.refl w
  | unsaved plan claimed save =>
    exact IsTrans.trans _ _ _ (hclaim _ _ _ _) (IsTrans.trans _ _ _ ((hsave _).of_run save) (hrelease _ _ _))
  | accepted plan claimed save said =>
    exact IsTrans.trans _ _ _ (hclaim _ _ _ _)
      (IsTrans.trans _ _ _ ((hsave _).of_run save) (haccept _ _ said ⟨s, plan⟩))

end Engine

/-- An answer is noted, whatever it is. -/
theorem Work.note_answer_keep {R : World → World → Prop} {active : Bool}
    (hnote : ∀ active r, Act.Keeps R (World.note (.answered active r)))
    (r : Except SubmitError Unit) :
    Act.Keeps R (match r with
      | .ok () => World.note (.answered active none)
      | .error e => World.note (.answered active (some e))) := by
  cases r with
  | ok _ => exact hnote _ _
  | error e => exact hnote _ _

/-- What requests keep and what telling their answer keeps, an answer keeps. -/
theorem Work.answer_keep {R : World → World → Prop} [IsTrans World R] {s : Submission}
    (hsubmit : Act.Keeps R (Engine.submit h s).settle)
    (hnote : ∀ active r, Act.Keeps R (World.note (.answered active r))) :
    Act.Keeps R (answer h s) := by
  exact fun w => hsubmit.bind (fun r => note_answer_keep hnote r) w

/-- What moves keep that answer nothing, and requests of which that is known, rows of all moves
keep. -/
theorem Moves.keep_answers {R : World → World → Prop} [Std.Refl R] [IsTrans World R]
    (hmove : ∀ {N' : Occurrence → Prop}, (∀ o, N' o → N o) → ∀ w v, Move h N' w v →
      (∀ s, (∀ active r, N' (.answered active r)) → R w ((Work.answer h s).run w).2) → R w v)
    (hsubmit : (∀ u v, Moves h (fun _ => False) u v → R u v) → ∀ s,
      Try.Keeps R (Engine.submit h s))
    (hnote : ∀ active r, Act.Keeps R (World.note (.answered active r))) {w v : World}
    (hm : Moves h N w v) : R w v := by
  -- a row of moves that is free for nothing answers nothing
  have hfiles : ∀ u v, Moves h (fun _ => False) u v → R u v := fun u v hm =>
    hm.keep fun w v hm => hmove (fun _ hno => absurd hno id) w v hm fun _ hno =>
      absurd (hno true none) id
  exact hm.keep fun w v hm => hmove (fun _ => id) w v hm fun s _ =>
    Work.answer_keep (hsubmit hfiles s) hnote w

end Decompile
