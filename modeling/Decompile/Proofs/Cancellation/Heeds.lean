import Decompile.Proofs.Exclusion.Holding

/-!
# Stages heed a wish to stop

Whether a job was asked to stop is looked up at a few places only. Between a place where it was not
and the attempt that is begun then, nothing can happen.

- `Asked`: a job was asked to stop, as the journal has it.
- `Heeds`: from one world to another the token of a job says whether it was asked, and no attempt is
  begun once it was.
- `heeds_poll`: a poll, and what is done on each answer.
- `runStage_heeds`: a stage heeds a wish to stop, whatever it works on and whatever comes of it.
-/

namespace Decompile

variable {h : Host}

/-- The job with the ticket was asked to stop before a world, or is in the entries that come after
it. -/
def Asked (key : String) (ticket : Nat) (w : World) (since : List Occurrence) : Prop :=
  w.registry.isCancelled ticket = true ∨ .happened (.cancel key) ∈ since

/-- No attempt of the ticket is begun in the entries once the job was asked to stop. -/
def Obeys (key : String) (ticket : Nat) (w : World) (since : List Occurrence) : Prop :=
  ∀ (past later : List Occurrence) (kind : StageKind) (chunk : Nat),
    since = past ++ .attempted ticket kind chunk :: later → ¬ Asked key ticket w past

/-- The entry neither begins an attempt of the ticket nor asks the job of the key to stop. -/
def Occurrence.isBeside (key : String) (ticket : Nat) (o : Occurrence) : Prop :=
  o ≠ .happened (.cancel key) ∧ ∀ kind chunk, o ≠ .attempted ticket kind chunk

section

variable {key : String} {ticket : Nat} {u v w : World} {a b : List Occurrence}

theorem Asked.append_iff (ha : v.registry.isCancelled ticket = true ↔ Asked key ticket w a) :
    Asked key ticket w (a ++ b) ↔ Asked key ticket v b := by
  unfold Asked at *
  rw [List.mem_append, ha, or_assoc]

/-- Where no attempt is begun none is begun too late. -/
theorem Obeys.of_forall (ha : ∀ kind chunk, .attempted ticket kind chunk ∉ a) :
    Obeys key ticket w a := by
  rintro past later kind chunk rfl
  exact absurd (List.mem_append_right _ List.mem_cons_self) (ha kind chunk)

theorem Obeys.append (ha : Obeys key ticket w a)
    (hv : v.registry.isCancelled ticket = true ↔ Asked key ticket w a)
    (hb : Obeys key ticket v b) : Obeys key ticket w (a ++ b) := by
  intro past later kind chunk heq
  rcases List.append_eq_append_iff.mp heq with ⟨more, rfl, hmore⟩ | ⟨more, rfl, hmore⟩
  · rw [Asked.append_iff hv]
    exact hb more later kind chunk hmore
  · cases more with
    | nil =>
      rw [List.append_nil] at hv
      have hnow := hb [] later kind chunk hmore.symm
      rw [← hv]
      exact fun hasked => hnow (.inl hasked)
    | cons o more =>
      obtain ⟨rfl, rfl⟩ := List.cons.inj hmore
      exact ha past more kind chunk rfl

end

/-- While the job holds its key, its token says whether it was asked to stop, and no attempt is begun
once it was. -/
structure Heeds (key : String) (ticket : Nat) (w v : World) : Prop where
  guards : Guards w v
  journal : ∃ new, v.journal = w.journal ++ new ∧
    (w.registry.Sound → w.registry.holder? key = some ticket →
      (v.registry.isCancelled ticket = true ↔ Asked key ticket w new) ∧ Obeys key ticket w new)

variable {key : String} {ticket : Nat}

namespace Heeds

variable {u v w : World}

theorem trans (hu : Heeds key ticket u v) (hv : Heeds key ticket v w) : Heeds key ticket u w := by
  obtain ⟨first, hfirst, hlaw₁⟩ := hu.journal
  obtain ⟨second, hsecond, hlaw₂⟩ := hv.journal
  refine ⟨hu.guards.trans hv.guards, first ++ second, ?_, fun hsound hheld => ?_⟩
  · rw [hsecond, hfirst, List.append_assoc]
  · obtain ⟨htoken₁, hobeys₁⟩ := hlaw₁ hsound hheld
    obtain ⟨htoken₂, hobeys₂⟩ := hlaw₂ (hu.guards.sound hsound) (hu.guards.held hheld)
    exact ⟨htoken₂.trans (Asked.append_iff htoken₁).symm, hobeys₁.append htoken₁ hobeys₂⟩

/-- Entries beside the matter follow, and no token changes. -/
theorem beside {late : List Occurrence} (hw : Heeds key ticket w v) (hg : Guards w u)
    (hjournal : u.journal = v.journal ++ late)
    (hlate : ∀ o ∈ late, o.isBeside key ticket)
    (htoken : u.registry.isCancelled ticket = v.registry.isCancelled ticket) :
    Heeds key ticket w u := by
  obtain ⟨new, hnew, hlaw⟩ := hw.journal
  refine ⟨hg, new ++ late, by rw [hjournal, hnew, List.append_assoc], fun hsound hheld => ?_⟩
  obtain ⟨hasked, hobeys⟩ := hlaw hsound hheld
  constructor
  · rw [htoken, Asked.append_iff hasked, Asked]
    refine ⟨.inl, fun hor => hor.resolve_right fun hmem => ?_⟩
    exact (hlate _ hmem).1 rfl
  · exact hobeys.append hasked (.of_forall fun kind chunk hmem => (hlate _ hmem).2 kind chunk rfl)

theorem refl (w : World) : Heeds key ticket w w where
  guards := Std.Refl.refl w
  journal := by
    refine ⟨[], (List.append_nil _).symm, fun _ _ => ⟨?_, .of_forall fun _ _ => List.not_mem_nil⟩⟩
    exact ⟨.inl, fun hor => hor.resolve_right List.not_mem_nil⟩

/-- Entries beside the matter, with nothing changed for those who hold keys. -/
theorem of_beside {late : List Occurrence} (hg : Guards w v)
    (hjournal : v.journal = w.journal ++ late) (hlate : ∀ o ∈ late, o.isBeside key ticket)
    (htoken : v.registry.isCancelled ticket = w.registry.isCancelled ticket) :
    Heeds key ticket w v :=
  (refl w).beside hg hjournal hlate htoken

/-- One entry beside the matter. -/
theorem of_note {o : Occurrence} (hjournal : v.journal = w.journal ++ [o])
    (ho : o.isBeside key ticket) (hregistry : v.registry = w.registry)
    (hwaiting : v.waiting = w.waiting) : Heeds key ticket w v :=
  of_beside (.of_eq hregistry hwaiting) hjournal (List.forall_mem_singleton.mpr ho) (by rw [hregistry])

/-- Neither the journal nor the registry changes. -/
theorem of_eq (hjournal : v.journal = w.journal) (hregistry : v.registry = w.registry)
    (hwaiting : v.waiting = w.waiting) : Heeds key ticket w v :=
  of_beside (.of_eq hregistry hwaiting) (hjournal.trans (List.append_nil _).symm)
    (fun _ ho => absurd ho List.not_mem_nil) (by rw [hregistry])

/-- Somebody is asked to stop. -/
theorem cancel {k : String} {said : List LogRecord} (hregistry : v.registry = w.registry.cancel k)
    (hwaiting : v.waiting = w.waiting)
    (hjournal : v.journal = w.journal ++ .happened (.cancel k) :: said.map .logged) :
    Heeds key ticket w v := by
  refine ⟨.cancel hregistry hwaiting, _, hjournal, fun hsound hheld => ⟨?_, .of_forall ?_⟩⟩
  · rw [hregistry, Registry.isCancelled_cancel, Asked, Bool.or_eq_true, beq_iff_eq]
    refine or_congr_right ⟨fun hk => ?_, fun hmem => ?_⟩
    · rw [hsound.key_unique hheld hk]
      exact List.mem_cons_self
    · rcases List.mem_cons.mp hmem with heq | hmem
      · obtain ⟨rfl⟩ : key = k := by injection heq with heq; injection heq
        exact hheld
      · obtain ⟨r, -, hr⟩ := List.mem_map.mp hmem
        cases hr
  · intro kind chunk hmem
    rcases List.mem_cons.mp hmem with heq | hmem
    · cases heq
    · obtain ⟨r, -, hr⟩ := List.mem_map.mp hmem
      cases hr

end Heeds

instance : Std.Refl (Heeds key ticket) := ⟨Heeds.refl⟩

instance : IsTrans World (Heeds key ticket) := ⟨fun _ _ _ => Heeds.trans⟩

/-! ## Moves -/

/-- A request heeds the wishes that others stop, if storing its record does. -/
theorem Engine.Submitted.heeds {s : Submission} {w v : World} {r : Except SubmitError Unit}
    (hs : Submitted h s w r v)
    (hfiles : ∀ u v, Moves h (fun _ => False) u v → Heeds key ticket u v) :
    Heeds key ticket w v := by
  have hg : Guards w v := hs.guards fun u v hm => (hfiles u v hm).guards
  have hsave : ∀ job : Job, Try.Keeps (Heeds key ticket)
      ((JobRecord.new job (h.time w.clock)).save h (.of h.settings.storage job.targetKey)) :=
    fun _ u => hfiles _ _ (JobRecord.save_moves _ _ u)
  have hclaim : ∀ {k t registry}, w.registry.claim k = some (t, registry) →
      Heeds key ticket w { w with registry, journal := w.journal ++ [.claimed k t] } :=
    fun claimed => .of_beside (.claim claimed) rfl
      (List.forall_mem_singleton.mpr ⟨nofun, nofun⟩) (Registry.isCancelled_of_claim claimed _)
  cases hs with
  | refused plan => exact .refl w
  | active plan held => exact .refl w
  | unsaved plan claimed save =>
    exact ((hclaim claimed).trans ((hsave _).of_run save)).beside hg rfl
      (List.forall_mem_singleton.mpr ⟨nofun, nofun⟩) (Registry.isCancelled_release _)
  | accepted plan claimed save said =>
    exact ((hclaim claimed).trans ((hsave _).of_run save)).beside hg rfl
      (List.forall_mem_singleton.mpr ⟨nofun, nofun⟩) rfl

/-- Moves that begin no attempt of a job heed the wish that it stops. -/
theorem Moves.heeds {N : Occurrence → Prop} (hN : ∀ kind chunk, ¬ N (.attempted ticket kind chunk))
    {w v : World} (hm : Moves h N w v) : Heeds key ticket w v := by
  refine hm.keep_answers (fun hsub _ _ hm hanswer => ?_)
    (fun hfiles s w => (Engine.submit_submitted s w).heeds hfiles)
    fun _ _ _ => .of_note rfl ⟨nofun, nofun⟩ rfl rfl
  cases hm with
  | tick => exact .of_eq rfl rfl rfl
  | cancel k said => exact .cancel rfl rfl rfl
  | answer s admitted => exact hanswer s admitted
  | attempt t kind chunk admitted =>
    refine .of_note rfl ⟨nofun, fun kind' chunk' heq => ?_⟩ rfl rfl
    obtain ⟨rfl, rfl, rfl⟩ : t = ticket ∧ kind = kind' ∧ chunk = chunk' := by simpa using heq
    exact hN kind chunk (hsub _ admitted)
  | aside o free =>
    refine .of_note rfl ⟨?_, ?_⟩ rfl rfl
    · rintro rfl
      cases free
    · rintro kind chunk rfl
      cases free
  | _ => exact .of_note rfl ⟨nofun, nofun⟩ rfl rfl

theorem Act.Keeps.heeds {α : Type} {x : Act α} (hx : Act.Keeps (Moves h fun _ => False) x) :
    Act.Keeps (Heeds key ticket) x :=
  hx.mono fun _ _ hm => hm.heeds fun _ _ => id

/-! ## Polls and attempts -/

/-- From a world in which the job was not asked to stop, the wish is heeded. -/
def HeedsOpen (key : String) (ticket : Nat) (w v : World) : Prop :=
  w.registry.isCancelled ticket = false → Heeds key ticket w v

/-- A poll, and what is done when the job has to stop and when it has not. -/
theorem heeds_poll {ε α : Type} {f : Bool → Try ε α}
    (hstop : Try.Keeps (Heeds key ticket) (f true))
    (hgo : Try.Keeps (HeedsOpen key ticket) (f false)) :
    Try.Keeps (Heeds key ticket) (liftM (pollCancelled h ticket) >>= f) := by
  intro w
  let v := ((World.pause h).run w).2
  have hpause : Heeds key ticket w v := World.pause_moves.heeds w
  have hrun : (Try.settle (liftM (pollCancelled h ticket) >>= f)).run w =
      (f (v.registry.isCancelled ticket)).settle.run v := rfl
  rw [hrun]
  cases hv : v.registry.isCancelled ticket with
  | true => exact hpause.trans (hstop v)
  | false => exact hpause.trans (hgo v hv)

/-- What leaves the registry alone may come before an attempt. -/
theorem heedsOpen_of_notice {ε α β : Type} {x : Act α} {f : α → Try ε β}
    (hx : Act.Keeps (fun w v => v.registry = w.registry ∧ Heeds key ticket w v) x)
    (hf : ∀ a, Try.Keeps (HeedsOpen key ticket) (f a)) :
    Try.Keeps (HeedsOpen key ticket) (liftM x >>= f) := by
  refine .lift_comp hx hf fun u v w hu hv hopen => ?_
  exact hu.2.trans (hv (by rw [hu.1, hopen]))

/-- An attempt that may fail, and what follows if it does not. -/
theorem heedsOpen_bind {ε α β : Type} {t : Try ε α} {f : α → Try ε β}
    (ht : Try.Keeps (HeedsOpen key ticket) t) (hf : ∀ a, Try.Keeps (Heeds key ticket) (f a)) :
    Try.Keeps (HeedsOpen key ticket) (t >>= f) := by
  intro w hopen
  have hfirst := ht w hopen
  rw [Try.run_settle_bind]
  rcases hrun : t.settle.run w with ⟨e | a, v⟩
  · rw [hrun] at hfirst
    exact hfirst
  · rw [hrun] at hfirst
    exact hfirst.trans (hf a v)

/-- An attempt, and what is done about its result. -/
theorem heedsOpen_of_tried {ε α β : Type} {t : Try StageError α}
    {f : Except StageError α → Try ε β} (ht : Try.Keeps (HeedsOpen key ticket) t)
    (hf : ∀ r, Try.Keeps (Heeds key ticket) (f r)) :
    Try.Keeps (HeedsOpen key ticket) (t.outcome >>= f) :=
  fun w hopen => (ht w hopen).trans (hf _ _)

theorem log_heeds {level : LogLevel} {target text : String} :
    Act.Keeps (fun w v => v.registry = w.registry ∧ Heeds key ticket w v)
      (World.log level target text) :=
  fun _ => ⟨rfl, .of_note rfl ⟨nofun, nofun⟩ rfl rfl⟩

theorem emit_heeds {k : String} {e : ProgressEvent} :
    Act.Keeps (fun w v => v.registry = w.registry ∧ Heeds key ticket w v) (World.emit k e) :=
  fun _ => ⟨rfl, .of_note rfl ⟨nofun, nofun⟩ rfl rfl⟩

/-! ## A stage -/

/-- What the work on a chunk may note: no attempt is begun. -/
def ofChunk : Occurrence → Prop
  | .called _ | .answered _ _ | .published _ _ => True
  | _ => False

theorem admits_ofChunk : Admits ofChunk key where
  call _ := trivial
  answer _ _ := trivial
  status _ _ := trivial

section

variable {c : StageContext}

theorem attempt_heeds (kind : StageKind) (index : Nat) (items : Items) (chunk : Chunk) :
    Try.Keeps (HeedsOpen key c.ticket) (attempt h c kind index items chunk) := by
  have hbegin : Act.Keeps (HeedsOpen key c.ticket)
      (World.note (.attempted c.ticket kind index)) := by
    refine fun w hopen => ⟨.of_eq rfl rfl, [.attempted c.ticket kind index], rfl, fun _ _ => ⟨?_, ?_⟩⟩
    · refine ⟨.inl, fun hor => hor.resolve_right fun hmem => ?_⟩
      cases List.mem_singleton.mp hmem
    · intro past later kind' chunk' heq
      cases past with
      | nil => exact fun hasked => by simp [Asked, hopen] at hasked
      | cons o past =>
        have hlen := congrArg List.length heq
        simp at hlen
  refine attempt_comp admits_ofChunk kind index items chunk hbegin fun u v w hu hv hopen => ?_
  exact (hu hopen).trans (hv.heeds fun _ _ => id)

theorem runChunk_heeds (kind : StageKind) (index : Nat) (items : Items) (chunk : Chunk) :
    ∀ (left : Nat) (failures : UInt32),
      Try.Keeps (HeedsOpen key c.ticket) (runChunk h c kind index items chunk left failures) := by
  intro left
  induction left with
  | zero =>
    intro failures
    unfold runChunk
    refine heedsOpen_of_tried (attempt_heeds kind index items chunk) fun r => ?_
    cases r with
    | ok _ => exact .pure _
    | error e =>
      refine .throwIf fun _ => heeds_poll (.throw _) fun w _ => ?_
      exact .refl w
  | succ left ih =>
    intro failures
    unfold runChunk
    refine heedsOpen_of_tried (attempt_heeds kind index items chunk) fun r => ?_
    cases r with
    | ok _ => exact .pure _
    | error e =>
      refine .throwIf fun _ => heeds_poll (.throw _) ?_
      refine heedsOpen_of_notice log_heeds fun _ => heedsOpen_of_notice emit_heeds fun _ => ?_
      exact ih (failures + 1)

theorem runChunks_heeds (kind : StageKind) (items : Items) (total : Nat) :
    ∀ (index left : Nat) (failures : UInt32) (chunks : List Chunk),
      Try.Keeps (Heeds key c.ticket) (runChunks h c kind items total index left failures chunks)
  | _, _, _, [] => .pure ()
  | index, left, failures, chunk :: rest => by
    unfold runChunks
    refine heeds_poll (.throw _) (heedsOpen_of_notice emit_heeds fun _ => ?_)
    refine heedsOpen_bind (runChunk_heeds kind index items chunk left failures) fun spent => ?_
    refine heeds_poll (.throw _) fun w _ => ?_
    exact runChunks_heeds kind items total (index + 1) spent.1 spent.2 rest w

theorem collectAndRun_heeds (kind : StageKind) :
    Try.Keeps (Heeds key c.ticket) (collectAndRun h c kind) := by
  unfold collectAndRun
  have hcollect : Try.Keeps (Heeds key c.ticket) (Items.collect h c kind) :=
    Act.Keeps.heeds (Items.collect_keep World.readBytes_moves c kind)
  refine hcollect.bind fun items => ?_
  have hitems : Try.Keeps (Heeds key c.ticket) (runItems h c kind items) :=
    runChunks_heeds kind items _ 0 _ 0 _
  exact hitems.bind fun _ => .pure items

/-- **A stage heeds a wish to stop**, whatever it works on and whatever comes of it. -/
theorem runStage_heeds (stage : Stage) :
    Act.Keeps (Heeds key c.ticket) (runStage h c stage) :=
  runStage_keep (fun _ _ hm => hm.heeds fun _ _ => id) (fun _ _ => .of_eq rfl rfl rfl)
    (fun _ _ => emit_heeds.mono fun _ _ hv => hv.2) (collectAndRun_heeds stage.kind)

end

end Decompile
