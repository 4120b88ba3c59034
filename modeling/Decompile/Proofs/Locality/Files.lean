import Decompile.Proofs.Act.Moments

/-!
# Runs and the moments they live through

What a run comes to depends on its host only at the moments it lives through: at another host that is
the same at these, it is the same run.

- `Host.Coincides`: two hosts are the same between two moments, but for their tools.
- `Act.Coincides`, `Try.Coincides`: a program takes no time back, and is the same at both hosts if it is
  over in time; `bind` and the lemmas after it put programs together.
- `Host.Coincides.pause`, `access` and the lemmas after them: moments, and operations on files.
-/

namespace Decompile

variable {a b : Nat} {α β ε ε' : Type}

/-- Between the two moments the hosts are the same, but for their tools. -/
structure Host.Coincides (h k : Host) (a b : Nat) : Prop where
  settings : k.settings = h.settings
  catalog : k.catalog = h.catalog
  ceiling : k.memoryCeiling = h.memoryCeiling
  interlude : ∀ n, a ≤ n → n < b → k.interlude n = h.interlude n
  fault : ∀ n, a ≤ n → n ≤ b → k.fault n = h.fault n
  time : ∀ n, a ≤ n → n ≤ b → k.time n = h.time n

/-- The first action takes no time back. If it does not begin before the one moment and is over by the
other, the second one is the same. -/
def Act.Coincides (a b : Nat) (x y : Act α) : Prop :=
  ∀ w, w.clock ≤ (x.run w).2.clock ∧ (a ≤ w.clock → (x.run w).2.clock ≤ b → y.run w = x.run w)

/-- The same of actions that may fail. -/
def Try.Coincides (a b : Nat) (t t' : Try ε α) : Prop := Act.Coincides a b t.settle t'.settle

namespace Act.Coincides

/-- An action that does not ask the host. -/
theorem refl {x : Act α} (hx : ∀ w, w.clock ≤ (x.run w).2.clock) : Act.Coincides a b x x :=
  fun w => ⟨hx w, fun _ _ => rfl⟩

theorem of_reads {x : Act α} (hx : x.Reads) : Act.Coincides a b x x :=
  .refl fun w => Nat.le_of_eq (congrArg World.clock (hx w)).symm

theorem pure (v : α) : Act.Coincides a b (Pure.pure v) (Pure.pure v) :=
  .refl fun _ => Nat.le_refl _

theorem bind {x y : Act α} {f g : α → Act β} (hx : Act.Coincides a b x y)
    (hf : ∀ v, Act.Coincides a b (f v) (g v)) : Act.Coincides a b (x >>= f) (y >>= g) := by
  intro w
  obtain ⟨hfirst, hsame⟩ := hx w
  obtain ⟨hsecond, hsame'⟩ := hf (x.run w).1 (x.run w).2
  refine ⟨Nat.le_trans hfirst hsecond, fun hafter hover => ?_⟩
  rw [run_bind] at hover ⊢
  have hrun := hsame hafter (Nat.le_trans hsecond hover)
  rw [run_bind, hrun]
  exact hsame' (Nat.le_trans hafter hfirst) hover

/-- What is asked about the world, and how it goes on after the answer. -/
theorem get_bind {f g : World → Act β} (hf : ∀ w, Act.Coincides a b (f w) (g w)) :
    Act.Coincides a b ((MonadState.get : Act World) >>= f) ((MonadState.get : Act World) >>= g) :=
  fun w => hf w w

end Act.Coincides

namespace Try.Coincides

variable {t t' : Try ε α}

theorem settle (h : Try.Coincides a b t t') : Act.Coincides a b t.settle t'.settle := h

theorem refl (ht : ∀ w, w.clock ≤ (t.settle.run w).2.clock) : Try.Coincides a b t t :=
  Act.Coincides.refl ht

theorem lift {x y : Act α} (h : Act.Coincides a b x y) :
    Try.Coincides a b (liftM x : Try ε α) (liftM y) := by
  intro w
  obtain ⟨hclock, hsame⟩ := h w
  refine ⟨hclock, fun hafter hover => ?_⟩
  have hrun := hsame hafter hover
  exact congrArg (fun r : α × World => (Except.ok r.1, r.2)) hrun

theorem outcome (h : Try.Coincides a b t t') :
    Try.Coincides a b (t.outcome : Try ε' _) t'.outcome :=
  lift h

theorem mapError {f : ε → ε'} (h : Try.Coincides a b t t') :
    Try.Coincides a b (t.mapError f) (t'.mapError f) := by
  intro w
  obtain ⟨hclock, hsame⟩ := h w
  refine ⟨hclock, fun hafter hover => ?_⟩
  have hrun := hsame hafter hover
  exact congrArg (fun r : Except ε α × World => (r.1.mapError f, r.2)) hrun

theorem bind {f g : α → Try ε β} (ht : Try.Coincides a b t t')
    (hf : ∀ v, Try.Coincides a b (f v) (g v)) : Try.Coincides a b (t >>= f) (t' >>= g) := by
  intro w
  obtain ⟨hfirst, hsame⟩ := ht w
  rw [run_settle_bind]
  rcases hrun : t.settle.run w with ⟨e | v, u⟩
  · rw [hrun] at hfirst hsame
    refine ⟨hfirst, fun hafter hover => ?_⟩
    rw [run_settle_bind, hsame hafter hover]
  · rw [hrun] at hfirst hsame
    obtain ⟨hsecond, hsame'⟩ := hf v u
    refine ⟨Nat.le_trans hfirst hsecond, fun hafter hover => ?_⟩
    rw [run_settle_bind, hsame hafter (Nat.le_trans hsecond hover)]
    exact hsame' (Nat.le_trans hafter hfirst) hover

theorem pure (v : α) : Try.Coincides a b (Pure.pure v : Try ε α) (Pure.pure v) :=
  .refl fun _ => Nat.le_refl _

theorem throw (e : ε) :
    Try.Coincides a b (MonadExcept.throw e : Try ε α) (MonadExcept.throw e) :=
  .refl fun _ => Nat.le_refl _

theorem get_bind {f g : World → Try ε α} (hf : ∀ w, Try.Coincides a b (f w) (g w)) :
    Try.Coincides a b ((MonadState.get : Try ε World) >>= f)
      ((MonadState.get : Try ε World) >>= g) :=
  fun w => hf w w

/-- The actions fail at once on a condition, and go on otherwise. -/
theorem throwIf {p : Prop} [Decidable p] {e : ε} {f g : Unit → Try ε α}
    (hf : ∀ u, Try.Coincides a b (f u) (g u)) :
    Try.Coincides a b (if p then MonadExcept.throw e >>= f else f ())
      (if p then MonadExcept.throw e >>= g else g ()) := by
  split
  · exact (throw e).bind hf
  · exact hf ()

/-- The actions go one of two ways, together. -/
theorem branch {p : Prop} [Decidable p] {s s' : Try ε α} (hs : Try.Coincides a b s s')
    (ht : Try.Coincides a b t t') :
    Try.Coincides a b (if p then s else t) (if p then s' else t') := by
  split
  · exact hs
  · exact ht

end Try.Coincides

/-! ## What is not up to the host -/

namespace World

theorem note_coincides (o : Occurrence) : Act.Coincides a b (note o) (note o) :=
  .refl fun _ => Nat.le_refl _

theorem log_coincides (level : LogLevel) (target text : String) :
    Act.Coincides a b (log level target text) (log level target text) :=
  note_coincides _

theorem publish_coincides (key : String) (m : BusMessage) :
    Act.Coincides a b (publish key m) (publish key m) :=
  .refl fun _ => Nat.le_refl _

theorem change_coincides (c : Change) : Act.Coincides a b (change c) (change c) :=
  .refl fun _ => Nat.le_refl _

theorem plan_coincides {α : Type} (f : Disk → Place → Except IoError α) :
    Try.Coincides a b (plan f) (plan f) :=
  .refl fun w => Nat.le_of_eq (congrArg (fun r => r.2.clock) (run_plan f w)).symm

theorem ifPresent_coincides {t t' : Try IoError Unit} (ht : Try.Coincides a b t t') :
    Try.Coincides a b (ifPresent t) (ifPresent t') := by
  unfold ifPresent
  refine ht.outcome.bind fun r => ?_
  cases r with
  | ok _ => exact .pure ()
  | error e => exact .branch (.pure ()) (.throw e)

end World

namespace Host.Coincides

variable {h k : Host} (H : h.Coincides k a b)
include H

/-! ## Moments -/

theorem happen (x : Happening) : Act.Coincides a b (World.happen h x) (World.happen k x) := by
  have hsame : World.happen k x = World.happen h x := by
    unfold World.happen World.sample
    rw [H.ceiling]
  rw [hsame]
  exact .refl fun w => Nat.le_of_eq (World.happen_clock x w).symm

theorem happenAll (xs : List Happening) :
    Act.Coincides a b (World.happenAll h xs) (World.happenAll k xs) := by
  induction xs with
  | nil => exact .pure ()
  | cons x xs ih =>
    unfold World.happenAll
    exact (H.happen x).bind fun _ => ih

/-- A moment passes. -/
theorem pause : Act.Coincides a b (World.pause h) (World.pause k) := by
  intro w
  rw [World.pause_clock]
  refine ⟨Nat.le_succ _, fun hafter hover => ?_⟩
  show (World.happenAll k (k.interlude w.clock)).run { w with clock := w.clock + 1 } = _
  rw [H.interlude _ hafter hover]
  refine (H.happenAll (h.interlude w.clock) _).2 (Nat.le_succ_of_le hafter) ?_
  rw [World.happenAll_clock]
  exact hover

/-- A file operation begins. -/
theorem access : Try.Coincides a b (World.access h) (World.access k) := by
  unfold World.access
  refine .bind (.lift H.pause) fun _ w => ?_
  rw [Try.run_settle_get_bind, Try.run_settle_get_bind]
  constructor
  · cases h.fault w.clock <;> exact Nat.le_refl _
  · intro hafter hover
    have hintime : w.clock ≤ b := by
      cases hfault : h.fault w.clock with
      | some e | none =>
        rw [hfault] at hover
        exact hover
    rw [H.fault _ hafter hintime]

theorem now : Act.Coincides a b (World.now h) (World.now k) := by
  intro w
  refine ⟨Nat.le_refl _, fun hafter hover => ?_⟩
  replace hover : w.clock ≤ b := hover
  rw [World.run_now, World.run_now, H.time _ hafter hover]

/-! ## Operations on files -/

theorem planned {α : Type} (f : Disk → Place → Except IoError α) :
    Try.Coincides a b (do World.access h; World.plan f) (do World.access k; World.plan f) :=
  H.access.bind fun _ => World.plan_coincides f

theorem planned_change (f : Disk → Place → Except IoError Change) :
    Try.Coincides a b (do World.access h; World.change (← World.plan f))
      (do World.access k; World.change (← World.plan f)) :=
  H.access.bind fun _ => (World.plan_coincides f).bind fun c => .lift (World.change_coincides c)

theorem readBytes (p : FilePath) : Try.Coincides a b (World.readBytes h p) (World.readBytes k p) :=
  H.planned _

theorem listDirectory (p : FilePath) :
    Try.Coincides a b (World.listDirectory h p) (World.listDirectory k p) :=
  H.planned _

theorem makeDirectory (p : FilePath) :
    Try.Coincides a b (World.makeDirectory h p) (World.makeDirectory k p) :=
  H.planned_change _

theorem makeEach : ∀ ps : List FilePath,
    Try.Coincides a b (World.makeEach h ps) (World.makeEach k ps)
  | [] => .pure ()
  | p :: ps => by
    unfold World.makeEach
    refine (H.makeDirectory p).outcome.bind fun r => ?_
    cases r with
    | ok _ => exact .bind (.pure ()) fun _ => makeEach ps
    | error e =>
      refine .bind (.lift (.of_reads (World.isDirectory_reads p))) fun there => ?_
      split
      · exact makeEach ps
      · exact (Try.Coincides.throw e).bind fun _ => makeEach ps

theorem makeLowest : ∀ missing ps : List FilePath,
    Try.Coincides a b (World.makeLowest h missing ps) (World.makeLowest k missing ps)
  | missing, [] => .pure missing
  | missing, p :: above => by
    unfold World.makeLowest
    refine (H.makeDirectory p).outcome.bind fun r => ?_
    cases r with
    | ok _ => exact .pure missing
    | error e =>
      refine .branch (makeLowest (p :: missing) above) ?_
      refine .bind (.lift (.of_reads (World.isDirectory_reads p))) fun there => ?_
      exact .branch (.pure missing) (.throw e)

theorem makeDirectories (p : FilePath) :
    Try.Coincides a b (World.makeDirectories h p) (World.makeDirectories k p) := by
  unfold World.makeDirectories
  exact (H.makeLowest _ _).bind fun missing => H.makeEach missing

theorem createFile (p : FilePath) (executable : Bool) :
    Try.Coincides a b (World.createFile h p executable) (World.createFile k p executable) := by
  unfold World.createFile
  refine H.access.bind fun _ => (World.plan_coincides _).bind fun c => ?_
  exact .bind (.lift (World.change_coincides c)) fun _ => .pure c.place

theorem appendTo (place : Place) (more : Bytes) :
    Try.Coincides a b (World.appendTo h place more) (World.appendTo k place more) := by
  unfold World.appendTo
  exact H.access.bind fun _ => .lift (World.change_coincides _)

theorem writeFile (p : FilePath) (contents : Bytes) :
    Try.Coincides a b (World.writeFile h p contents) (World.writeFile k p contents) := by
  unfold World.writeFile
  exact (H.createFile p false).bind fun place => H.appendTo place contents

theorem replaceFile (p : FilePath) (contents : Bytes) :
    Try.Coincides a b (World.replaceFile h p contents) (World.replaceFile k p contents) :=
  H.planned_change _

theorem removeFile (p : FilePath) :
    Try.Coincides a b (World.removeFile h p) (World.removeFile k p) :=
  H.planned_change _

theorem changeAll : ∀ cs : List Change,
    Try.Coincides a b (World.changeAll h cs) (World.changeAll k cs)
  | [] => .pure ()
  | c :: cs => by
    unfold World.changeAll
    exact H.access.bind fun _ => .bind (.lift (World.change_coincides c)) fun _ => changeAll cs

theorem removeTree (p : FilePath) :
    Try.Coincides a b (World.removeTree h p) (World.removeTree k p) := by
  unfold World.removeTree
  exact (World.plan_coincides _).bind fun cs => H.changeAll cs

theorem copyFile (source target : FilePath) :
    Try.Coincides a b (World.copyFile h source target) (World.copyFile k source target) := by
  unfold World.copyFile
  refine H.access.bind fun _ => (World.plan_coincides _).bind fun found => ?_
  obtain ⟨_, entry⟩ := found
  cases entry with
  | file contents executable =>
    refine (H.createFile target executable).bind fun place => ?_
    exact (H.readBytes source).bind fun bytes => H.appendTo place bytes
  | directory => exact .throw _
  | link _ => exact .throw _

theorem ensureDirectory (dir : FilePath) :
    Try.Coincides a b (World.ensureDirectory h dir) (World.ensureDirectory k dir) := by
  unfold World.ensureDirectory
  refine .bind (.lift (.of_reads (World.pathExists_reads dir))) fun there => .branch ?_ ?_
  · refine .bind (.lift (.of_reads (World.isDirectory_reads dir))) fun fits => ?_
    exact .throwIf fun _ => .pure ()
  · exact (H.makeDirectories dir).mapError

theorem store (dir : FilePath) (name : String) (contents : Bytes) :
    Try.Coincides a b (World.store h dir name contents) (World.store k dir name contents) := by
  unfold World.store
  refine (H.ensureDirectory dir).bind fun _ => ?_
  exact (H.replaceFile _ contents).mapError.bind fun _ => .pure _

/-! ## Records, markers and requests -/

theorem markStarted (dir : FilePath) :
    Try.Coincides a b (Target.markStarted h dir) (Target.markStarted k dir) := by
  unfold Target.markStarted
  refine (H.store dir _ []).bind fun _ => ?_
  exact (World.ifPresent_coincides (H.removeFile _)).mapError

theorem markComplete (dir : FilePath) :
    Try.Coincides a b (Target.markComplete h dir) (Target.markComplete k dir) := by
  unfold Target.markComplete
  exact (H.store dir _ []).bind fun _ => .pure ()

theorem save (r : JobRecord) (l : Layout) : Try.Coincides a b (r.save h l) (r.save k l) := by
  unfold JobRecord.save
  exact (H.store l.root recordName _).bind fun _ => .pure ()

theorem accept (s : Submission) :
    Try.Coincides a b (Engine.accept h s) (Engine.accept k s) := by
  have hclaim : ∀ key, Try.Coincides a b (Engine.claim key) (Engine.claim key) := fun key =>
    .refl fun w => Nat.le_of_eq <| by
      cases hclaim : w.registry.claim key with
      | none => exact (congrArg (fun r => r.2.clock) (Engine.run_claim_of_none hclaim)).symm
      | some granted => exact (congrArg (fun r => r.2.clock) (Engine.run_claim hclaim)).symm
  unfold Engine.accept
  rw [H.catalog, H.settings]
  cases Job.plan s h.catalog.has with
  | error e => exact .throw _
  | ok job =>
    refine (hclaim job.targetKey).bind fun ticket => .bind (.lift H.now) fun time => ?_
    refine (H.save _ _).outcome.bind fun r => ?_
    cases r with
    | error e => exact .bind (.lift (.refl fun _ => Nat.le_refl _)) fun _ => .throw _
    | ok _ => exact .bind (.lift (World.log_coincides _ _ _)) fun _ => .pure _

theorem submit (s : Submission) :
    Try.Coincides a b (Engine.submit h s) (Engine.submit k s) := by
  unfold Engine.submit
  exact (H.accept s).bind fun _ => .lift (.refl fun _ => Nat.le_refl _)

end Host.Coincides

end Decompile
