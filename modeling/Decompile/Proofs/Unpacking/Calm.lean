import Decompile.Proofs.Act.Moments
import Decompile.Proofs.Conservation.Files
import Decompile.Proofs.Disk.Stairs

/-!
# Hosts without faults

Where no file operation meets a fault of the host, what it comes to is decided by the disk.

- `Host.Calm`: no file operation meets a fault.
- `Try.Comes`: what an action comes to, and the disk it leaves behind.
- `World.ensureDirectory_there`, `ensureDirectory_missing`: what preparing a directory comes to.
- `World.access_comes` and the lemmas after it: what file operations come to.
-/

namespace Decompile

/-- No file operation meets a fault of the host. -/
def Host.Calm (h : Host) : Prop := ∀ n, h.fault n = none

/-- What an action comes to, and the disk it leaves behind. -/
structure Try.Comes {ε α : Type} (t : Try ε α) (w : World) (r : Except ε α) (d : Disk) : Prop where
  result : (t.settle.run w).1 = r
  disk : (t.settle.run w).2.disk = d
  cwd : (t.settle.run w).2.cwd = w.cwd

namespace Try.Comes

variable {ε ε' α β : Type} {t : Try ε α} {f : α → Try ε β} {w : World} {a : α} {e : ε}
  {d d' : Disk} {r : Except ε α} {r' : Except ε β}

theorem of_run {v : World} (hrun : t.settle.run w = (r, v)) (hdisk : v.disk = d)
    (hcwd : v.cwd = w.cwd) : t.Comes w r d := by
  refine ⟨?_, ?_, ?_⟩ <;> rw [hrun]
  · exact hdisk
  · exact hcwd

/-- The run of an action. -/
theorem run (h : t.Comes w r d) : ∃ v, t.settle.run w = (r, v) ∧ v.disk = d ∧ v.cwd = w.cwd :=
  ⟨(t.settle.run w).2, Prod.ext h.result rfl, h.disk, h.cwd⟩

theorem pure (a : α) (w : World) : (Pure.pure a : Try ε α).Comes w (.ok a) w.disk := ⟨rfl, rfl, rfl⟩

theorem throw (e : ε) (w : World) : (MonadExcept.throw e : Try ε α).Comes w (.error e) w.disk :=
  ⟨rfl, rfl, rfl⟩

theorem bind (h : t.Comes w (.ok a) d)
    (hf : ∀ v, v.disk = d → v.cwd = w.cwd → (f a).Comes v r' d') : Try.Comes (t >>= f) w r' d' := by
  obtain ⟨v, hrun, hdisk, hcwd⟩ := h.run
  obtain ⟨u, hrun', hdisk', hcwd'⟩ := (hf v hdisk hcwd).run
  refine .of_run (v := u) ?_ hdisk' (hcwd'.trans hcwd)
  rw [Try.run_settle_bind, hrun]
  exact hrun'

theorem bind_error (h : t.Comes w (.error e) d) : Try.Comes (t >>= f) w (.error e) d := by
  obtain ⟨v, hrun, hdisk, hcwd⟩ := h.run
  refine .of_run (v := v) ?_ hdisk hcwd
  rw [Try.run_settle_bind, hrun]

/-- The second action is begun if the first one succeeds. -/
theorem bind_cases (h : t.Comes w r d) (herror : ∀ e, r = .error e → r' = .error e ∧ d' = d)
    (hok : ∀ a, r = .ok a → ∀ v, v.disk = d → v.cwd = w.cwd → (f a).Comes v r' d') :
    Try.Comes (t >>= f) w r' d' := by
  cases r with
  | error e =>
    obtain ⟨rfl, rfl⟩ := herror e rfl
    exact h.bind_error
  | ok a => exact h.bind (hok a rfl)

theorem lift {x : Act α} {f : α → Try ε β} (hdisk : (x.run w).2.disk = d)
    (hcwd : (x.run w).2.cwd = w.cwd)
    (hf : ∀ v, v.disk = d → v.cwd = w.cwd → (f (x.run w).1).Comes v r' d') :
    Try.Comes (liftM x >>= f) w r' d' :=
  bind ⟨rfl, hdisk, hcwd⟩ hf

/-- Something is asked about the world before the action. -/
theorem lift_read {x : Act α} (hx : x.Reads) {f : α → Try ε β}
    (hf : (f (x.run w).1).Comes w r' d') : Try.Comes (liftM x >>= f) w r' d' := by
  refine ⟨?_, ?_, ?_⟩ <;> rw [Try.run_settle_lift_bind, hx w]
  · exact hf.result
  · exact hf.disk
  · exact hf.cwd

theorem outcome {f : Except ε α → Try ε' β} {r' : Except ε' β} (h : t.Comes w r d)
    (hf : ∀ v, v.disk = d → v.cwd = w.cwd → (f r).Comes v r' d') :
    Try.Comes (t.outcome >>= f) w r' d' := by
  obtain ⟨v, hrun, hdisk, hcwd⟩ := h.run
  obtain ⟨u, hrun', hdisk', hcwd'⟩ := (hf v hdisk hcwd).run
  refine .of_run (v := u) ?_ hdisk' (hcwd'.trans hcwd)
  rw [Try.run_settle_outcome_bind, hrun]
  exact hrun'

theorem mapError (h : t.Comes w r d) (g : ε → ε') : (t.mapError g).Comes w (r.mapError g) d := by
  obtain ⟨v, hrun, hdisk, hcwd⟩ := h.run
  refine .of_run (v := v) ?_ hdisk hcwd
  show ((t.settle.run w).1.mapError g, (t.settle.run w).2) = _
  rw [hrun]

end Try.Comes

namespace World

variable {h : Host} (hcalm : h.Calm)

theorem pause_comes (h : Host) (w : World) :
    ((pause h).run w).2.disk = w.disk ∧ ((pause h).run w).2.cwd = w.cwd :=
  ⟨(pause_still w).disk, (pause_still w).cwd⟩

theorem plan_comes {α : Type} (f : Disk → Place → Except IoError α) (w : World) :
    (plan f).Comes w (f w.disk w.cwd) w.disk :=
  .of_run (run_plan f w) rfl rfl

/-! ## Directories that are needed -/

/-- What has the name of a directory is left as it is. -/
theorem ensureDirectory_there (h : Host) {dir : FilePath} {w : World}
    (hthere : w.disk.exists? w.cwd dir = true) :
    (ensureDirectory h dir).Comes w
      (if w.disk.isDirectory w.cwd dir = true then .ok ()
        else .error (.outputDirectory (dir.text ++ " is not a directory"))) w.disk := by
  have hexists : ((pathExists dir).run w).1 = true := hthere
  have hdirectory : ((isDirectory dir).run w).1 = w.disk.isDirectory w.cwd dir := rfl
  refine .lift_read (pathExists_reads dir) ?_
  simp only [hexists, if_true]
  refine .lift_read (isDirectory_reads dir) ?_
  rw [hdirectory]
  cases w.disk.isDirectory w.cwd dir with
  | true => exact .pure () w
  | false => exact .throw _ w

/-- A directory of which nothing has the name is made. -/
theorem ensureDirectory_missing {dir : FilePath} {w : World} {d : Disk}
    (hmissing : w.disk.exists? w.cwd dir = false)
    (hmade : (makeDirectories h dir).Comes w (.ok ()) d) : (ensureDirectory h dir).Comes w (.ok ()) d := by
  have hexists : ((pathExists dir).run w).1 = false := hmissing
  refine .lift_read (pathExists_reads dir) ?_
  simp only [hexists, Bool.false_eq_true, if_false]
  exact hmade.mapError _

/-! ## File operations -/

include hcalm

theorem access_comes (w : World) : (access h).Comes w (.ok ()) w.disk := by
  obtain ⟨hdisk, hcwd⟩ := pause_comes h w
  refine .of_run (v := ((pause h).run w).2) ?_ hdisk hcwd
  rw [run_access, hcalm]

/-- A look at the disk. -/
theorem look_comes {α : Type} (f : Disk → Place → Except IoError α) (w : World) :
    (do access h; plan f : Try IoError α).Comes w (f w.disk w.cwd) w.disk := by
  refine (access_comes hcalm w).bind fun v hdisk hcwd => ?_
  have hplan := plan_comes f v
  rwa [hdisk, hcwd] at hplan

theorem readBytes_comes (p : FilePath) (w : World) :
    (readBytes h p).Comes w (w.disk.read w.cwd p) w.disk :=
  look_comes hcalm _ w

/-- A change that is planned, and what follows it. -/
theorem planned_comes {α : Type} {f : Disk → Place → Except IoError Change} {g : Change → Try IoError α}
    {w : World} {r : Except IoError α} {d : Disk}
    (herror : ∀ e, f w.disk w.cwd = .error e → r = .error e ∧ d = w.disk)
    (hok : ∀ c, f w.disk w.cwd = .ok c → ∀ v, v.disk = w.disk.apply c → v.cwd = w.cwd → (g c).Comes v r d) :
    (do access h; let c ← plan f; change c; g c : Try IoError α).Comes w r d := by
  refine (access_comes hcalm w).bind fun v hdisk hcwd => ?_
  have hplan := plan_comes f v
  rw [hdisk, hcwd] at hplan
  refine hplan.bind_cases herror fun c hc u hu hucwd => ?_
  refine .lift (d := w.disk.apply c) (congrArg (Disk.apply · c) hu) rfl fun x hx hxcwd => ?_
  exact hok c hc x hx (hxcwd.trans (hucwd.trans hcwd))

/-- A single change. -/
theorem planned_change_comes (f : Disk → Place → Except IoError Change) (w : World) :
    (do access h; change (← plan f) : Try IoError Unit).Comes w ((f w.disk w.cwd).map fun _ => ())
      (match f w.disk w.cwd with
        | .ok c => w.disk.apply c
        | .error _ => w.disk) := by
  have hlast : (do access h; change (← plan f) : Try IoError Unit) = (do
      access h
      let c ← plan f
      change c
      Pure.pure ()) := by
    simp
  rw [hlast]
  refine planned_comes hcalm (fun e he => ?_) fun c hc v hv hcwd => ?_
  · simp only [he]
    exact ⟨rfl, trivial⟩
  · simp only [hc]
    have hdone := Try.Comes.pure (ε := IoError) () v
    rwa [hv] at hdone

theorem makeDirectory_comes (p : FilePath) (w : World) :
    (makeDirectory h p).Comes w ((w.disk.planMakeDirectory w.cwd p).map fun _ => ())
      (match w.disk.planMakeDirectory w.cwd p with
        | .ok c => w.disk.apply c
        | .error _ => w.disk) :=
  planned_change_comes hcalm _ w

theorem removeFile_comes (p : FilePath) (w : World) :
    (removeFile h p).Comes w ((w.disk.planRemoveFile w.cwd p).map fun _ => ())
      (match w.disk.planRemoveFile w.cwd p with
        | .ok c => w.disk.apply c
        | .error _ => w.disk) :=
  planned_change_comes hcalm _ w

theorem createFile_comes (p : FilePath) (executable : Bool) (w : World) :
    (createFile h p executable).Comes w ((w.disk.planCreate w.cwd p executable).map Change.place)
      (match w.disk.planCreate w.cwd p executable with
        | .ok c => w.disk.apply c
        | .error _ => w.disk) := by
  refine planned_comes hcalm (fun e he => ?_) fun c hc v hv _ => ?_
  · simp only [he]
    exact ⟨rfl, trivial⟩
  · simp only [hc]
    exact hv ▸ .pure c.place v

theorem appendTo_comes (place : Place) (more : Bytes) (w : World) :
    (appendTo h place more).Comes w (.ok ()) (w.disk.apply (.append place more)) :=
  (access_comes hcalm w).bind fun _ hv _ => hv ▸ ⟨rfl, rfl, rfl⟩

end World

end Decompile
