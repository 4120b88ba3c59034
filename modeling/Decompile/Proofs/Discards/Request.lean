import Decompile.Proofs.Discards.Run
import Decompile.Proofs.Durability.Saving

/-!
# A request to keep intermediate files, and one to discard them

A request is taken on, and its record is stored. The same request with other wishes for intermediate
files is taken on as well, and all is the same but for what the record says of them.

- `Engine.accept_succeeds`: how a request is taken on.
- `Engine.accept_keeping`: the same request with other wishes.
- `Grounded.accepted`: what the two requests leave behind.
- `Fresh.entryAt_outside`, `Fresh.apart`: an input outside the directory of the target.
-/

namespace Decompile

variable {h : Host}

theorem Job.plan_keeping (s : Submission) (keep : Option Bool) (available : Backend → Bool) :
    Job.plan (s.keeping keep) available = (Job.plan s available).map fun j => j.keeping keep := by
  have hcheck : (s.keeping keep).check = s.check := rfl
  unfold Job.plan
  rw [hcheck, show (s.keeping keep).backend = s.backend from rfl]
  cases s.check with
  | error e => rfl
  | ok _ =>
    cases backendNamed s.backend with
    | error e => rfl
    | ok b =>
      show (chainIfAvailable b available >>= fun chain => pure (Job.mk (s.keeping keep) b chain)) =
        (chainIfAvailable b available >>= fun chain => pure (Job.mk s b chain)).map fun j => j.keeping keep
      cases chainIfAvailable b available with
      | error e => rfl
      | ok chain => rfl

/-- A last name that is not looked behind is arrived at, whatever it is. -/
theorem Disk.follow_last {d : Disk} {here : Place} {n : String} {f : Followed} (hn : n ≠ "..")
    (hf : d.follow true false here [n] = .ok f) : f = .arrived (here ++ [n]) := by
  unfold follow at hf
  rw [if_neg hn] at hf
  split at hf
  · cases hf
  cases hfound : d.find? (here ++ [n]) with
  | none =>
    simp only [hfound] at hf
    exact (Except.ok.inj hf).symm
  | some e =>
    cases e with
    | directory | file | link =>
      simp only [hfound] at hf
      exact (Except.ok.inj hf).symm

namespace Engine

/-- What the log says of a job that was taken on. -/
def submitted (j : Job) : LogRecord :=
  ⟨.info, logTarget, "Submitted " ++ j.targetKey ++ " (" ++ j.backend.name ++ ", "
    ++ countText j.chain.length ++ " stages)"⟩

/-- **How a request is taken on**: it is planned, claims its key, and its record is stored. -/
theorem accept_succeeds {s : Submission} {w v : World} {a : Accepted} :
    (accept h s).Succeeds w a v ↔ ∃ (job : Job) (ticket : Nat) (registry : Registry) (u : World),
      Job.plan s h.catalog.has = .ok job ∧ w.registry.claim job.targetKey = some (ticket, registry) ∧
      ((JobRecord.new job (h.time w.clock)).save h (.of h.settings.storage job.targetKey)).Succeeds
        { w with registry, journal := w.journal ++ [.claimed job.targetKey ticket] } () u ∧
      a = ⟨job, .new job (h.time w.clock), ticket⟩ ∧
      v = ((World.note (.logged (submitted job))).run u).2 := by
  unfold Try.Succeeds accept
  cases hplan : Job.plan s h.catalog.has with
  | error e =>
    refine ⟨fun hrun => ?_, ?_⟩
    · cases (Prod.mk.inj hrun).1
    · rintro ⟨job, _, _, _, hother, -⟩
      cases hother
  | ok job =>
    simp only [Try.run_settle_bind (claim job.targetKey)]
    cases hclaim : w.registry.claim job.targetKey with
    | none =>
      rw [run_claim_of_none hclaim]
      refine ⟨fun hrun => ?_, ?_⟩
      · cases (Prod.mk.inj hrun).1
      · rintro ⟨_, _, _, _, hjob, hother, -⟩
        cases hjob
        rw [hclaim] at hother
        cases hother
    | some granted =>
      obtain ⟨ticket, registry⟩ := granted
      rw [run_claim hclaim]
      simp only [Try.run_settle_lift_bind, Try.run_settle_outcome_bind, World.run_now]
      rcases hsave : ((JobRecord.new job (h.time w.clock)).save h
        (.of h.settings.storage job.targetKey)).settle.run
          { w with registry, journal := w.journal ++ [.claimed job.targetKey ticket] }
        with ⟨e | _, u⟩
      · refine ⟨fun hrun => ?_, ?_⟩
        · cases (Prod.mk.inj hrun).1
        · rintro ⟨_, _, _, _, hjob, hother, hsaved, -⟩
          cases hjob
          cases hclaim.symm.trans hother
          cases (Prod.mk.inj (hsave.symm.trans hsaved)).1
      · refine ⟨fun hrun => ?_, ?_⟩
        · obtain ⟨ha, hv⟩ := Prod.mk.inj hrun
          exact ⟨job, ticket, registry, u, rfl, hclaim, hsave, (Except.ok.inj ha).symm, hv.symm⟩
        · rintro ⟨_, _, _, _, hjob, hother, hsaved, rfl, rfl⟩
          cases hjob
          cases hclaim.symm.trans hother
          obtain rfl := (Prod.mk.inj (hsave.symm.trans hsaved)).2
          rfl

/-- The job of a request that was taken on. -/
theorem accept_job {s : Submission} {w v : World} {a : Accepted} (haccept : (accept h s).Succeeds w a v) :
    a.job.submission = s ∧ a.job.chain = chainOf a.job.backend := by
  obtain ⟨job, ticket, registry, u, hplan, -, -, rfl, -⟩ := accept_succeeds.mp haccept
  obtain ⟨-, -, -, hjob⟩ := Job.of_plan hplan
  exact ⟨congrArg Job.submission hjob, congrArg Job.chain hjob⟩

theorem accept_planned {s : Submission} {w v : World} {a : Accepted}
    (haccept : (accept h s).Succeeds w a v) : a.Planned h := by
  obtain ⟨job, ticket, registry, u, hplan, -, -, rfl, -⟩ := accept_succeeds.mp haccept
  exact ⟨s, hplan⟩

/-- While a request is taken on no stage begins. -/
theorem accept_idle {s : Submission} {w v : World} {a : Accepted}
    (haccept : (accept h s).Succeeds w a v) (hidle : w.monitor = none) : v.monitor = none := by
  obtain ⟨job, ticket, registry, u, -, -, hsave, -, rfl⟩ := accept_succeeds.mp haccept
  exact ((hsave.keeps (JobRecord.save_moves _ _)).silent hidle).1

end Engine

/-- The world after a record was put at a place, and that was noted. -/
def World.recorded (q : Place) (r : JobRecord) (said : LogRecord) (m : World) : World :=
  ((note (.logged said)).run ((change (.replace q (Text.encode r.render))).run m).2).2

theorem World.recorded_clock (q : Place) (r : JobRecord) (said : LogRecord) (m : World) :
    (m.recorded q r said).clock = m.clock := rfl

/-- A file is stored in a directory that is there or could be made. -/
theorem World.store_ensured {dir : FilePath} {name : String} {bytes : Bytes} {c : Change}
    {w m₁ m : World} (hensure : (ensureDirectory h dir).Succeeds w () m₁)
    (haccess : (access h).Succeeds m₁ () m)
    (hplan : m.disk.planReplace m.cwd (dir.join ⟨name⟩) bytes = .ok c) :
    (store h dir name bytes).Succeeds w (dir.join ⟨name⟩) ((change c).run m).2 := by
  have hplanned : (plan fun d cwd => d.planReplace cwd (dir.join ⟨name⟩) bytes).Succeeds m c m := by
    unfold Try.Succeeds
    rw [run_plan, hplan]
  have hreplaced : (replaceFile h (dir.join ⟨name⟩) bytes).Succeeds m₁ () ((change c).run m).2 := by
    unfold replaceFile
    exact haccess.andThen (hplanned.andThen rfl)
  unfold store
  exact hensure.andThen ((hreplaced.relabelled _).andThen rfl)

/-- A record is saved where another one could be. -/
theorem JobRecord.save_other {l : Layout} {r : JobRecord} {w v : World}
    (hsave : (r.save h l).Succeeds w () v) : ∃ m q,
      m.disk.locate m.cwd false (l.root.join ⟨recordName⟩) = .ok (q, .plain) ∧
      v = ((World.change (.replace q (Text.encode r.render))).run m).2 ∧
      ∀ r' : JobRecord, (r'.save h l).Succeeds w ()
        ((World.change (.replace q (Text.encode r'.render))).run m).2 := by
  obtain ⟨m₁, m, c, hensure, haccess, hplan, rfl⟩ := JobRecord.save_steps hsave
  obtain ⟨q, rfl, hlocate, hfree⟩ := Disk.planReplace_ok hplan
  refine ⟨m, q, hlocate, rfl, fun r' => ?_⟩
  unfold save
  exact (World.store_ensured hensure haccess (Disk.planReplace_eq hlocate hfree _)).andThen rfl

namespace Engine

/-- **The same request with other wishes** for intermediate files is taken on as well. -/
theorem accept_keeping {s : Submission} {w v : World} {a : Accepted}
    (haccept : (accept h s).Succeeds w a v) (keep : Option Bool) :
    ∃ (m : World) (q : Place) (said : LogRecord),
      m.disk.locate m.cwd false
        ((Layout.of h.settings.storage a.job.targetKey).root.join ⟨recordName⟩) = .ok (q, .plain) ∧
      v = m.recorded q a.record said ∧
      (accept h (s.keeping keep)).Succeeds w (a.keeping keep)
        (m.recorded q (a.record.keeping keep) said) := by
  obtain ⟨job, ticket, registry, u, hplan, hclaim, hsave, rfl, rfl⟩ := accept_succeeds.mp haccept
  obtain ⟨m, q, hlocate, rfl, hother⟩ := JobRecord.save_other hsave
  refine ⟨m, q, submitted job, hlocate, rfl, accept_succeeds.mpr ?_⟩
  refine ⟨job.keeping keep, ticket, registry, _, ?_, hclaim, hother _, rfl, rfl⟩
  rw [Job.plan_keeping, hplan]
  rfl

end Engine

namespace Site

variable {s : Site} {c : StageContext} {d : Disk} {q : Place}

section

variable (hs : s.Grounded) (hc : s.Serves h c)
include hs hc

/-- If a record was put where the path of records leads, that is the place of the record. -/
theorem Grounded.recordPlace_eq {b : Bytes} (hbefore : s.before = d.apply (.replace q b))
    (hlocate : d.locate s.cwd false (c.layout.root.join ⟨recordName⟩) = .ok (q, .plain)) :
    q = s.recordPlace := by
  have hkeeps : s.before.Keeps d := by
    intro r e hr hfile
    have hne : r ≠ q := by
      rintro rfl
      rw [hbefore, Disk.apply, Disk.find?_put, if_pos rfl] at hr
      cases hr
      cases hfile
    rwa [hbefore, Disk.find?_apply_of_ne d (.replace q b) hne] at hr
  have hspells := hc.spells_record
  have hnul := Disk.nul_of_locate hlocate
  obtain ⟨links, hlinks⟩ := Disk.locate_append_of_keeps hs.fresh.anchored.leads
    (List.cons_ne_nil _ _) hspells.absolute hspells.steps hnul
  rw [hlinks d hkeeps] at hlocate
  -- the directory of the target is there, and whatever is in it, the last step arrives
  have hdir : d.find? (s.base ++ [s.key]) = some .directory := hkeeps _ _ hs.fresh.there rfl
  have hfollow : ∀ f, d.follow true false s.base [s.key, recordName] = .ok f →
      f = .arrived s.recordPlace := by
    intro f hf
    have hkey : s.key ≠ ".." := (hc.isEntryName_key _ List.mem_cons_self).2.2.1
    unfold Disk.follow at hf
    rw [if_neg hkey] at hf
    split at hf
    · cases hf
    simp only [hdir] at hf
    exact Disk.follow_last (by decide) hf
  unfold Disk.locateFrom at hlocate
  rw [FilePath.ending_child (by decide)] at hlocate
  split at hlocate
  · cases hlocate
  · next p hf =>
    obtain rfl := (Prod.mk.inj (Except.ok.inj hlocate)).1
    exact Followed.arrived.inj (hfollow _ hf)
  · next hf => cases hfollow _ hf

/-- **What two requests leave behind**, one to keep intermediate files and one to discard them. -/
theorem Grounded.accepted {m : World} {r : JobRecord} {said : LogRecord}
    (hbefore : s.before = (m.recorded q r said).disk) (hcwd : s.cwd = m.cwd)
    (hlocate : m.disk.locate m.cwd false (c.layout.root.join ⟨recordName⟩) = .ok (q, .plain)) :
    s.Parted c.job [] (m.recorded q r said) (m.recorded q (r.keeping (some false)) said) := by
  obtain rfl : q = s.recordPlace := hs.recordPlace_eq hc hbefore (hcwd ▸ hlocate)
  have hleft : (m.recorded s.recordPlace r said).disk =
      m.disk.apply (.replace s.recordPlace (Text.encode r.render)) := rfl
  have hright : (m.recorded s.recordPlace (r.keeping (some false)) said).disk =
      m.disk.apply (.replace s.recordPlace (Text.encode (r.keeping (some false)).render)) := rfl
  refine ⟨(Veiled.note _ _ _ (Veiled.change _ _ rfl)).2, hcwd.symm, ?_⟩
  rw [hright, hleft]
  rw [hleft] at hbefore
  refine ⟨hbefore ▸ hs.stable, fun kind _ rest => hbefore ▸ hs.fresh.free kind rest,
    fun q _ => by rw [hbefore], fun q hq => ?_, r, ?_, ?_⟩
  · have hother : ∀ b, (m.disk.apply (.replace s.recordPlace b)).find? q = m.disk.find? q := fun b =>
      Disk.find?_apply_of_ne m.disk (.replace s.recordPlace b) hq
    rw [hother, hother, filter_lost fun _ _ => lost_nil]
  · rw [Disk.apply, Disk.find?_put, if_pos rfl]
  · rw [Disk.apply, Disk.find?_put, if_pos rfl]

end

/-- What is found outside the directory of the target is found there whatever is made in it. -/
theorem Fresh.entryAt_outside (hs : s.Fresh) {p : FilePath} {e : Entry}
    (hfound : s.before.entryAt s.cwd true p = .ok (q, e)) (hq : q ≠ s.recordPlace)
    (hd : ∀ q, (∀ n rest, q ≠ s.target ++ n :: rest) → d.find? q = s.before.find? q) :
    d.entryAt s.cwd true p = .ok (q, e) := by
  -- in that directory there was nothing but a record
  have houtside : ∀ {r f}, s.before.find? r = some f → r ≠ s.recordPlace → d.find? r = some f := by
    intro r f hr hne
    rw [hd r, hr]
    rintro n rest rfl
    rcases hs.bare (n :: rest) f hr with hnil | ⟨hrecord, -⟩
    · cases hnil
    · exact hne (congrArg (s.target ++ ·) hrecord)
  obtain ⟨-, -, hthere, -⟩ := Disk.entryAt_of_locate hfound
  refine Disk.entryAt_of_keeps (fun r f hr hfile => houtside hr ?_) hfound (houtside hthere hq)
  rintro rfl
  rcases hs.bare [recordName] f hr with hnil | ⟨-, hrecord⟩
  · cases hnil
  · rw [hfile] at hrecord
    cases hrecord

/-- An input outside the directory of the target is not the record. -/
theorem Fresh.apart (hs : s.Fresh) {p : FilePath} {e : Entry}
    (hfound : s.before.entryAt s.cwd true p = .ok (q, e)) (hq : q ≠ s.recordPlace) : s.Apart p := by
  intro d hd hlocate
  obtain ⟨_, hother, -, -⟩ := Disk.entryAt_of_locate (hs.entryAt_outside hfound hq hd)
  rw [hlocate] at hother
  exact hq (Prod.mk.inj (Except.ok.inj hother)).1.symm

/-- An input that is found at the start is not the record, and stays as it is. -/
theorem Apart.found {p : FilePath} {e : Entry} (hp : s.Apart p) (hfile : e.isFile = true)
    (hfound : s.before.entryAt s.cwd true p = .ok (q, e)) : q ≠ s.recordPlace := by
  rintro rfl
  obtain ⟨ending, hlocate, -, hplain⟩ := Disk.entryAt_of_locate hfound
  refine hp s.before (fun _ _ => rfl) ?_
  rw [hlocate, hplain hfile]

end Site

end Decompile
