import Decompile.Proofs.Act.Succeeds
import Decompile.Proofs.Disk.Anchored
import Decompile.Proofs.Exclusion.Holding
import Decompile.Proofs.Provenance.Files
import Decompile.Proofs.Session

/-!
# Requests that come to nothing

A request is turned down before its key is claimed, or when the key is held, or because its record
cannot be stored, or because nobody is left to run the job. Each of these undoes what was done so
far.

- `Calm`: what file operations do to everything but the disk.
- `Engine.LeftAlone`: what a request that comes to nothing leaves as it was.
- `Grown`, `save_grown`: a record that cannot be stored leaves all files as they are.
- `Engine.submitTo_fails`, `submitTo_rejected`: the ways in which a request comes to nothing, and what
  is left then.
-/

namespace Decompile

variable {h : Host} {u v w : World}

/-! ## File operations -/

/-- A reading of the memory that is watched, told on the key of the watch. -/
def Monitor.Reading (m : Option Monitor) (o : Occurrence) : Prop :=
  ∃ watch percent, m.map Monitor.key = some watch ∧
    o = .published watch (.status watch (.memory percent))

/-- Nothing is told, called or begun by it, other than readings of the memory that is watched. -/
def Occurrence.Idle (m : Option Monitor) (o : Occurrence) : Prop :=
  (∀ key said, o = .published key said → Monitor.Reading m o) ∧ (∀ i, o ≠ .called i) ∧
    ∀ ticket kind chunk, o ≠ .attempted ticket kind chunk

/-- Holders of keys and jobs that wait stay as they are, only others ask jobs to stop, and nothing
is told but readings of the memory that is watched. -/
structure Calm (w v : World) : Prop where
  alike : w.registry.Alike v.registry
  waiting : v.waiting = w.waiting
  key : v.monitor.map Monitor.key = w.monitor.map Monitor.key
  bus : w.monitor = none → v.bus = w.bus
  past : ∃ late, v.journal = w.journal ++ late ∧ (∀ o ∈ late, o.Idle w.monitor) ∧
    ∀ t, v.registry.isCancelled t = true ↔ w.registry.isCancelled t = true ∨
      ∃ key, .happened (.cancel key) ∈ late ∧ w.registry.holder? key = some t

namespace Calm

theorem of_notes {late : List Occurrence} (hjournal : v.journal = w.journal ++ late)
    (hlate : ∀ o ∈ late, o.Idle w.monitor ∧ ∀ key, o ≠ .happened (.cancel key))
    (hregistry : v.registry = w.registry) (hwaiting : v.waiting = w.waiting)
    (hkey : v.monitor.map Monitor.key = w.monitor.map Monitor.key)
    (hbus : w.monitor = none → v.bus = w.bus) : Calm w v where
  alike := hregistry ▸ .refl w.registry
  waiting := hwaiting
  key := hkey
  bus := hbus
  past := by
    refine ⟨late, hjournal, fun o ho => (hlate o ho).1, fun t => ?_⟩
    rw [hregistry]
    refine ⟨.inl, ?_⟩
    rintro (hw | ⟨key, hmem, -⟩)
    · exact hw
    · exact absurd rfl ((hlate _ hmem).2 key)

theorem trans (hu : Calm u v) (hv : Calm v w) : Calm u w where
  alike := hu.alike.trans hv.alike
  waiting := hv.waiting.trans hu.waiting
  key := hv.key.trans hu.key
  bus hidle := by
    have hidle' : v.monitor = none := by
      have hkey := hu.key
      rw [hidle] at hkey
      exact Option.map_eq_none_iff.mp hkey
    exact (hv.bus hidle').trans (hu.bus hidle)
  past := by
    obtain ⟨first, hfirst, hidle₁, htokens₁⟩ := hu.past
    obtain ⟨second, hsecond, hidle₂, htokens₂⟩ := hv.past
    refine ⟨first ++ second, by rw [hsecond, hfirst, List.append_assoc], fun o ho => ?_, fun t => ?_⟩
    · rcases List.mem_append.mp ho with ho | ho
      · exact hidle₁ o ho
      · obtain ⟨htold, hrest⟩ := hidle₂ o ho
        refine ⟨fun key said heq => ?_, hrest⟩
        obtain ⟨watch, percent, hwatch, hsaid⟩ := htold key said heq
        exact ⟨watch, percent, hu.key.symm.trans hwatch, hsaid⟩
    · rw [htokens₂, htokens₁, or_assoc]
      refine or_congr_right ?_
      simp only [hu.alike.holder?, List.mem_append]
      constructor
      · rintro (⟨key, hmem, hheld⟩ | ⟨key, hmem, hheld⟩)
        · exact ⟨key, .inl hmem, hheld⟩
        · exact ⟨key, .inr hmem, hheld⟩
      · rintro ⟨key, hmem | hmem, hheld⟩
        · exact .inl ⟨key, hmem, hheld⟩
        · exact .inr ⟨key, hmem, hheld⟩

end Calm

instance : Std.Refl Calm :=
  ⟨fun _ => .of_notes (List.append_nil _).symm (fun _ ho => absurd ho List.not_mem_nil) rfl rfl rfl
    fun _ => rfl⟩

instance : IsTrans World Calm := ⟨fun _ _ _ => Calm.trans⟩

/-- An entry that is not about telling, calls and attempts is idle. -/
theorem Occurrence.idle_of_isAside {m : Option Monitor} {o : Occurrence} (ho : o.isAside = true) :
    o.Idle m ∧ ∀ key, o ≠ .happened (.cancel key) := by
  refine ⟨⟨fun key said heq => ?_, fun i heq => ?_, fun ticket kind chunk heq => ?_⟩, fun key heq => ?_⟩
  all_goals
    subst heq
    cases ho

theorem Moves.calm (hm : Moves h (fun _ => False) w v) : Calm w v := by
  refine hm.keep fun w v hm => ?_
  have hone : ∀ {v : World} (o : Occurrence), v.journal = w.journal ++ [o] →
      (o.Idle w.monitor ∧ ∀ key, o ≠ .happened (.cancel key)) → v.registry = w.registry →
      v.waiting = w.waiting → v.monitor = w.monitor → v.bus = w.bus → Calm w v :=
    fun o hjournal ho hregistry hwaiting hmonitor hbus =>
      .of_notes hjournal (List.forall_mem_singleton.mpr ho) hregistry hwaiting
        (by rw [hmonitor]) fun _ => hbus
  cases hm with
  | tick =>
    exact .of_notes (List.append_nil _).symm (fun _ ho => absurd ho List.not_mem_nil) rfl rfl rfl
      fun _ => rfl
  | change c =>
    refine hone (.changed c) rfl ⟨⟨fun _ _ heq => ?_, fun _ heq => ?_, fun _ _ _ heq => ?_⟩,
      fun _ heq => ?_⟩ rfl rfl rfl rfl
    all_goals cases heq
  | aside o free => exact hone o rfl (Occurrence.idle_of_isAside free) rfl rfl rfl rfl
  | call i admitted => exact absurd admitted id
  | attempt t kind chunk admitted => exact absurd admitted id
  | tell k m admitted => exact absurd admitted id
  | answer s admitted => exact absurd (admitted true none) id
  | read m percent watched =>
    refine .of_notes rfl (List.forall_mem_singleton.mpr ⟨⟨fun key said _ => ?_, fun _ heq => ?_,
      fun _ _ _ heq => ?_⟩, fun _ heq => ?_⟩) rfl rfl ?_ fun hidle => ?_
    · exact ⟨m.key, percent, by rw [watched]; rfl, rfl⟩
    · cases heq
    · cases heq
    · cases heq
    · rw [watched]
      rfl
    · rw [watched] at hidle
      cases hidle
  | cancel key said =>
    have hsaid : ∀ o ∈ said.map Occurrence.logged, o.Idle w.monitor ∧
        ∀ key, o ≠ .happened (.cancel key) := by
      intro o ho
      obtain ⟨r, -, rfl⟩ := List.mem_map.mp ho
      exact Occurrence.idle_of_isAside rfl
    refine ⟨.cancel _ _, rfl, rfl, fun _ => rfl, _, rfl, fun o ho => ?_, fun t => ?_⟩
    · rcases List.mem_cons.mp ho with rfl | ho
      · refine ⟨fun _ _ heq => ?_, fun _ heq => ?_, fun _ _ _ heq => ?_⟩
        all_goals cases heq
      · exact (hsaid o ho).1
    · show (w.registry.cancel key).isCancelled t = true ↔ _
      rw [Registry.isCancelled_cancel, Bool.or_eq_true, beq_iff_eq]
      refine or_congr_right ⟨fun hheld => ⟨key, List.mem_cons_self, hheld⟩, ?_⟩
      rintro ⟨other, hmem, hheld⟩
      rcases List.mem_cons.mp hmem with heq | hmem
      · cases heq
        exact hheld
      · exact absurd rfl ((hsaid _ hmem).2 other)

/-! ## Records that cannot be stored -/

/-- All that stands on the disk stays as it is, and only directories come to it. -/
structure Grown (w v : World) : Prop where
  cwd : v.cwd = w.cwd
  stays : ∀ q e, w.disk.find? q = some e → v.disk.find? q = some e
  comes : ∀ q e, v.disk.find? q = some e → w.disk.find? q = some e ∨ e = .directory

theorem Grown.of_eq (hdisk : v.disk = w.disk) (hcwd : v.cwd = w.cwd) : Grown w v where
  cwd := hcwd
  stays _ _ hq := hdisk ▸ hq
  comes _ _ hq := .inl (hdisk ▸ hq)

theorem Still.grown (hs : Still w v) : Grown w v := .of_eq hs.disk hs.cwd

instance : Std.Refl Grown := ⟨fun _ => .of_eq rfl rfl⟩

instance : IsTrans World Grown where
  trans _ _ _ hu hv := by
    refine ⟨hv.cwd.trans hu.cwd, fun q e hq => hv.stays q e (hu.stays q e hq), fun q e hq => ?_⟩
    rcases hv.comes q e hq with hq | hdirectory
    · exact hu.comes q e hq
    · exact .inr hdirectory

/-- What could be read can still be read. -/
theorem Grown.read (hg : Grown w v) {p : FilePath} {bytes : Bytes}
    (hread : w.disk.read w.cwd p = .ok bytes) : v.disk.read v.cwd p = .ok bytes := by
  rw [hg.cwd]
  refine Disk.read_of_keeps (fun q e hq _ => hg.stays q e hq) hread fun q x hentry => ?_
  obtain ⟨-, -, hthere, -⟩ := Disk.entryAt_of_locate hentry
  exact hg.stays q _ hthere

namespace World

/-- A directory is made where nothing is. -/
theorem makeDirectory_grown (p : FilePath) : Try.Keeps Grown (makeDirectory h p) := by
  have hmake : Try.Keeps Grown (do change (← plan fun d cwd => d.planMakeDirectory cwd p) :
      Try IoError Unit) := by
    intro w
    show Grown w ((Try.settle (_ >>= _)).run w).2
    rw [Try.run_settle_bind, run_plan]
    cases hplan : w.disk.planMakeDirectory w.cwd p with
    | error e => exact Std.Refl.refl w
    | ok c =>
      unfold Disk.planMakeDirectory at hplan
      split at hplan
      · cases hplan
      · next place ending hlocate =>
        split at hplan
        · cases hplan
        · next hfree =>
          obtain rfl := Except.ok.inj hplan
          replace hfree : w.disk.find? place = none := by
            rw [Bool.or_eq_true, not_or] at hfree
            exact Option.not_isSome_iff_eq_none.mp hfree.2
          refine ⟨rfl, fun q e hq => ?_, fun q e hq => ?_⟩
          · show (w.disk.put place .directory).find? q = some e
            rw [Disk.find?_put, if_neg, hq]
            rintro rfl
            rw [hfree] at hq
            cases hq
          · replace hq : (w.disk.put place .directory).find? q = some e := hq
            rw [Disk.find?_put] at hq
            split at hq
            · exact .inr (Option.some.inj hq).symm
            · exact .inl hq
  unfold makeDirectory
  exact Try.Keeps.bind (fun w => (access_still w).grown) fun _ => hmake

theorem makeEach_grown : ∀ ps : List FilePath, Try.Keeps Grown (makeEach h ps)
  | [] => .pure ()
  | p :: ps => by
    unfold makeEach
    refine (makeDirectory_grown p).outcome.bind fun r => ?_
    cases r with
    | ok _ => exact .bind (.pure ()) fun _ => makeEach_grown ps
    | error e =>
      refine .bind (.lift (isDirectory_reads p).keeps) fun there => ?_
      split
      · exact makeEach_grown ps
      · exact (Try.Keeps.throw e).bind fun _ => makeEach_grown ps

theorem makeLowest_grown :
    ∀ missing ps : List FilePath, Try.Keeps Grown (makeLowest h missing ps)
  | missing, [] => .pure missing
  | missing, p :: above => by
    unfold makeLowest
    refine (makeDirectory_grown p).outcome.bind fun r => ?_
    cases r with
    | ok _ => exact .pure missing
    | error e =>
      show Try.Keeps _ (ite _ _ _)
      split
      · exact makeLowest_grown (p :: missing) above
      · refine .bind (.lift (isDirectory_reads p).keeps) fun there => ?_
        split
        · exact .pure missing
        · exact .throw e

theorem ensureDirectory_grown (dir : FilePath) : Try.Keeps Grown (ensureDirectory h dir) := by
  unfold ensureDirectory
  refine .bind (.lift (pathExists_reads dir).keeps) fun there => ?_
  split
  · refine .bind (.lift (isDirectory_reads dir).keeps) fun fits => ?_
    exact .throwIf fun _ => .pure ()
  · unfold makeDirectories
    exact Try.Keeps.mapError ((makeLowest_grown _ _).bind fun missing => makeEach_grown missing)

/-- A file that cannot be put under a name changes nothing. -/
theorem replaceFile_failed {p : FilePath} {contents : Bytes} {e : IoError}
    (hrun : Try.Fails (replaceFile h p contents) w e v) : Still w v := by
  unfold replaceFile at hrun
  rcases hrun.bind with haccess | ⟨_, u, haccess, hrun⟩
  · exact haccess.keeps access_still
  have hstill : Still w u := haccess.keeps access_still
  rcases hrun.bind with hplan | ⟨c, _, -, hchange⟩
  · exact IsTrans.trans _ _ _ hstill (hplan.keeps (plan_still _))
  · exact absurd hchange Try.Fails.not_lift

end World

/-- A record that cannot be stored leaves all files as they are. -/
theorem JobRecord.save_grown {l : Layout} {r : JobRecord} {e : PersistError}
    (hrun : Try.Fails (r.save h l) w e v) : Grown w v := by
  unfold save World.store at hrun
  rcases hrun.bind with hstore | ⟨_, _, -, hpure⟩
  · rcases hstore.bind with hensure | ⟨_, u, hensure, hput⟩
    · exact hensure.keeps (World.ensureDirectory_grown l.root)
    have hgrown : Grown w u := hensure.keeps (World.ensureDirectory_grown l.root)
    rcases hput.bind with hput | ⟨_, _, -, hpure⟩
    · obtain ⟨_, -, hput⟩ := hput.mapError
      exact IsTrans.trans _ _ _ hgrown (World.replaceFile_failed hput).grown
    · exact absurd hpure Try.Fails.not_pure
  · exact absurd hpure Try.Fails.not_pure

namespace Engine

/-! ## What is left as it was -/

/-- What a request that comes to nothing leaves as it was: the active jobs, who of them was asked to
stop, the jobs that wait, and the listeners. Others act meanwhile: they may ask jobs to stop, and the
memory that is watched may be read. -/
structure LeftAlone (w v : World) : Prop where
  active : v.registry.holders = w.registry.holders
  /-- Only who holds a key is asked to stop, and only by others. The next ticket may have been given
  out and asked to stop before it was given up. -/
  tokens : ∀ t, t ≠ w.registry.nextTicket → (v.registry.isCancelled t = true ↔
    w.registry.isCancelled t = true ∨
      ∃ key, .happened (.cancel key) ∈ w.since v ∧ w.registry.holder? key = some t)
  waiting : v.waiting = w.waiting
  bus : w.monitor = none → v.bus = w.bus
  told : ∀ key m, .published key m ∈ w.since v →
    ∃ percent, w.monitor.map Monitor.key = some key ∧ m = .status key (.memory percent)
  calls : ∀ i, .called i ∉ w.since v
  attempts : ∀ ticket kind chunk, .attempted ticket kind chunk ∉ w.since v

theorem LeftAlone.refl (w : World) : LeftAlone w w := by
  have hsince : w.since w = [] := World.since_eq (List.append_nil _).symm
  refine ⟨rfl, fun t _ => ⟨.inl, ?_⟩, rfl, fun _ => rfl, ?_, ?_, ?_⟩
  all_goals rw [hsince]
  · rintro (hw | ⟨_, hmem, -⟩)
    · exact hw
    · exact absurd hmem List.not_mem_nil
  · exact fun _ _ hmem => absurd hmem List.not_mem_nil
  · exact fun _ => List.not_mem_nil
  · exact fun _ _ _ => List.not_mem_nil

/-- A key that was claimed is given back after file operations. -/
theorem LeftAlone.of_claim {key : String} {ticket : Nat} {registry : Registry}
    (claimed : w.registry.claim key = some (ticket, registry))
    (hcalm : Calm { w with registry, journal := w.journal ++ [.claimed key ticket] } v) :
    LeftAlone w { v with
      registry := v.registry.release key ticket
      journal := v.journal ++ [.released key ticket] } := by
  obtain ⟨hfree, hticket, hregistry⟩ := Registry.claim_spec claimed
  obtain ⟨late, hlate, hidle, htokens⟩ := hcalm.past
  have hsince : w.since { v with
      registry := v.registry.release key ticket
      journal := v.journal ++ [.released key ticket] } =
        .claimed key ticket :: (late ++ [.released key ticket]) := by
    refine World.since_eq ?_
    show v.journal ++ _ = _
    rw [hlate, List.append_assoc, List.append_assoc]
    rfl
  have hlast : ∀ o, (∀ k t, o ≠ .claimed k t) → (∀ k t, o ≠ .released k t) →
      (o ∈ .claimed key ticket :: (late ++ [.released key ticket]) ↔ o ∈ late) := by
    intro o hclaimed hreleased
    rw [List.mem_cons, List.mem_append, List.mem_singleton]
    simp only [hclaimed, hreleased, false_or, or_false]
  have hholders : v.registry.holders = (key, ticket) :: w.registry.holders := by
    rw [hcalm.alike.holders]
    show registry.holders = _
    rw [hregistry, hticket]
  have hheld : v.registry.holder? key = some ticket := by
    rw [Registry.holder?, hholders, List.lookup_cons_self]
  constructor
  case active =>
    show (v.registry.release key ticket).holders = _
    have hothers : ∀ x ∈ w.registry.holders, x.1 ≠ key := by
      rintro x hx rfl
      have hne := List.lookup_eq_none_iff.mp hfree x hx
      rw [bne_self_eq_false] at hne
      cases hne
    rw [Registry.release, if_pos hheld]
    show v.registry.holders.filter _ = _
    rw [hholders, List.filter_cons_of_neg (by simp)]
    exact List.filter_eq_self.mpr fun x hx => by simpa using hothers x hx
  case tokens =>
    intro t ht
    show (v.registry.release key ticket).isCancelled t = true ↔ _
    rw [Registry.isCancelled_release, htokens, hsince]
    refine or_congr ?_ (exists_congr fun k => ?_)
    · show registry.isCancelled t = true ↔ _
      rw [Registry.isCancelled_of_claim claimed]
    · rw [hlast _ (fun _ _ heq => by cases heq) fun _ _ heq => by cases heq]
      refine and_congr_right fun _ => ?_
      show registry.holder? k = some t ↔ _
      rw [Registry.holder?_of_claim claimed]
      split
      · next hk =>
        subst hk
        rw [hfree]
        refine ⟨fun heq => absurd ?_ ht, fun heq => by cases heq⟩
        rw [← Option.some.inj heq, hticket]
      · exact Iff.rfl
  case waiting => exact hcalm.waiting
  case bus => exact hcalm.bus
  case told =>
    intro k m hmem
    rw [hsince, hlast _ (fun _ _ heq => by cases heq) fun _ _ heq => by cases heq] at hmem
    obtain ⟨watch, percent, hwatch, heq⟩ := (hidle _ hmem).1 k m rfl
    cases heq
    exact ⟨percent, hwatch, rfl⟩
  case calls =>
    intro i hmem
    rw [hsince, hlast _ (fun _ _ heq => by cases heq) fun _ _ heq => by cases heq] at hmem
    exact (hidle _ hmem).2.1 i rfl
  case attempts =>
    intro t kind chunk hmem
    rw [hsince, hlast _ (fun _ _ heq => by cases heq) fun _ _ heq => by cases heq] at hmem
    exact (hidle _ hmem).2.2 t kind chunk rfl

/-! ## Requests that come to nothing -/

/-- What becomes of the first half of a request. -/
theorem accept_cases (s : Submission) (w : World) :
    (∃ e v, (accept h s).settle.run w = (.error e, v) ∧ Submitted h s w (.error e) v) ∨
    ∃ (job : Job) (ticket : Nat) (registry : Registry) (u : World) (said : LogRecord),
      Job.plan s h.catalog.has = .ok job ∧
      w.registry.claim job.targetKey = some (ticket, registry) ∧
      Calm { w with registry, journal := w.journal ++ [.claimed job.targetKey ticket] } u ∧
      (accept h s).settle.run w = (.ok ⟨job, .new job (h.time w.clock), ticket⟩,
        { u with journal := u.journal ++ [.logged said] }) := by
  have hsubmitted := submit_submitted (h := h) s w
  unfold submit at hsubmitted
  rw [Try.run_settle_bind] at hsubmitted
  rcases haccept : (accept h s).settle.run w with ⟨e | a, v⟩
  all_goals rw [haccept] at hsubmitted
  · exact .inl ⟨e, v, rfl, hsubmitted⟩
  · refine .inr ?_
    replace hsubmitted : Submitted h s w (.ok ()) { v with waiting := v.waiting ++ [a] } := hsubmitted
    generalize hlast : { v with waiting := v.waiting ++ [a] } = z at hsubmitted
    generalize hok : (Except.ok () : Except SubmitError Unit) = r at hsubmitted
    cases hsubmitted with
    | refused | active | unsaved => cases hok
    | @accepted job plan ticket registry claimed u save said =>
      obtain ⟨hwaiting, ha⟩ := List.append_inj' (congrArg World.waiting hlast) rfl
      obtain rfl := List.cons.inj ha |>.1
      have hcalm : Calm { w with registry, journal := w.journal ++ [.claimed job.targetKey ticket] } u :=
        (Try.Keeps.of_run (JobRecord.save_moves _ _) save).calm
      refine ⟨job, ticket, registry, u, said, plan, claimed, hcalm, ?_⟩
      congr 1
      have hrest := congrArg (fun x : World => { x with waiting := v.waiting }) hlast
      replace hrest : v = { u with journal := u.journal ++ [.logged said], waiting := v.waiting } := hrest
      rw [hrest, hwaiting]

/-- What is left by a request that comes to nothing. -/
structure Rejected (s : Submission) (e : Refusal) (w v : World) : Prop where
  alone : LeftAlone w v
  /-- A request that is turned down leaves no trace. -/
  untouched : (∃ d, e = .refused (.configuration d)) ∨ (∃ key, e = .refused (.alreadyActive key)) →
    v = w
  /-- A record that cannot be stored costs no file a byte, an earlier record included. -/
  files : ∀ d, e = .refused (.persist d) → Grown w v ∧
    ∀ p bytes, w.disk.read w.cwd p = .ok bytes → v.disk.read v.cwd p = .ok bytes
  /-- Whoever claimed the key has given it back. -/
  free : (∃ d, e = .refused (.persist d)) ∨ e = .engineStopped →
    (v.registry.claim s.targetKey).isSome = true

/-- A key that was free before is free when all is left alone. -/
theorem LeftAlone.claimable {key : String} (ha : LeftAlone w v)
    (hfree : w.registry.holder? key = none) : (v.registry.claim key).isSome = true := by
  refine Option.isSome_iff_ne_none.mpr fun hnone => ?_
  obtain ⟨t, ht⟩ := Registry.claim_eq_none.mp hnone
  rw [Registry.holder?, ha.active] at ht
  cases hfree.symm.trans ht

/-- The ways in which a request comes to nothing. -/
theorem submitTo_fails {running : Bool} {s : Submission} {e : Refusal}
    (hrun : Try.Fails (submitTo h running s) w e v) :
    (∃ d, e = .refused d ∧ Submitted h s w (.error d) v) ∨
    e = .engineStopped ∧ ∃ (job : Job) (ticket : Nat) (registry : Registry) (u : World)
      (said : LogRecord), Job.plan s h.catalog.has = .ok job ∧
      w.registry.claim job.targetKey = some (ticket, registry) ∧
      Calm { w with registry, journal := w.journal ++ [.claimed job.targetKey ticket] } u ∧
      v = ((release job.targetKey ticket).run
        { u with journal := u.journal ++ [.logged said] }).2 := by
  unfold submitTo at hrun
  obtain ⟨d, u, haccept, hsubmitted⟩ | ⟨job, ticket, registry, u, said, plan, claimed, hcalm, haccept⟩ :=
    accept_cases (h := h) s w
  · refine .inl ⟨d, ?_⟩
    rcases hrun.bind with hfailed | ⟨_, _, hok, -⟩
    · obtain ⟨d', rfl, hd⟩ := hfailed.mapError
      obtain ⟨hsame, rfl⟩ := Prod.mk.inj (haccept.symm.trans hd)
      obtain rfl := Except.error.inj hsame
      exact ⟨rfl, hsubmitted⟩
    · cases (Prod.mk.inj (haccept.symm.trans hok.mapError)).1
  · refine .inr ?_
    rcases hrun.bind with hfailed | ⟨a, x, hok, hrun⟩
    · obtain ⟨d, rfl, hd⟩ := hfailed.mapError
      cases (Prod.mk.inj (haccept.symm.trans hd)).1
    · obtain ⟨hsame, rfl⟩ := Prod.mk.inj (haccept.symm.trans hok.mapError)
      obtain rfl := Except.ok.inj hsame
      cases running with
      | true => exact absurd hrun Try.Fails.not_lift
      | false =>
        obtain ⟨rfl, rfl⟩ := Try.Fails.throw (show Try.Fails (MonadExcept.throw .engineStopped :
          Try Refusal Unit) _ e v from hrun)
        exact ⟨rfl, job, ticket, registry, u, said, plan, claimed, hcalm, rfl⟩

/-- Every way in which a request comes to nothing undoes what was done so far. -/
theorem submitTo_rejected {running : Bool} {s : Submission} {e : Refusal}
    (hrun : Try.Fails (submitTo h running s) w e v) : Rejected s e w v := by
  have hdown : ∀ {d : SubmitError}, (∀ f, d ≠ .persist f) → Rejected s (.refused d) w w := by
    intro d hd
    refine ⟨.refl w, fun _ => rfl, fun f heq => ?_, ?_⟩
    · exact absurd (Refusal.refused.inj heq) (hd f)
    · rintro (⟨f, heq⟩ | heq)
      · exact absurd (Refusal.refused.inj heq) (hd f)
      · cases heq
  obtain ⟨d, rfl, hsubmitted⟩ | ⟨rfl, job, ticket, registry, u, said, plan, claimed, hcalm, rfl⟩ :=
    submitTo_fails hrun
  · generalize hr : (Except.error d : Except SubmitError Unit) = r at hsubmitted
    cases hsubmitted with
    | refused plan =>
      obtain rfl := Except.error.inj hr
      exact hdown fun _ heq => by cases heq
    | active plan held =>
      obtain rfl := Except.error.inj hr
      exact hdown fun _ heq => by cases heq
    | @unsaved job plan ticket registry claimed f u save =>
      obtain rfl := Except.error.inj hr
      have halone : LeftAlone w { u with
          registry := u.registry.release job.targetKey ticket
          journal := u.journal ++ [.released job.targetKey ticket] } :=
        .of_claim claimed (Try.Keeps.of_run (JobRecord.save_moves _ _) save).calm
      have hgrown : Grown { w with registry, journal := w.journal ++ [.claimed job.targetKey ticket] } u :=
        JobRecord.save_grown save
      refine ⟨halone, ?_, fun _ _ => ⟨⟨hgrown.cwd, hgrown.stays, hgrown.comes⟩, fun p bytes hread =>
        hgrown.read hread⟩, fun _ => halone.claimable ?_⟩
      · rintro (⟨_, heq⟩ | ⟨_, heq⟩)
        · cases heq
        · cases heq
      · rw [← Job.targetKey_of_plan plan]
        exact (Registry.claim_spec claimed).1
    | accepted => cases hr
  · -- the record is stored, but nobody is left to run the job
    have hsaid : Calm u { u with journal := u.journal ++ [.logged said] } :=
      Moves.calm (h := h) (.single (.aside _ rfl))
    have halone := LeftAlone.of_claim claimed (hcalm.trans hsaid)
    refine ⟨halone, ?_, fun d heq => (by cases heq), fun _ => halone.claimable ?_⟩
    · rintro (⟨_, heq⟩ | ⟨_, heq⟩)
      · cases heq
      · cases heq
    · rw [← Job.targetKey_of_plan plan]
      exact (Registry.claim_spec claimed).1

end Engine

end Decompile
