import Decompile.Proofs.Conservation.Tree
import Decompile.Proofs.Discards.Request

/-!
# Discards are not seen

A job that discards intermediate files does the same as one that keeps them: it makes the same calls,
says the same, and leaves the same sources and resources. What it leaves less is intermediate.

- `Host.Attends`: two hosts at which the same happens to both jobs.
- `Site.Discreet`: what the two jobs have in common, and where they differ.
- `Engine.discards_unseen`: discards are not seen.
-/

namespace Decompile

/-- The moment at which a job that was taken on has taken some messages. -/
def Accepted.moment (h : Host) (a : Accepted) (w : World) (n : Nat) : Nat :=
  (((Task.ofAccepted a).runFor h n).run w).2.clock

/-- Two hosts at which a request is taken on and its job is run, at the first one to keep intermediate
files and at the second one to discard them. The tools are the same, and the same happens at both hosts,
message by message; while files are discarded nothing happens, and no file operation fails. -/
structure Host.Attends (k h : Host) (s : Submission) (a : Accepted) (w : World) : Prop where
  tool : k.tool = h.tool
  request : k.Coincides h w.clock ((Engine.accept k s).settle.run w).2.clock
  job : ∀ n < (Task.ofAccepted a).messageBound, k.Repeats h
    (a.moment k ((Engine.accept k s).settle.run w).2 n)
    (a.moment k ((Engine.accept k s).settle.run w).2 (n + 1))
    ((a.keeping (some false)).moment h
      ((Engine.accept h { s with keepIntermediate := false }).settle.run w).2 n)
    ((a.keeping (some false)).moment h
      ((Engine.accept h { s with keepIntermediate := false }).settle.run w).2 (n + 1))

/-- What two runs of a job leave, of which the second one discards intermediate files. The same calls were
made in the same order, and listeners were told the same. Both have left the same sources and resources, and
the input `p` as it was; nothing is changed outside the directory of the target. The disks differ where the
second one has nothing, among intermediate files, and in what the records say of these. -/
structure Site.Discreet (s : Site) (p : FilePath) (u v : World) : Prop where
  calls : World.callsIn u.journal = World.callsIn v.journal
  told : ∀ key, World.messagesOn key u.journal = World.messagesOn key v.journal
  listeners : u.bus = v.bus
  java : ∀ rest, u.disk.find? (s.area .convert ++ rest) = v.disk.find? (s.area .convert ++ rest)
  resources : ∀ rest, u.disk.find? (s.area .resources ++ rest) = v.disk.find? (s.area .resources ++ rest)
  input : ∀ q e, e.isFile = true → s.before.entryAt s.cwd true p = .ok (q, e) →
    u.disk.entryAt s.cwd true p = .ok (q, e) ∧ v.disk.entryAt s.cwd true p = .ok (q, e)
  outside : ∀ q, (∀ n rest, q ≠ s.target ++ n :: rest) →
    u.disk.find? q = s.before.find? q ∧ v.disk.find? q = s.before.find? q
  differ : ∀ q, q ≠ s.recordPlace → u.disk.find? q ≠ v.disk.find? q → v.disk.find? q = none ∧
    (s.area .unpack <+: q ∨ s.area .intermediateConvert <+: q)
  record : ∃ r : JobRecord, u.disk.find? s.recordPlace = some (.file (Text.encode r.render) false) ∧
    v.disk.find? s.recordPlace = some (.file (Text.encode
      { r with submission.keepIntermediate := false }.render) false)

variable {h k : Host} {s : Submission} {a : Accepted} {u v w : World} {base : Place}

namespace Site

variable {s : Site} {j : Job} {done : List StageKind} {input : FilePath}

theorem Parted.discreet (hs : s.Fresh) (hinput : s.Apart input) (huv : s.Parted j done u v) :
    s.Discreet input u v where
  calls := huv.veiled.calls
  told := huv.veiled.told
  listeners := huv.veiled.bus
  java := huv.lacks.written ⟨nofun, nofun⟩
  resources := huv.lacks.written ⟨nofun, nofun⟩
  input q e hfile hfound := by
    have hrecord := hinput.found hfile hfound
    exact ⟨hs.entryAt_outside hfound hrecord huv.lacks.outside,
      hs.entryAt_outside hfound hrecord fun _ => huv.lacks.outside'⟩
  outside q hq := ⟨huv.lacks.outside q hq, huv.lacks.outside' hq⟩
  differ _ := huv.lacks.differ
  record := huv.lacks.record

section

variable {c : StageContext} (hs : s.Grounded) (hc : s.Serves h (a.context h))
  (hsettings : h.settings = k.settings) (hcatalog : h.catalog = k.catalog)
  (hceiling : h.memoryCeiling = k.memoryCeiling) (htool : k.tool = h.tool)
  (hinput : s.Apart a.job.submission.inputPath) (htools : h.Reproducible (a.context h) s.cwd)
  (hkeep : a.job.submission.keepIntermediate = true) (hchain : a.job.chain = chainOf a.job.backend)
include hs hc hsettings hcatalog hceiling htool hinput htools hkeep hchain

/-- **Two runs of a whole job.** If the second one says that it has succeeded, all that its stages have
consumed is discarded. -/
theorem Grounded.runJob (hparted : s.Parted a.job [] u v)
    (hrepeats : ∀ n < (Task.ofAccepted a).messageBound, k.Repeats h
      (a.moment k u n) (a.moment k u (n + 1))
      ((a.keeping (some false)).moment h v n) ((a.keeping (some false)).moment h v (n + 1))) :
    ∃ done, s.Parted a.job done ((Engine.runJob k a).run u).2
        ((Engine.runJob h (a.keeping (some false))).run v).2 ∧
      ((((Task.ofAccepted (a.keeping (some false))).runFor h
          (Task.ofAccepted (a.keeping (some false))).messageBound).run v).1.state.outcome =
        some .succeeded → done = stageKindsOf a.job.backend) := by
  have hcontext : a.context k = a.context h := by
    unfold Accepted.context
    rw [hsettings]
  have hin : s.InStep k (a.context h) .waiting (Task.ofAccepted a) u v :=
    ⟨hcontext, rfl, [], ⟨rfl, rfl⟩, hparted⟩
  unfold Accepted.moment at hrepeats
  rw [Engine.run_runJob, Engine.run_runJob]
  rw [Task.ofAccepted_keeping] at hrepeats ⊢
  have hbound : ((Task.ofAccepted a).keeping (some false)).messageBound =
      (Task.ofAccepted a).messageBound := rfl
  rw [hbound]
  generalize (Task.ofAccepted a).messageBound = bound at hrepeats ⊢
  obtain ⟨hsame, q, -, hstate, done, hstood, hafter⟩ := hs.runFor hc hsettings hcatalog hceiling htool
    hinput htools hkeep hchain hin bound hrepeats
  rw [hsame, Task.state_keeping, hstate, Phase.job_outcome]
  refine ⟨done, ⟨?_, hafter.home, hafter.lacks⟩, fun hdone => ?_⟩
  · exact (Veiled.release a.job.targetKey a.ticket _ _ hafter.veiled).2
  · cases q with
    | succeeded =>
      obtain rfl : done = a.job.chain.map Stage.kind := hstood
      rw [hchain, kinds_chainOf]
    | waiting | underway | failed | unstarted | stopped => cases hdone

end

end Site

namespace Engine

/-- **Discards are not seen.** A request to keep intermediate files is taken on, for a target whose directory
is empty, and its job is run, with tools that depend on the contents of the files that they name and write
where they are told to. The same request to discard intermediate files is taken on as well, and its job does
the same, however both end. If it succeeds, neither directory of intermediate files is left. -/
theorem discards_unseen (hkeep : s.keepIntermediate = true) (haccept : (accept k s).Succeeds w a u)
    (hsite : (a.site k u base).Grounded) (hidle : w.monitor = none) (hsame : k.Attends h s a w)
    (hinput : (a.site k u base).Apart s.inputPath) (htools : h.Reproducible (a.context h) u.cwd) :
    ∃ v, (accept h { s with keepIntermediate := false }).Succeeds w (a.keeping (some false)) v ∧
      (a.site k u base).Discreet s.inputPath ((runJob k a).run u).2
        ((runJob h (a.keeping (some false))).run v).2 ∧
      (Succeeds h (a.keeping (some false)) v →
        ∀ kind, kind = .unpack ∨ kind = .intermediateConvert → ∀ rest,
          ((runJob h (a.keeping (some false))).run v).2.disk.find?
            ((a.site k u base).area kind ++ rest) = none) := by
  obtain ⟨htool, hrequest, hjob⟩ := hsame
  have hsettings := hrequest.settings
  have hcatalog := hrequest.catalog
  have hceiling := hrequest.ceiling
  obtain ⟨m, q, said, hlocate, rfl, hother⟩ := accept_keeping haccept (some false)
  rw [Submission.keeping_false] at hother
  -- while the request is taken on both hosts are the same
  have hkept : ((accept k s).settle.run w).2 = m.recorded q a.record said := congrArg Prod.snd haccept
  rw [hkept] at hrequest hjob
  have hdiscarding : (accept h { s with keepIntermediate := false }).Succeeds w (a.keeping (some false))
      (m.recorded q (a.record.keeping (some false)) said) := by
    have hhere := (hrequest.accept { s with keepIntermediate := false } w).2 (Nat.le_refl _)
    unfold Try.Succeeds at hother ⊢
    rw [hother] at hhere
    exact hhere (by rw [World.recorded_clock, World.recorded_clock])
  have hdiscarded : ((accept h { s with keepIntermediate := false }).settle.run w).2 =
      m.recorded q (a.record.keeping (some false)) said := congrArg Prod.snd hdiscarding
  rw [hdiscarded] at hjob
  have hplanned := accept_planned haccept
  obtain ⟨hsubmission, hchain⟩ := accept_job haccept
  have hc : (a.site k (m.recorded q a.record said) base).Serves h (a.context h) := by
    obtain ⟨hsources, hkey, -, hclean⟩ := hplanned.serves (m.recorded q a.record said) base
    exact ⟨hsettings ▸ hsources, hkey, rfl, hclean⟩
  rw [← hsettings] at hlocate
  have hparted : (a.site k (m.recorded q a.record said) base).Parted a.job [] (m.recorded q a.record said)
      (m.recorded q (a.record.keeping (some false)) said) := hsite.accepted hc rfl rfl hlocate
  rw [← hsubmission] at hinput hkeep
  obtain ⟨done, hparted', hdone⟩ := hsite.runJob hc hsettings hcatalog hceiling htool hinput htools hkeep
    hchain hparted hjob
  refine ⟨_, hdiscarding, hsubmission ▸ hparted'.discreet hsite.fresh hinput,
    fun hsuccess kind hkind rest => ?_⟩
  have houtcome := Succeeds.outcome (a := a.keeping (some false)) hplanned.positional
    (accept_idle hdiscarding hidle) hsuccess
  obtain rfl := hdone houtcome
  exact hparted'.lacks.cleared hkind rest

/-- A host at which memory is read once while a job is run. -/
def watchedHost : Host :=
  { sourceHost with interlude := fun n => if n = 45 then [.sample 50] else [] }

/-- A host at which the same happens later, by as much as a job is held up by its discards. -/
def delayedHost : Host :=
  { sourceHost with
    interlude := fun n => if n = 48 then [.sample 50] else []
    time := fun n =>
      sourceHost.time (n - if n ≤ 27 then 0 else if n ≤ 42 then 1 else if n ≤ 53 then 3 else 4) }

theorem delayedHost_reproducible {a : Accepted} (ha : a.job.targetKey = "a") (cwd : Place) :
    delayedHost.Reproducible (a.context delayedHost) cwd where
  convert _ _ _ _ _ _ _ := rfl
  intermediate _ _ _ _ _ := rfl
  intoJava files i hi past d x hx := by
    have hwithin := (sourceHost_toolsWithin ha).convert files i hi past d
    obtain rfl := List.mem_singleton.mp hx
    exact hwithin _ _ hx
  intoIntermediate dex past d x hx := by
    have hwithin := (sourceHost_toolsWithin ha).intermediate dex past d
    obtain rfl := List.mem_singleton.mp hx
    exact hwithin _ _ hx

/-- A request for a bytecode container that is converted first, and the engine that gets it. -/
def keptRequest : Submission := ⟨"cfr", false, 1, 9, 90, true, "a", "A", ⟨"/1.dex"⟩, .dex⟩

def keptStart : World := .new (Disk.empty.put ["1.dex"] (.file [1] false)) []

/-- The request is taken on, to keep what is intermediate and to discard it. -/
def keptRun : Except SubmitError Accepted × World :=
  (accept watchedHost keptRequest).settle.run keptStart

def discardedRun : Except SubmitError Accepted × World :=
  (accept delayedHost { keptRequest with keepIntermediate := false }).settle.run keptStart

/-- The job that it has become. -/
def keptJob : Accepted := keptRun.1.toOption.get (by decide +kernel)

/-- How long the two jobs take: the second one is held up after each stage but the first. -/
theorem keptJob_moments :
    (List.range 8).map (keptJob.moment watchedHost keptRun.2) = [4, 16, 27, 41, 50, 53, 53, 53] ∧
      (List.range 8).map ((keptJob.keeping (some false)).moment delayedHost discardedRun.2) =
        [4, 16, 28, 44, 54, 57, 57, 57] := by
  constructor
  · decide +kernel
  · decide +kernel

/-- What happens to the one job happens to the other. -/
theorem keptJob_attended : watchedHost.Attends delayedHost keptRequest keptJob keptStart where
  tool := rfl
  request := by
    have hclock : ((accept watchedHost keptRequest).settle.run keptStart).2.clock = 4 := by
      decide +kernel
    rw [hclock]
    refine ⟨rfl, rfl, rfl, fun n _ hn => ?_, fun _ _ _ => rfl, fun n _ hn => ?_⟩
    · show (if n = 48 then _ else _) = if n = 45 then _ else _
      rw [if_neg (by omega), if_neg (by omega)]
    · show sourceHost.time (n - if n ≤ 27 then 0 else _) = sourceHost.time n
      rw [if_pos (by omega), Nat.sub_zero]
  job := by
    obtain ⟨hleft, hright⟩ := keptJob_moments
    unfold keptRun at hleft
    unfold discardedRun at hright
    have hbound : (Task.ofAccepted keptJob).messageBound = 7 := by decide +kernel
    have hentry : ∀ {f : Nat → Nat} {l : List Nat}, (List.range 8).map f = l →
        ∀ n < 8, f n = l.getD n 0 := by
      rintro f l rfl n hn
      simp [hn]
    rw [hbound]
    intro n hn
    rw [hentry hleft n (by omega), hentry hleft (n + 1) (by omega), hentry hright n (by omega),
      hentry hright (n + 1) (by omega)]
    revert n hn
    decide +kernel

theorem keptRun_succeeds : (accept watchedHost keptRequest).Succeeds keptStart keptJob keptRun.2 := by
  have hok : ∀ {r : Except SubmitError Accepted × World} (hr : r.1.toOption.isSome = true),
      r = (.ok (r.1.toOption.get hr), r.2) := by
    rintro ⟨e | a, v⟩ hr
    · cases hr
    · rfl
  have hrun : (accept watchedHost keptRequest).settle.run keptStart = keptRun := by rw [keptRun]
  unfold Try.Succeeds keptJob
  rw [hrun]
  exact hok _

/-- A run that takes longer for its discards, in which memory is read meanwhile. -/
theorem discards_unseen_delayed :
    (keptJob.site watchedHost keptRun.2 ["sources"]).Grounded ∧
      Succeeds delayedHost (keptJob.keeping (some false)) discardedRun.2 ∧
      (keptJob.site watchedHost keptRun.2 ["sources"]).Discreet ⟨"/1.dex"⟩
        ((runJob watchedHost keptJob).run keptRun.2).2
        ((runJob delayedHost (keptJob.keeping (some false))).run discardedRun.2).2 ∧
      ∀ kind, kind = .unpack ∨ kind = .intermediateConvert → ∀ rest,
        ((runJob delayedHost (keptJob.keeping (some false))).run discardedRun.2).2.disk.find?
          ((keptJob.site watchedHost keptRun.2 ["sources"]).area kind ++ rest) = none := by
  have hsite : (keptJob.site watchedHost keptRun.2 ["sources"]).Grounded := by decide +kernel
  have hsuccess : Succeeds delayedHost (keptJob.keeping (some false)) discardedRun.2 := by
    decide +kernel
  have hinput : (keptJob.site watchedHost keptRun.2 ["sources"]).Apart ⟨"/1.dex"⟩ := by
    have hfound : (keptJob.site watchedHost keptRun.2 ["sources"]).before.entryAt
        (keptJob.site watchedHost keptRun.2 ["sources"]).cwd true ⟨"/1.dex"⟩ =
          .ok (["1.dex"], .file [1] false) := by
      decide +kernel
    exact hsite.fresh.apart hfound (by decide +kernel)
  have htools : delayedHost.Reproducible (keptJob.context delayedHost) keptRun.2.cwd :=
    delayedHost_reproducible (by decide +kernel) _
  obtain ⟨v, hv, hdiscreet, hcleared⟩ :=
    discards_unseen rfl keptRun_succeeds hsite rfl keptJob_attended hinput htools
  obtain rfl : discardedRun.2 = v := congrArg Prod.snd hv
  exact ⟨hsite, hsuccess, hdiscreet, hcleared hsuccess⟩

end Engine

end Decompile
