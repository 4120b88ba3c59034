import Decompile.Proofs.Discards.Stage
import Decompile.Proofs.Twins.Run
import Decompile.Proofs.Locality.Run

/-!
# Two runs of a job, of which one discards

Between its stages a job stores its record and tells of them. The records of the two runs say different
things of intermediate files; otherwise both runs do the same. So message by message both runs do the
same, and after each message the one disk lacks what has been consumed by the stages that have succeeded.

- `Site.approach`: the paths above the directory of the target, and that directory.
- `Stable.locate_record`, `Lacks.stored`: where the record is, and a record that is stored.
- `Grounded.replaceRecord`, `Grounded.saveRecord`: both runs store their records.
- `Grounded.echoes`: between stages both runs do the same.
- `Stood`: the stages that have succeeded when a job is in a phase.
- `Grounded.handled`: what both runs do about a message.
- `Site.InStep`: both runs between two messages; `Grounded.step` and `Grounded.runFor` bring it on.
-/

namespace Decompile

/-! ## Between the stages -/

namespace Site

variable {s : Site} {h k : Host} {c : StageContext} {j : Job} {d d' : Disk} {done : List StageKind}
  {a a' : Nat} {p : FilePath}

/-- The paths above the directory of the target, and that directory. -/
def approach (s : Site) : Realm where
  look p := p.isAbsolute = s.sources.isAbsolute ∧ p.steps <+: s.sources.steps ++ [s.key]
  make p := p.isAbsolute = s.sources.isAbsolute ∧ p.steps <+: s.sources.steps ++ [s.key]
  write _ := False
  take _ := False

section

variable (hs : s.Grounded) (hc : s.Serves h c)
include hc

theorem Serves.spells_root : s.sources.Spells [s.key] c.layout.root := by
  rw [hc.layout, hc.sources, hc.key]
  exact (FilePath.Spells.refl _).child (isEntryName_of_isTargetKey hc.clean)

theorem Serves.spells_record : s.sources.Spells [s.key, recordName] (c.layout.root.join ⟨recordName⟩) :=
  hc.spells_root.child (by decide)

include hs

/-- On the way to the directory of the target the two disks are the same, and nothing can be made. -/
theorem Stable.approach (hd : s.Stable d) (hd' : s.Stable d') (hp : s.approach.make p) :
    Disk.SameAt d d' s.cwd p ∧ ∀ x, d.planMakeDirectory s.cwd p ≠ .ok x := by
  obtain ⟨habsolute, hsteps⟩ := hp
  have hdir := hd.sited.keeps _ _ hs.fresh.there rfl
  have hdir' := hd'.sited.keeps _ _ hs.fresh.there rfl
  by_cases habove : p.steps <+: s.sources.steps
  · exact Disk.SameAt.above hs.tree hs.home hs.fresh.anchored.leads hd.sited.keeps hd'.sited.keeps
      habsolute habove
  have hself : p.steps = s.sources.steps ++ [s.key] := by
    refine (List.prefix_concat_iff.mp hsteps).resolve_right habove
  have hkey := hc.isEntryName_key
  have hstays : Place.stays 0 [s.key] = true := Place.stays_names hkey 0
  constructor
  · refine .below hs.fresh.anchored.leads hd.sited.keeps hd'.sited.keeps hd.sited.linkless habsolute hself
      (List.cons_ne_nil _ _) hstays fun r hne hr => ?_
    obtain ⟨r, rfl, hrest⟩ := (List.prefix_cons_iff.mp hr).resolve_left hne
    rw [List.prefix_nil.mp hrest, Place.walk_names _ hkey, List.nil_append]
    exact hdir.trans hdir'.symm
  · intro x hx
    obtain ⟨through, q, e, hlocate, rfl, hmissing⟩ := Disk.locate_of_planMakeDirectory hx
    have hleads : s.sources.Leads [s.key] p :=
      ⟨habsolute, [s.key], List.cons_ne_nil _ _, hself, hstays, Place.walk_names _ hkey⟩
    obtain ⟨rfl, -⟩ := (hs.fresh.anchoredOn hd.sited).locate hleads hlocate
    rw [show s.base ++ [s.key] = s.target from rfl, hdir] at hmissing
    cases hmissing

/-- The path of the record leads to it. -/
theorem Stable.locate_record (hd : s.Stable d) (through : Bool) :
    d.locate s.cwd through (c.layout.root.join ⟨recordName⟩) = .ok (s.recordPlace, .plain) := by
  have hnames : ∀ n ∈ [s.key, recordName], IsEntryName n := by
    rintro n (_ | ⟨_, _ | ⟨_, hn⟩⟩)
    · exact hc.isEntryName_key _ List.mem_cons_self
    · decide
    · cases hn
  have hlocate := Disk.Anchored.locate_names [s.key] (hs.fresh.anchoredOn hd.sited) hd.tree
    hc.spells_record (FilePath.ending_child (by decide)) hnames (by decide)
    (hd.sited.keeps _ _ hs.fresh.there rfl) through
  rwa [← List.append_assoc] at hlocate

end

/-- A record in place of another one. -/
theorem Stable.stored (hd : s.Stable d) {b b' : Bytes} {x : Bool}
    (hfile : d.find? s.recordPlace = some (.file b x)) : s.Stable (d.apply (.replace s.recordPlace b')) where
  sited := by
    refine hd.sited.apply ⟨fun e he => ?_, fun rest hrest n hn => ?_⟩
    · rw [hfile] at he
      cases he
      rfl
    · obtain rfl := List.append_cancel_left hrest
      exact List.mem_singleton.mp hn ▸ by decide
  tree := by
    refine hd.tree.apply ⟨hd.tree.admits hfile nofun, fun hdir => ?_⟩
    rw [hfile] at hdir
    cases hdir
  areas kind e he := by
    have hne : s.area kind ≠ s.recordPlace := fun heq =>
      recordPlace_ne_area kind [] ((List.append_nil _).trans heq)
    exact hd.areas kind e ((Disk.find?_apply_of_ne d (.replace _ b') hne).symm.trans he)

/-- Both records are stored. -/
theorem Lacks.stored (hl : s.Lacks j done d d') (r : JobRecord) :
    s.Lacks j done (d.apply (.replace s.recordPlace (Text.encode r.render)))
      (d'.apply (.replace s.recordPlace (Text.encode (r.keeping (some false)).render))) := by
  have hother : ∀ {q} (d : Disk) (b : Bytes), q ≠ s.recordPlace →
      (d.apply (.replace s.recordPlace b)).find? q = d.find? q := fun d b hq =>
    Disk.find?_apply_of_ne d (.replace _ b) hq
  have hself : ∀ (d : Disk) (b : Bytes),
      (d.apply (.replace s.recordPlace b)).find? s.recordPlace = some (.file b false) := fun d b => by
    rw [Disk.apply, Disk.find?_put, if_pos rfl]
  obtain ⟨r', hleft, -⟩ := hl.record
  refine ⟨hl.stable.stored hleft, fun kind hkind rest => ?_, fun q hq => ?_, fun q hq => ?_,
    r, hself d _, hself d' _⟩
  · rw [hother d _ (recordPlace_ne_area kind rest), hl.vacant kind hkind]
  · rw [hother d _ fun heq => hq recordName [] heq, hl.outside q hq]
  · rw [hother d _ hq, hother d' _ hq, hl.spared q hq]

section

variable (hs : s.Grounded) (hc : s.Serves h c) (hsettings : h.settings = k.settings)
  (hcatalog : h.catalog = k.catalog) (hceiling : h.memoryCeiling = k.memoryCeiling)
include hs hc hsettings hcatalog hceiling

/-- Between stages nothing but records is changed. -/
theorem Grounded.twins_between (j : Job) (done : List StageKind) (a a' : Nat) :
    Twins (k.followedBy a h a') h (Beside a a' s.cwd (s.Lacks j done)) s.approach fun _ _ => False := by
  have hsame : ∀ p, s.approach.make p → ∀ d d', s.Lacks j done d d' →
      Disk.SameAt d d' s.cwd p ∧ ∀ x, d.planMakeDirectory s.cwd p ≠ .ok x := fun p hp d d' hl =>
    hl.stable.approach hs hc (hl.right hs.fresh) hp
  refine Beside.twins (B := fun _ _ => False) hceiling hsettings hcatalog (fun _ _ _ _ hx => absurd hx id)
    (fun p hp d d' hl => (hsame p hp d d' hl).1.entryAt true)
    (fun p hp d d' hl => ⟨(hsame p hp d d' hl).1.planMakeDirectory,
      fun x hx => absurd hx ((hsame p hp d d' hl).2 x)⟩)
    (fun p hp => absurd hp id) (fun p hp => absurd hp id) (fun _ hp => hp) (fun p q hp hq => ?_)
    fun p q hp => absurd hp id
  obtain ⟨habsolute, hsteps⟩ := FilePath.steps_parent? hq
  exact ⟨habsolute.trans hp.1, hsteps.trans hp.2⟩

/-- Both runs replace their records. -/
theorem Grounded.replaceRecord (a a' : Nat) {b b' : Bytes} (hstored : ∀ d d', s.Lacks j done d d' →
      s.Lacks j done (d.apply (.replace s.recordPlace b)) (d'.apply (.replace s.recordPlace b'))) :
    Try.Pairs (Beside a a' s.cwd (s.Lacks j done))
      (World.replaceFile (k.followedBy a h a') (c.layout.root.join ⟨recordName⟩) b)
      (World.replaceFile h (c.layout.root.join ⟨recordName⟩) b') := by
  have T := hs.twins_between hc hsettings hcatalog hceiling j done a a'
  unfold World.replaceFile
  refine T.access.bind fun _ u v huv => ?_
  have hl := huv.disks
  obtain ⟨r, hleft, hright⟩ := hl.record
  -- on both disks there is a record to be replaced
  have hplan : u.disk.planReplace u.cwd (c.layout.root.join ⟨recordName⟩) b =
      .ok (.replace s.recordPlace b) := by
    rw [huv.home, Disk.planReplace, hl.stable.locate_record hs hc]
    simp only [hleft]
  have hplan' : v.disk.planReplace v.cwd (c.layout.root.join ⟨recordName⟩) b' =
      .ok (.replace s.recordPlace b') := by
    rw [huv.home', Disk.planReplace, (hl.right hs.fresh).locate_record hs hc]
    simp only [hright]
  rw [Try.run_settle_bind, Try.run_settle_bind, World.run_plan, World.run_plan, hplan, hplan']
  exact ⟨rfl, huv.change (hstored _ _ hl)⟩

/-- **Both runs store their records**, which differ in what they say of intermediate files. -/
theorem Grounded.saveRecord {t : Task} (ht : t.context (k.followedBy a h a') = c) :
    Act.Pairs (Beside a a' s.cwd (s.Lacks j done)) (Beside a a' s.cwd (s.Lacks j done))
      (t.saveRecord (k.followedBy a h a')) ((t.keeping (some false)).saveRecord h) := by
  have T := hs.twins_between hc hsettings hcatalog hceiling j done a a'
  have hlayout : t.layout (k.followedBy a h a') = c.layout := congrArg StageContext.layout ht
  have hlayout' : (t.keeping (some false)).layout h = c.layout := by
    rw [← hlayout]
    unfold Task.layout
    rw [hsettings]
    rfl
  have hroot : s.approach.make c.layout.root :=
    ⟨hc.spells_root.absolute, hc.spells_root.steps ▸ List.prefix_refl _⟩
  have hreplaced := hs.replaceRecord hc hsettings hcatalog hceiling a a'
    fun d d' (hl : s.Lacks j done d d') => hl.stored t.record
  have hsave : Try.Pairs (Beside a a' s.cwd (s.Lacks j done))
      (t.record.save (k.followedBy a h a') c.layout)
      ((t.record.keeping (some false)).save h c.layout) := by
    unfold JobRecord.save World.store
    refine Try.Pairs.bind ?_ fun _ => .pure ()
    exact (T.ensureDirectory hroot).bind fun _ => hreplaced.mapError.bind fun _ => .pure _
  unfold Task.saveRecord
  rw [hlayout, hlayout']
  refine hsave.settle.bind fun r => ?_
  cases r with
  | ok _ => exact .pure ()
  | error e => exact T.log _ _ _

/-- **Between stages both runs do the same.** -/
theorem Grounded.echoes (j : Job) (done : List StageKind) (a a' : Nat) :
    Echoes (k.followedBy a h a') h (some false) c (Beside a a' s.cwd (s.Lacks j done)) := by
  have T := hs.twins_between hc hsettings hcatalog hceiling j done a a'
  exact
    { settings := hsettings
      time := fun u v huv => T.time u v huv
      save := fun t ht => hs.saveRecord hc hsettings hcatalog hceiling ht
      tell := fun m => Beside.publish _ m
      log := fun r => Beside.note _ }

end

end Site

/-! ## Message by message -/

/-- The stages of these kinds have succeeded when a job is in a phase and has these messages to take. -/
def Stood {chain : List Stage} : Phase chain → List Message → List StageKind → Prop
  | .waiting, queue, done => queue = [.start] ∧ done = []
  | .underway cut _, queue, done => ∃ r, queue = [.stageFinished cut.stage.ordinal r] ∧
      done = if r = .succeeded then cut.done.map Stage.kind ++ [cut.stage.kind]
        else cut.done.map Stage.kind
  | .succeeded, _, done => done = chain.map Stage.kind
  | _, _, done => done <+: chain.map Stage.kind

namespace Stood

variable {chain : List Stage} {p q : Phase chain} {m : Message} {es : List Effect}
  {queue rest : List Message} {done : List StageKind}

/-- They are the first ones of the chain. -/
theorem isPrefix (h : Stood p queue done) : done <+: chain.map Stage.kind := by
  cases p with
  | waiting =>
    obtain ⟨-, rfl⟩ := h
    exact List.nil_prefix
  | underway cut stops =>
    obtain ⟨r, -, rfl⟩ := h
    have hwhole := congrArg (List.map Stage.kind) cut.whole
    rw [List.map_append, List.map_cons] at hwhole
    rw [← hwhole]
    split
    · exact (List.prefix_append_right_inj _).mpr ⟨_, rfl⟩
    · exact List.prefix_append _ _
  | succeeded => exact h ▸ List.prefix_refl _
  | failed | unstarted | stopped => exact h

/-- A message is taken, and no stage is started. -/
theorem settle (h : Stood p queue done) (hstep : Phase.Step p m q es)
    (hnone : es = [] ∨ q.outcome ≠ none)
    (hqueue : m = .cancelRequested ∧ rest = queue ∨ queue = m :: rest) : Stood q rest done := by
  have hprefix := h.isPrefix
  cases hstep with
  | ignored p m hdeaf =>
    rcases hqueue with ⟨rfl, rfl⟩ | rfl
    · exact h
    cases p with
    | waiting =>
      obtain ⟨rfl, -⟩ := List.cons.inj h.1
      cases hdeaf ""
    | underway cut stops =>
      obtain ⟨r, hreport, -⟩ := h
      obtain ⟨rfl, -⟩ := List.cons.inj hreport
      simpa using hdeaf ""
    | succeeded | failed | unstarted | stopped => exact h
  | startEmpty hnil =>
    obtain ⟨-, rfl⟩ := h
    exact hnil ▸ rfl
  | stop cut stops =>
    rcases hqueue with ⟨-, rfl⟩ | rfl
    · exact h
    · obtain ⟨r, hreport, -⟩ := h
      cases (List.cons.inj hreport).1
  | complete cut last =>
    obtain ⟨r, hreport, rfl⟩ := h
    rcases hqueue with ⟨hne, -⟩ | rfl
    · cases hne
    obtain ⟨-, rfl⟩ := Message.stageFinished.inj (List.cons.inj hreport).1
    show _ = chain.map Stage.kind
    rw [if_pos rfl]
    conv => rhs; rw [cut.eq_of_last last, List.map_append, List.map_singleton]
  | stopUnstarted | fail | report => exact hprefix
  | start | advance => exact absurd rfl (hnone.resolve_left (List.cons_ne_nil _ _))

/-- When a stage is started, those before it have succeeded. -/
theorem opened {cut : Cut chain} (h : Stood p (m :: rest) done)
    (hstep : Phase.Step p m (.underway cut 0) (es ++ [.startStage cut.stage])) :
    rest = [] ∧ done = cut.done.map Stage.kind := by
  generalize hes : es ++ [Effect.startStage cut.stage] = effects at hstep
  cases hstep with
  | ignored => exact absurd hes (List.append_ne_nil_of_right_ne_nil _ (List.cons_ne_nil _ _))
  | start cut first =>
    obtain ⟨hqueue, rfl⟩ := h
    exact ⟨(List.cons.inj hqueue).2, by rw [first]; rfl⟩
  | advance before cut later =>
    obtain ⟨r, hqueue, rfl⟩ := h
    obtain ⟨hreport, hrest⟩ := List.cons.inj hqueue
    obtain ⟨-, rfl⟩ := Message.stageFinished.inj hreport
    exact ⟨hrest, by rw [if_pos rfl, later, List.map_append, List.map_singleton]⟩

end Stood

namespace Site

variable {s : Site} {h k : Host} {c : StageContext} {done : List StageKind} {a a' : Nat} {u v : World}
  {t : Task}

/-- Both runs between two messages: they are in the same phase. -/
structure InStep (s : Site) (k : Host) (c : StageContext) (p : Phase c.job.chain) (t : Task)
    (u v : World) : Prop where
  context : t.context k = c
  state : t.state = p.job c.job.targetKey
  worlds : ∃ done, Stood p t.queue done ∧ s.Parted c.job done u v

variable (hs : s.Grounded) (hc : s.Serves h c) (hsettings : h.settings = k.settings)
  (hcatalog : h.catalog = k.catalog) (hceiling : h.memoryCeiling = k.memoryCeiling)
  (htool : k.tool = h.tool) (hinput : s.Apart c.job.submission.inputPath)
  (htools : h.Reproducible c s.cwd) (hkeep : c.job.submission.keepIntermediate = true)
  (hchain : c.job.chain = chainOf c.job.backend)

section

include hs hc hsettings hcatalog hceiling htool hinput htools hkeep hchain

/-- **What both runs do about a message.** What is discarded meanwhile is discarded last. -/
theorem Grounded.handled {p q : Phase c.job.chain} {m : Message} {es : List Effect}
    {queue : List Message} (hstep : Phase.Step p m q es) (ht : t.context (k.followedBy a h a') = c)
    (hqueue : m = .cancelRequested ∧ t.queue = queue ∨ queue = m :: t.queue)
    (hstood : Stood p queue done) (huv : Beside a a' s.cwd (s.Lacks c.job done) u v) :
    t.Together (fun queue u v => ∃ done, Stood q queue done ∧
        (h.Quiet (a' + (u.clock - a)) v.clock → s.Parted c.job done u v))
      (some false) (t.performAll (k.followedBy a h a') (es.flatMap (Effect.actions t.job)))
      ((t.keeping (some false)).performAll h (es.flatMap (Effect.actions t.job))) u v := by
  have S := hs.echoes hc hsettings hcatalog hceiling c.job done a a'
  have hsettled : ∀ {x y : Act Task}, (es = [] ∨ q.outcome ≠ none) →
      t.Alike (Beside a a' s.cwd (s.Lacks c.job done)) (some false) x y →
      t.Together (fun queue u v => ∃ done, Stood q queue done ∧
        (h.Quiet (a' + (u.clock - a)) v.clock → s.Parted c.job done u v)) (some false) x y u v := by
    intro x y hnone halike
    obtain ⟨r, hleft, hright, hafter⟩ := halike u v huv
    have hstood' := hstood.settle hstep hnone hqueue
    refine ⟨r, [], ?_, ?_, done, ?_, fun _ => .of_beside hafter⟩
    · rw [List.append_nil]
      exact hleft
    · rw [List.append_nil]
      exact hright
    · rw [List.append_nil]
      exact hstood'
  rcases hstep.asks with rfl | ⟨hne, cut, l, rfl, hes⟩ | ⟨l, o, oom, detail, hq, rfl⟩
  · exact hsettled (.inl rfl) fun _ _ huv => ⟨t.record, rfl, rfl, huv⟩
  · obtain rfl := hqueue.resolve_left fun hstop => hne hstop.1
    obtain ⟨hnil, rfl⟩ := hstood.opened (hes ▸ hstep)
    refine S.opens ht hes (fun u v huv => ?_) huv
    obtain ⟨hsame, hparted⟩ := hs.runStage hc hsettings hcatalog hceiling htool hinput htools hkeep
      (cut.precede hchain) u v huv
    refine ⟨hsame, _, ⟨_, ?_, rfl⟩, hparted⟩
    rw [hnil]
    rfl
  · exact hsettled (.inr (hq ▸ nofun)) (S.ended ht (Beside.release _ _) l o oom detail)

/-- **One message.** -/
theorem Grounded.step {p : Phase c.job.chain} (hin : s.InStep k c p t u v) {m : Message}
    {rest : List Message} (hq : t.queue = m :: rest)
    (hrepeats : k.Repeats h u.clock ((t.step k m rest).run u).2.clock v.clock
      (((t.keeping (some false)).step h m rest).run v).2.clock) :
    (((t.keeping (some false)).step h m rest).run v).1 =
        ((t.step k m rest).run u).1.keeping (some false) ∧
      ∃ q, s.InStep k c q ((t.step k m rest).run u).1 ((t.step k m rest).run u).2
        (((t.keeping (some false)).step h m rest).run v).2 := by
  obtain ⟨hcontext, hstate, done, hstood, hparted⟩ := hin
  -- the first run may as well be one at a host that goes on as the second one
  have hlocal := (hrepeats.coincides.step rfl t m rest u).2 (Nat.le_refl _) (Nat.le_refl _)
  have hidle := hrepeats.idle
  rw [← hlocal] at hidle ⊢
  have hpolled : Beside u.clock v.clock s.cwd (s.Lacks c.job done) _ _ :=
    Beside.pause_from (k := k) hceiling hparted.veiled (Nat.add_comm _ _) (Nat.le_refl _) hparted.home
      hparted.lacks
  have hstop := congrArg (fun r => Registry.isCancelled r c.ticket) hpolled.veiled.registry
  obtain ⟨n, q, es, next, hstep, hcontext', hstate', hqueue, hleft, hright⟩ :=
    Task.step_keeping (some false) (h := k.followedBy u.clock h v.clock) hcontext
      (hchain ▸ positional_chainOf _) hstate hq hstop
  rw [hleft, hright] at hidle ⊢
  have htogether := hs.handled hc hsettings hcatalog hceiling htool hinput htools hkeep hchain hstep
    hcontext' hqueue hstood hpolled
  obtain ⟨hstate'', hcontext'', hsame, done', hstood', hparted'⟩ := htogether.step hcontext' hstate'
  exact ⟨hsame, q, hcontext'', hstate'', done', hstood', hparted' hidle⟩

/-- **Several messages.** -/
theorem Grounded.runFor {p : Phase c.job.chain} (hin : s.InStep k c p t u v) (fuel : Nat)
    (hrepeats : ∀ n < fuel, k.Repeats h ((t.runFor k n).run u).2.clock
      ((t.runFor k (n + 1)).run u).2.clock (((t.keeping (some false)).runFor h n).run v).2.clock
      (((t.keeping (some false)).runFor h (n + 1)).run v).2.clock) :
    (((t.keeping (some false)).runFor h fuel).run v).1 =
        ((t.runFor k fuel).run u).1.keeping (some false) ∧
      ∃ q, s.InStep k c q ((t.runFor k fuel).run u).1 ((t.runFor k fuel).run u).2
        (((t.keeping (some false)).runFor h fuel).run v).2 := by
  induction fuel generalizing t p u v with
  | zero => exact ⟨rfl, p, hin⟩
  | succ fuel ih =>
    cases hq : t.queue with
    | nil =>
      rw [Task.runFor_of_queue_eq_nil hq, Task.runFor_of_queue_eq_nil (t := t.keeping (some false)) hq]
      exact ⟨rfl, p, hin⟩
    | cons m rest =>
      have hleft := Task.run_runFor_cons (h := k) hq
      have hright := Task.run_runFor_cons (h := h) (t := t.keeping (some false)) hq
      have hfirst := hrepeats 0 (Nat.succ_pos _)
      rw [hleft, hright] at hfirst
      obtain ⟨hsame, q, hnext⟩ :=
        hs.step hc hsettings hcatalog hceiling htool hinput htools hkeep hchain hin hq hfirst
      rw [hleft, hright, hsame]
      refine ih hnext fun n hn => ?_
      have hlater := hrepeats (n + 1) (Nat.succ_lt_succ hn)
      rwa [hleft, hleft, hright, hright, hsame] at hlater

end

end Site

end Decompile
