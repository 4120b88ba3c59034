import Decompile.Proofs.Protocol.Effects
import Decompile.Proofs.Refusal.Law
import Decompile.Proofs.Twins.Run
import Decompile.Proofs.Exclusion.Mutual

/-!
# Requests that come to nothing

What a request leaves behind that comes to nothing, and what it means to a job that runs meanwhile. A tool
may submit requests while it runs. Those that are turned down before a key is claimed leave nothing but
their answers: a run with them and a run without them are the same but for these.

- `Occurrence.isRebuff`, `World.hush`: the answers to such requests, and a world without them.
- `Activity.Omits`, `Host.equip`: tools that do not submit a certain request.
- `Hushed`, `Hushed.twins`: the two runs side by side.
- `Engine.Unnoticed`: a job goes on as it does if its tools do not submit a certain request.
- `Engine.submission_rejected`: the whole law.
-/

namespace Decompile

/-- The answer to a request that was turned down before its key was claimed. -/
def Occurrence.isRebuff : Occurrence → Bool
  | .answered _ (some (.configuration _)) | .answered _ (some (.alreadyActive _)) => true
  | _ => false

/-- The world without the answers to requests that were turned down. -/
def World.hush (w : World) : World := { w with journal := w.journal.filter fun o => !o.isRebuff }

/-- The same activities, but for some in which `s` is submitted. -/
inductive Activity.Omits (s : Submission) : List Activity → List Activity → Prop where
  | nil : Omits s [] []
  | keep (a : Activity) {as bs : List Activity} (rest : Omits s as bs) : Omits s (a :: as) (a :: bs)
  | drop {as bs : List Activity} (rest : Omits s as bs) : Omits s (.submit s :: as) bs

/-- The host with other tools. -/
def Host.equip (h : Host) (tool : List Invocation → Disk → Invocation → ToolRun) : Host :=
  { h with tool := tool }

/-- What a call does, it does without some of the requests `s`. -/
def ToolRun.Omits (s : Submission) (r r' : ToolRun) : Prop :=
  r'.result = r.result ∧ Activity.Omits s r.activities r'.activities

/-- The worlds differ in answers to requests that were turned down. -/
def Hushed (u v : World) : Prop := u.hush = v.hush

variable {h : Host} {tool : List Invocation → Disk → Invocation → ToolRun} {s : Submission} {u v w : World}

namespace Hushed

section

variable (huv : Hushed u v)
include huv

theorem registry : u.registry = v.registry := congrArg (fun w => w.registry) huv

theorem monitor : u.monitor = v.monitor := congrArg (fun w => w.monitor) huv

theorem clock : u.clock = v.clock := congrArg (fun w => w.clock) huv

theorem disk : u.disk = v.disk := congrArg (fun w => w.disk) huv

theorem cwd : u.cwd = v.cwd := congrArg (fun w => w.cwd) huv

theorem calls : World.callsIn u.journal = World.callsIn v.journal := by
  have hcalls : ∀ w : World, World.callsIn w.hush.journal = World.callsIn w.journal := by
    intro w
    unfold World.callsIn World.hush
    rw [List.filterMap_filter]
    refine List.filterMap_congr fun o _ => ?_
    cases o with
    | answered active r =>
      split
      · rfl
      · rfl
    | _ => rfl
  exact (hcalls u).symm.trans
    ((congrArg (fun w : World => World.callsIn w.journal) huv).trans (hcalls v))

end

/-! ## Moments -/

theorem modifies (f : World → World) (hf : ∀ w, (f w).hush = f w.hush) :
    Act.Pairs Hushed Hushed (modify f) (modify f) := by
  intro u v huv
  refine ⟨rfl, ?_⟩
  show (f u).hush = (f v).hush
  rw [hf, hf, huv]

theorem note (o : Occurrence) : Act.Pairs Hushed Hushed (World.note o) (World.note o) := by
  intro u v huv
  have hadd : ∀ w : World, ({ w with journal := w.journal ++ [o] } : World).hush =
      { w.hush with journal := w.hush.journal ++ [o].filter fun o => !o.isRebuff } := by
    intro w
    unfold World.hush
    simp only [List.filter_append]
  refine ⟨rfl, ?_⟩
  show ({ u with journal := u.journal ++ [o] } : World).hush =
    ({ v with journal := v.journal ++ [o] } : World).hush
  rw [hadd, hadd, huv]

theorem publish (key : String) (m : BusMessage) :
    Act.Pairs Hushed Hushed (World.publish key m) (World.publish key m) :=
  (modifies (fun w => { w with bus := w.bus.publish key m }) fun _ => rfl).bind fun _ => note _

theorem change (c : Change) : Act.Pairs Hushed Hushed (World.change c) (World.change c) :=
  (modifies (fun w => { w with disk := w.disk.apply c }) fun _ => rfl).bind fun _ => note _

theorem cancelled (ticket : Nat) :
    Act.Pairs Hushed Hushed (World.isCancelled ticket) (World.isCancelled ticket) := by
  intro u v huv
  refine ⟨?_, huv⟩
  show u.registry.isCancelled ticket = v.registry.isCancelled ticket
  rw [huv.registry]

theorem tripped : Act.Pairs Hushed Hushed World.isTripped World.isTripped := by
  unfold World.isTripped
  refine .get_bind fun u v huv => ?_
  rw [huv.monitor]
  cases v.monitor with
  | none => exact ⟨rfl, huv⟩
  | some m => exact ⟨rfl, huv⟩

theorem happen (x : Happening) :
    Act.Pairs Hushed Hushed (World.happen h x) (World.happen h x) := by
  refine (note _).bind fun _ => ?_
  cases x with
  | cancel key =>
    have hcancel : Act.Pairs Hushed Hushed
        (modify fun w : World => { w with registry := w.registry.cancel key })
        (modify fun w : World => { w with registry := w.registry.cancel key }) :=
      modifies _ fun _ => rfl
    show Act.Pairs _ _ (World.cancel key) (World.cancel key)
    unfold World.cancel
    refine .get_bind fun u v huv => ?_
    rw [huv.registry]
    split
    · exact ((note _).bind fun _ => hcancel) u v huv
    · exact hcancel u v huv
  | sample used =>
    show Act.Pairs _ _ (World.sample h used) (World.sample h used)
    unfold World.sample
    refine .get_bind fun u v huv => ?_
    rw [huv.monitor]
    cases v.monitor with
    | none => exact ⟨rfl, huv⟩
    | some m =>
      refine ((publish _ _).bind fun _ => (modifies (fun w : World => { w with
        monitor := some (m.observe (percentUsed used h.memoryCeiling)) }) fun _ => rfl).bind
          fun _ => ?_) u v huv
      split
      · exact note _
      · exact .pure ()

theorem happenAll : ∀ xs : List Happening,
    Act.Pairs Hushed Hushed (World.happenAll h xs) (World.happenAll h xs)
  | [] => .pure ()
  | x :: xs => by
    unfold World.happenAll
    exact (happen x).bind fun _ => happenAll xs

theorem pause : Act.Pairs Hushed Hushed (World.pause h) (World.pause h) := by
  intro u v huv
  have hlater : Hushed { u with clock := u.clock + 1 } { v with clock := v.clock + 1 } :=
    (modifies (fun w => { w with clock := w.clock + 1 }) (fun _ => rfl) u v huv).2
  have hall := happenAll (h := h) (h.interlude v.clock) _ _ hlater
  have hclock := huv.clock
  unfold World.pause
  rw [Act.run_get_bind, Act.run_get_bind, hclock]
  rw [hclock] at hall
  exact hall

theorem happenAll_equip (xs : List Happening) :
    World.happenAll (h.equip tool) xs = World.happenAll h xs := by
  induction xs with
  | nil => rfl
  | cons x xs ih =>
    unfold World.happenAll
    rw [ih]
    rfl

theorem pause_equip : World.pause (h.equip tool) = World.pause h := by
  unfold World.pause
  refine congrArg _ (funext fun w => congrArg _ (funext fun _ => ?_))
  exact happenAll_equip _

/-! ## The disk -/

/-- The same is planned on the same disk. -/
theorem takes (huv : Hushed u v) (p : FilePath) : SameTakes (fun _ _ => True) p u v where
  replace bytes := by
    rw [huv.disk, huv.cwd]
    exact ⟨rfl, fun _ _ => trivial⟩
  remove := by
    rw [huv.disk, huv.cwd]
    exact ⟨rfl, fun _ _ => trivial⟩

/-- Requests that are turned down do not come between two runs. -/
theorem twins : Twins h (h.equip tool) Hushed .all fun _ _ => True where
  settings := rfl
  catalog := rfl
  pause := by
    rw [pause_equip]
    exact pause
  happen x := happen x
  fault _ _ huv := congrArg h.fault huv.clock.symm
  time _ _ huv := congrArg h.time huv.clock.symm
  note o _ := note o
  publish := publish
  watch _ := modifies _ fun _ => rfl
  tripped := tripped
  cancelled := cancelled
  change c u v huv _ := (change c u v huv).2
  looks p _ u v huv := by rw [huv.disk, huv.cwd]
  makes p _ u v huv := by
    rw [huv.disk, huv.cwd]
    exact ⟨rfl, fun _ _ => trivial⟩
  writes p _ u v x huv := by
    rw [huv.disk, huv.cwd]
    exact ⟨rfl, fun _ _ => ⟨trivial, fun _ _ => trivial⟩⟩
  takes p _ _ _ huv := huv.takes p
  make_look _ _ := trivial
  upward _ _ _ _ := trivial
  write_upward _ _ _ _ := trivial

/-! ## Requests -/

theorem isActive (key : String) :
    Act.Pairs Hushed Hushed (Engine.isActive key) (Engine.isActive key) := by
  intro u v huv
  refine ⟨?_, huv⟩
  show u.registry.isActive key = v.registry.isActive key
  rw [huv.registry]

theorem claim (key : String) : Try.Pairs Hushed (Engine.claim key) (Engine.claim key) := by
  intro u v huv
  have hregistry := huv.registry
  cases hclaim : u.registry.claim key with
  | none =>
    rw [Engine.run_claim_of_none hclaim, Engine.run_claim_of_none (hregistry ▸ hclaim)]
    exact ⟨rfl, huv⟩
  | some granted =>
    obtain ⟨ticket, registry⟩ := granted
    rw [Engine.run_claim hclaim, Engine.run_claim (hregistry ▸ hclaim)]
    exact ⟨rfl, (((modifies (fun w => { w with registry }) fun _ => rfl).bind
      fun _ => note (.claimed key ticket)) u v huv).2⟩

theorem release (key : String) (ticket : Nat) :
    Act.Pairs Hushed Hushed (Engine.release key ticket) (Engine.release key ticket) :=
  (modifies (fun w => { w with registry := w.registry.release key ticket }) fun _ => rfl).bind
    fun _ => note _

theorem answer (s : Submission) :
    Act.Pairs Hushed Hushed (Work.answer h s) (Work.answer (h.equip tool) s) :=
  twins.answer isActive (twins.submit claim release
    (fun a => modifies (fun w => { w with waiting := w.waiting ++ [a] }) fun _ => rfl) (fun _ _ => trivial) fun _ _ => trivial)

end Hushed

/-! ## Runs with requests that are turned down -/

/-- The keys are active. -/
def Held (K : String → Prop) (w : World) : Prop := ∀ key, K key → w.registry.isActive key = true

/-- The request is turned down for itself, or because its key is among those that are active. -/
def Submission.Futile (h : Host) (K : String → Prop) (s : Submission) : Prop :=
  (∃ e, Job.plan s h.catalog.has = .error e) ∨ K s.targetKey

/-- The worlds differ in answers to requests that were turned down, and the keys are active. -/
def HushedOver (K : String → Prop) (u v : World) : Prop := Hushed u v ∧ Held K u

variable {K : String → Prop}

theorem Held.guards (hw : Held K w) (hg : Guards w v) : Held K v := by
  intro key hkey
  obtain ⟨t, ht⟩ := Registry.isActive_iff.mp (hw key hkey)
  exact Registry.isActive_iff.mpr ⟨t, hg.held ht⟩

/-- Keys that are active stay so while a stage runs. -/
theorem Twins.held {k : Host} {R : World → World → Prop} {P : Realm} {At : World → Change → Prop}
    (T : Twins h k R P At) : Twins h k (fun u v => R u v ∧ Held K u) P At := by
  have hkeep : ∀ {α : Type} {x y : Act α}, Act.Pairs R R x y → Act.Keeps Guards x →
      Act.Pairs (fun u v => R u v ∧ Held K u) (fun u v => R u v ∧ Held K u) x y := by
    intro α x y hxy hx u v huv
    obtain ⟨hsame, hrel⟩ := hxy u v huv.1
    exact ⟨hsame, hrel, huv.2.guards (hx u)⟩
  have hmoves : ∀ {α : Type} {x : Act α}, Act.Keeps (Moves h fun _ => True) x →
      Act.Keeps Guards x := fun hx => hx.mono fun _ _ hm => hm.guards
  exact
    { settings := T.settings
      catalog := T.catalog
      pause := hkeep T.pause (hmoves World.pause_moves)
      happen := fun x => hkeep (T.happen x) (hmoves (World.happen_moves x))
      fault := fun u v huv => T.fault u v huv.1
      time := fun u v huv => T.time u v huv.1
      note := fun o ho => hkeep (T.note o ho) fun _ => .of_eq rfl rfl
      publish := fun key m => hkeep (T.publish key m) fun _ => .of_eq rfl rfl
      watch := fun m => hkeep (T.watch m) fun _ => .of_eq rfl rfl
      tripped := hkeep T.tripped World.isTripped_reads.keeps
      cancelled := fun t => hkeep (T.cancelled t) (World.isCancelled_reads t).keeps
      change := fun c u v huv hc =>
        ⟨T.change c u v huv.1 hc, huv.2.guards (.of_eq rfl rfl)⟩
      looks := fun p hp u v huv => T.looks p hp u v huv.1
      makes := fun p hp u v huv => T.makes p hp u v huv.1
      writes := fun p hp u v x huv => T.writes p hp u v x huv.1
      takes := fun p hp u v huv => T.takes p hp u v huv.1
      make_look := T.make_look
      upward := T.upward
      write_upward := T.write_upward }

/-- A request that is turned down leaves its answer and nothing else. -/
theorem Work.run_answer_of_futile {s : Submission} (hs : s.Futile h K) (hheld : Held K w) :
    ∃ active e, (answer h s).run w =
      ((), { w with journal := w.journal ++ [.answered active (some e)] }) ∧
        Occurrence.isRebuff (.answered active (some e)) = true := by
  have hsubmitted := Engine.submit_submitted (h := h) s w
  have hanswer : ∀ e, (Engine.submit h s).settle.run w = (.error e, w) → (answer h s).run w =
      ((), { w with
        journal := w.journal ++ [.answered (w.registry.isActive s.targetKey) (some e)] }) := by
    intro e hrun
    have hactive : (Engine.isActive s.targetKey).run w = (w.registry.isActive s.targetKey, w) := rfl
    unfold answer
    rw [Act.run_bind, hactive, Act.run_bind, hrun]
    rfl
  have hclaimed : ∀ {job : Job}, Job.plan s h.catalog.has = .ok job →
      w.registry.claim job.targetKey = none := by
    intro job hplan
    rcases hs with ⟨e, hrefused⟩ | hkey
    · rw [hplan] at hrefused
      cases hrefused
    · rw [Job.targetKey_of_plan hplan]
      exact Registry.claim_eq_none.mpr (Registry.isActive_iff.mp (hheld _ hkey))
  rcases hrun : (Engine.submit h s).settle.run w with ⟨r, v⟩
  rw [hrun] at hsubmitted
  cases hsubmitted with
  | refused plan => exact ⟨_, _, hanswer _ hrun, rfl⟩
  | active plan held => exact ⟨_, _, hanswer _ hrun, rfl⟩
  | unsaved plan claimed save =>
    rw [hclaimed plan] at claimed
    cases claimed
  | accepted plan claimed save said =>
    rw [hclaimed plan] at claimed
    cases claimed

/-- One thing that a tool does, and the rest unless memory has run out. -/
theorem Work.run_actAll_cons (key title : String) (a : Activity) (as : List Activity) (w : World) :
    (actAll h key title (a :: as)).settle.run w =
      if (World.isTripped.run ((act h key title a).run w).2).1 then
        (.error memoryFailure, ((act h key title a).run w).2)
      else (actAll h key title as).settle.run ((act h key title a).run w).2 := by
  have hfirst : (actAll h key title (a :: as)).settle.run w =
      (Try.settle (breakOff >>= fun _ => actAll h key title as)).run ((act h key title a).run w).2 := rfl
  rw [hfirst, Try.run_settle_bind, Twins.run_breakOff]
  cases (World.isTripped.run ((act h key title a).run w).2).1 with
  | true => rfl
  | false => rfl

section

variable (hs : s.Futile h K)
include hs

/-- What a tool does, with a request that is turned down and without it. -/
theorem actAll_hushed (key title : String) {as bs : List Activity} (hab : Activity.Omits s as bs) :
    Act.Pairs (fun u v => HushedOver K u v ∧ (World.isTripped.run u).1 = false) (HushedOver K)
      (Work.actAll h key title as).settle (Work.actAll (h.equip tool) key title bs).settle := by
  have T : Twins h (h.equip tool) (HushedOver K) .all fun _ _ => True := Hushed.twins.held
  induction hab with
  | nil => exact fun u v huv => ⟨rfl, huv.1⟩
  | keep a rest ih =>
    have hact : Act.Pairs (HushedOver K) (HushedOver K)
        (Work.act h key title a) (Work.act (h.equip tool) key title a) := by
      refine T.act key title ?_ ?_
      · cases a with
        | line | happening | submit | makeDirectories | writeFile => exact trivial
      · rintro s - u v ⟨huv, hheld⟩
        have hanswer : Act.Pairs Hushed Hushed (Work.answer h s) (Work.answer (h.equip tool) s) :=
          Hushed.answer s
        obtain ⟨hsame, hrel⟩ := hanswer u v huv
        have hguards : Guards u ((Work.answer h s).run u).2 :=
          (Moves.single (N := fun _ => True) (.answer s fun _ _ => trivial)).guards
        exact ⟨hsame, hrel, hheld.guards hguards⟩
    unfold Work.actAll
    have hgo : Act.Pairs
        (fun u v => HushedOver K u v ∧ (World.isTripped.run u).1 = false)
        (HushedOver K)
        (Try.settle (liftM (Work.act h key title a) : Try StageError Unit))
        (Try.settle (liftM (Work.act (h.equip tool) key title a))) :=
      Act.Pairs.mono (Try.Pairs.lift hact) (fun _ _ huv => huv.1) fun _ _ => id
    exact Try.Pairs.bind_after hgo (fun _ _ => id) fun _ => T.breakOff_bind ih
  | drop rest ih =>
    rintro u v ⟨⟨huv, hheld⟩, htripped⟩
    obtain ⟨active, e, hrun, hrebuff⟩ := Work.run_answer_of_futile hs hheld
    replace hrun : (Work.act h key title (.submit s)).run u = _ := hrun
    have hgoes : (World.isTripped.run ((Work.act h key title (.submit s)).run u).2).1 = false := by
      rw [← htripped]
      exact Twins.run_isTripped (by rw [hrun])
    rw [Work.run_actAll_cons, hgoes, if_neg Bool.false_ne_true]
    refine ih _ v ⟨⟨?_, ?_⟩, hgoes⟩
    · rw [hrun]
      refine Eq.trans ?_ huv
      show ({ u with
        journal := (u.journal ++ [Occurrence.answered active (some e)]).filter _ } : World) = _
      rw [List.filter_append, List.filter_cons_of_neg (by rw [hrebuff]; decide), List.filter_nil,
        List.append_nil]
      rfl
    · rw [hrun]
      exact hheld

variable (htool : ∀ past d i, (h.tool past d i).Omits s (tool past d i))
include htool

theorem callTool_hushed (key title : String) (i : Invocation) :
    Try.Pairs (HushedOver K) (Work.callTool h key title i)
      (Work.callTool (h.equip tool) key title i) := by
  have hcalled : Act.Pairs (HushedOver K) (HushedOver K) (World.note (.called i))
      (World.note (.called i)) := fun u v huv =>
    ⟨rfl, (Hushed.note (.called i) u v huv.1).2, huv.2.guards (.of_eq rfl rfl)⟩
  refine (Hushed.twins.held (K := K)).callTool key title i hcalled fun u v huv => ?_
  rw [← huv.1.calls, ← huv.1.disk]
  obtain ⟨hresult, hfewer⟩ := htool (World.callsIn u.journal) u.disk i
  exact ⟨hresult, actAll_hushed hs key title hfewer⟩

variable {c : StageContext}

omit hs htool in
theorem twins_over : Twins h (h.equip tool) (HushedOver K) .all fun _ _ => True :=
  Hushed.twins.held

omit hs htool in
/-- The same items are found. -/
theorem collect_hushed (kind : StageKind) : Try.Pairs (HushedOver K) (Items.collect h c kind)
    (Items.collect (h.equip tool) (c.keeping none) kind) := by
  have hfound : ∀ root keep, Act.Pairs (HushedOver K) (HushedOver K) (Items.filesBelow root keep)
      (Items.filesBelow root keep) := by
    intro root keep u v huv
    refine ⟨?_, huv⟩
    show ((u.disk.walk u.cwd root).map _).filter _ = ((v.disk.walk v.cwd root).map _).filter _
    rw [huv.1.disk, huv.1.cwd]
  have hcode : ∀ l t, Try.Pairs (HushedOver K) (Items.code l t) (Items.code l t) :=
    fun _ _ => Twins.someBelow (hfound _ _)
  cases kind with
  | unpack => exact twins_over.input none trivial
  | intermediateConvert => exact hcode _ _
  | convert => exact .branch (fun _ => hcode _ _) fun _ => Twins.someBelow (hfound _ _)
  | resources => exact .bind (.lift (hfound _ _)) fun _ => .pure _

omit hs htool in
/-- Every path and every call goes. -/
theorem Items.on_true (kind : StageKind) (items : Items) :
    items.On .all (fun _ => True) h.catalog c kind := by
  cases kind with
  | unpack =>
    cases items with
    | members names => exact ⟨trivial, fun _ _ => trivial⟩
    | files ps => exact fun _ _ => ⟨trivial, fun _ _ => trivial⟩
  | intermediateConvert =>
    cases items with
    | members names => exact trivial
    | files ps => exact ⟨fun _ => trivial, fun _ _ => ⟨trivial, trivial⟩⟩
  | convert =>
    cases items with
    | members names => exact trivial
    | files ps => exact fun _ _ _ _ => trivial
  | resources =>
    cases items with
    | members names => exact trivial
    | files ps => exact fun _ _ => ⟨trivial, fun _ _ => trivial⟩

/-- A stage runs with requests that are turned down as it does without them. -/
theorem runStage_hushed (stage : Stage) : Act.Pairs (HushedOver K) (HushedOver K)
    (runStage h c stage) (runStage (h.equip tool) (c.keeping none) stage) := by
  have T : Twins h (h.equip tool) (HushedOver K) .all fun _ _ => True := twins_over
  have hcall : ∀ title i, True → Try.Pairs (HushedOver K)
      (Work.callTool h c.job.targetKey title i)
      (Work.callTool (h.equip tool) c.job.targetKey title i) :=
    fun title i _ => callTool_hushed hs htool _ title i
  refine T.stage ?_ hcall (collect_hushed _)
  exact
    { output := trivial
      markers := fun _ _ => trivial
      sources := fun _ _ _ => trivial
      packed := fun _ u v huv => by
        rw [huv.1.disk, huv.1.cwd]
        exact ⟨rfl, fun _ _ _ _ => ⟨trivial, trivial⟩⟩
      items := fun _ _ items _ _ _ => ⟨items.on_true _, fun _ _ _ _ _ => trivial⟩
      trees := fun p _ u v huv => by
        rw [huv.1.disk, huv.1.cwd]
        exact ⟨rfl, fun _ _ _ _ _ _ _ => trivial⟩ }

end

namespace Engine

/-- The worlds differ in answers to requests that were turned down, and the keys are active as long as
the job is not over. -/
def HushedUntil (K : String → Prop) {chain : List Stage} (p : Phase chain) (u v : World) : Prop :=
  Hushed u v ∧ (p.outcome = none → Held K u)

theorem HushedUntil.pairs {chain : List Stage} {p : Phase chain} {α : Type} {x y : Act α}
    (hxy : Act.Pairs Hushed Hushed x y) (hx : Act.Keeps Guards x) :
    Act.Pairs (HushedUntil K p) (HushedUntil K p) x y := by
  rintro u v ⟨huv, hheld⟩
  obtain ⟨hsame, hrel⟩ := hxy u v huv
  exact ⟨hsame, hrel, fun hopen => (hheld hopen).guards (hx u)⟩

/-- Two runs of a job, of which only the first has the requests that are turned down, go together. -/
theorem shadows_hushed (hs : s.Futile h K)
    (htool : ∀ past d i, (h.tool past d i).Omits s (tool past d i)) (c : StageContext) :
    Shadows h (h.equip tool) none c fun p _ => HushedUntil K p where
  echoes p _ :=
    { settings := rfl
      time := fun u v huv => congrArg h.time huv.1.clock.symm
      save := fun t _ => by
        refine HushedUntil.pairs ?_ fun w => ?_
        · have hsave : Try.Pairs Hushed (t.record.save h (t.layout h))
              (t.record.save (h.equip tool) (t.layout h)) := Hushed.twins.save _ trivial trivial
          refine hsave.settle.bind fun r => ?_
          cases r with
          | ok _ => exact .pure ()
          | error e => exact Hushed.note _
        · exact (show Moves h (fun _ => True) w _ from Task.saveRecord_moves t w).guards
      tell := fun m => HushedUntil.pairs (Hushed.publish _ _) fun _ => .of_eq rfl rfl
      log := fun r => HushedUntil.pairs (Hushed.note _) fun _ => .of_eq rfl rfl }
  poll p queue := HushedUntil.pairs (Hushed.twins.pollCancelled c.ticket)
    fun w => (show Moves h (fun _ => True) w _ from World.pause_moves w).guards
  release p queue hover := by
    rintro u v ⟨huv, -⟩
    obtain ⟨hsame, hrel⟩ := Hushed.release c.job.targetKey c.ticket u v huv
    exact ⟨hsame, hrel, fun hopen => absurd hopen hover⟩
  settle p q m es queue rest u v hstep hidle hqueue huv := by
    refine ⟨huv.1, fun hopen => huv.2 ?_⟩
    cases hstep with
    | ignored => exact hopen
    | start | startEmpty | stopUnstarted | stop | advance | complete | fail | report => rfl
  run p m cut es rest u v hstep huv := by
    have hopen : p.outcome = none := by
      generalize hes : es ++ [.startStage cut.stage] = effects at hstep
      cases hstep with
      | ignored => exact absurd hes (List.append_ne_nil_of_right_ne_nil _ (List.cons_ne_nil _ _))
      | start | advance => rfl
    obtain ⟨hsame, hrel, hheld⟩ :=
      runStage_hushed hs htool (c := c) cut.stage u v ⟨huv.1, huv.2 hopen⟩
    exact ⟨hsame, hrel, fun _ => hheld⟩

variable (hs : s.Futile h fun key => w.registry.isActive key = true)
  (htool : ∀ past d i, (h.tool past d i).Omits s (tool past d i))
include hs htool

/-- **A job that runs goes on as it does without a request that is turned down meanwhile.** -/
theorem runFor_hushed {t : Task} {p : Phase t.job.chain} (ht : Positional t.job.chain)
    (hp : t.state = p.job t.job.targetKey) (fuel : Nat) :
    ((t.runFor (h.equip tool) fuel).run w).1 = ((t.runFor h fuel).run w).1 ∧
      Hushed ((t.runFor h fuel).run w).2 ((t.runFor (h.equip tool) fuel).run w).2 := by
  obtain ⟨q, -, hsame, hrel⟩ := (shadows_hushed hs htool (t.context h)).runFor (p := p) rfl ht hp fuel
    (u := w) (v := w) ⟨rfl, fun _ _ => id⟩
  exact ⟨hsame, hrel.1⟩

/-- The same of a whole job. -/
theorem runJob_hushed {a : Accepted} (ha : Positional a.job.chain) :
    Hushed ((runJob h a).run w).2 ((runJob (h.equip tool) a).run w).2 := by
  obtain ⟨-, hrel⟩ := runFor_hushed hs htool (t := .ofAccepted a) (p := .waiting) ha rfl
    (Task.ofAccepted a).messageBound
  exact (Hushed.release _ _ _ _ hrel).2

end Engine

end Decompile

/-! ## The law of requests that come to nothing -/

namespace Decompile.Engine

variable {h : Host} {w v : World} {s : Submission} {e : Refusal} {running : Bool}

/-- A job goes on in a world as it does if its tools do not submit `s`, wherever they do: it comes
to the same record and state, and leaves the same disk, the same active jobs and wishes to stop, the
same jobs that wait and the same listeners. Only the answers to such requests tell the two worlds
apart. -/
structure Unnoticed (h : Host) (s : Submission) (w : World) : Prop where
  /-- From any point between two messages, however many follow. -/
  task : ∀ (t : Task) (p : Phase t.job.chain), Positional t.job.chain →
    t.state = p.job t.job.targetKey → ∀ tool,
    (∀ past d i, (h.tool past d i).Omits s (tool past d i)) → ∀ fuel,
    ((t.runFor (h.equip tool) fuel).run w).1 = ((t.runFor h fuel).run w).1 ∧
      Hushed ((t.runFor h fuel).run w).2 ((t.runFor (h.equip tool) fuel).run w).2
  /-- A whole job. -/
  job : ∀ a : Accepted, Positional a.job.chain → ∀ tool,
    (∀ past d i, (h.tool past d i).Omits s (tool past d i)) →
    Hushed ((runJob h a).run w).2 ((runJob (h.equip tool) a).run w).2

theorem unnoticed (hs : s.Futile h fun key => w.registry.isActive key = true) : Unnoticed h s w where
  task _ _ ht hp _ htool fuel := runFor_hushed hs htool ht hp fuel
  job _ ha _ htool := runJob_hushed hs htool ha

/-- A request that is turned down is turned down again as long as the active jobs are active. -/
theorem futile_of_fails (hrun : Try.Fails (submitTo h running s) w e v)
    (he : (∃ d, e = .refused (.configuration d)) ∨ ∃ key, e = .refused (.alreadyActive key)) :
    s.Futile h fun key => w.registry.isActive key = true := by
  obtain ⟨d, rfl, hsubmitted⟩ | ⟨rfl, -⟩ := submitTo_fails hrun
  · generalize hr : (Except.error d : Except SubmitError Unit) = r at hsubmitted
    cases hsubmitted with
    | refused plan => exact .inl ⟨_, plan⟩
    | active plan held =>
      rw [Registry.claim_eq_none, Job.targetKey_of_plan plan] at held
      exact .inr (Registry.isActive_iff.mpr held)
    | unsaved =>
      obtain rfl := Except.error.inj hr
      rcases he with ⟨_, heq⟩ | ⟨_, heq⟩
      · cases heq
      · cases heq
    | accepted => cases hr
  · rcases he with ⟨_, heq⟩ | ⟨_, heq⟩
    · cases heq
    · cases heq

/-- **A request that comes to nothing leaves everything as it was**, whichever of its steps failed.
One that is turned down before it has a key is not noticed by any job either, also when it comes from
a tool that the job has called. -/
theorem submission_rejected (hrun : Try.Fails (submitTo h running s) w e v) :
    Rejected s e w v ∧
    ((∃ d, e = .refused (.configuration d)) ∨ (∃ key, e = .refused (.alreadyActive key)) →
      Unnoticed h s w) :=
  ⟨submitTo_rejected hrun, fun he => unnoticed (futile_of_fails hrun he)⟩

/-- A request whose record cannot be stored. -/
theorem submission_rejected_unsaved :
    ∃ (s : Submission) (d : PersistError) (v : World),
      Try.Fails (submitTo Fleet.failingHost true s) (.new Disk.empty []) (.refused (.persist d)) v ∧
      Rejected s (.refused (.persist d)) (.new Disk.empty []) v := by
  let s : Submission := ⟨"jadx", false, 1, 1, 90, false, "app", "App", ⟨"app.dex"⟩, .dex⟩
  let d : PersistError := .outputDirectory (IoError.fault .permissionDenied).message
  let run := (submitTo Fleet.failingHost true s).settle.run (.new Disk.empty [])
  have herror : run.1 = .error (.refused (.persist d)) := by decide +kernel
  have hrun : Try.Fails (submitTo Fleet.failingHost true s) (.new Disk.empty [])
      (.refused (.persist d)) run.2 := Prod.ext herror rfl
  exact ⟨s, d, run.2, hrun, (submission_rejected hrun).1⟩

end Decompile.Engine
