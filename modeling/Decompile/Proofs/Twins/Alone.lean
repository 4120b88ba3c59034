import Decompile.Proofs.Provenance.Files
import Decompile.Proofs.Twins.Run

/-!
# A run beside itself

What one run keeps up is what two runs keep up that are the same. So a law of single runs, which the
changes of the disk must not break, needs to be looked at only where the disk is changed.

- `SameDisk`: nothing happens to the disk.
- `Alone`: the two worlds are one, of which something holds.
- `Alone.twins`: what is asked of the law, for the paths of a realm.
- `Alone.answer`, `callTool`, `saveRecord`, `shadows`: requests, calls of tools, stages and whole jobs.
-/

namespace Decompile

variable {h : Host} {J : World → Prop} {P : Realm} {At : World → Change → Prop} {u v w : World}
  {α ε : Type}

/-! ## Nothing happens to the disk -/

/-- Nothing happens to the disk. -/
structure SameDisk (w v : World) : Prop where
  disk : v.disk = w.disk
  cwd : v.cwd = w.cwd
  journal : ∃ new, v.journal = w.journal ++ new ∧ World.changesIn new = []

namespace SameDisk

theorem of_still (hs : Still w v) : SameDisk w v := by
  obtain ⟨new, hjournal, hquiet⟩ := hs.journal
  exact ⟨hs.disk, hs.cwd, new, hjournal, World.changesIn_of_isQuiet hquiet⟩

theorem of_note {o : Occurrence} (ho : World.changesIn [o] = []) (hjournal : v.journal = w.journal ++ [o])
    (hdisk : v.disk = w.disk) (hcwd : v.cwd = w.cwd) : SameDisk w v :=
  ⟨hdisk, hcwd, [o], hjournal, ho⟩

theorem of_eq (hjournal : v.journal = w.journal) (hdisk : v.disk = w.disk) (hcwd : v.cwd = w.cwd) :
    SameDisk w v :=
  ⟨hdisk, hcwd, [], by rw [hjournal, List.append_nil], rfl⟩

theorem note {o : Occurrence} (ho : World.changesIn [o] = []) : Act.Keeps SameDisk (World.note o) :=
  fun _ => .of_note ho rfl rfl rfl

theorem changesIn_of_isRemark {o : Occurrence} (ho : o.isRemark = true) : World.changesIn [o] = [] := by
  cases o with
  | changed c => cases ho
  | _ => rfl

end SameDisk

theorem Act.Keeps.sameDisk {x : Act α} (hx : Act.Keeps Still x) : Act.Keeps SameDisk x :=
  hx.mono fun _ _ => .of_still

/-! ## One run as two -/

/-- The two worlds are one, of which something holds. -/
def Alone (J : World → Prop) (u v : World) : Prop := u = v ∧ J u

namespace Alone

/-- An action that keeps something up goes together with itself. -/
theorem pairs_of {x : Act α} (hx : ∀ u, J u → J (x.run u).2) : Act.Pairs (Alone J) (Alone J) x x := by
  rintro u _ ⟨rfl, hu⟩
  exact ⟨rfl, rfl, hx u hu⟩

/-- What is kept up by an action that goes together with itself. -/
theorem keeps {x y : Act α} (hxy : Act.Pairs (Alone J) (Alone J) x y) (hu : J u) : J (x.run u).2 :=
  (hxy u u ⟨rfl, hu⟩).2.2

section

variable (hsame : ∀ u v, J u → SameDisk u v → J v)
include hsame

theorem pairs {x : Act α} (hx : Act.Keeps SameDisk x) : Act.Pairs (Alone J) (Alone J) x x :=
  pairs_of fun u hu => hsame u _ hu (hx u)

/-- **What is asked of a law that single runs keep up.** -/
theorem twins
    (hchange : ∀ u c, J u → At u c → J ((World.change c).run u).2)
    (hmakes : ∀ p, P.make p → ∀ u c, J u → u.disk.planMakeDirectory u.cwd p = .ok c → At u c)
    (hwrites : ∀ p, P.write p → ∀ u x c, J u → u.disk.planCreate u.cwd p x = .ok c →
      At u c ∧ ∀ w more, At w (.append c.place more))
    (hreplace : ∀ p, P.take p → ∀ u bytes c, J u → u.disk.planReplace u.cwd p bytes = .ok c → At u c)
    (hremove : ∀ p, P.take p → ∀ u c, J u → u.disk.planRemoveFile u.cwd p = .ok c → At u c)
    (hlook : ∀ p, P.make p → P.look p)
    (hupward : ∀ p q, P.make p ∨ P.write p → p.parent? = some q → P.make q) :
    Twins h h (Alone J) P At where
  settings := rfl
  catalog := rfl
  pause := pairs hsame World.pause_still.sameDisk
  happen x := pairs hsame (World.happen_still x).sameDisk
  fault _ _ huv := by rw [huv.1]
  time _ _ huv := by rw [huv.1]
  note o ho := pairs hsame (SameDisk.note (SameDisk.changesIn_of_isRemark ho))
  publish key m := pairs hsame (World.publish_still key m).sameDisk
  watch _ := pairs hsame fun _ => .of_eq rfl rfl rfl
  tripped := pairs_of fun u hu => by
    rw [World.isTripped_reads u]
    exact hu
  cancelled ticket := pairs_of fun u hu => hu
  change c := by
    rintro u _ ⟨rfl, hu⟩ hc
    exact ⟨rfl, hchange u c hu hc⟩
  looks p _ := by
    rintro u _ ⟨rfl, -⟩
    rfl
  makes p hp := by
    rintro u _ ⟨rfl, hu⟩
    exact ⟨rfl, fun c => hmakes p hp u c hu⟩
  writes p hp := by
    rintro u _ x ⟨rfl, hu⟩
    exact ⟨rfl, fun c => hwrites p hp u x c hu⟩
  takes p hp := by
    rintro u _ ⟨rfl, hu⟩
    exact ⟨fun bytes => ⟨rfl, fun c => hreplace p hp u bytes c hu⟩,
      rfl, fun c => hremove p hp u c hu⟩
  make_look := hlook
  upward p q hp := hupward p q (.inl hp)
  write_upward p q hp := hupward p q (.inr hp)

/-! ### Requests and tools -/

theorem claim (key : String) : Try.Pairs (Alone J) (Engine.claim key) (Engine.claim key) := by
  refine pairs hsame fun u => ?_
  cases hclaim : u.registry.claim key with
  | none =>
    rw [Engine.run_claim_of_none hclaim]
    exact .of_eq rfl rfl rfl
  | some granted =>
    rw [Engine.run_claim hclaim]
    exact .of_note (o := .claimed key granted.1) rfl rfl rfl rfl

theorem release (key : String) (ticket : Nat) :
    Act.Pairs (Alone J) (Alone J) (Engine.release key ticket) (Engine.release key ticket) :=
  pairs hsame fun _ => .of_note (o := .released key ticket) rfl rfl rfl rfl

variable (T : Twins h h (Alone J) P At)
include T

/-- A request, if the law lets its record be stored. -/
theorem submit {s : Submission}
    (hroot : ∀ job, Job.plan s h.catalog.has = .ok job →
      P.make (Layout.of h.settings.storage job.targetKey).root)
    (hname : ∀ job, Job.plan s h.catalog.has = .ok job →
      P.take ((Layout.of h.settings.storage job.targetKey).root.join ⟨recordName⟩)) :
    Try.Pairs (Alone J) (Engine.submit h s) (Engine.submit h s) :=
  T.submit (claim hsame) (release hsame) (fun _ => pairs hsame fun _ => .of_eq rfl rfl rfl)
    hroot hname

omit T in
/-- The answer to a request that keeps up the law. -/
theorem answer {s : Submission} (hsubmit : ∀ u, J u → J ((Engine.submit h s).settle.run u).2) :
    Act.Pairs (Alone J) (Alone J) (Work.answer h s) (Work.answer h s) := by
  have hactive : Act.Pairs (Alone J) (Alone J) (Engine.isActive s.targetKey)
      (Engine.isActive s.targetKey) := pairs_of fun u hu => hu
  unfold Work.answer
  refine hactive.bind fun active => (pairs_of hsubmit).bind fun r => ?_
  cases r with
  | ok _ => exact pairs hsame (SameDisk.note rfl)
  | error e => exact pairs hsame (SameDisk.note rfl)

/-- A call of a tool, if what the tool does keeps up the law. -/
theorem callTool (key title : String) (i : Invocation)
    (htool : ∀ past d u, J u → .called i ∈ u.journal →
      J ((Work.actAll h key title (h.tool past d i).activities).settle.run u).2) :
    Try.Pairs (Alone J) (Work.callTool h key title i) (Work.callTool h key title i) := by
  have hcalled : Act.Pairs (Alone J) (Alone fun w => J w ∧ .called i ∈ w.journal)
      (World.note (.called i)) (World.note (.called i)) := by
    rintro u _ ⟨rfl, hu⟩
    exact ⟨rfl, rfl, hsame _ _ hu (SameDisk.note rfl u), List.mem_append_right _ List.mem_cons_self⟩
  have hacts : ∀ past d, Act.Pairs (Alone fun w => J w ∧ .called i ∈ w.journal) (Alone J)
      (Work.actAll h key title (h.tool past d i).activities).settle
      (Work.actAll h key title (h.tool past d i).activities).settle := by
    rintro past d u _ ⟨rfl, hu, hmem⟩
    exact ⟨rfl, rfl, htool past d u hu hmem⟩
  unfold Work.callTool
  refine .bind (.lift T.pause) fun _ => T.breakOff.bind fun _ => .bind (.lift (T.log _ _ _)) fun _ => ?_
  refine Try.Pairs.get_bind fun u v huv => ?_
  obtain ⟨rfl, -⟩ := huv
  have hnoted : Act.Pairs (Alone J) (Alone fun w => J w ∧ .called i ∈ w.journal)
      (Try.settle (liftM (World.note (.called i)) : Try StageError Unit))
      (Try.settle (liftM (World.note (.called i)))) := by
    intro u v huv
    exact ⟨rfl, (hcalled u v huv).2⟩
  refine Try.Pairs.bind_after hnoted (fun _ _ huv => ⟨huv.1, huv.2.1⟩) fun _ => ?_
  refine Try.Pairs.bind_after (hacts _ _) (fun _ _ => id) fun _ => ?_
  cases (h.tool (World.callsIn u.journal) u.disk i).result with
  | ok _ => exact Act.Pairs.pure _
  | error e => exact Act.Pairs.pure _

/-- A call of a tool, if the requests and the paths of what it does keep up the law. -/
theorem callTool_within (key title : String) (i : Invocation)
    (hwithin : ∀ past d, ∀ a ∈ (h.tool past d i).activities, a.Within P)
    (hsubmit : ∀ past d s, .submit s ∈ (h.tool past d i).activities →
      ∀ u, J u → J ((Engine.submit h s).settle.run u).2) :
    Try.Pairs (Alone J) (Work.callTool h key title i) (Work.callTool h key title i) :=
  callTool hsame T key title i fun past d _ hu _ =>
    keeps (T.actAll key title _ (hwithin past d) fun s hs => answer hsame (hsubmit past d s hs)).settle hu

/-! ### Jobs -/

omit hsame in
/-- The items of a stage. -/
theorem collect {c : StageContext} (hlook : P.look c.job.submission.inputPath) (kind : StageKind) :
    Try.Pairs (Alone J) (Items.collect h c kind) (Items.collect h c kind) := by
  have hfound : ∀ root keep, Act.Pairs (Alone J) (Alone J) (Items.filesBelow root keep)
      (Items.filesBelow root keep) := fun _ _ => pairs_of fun _ hu => hu
  cases kind with
  | unpack => exact T.input none hlook
  | intermediateConvert => exact Twins.someBelow (hfound _ _)
  | convert =>
    exact .branch (fun _ => Twins.someBelow (hfound _ _)) fun _ => Twins.someBelow (hfound _ _)
  | resources => exact .bind (.lift (hfound _ _)) fun _ => .pure _

omit hsame in
/-- The record of a job. -/
theorem saveRecord {c : StageContext} (hroot : P.make c.layout.root)
    (hname : P.take (c.layout.root.join ⟨recordName⟩)) {t : Task} (ht : t.context h = c) :
    Act.Pairs (Alone J) (Alone J) (t.saveRecord h) (t.saveRecord h) := by
  have hlayout : t.layout h = c.layout := congrArg StageContext.layout ht
  have hsave : Try.Pairs (Alone J) (t.record.save h c.layout) (t.record.save h c.layout) :=
    T.save _ hroot hname
  unfold Task.saveRecord
  rw [hlayout]
  refine hsave.settle.bind fun r => ?_
  cases r with
  | ok _ => exact .pure ()
  | error e => exact T.log _ _ _

/-- A job, if its record may be stored and its stages keep up the law. -/
theorem shadows {c : StageContext} (hroot : P.make c.layout.root)
    (hname : P.take (c.layout.root.join ⟨recordName⟩))
    (hstage : ∀ s : Stage, Act.Pairs (Alone J) (Alone J) (runStage h c s) (runStage h c s)) :
    Shadows h h none c fun _ _ => Alone J where
  echoes _ _ :=
    { settings := rfl
      time := fun _ _ huv => by rw [huv.1]
      save := fun t ht => by
        show Act.Pairs _ _ (t.saveRecord h) (t.saveRecord h)
        exact saveRecord T hroot hname ht
      tell := fun m => T.publish _ m
      log := fun r => T.note _ rfl }
  poll _ _ := T.pollCancelled c.ticket
  release _ _ _ := release hsame _ _
  settle _ _ _ _ _ _ _ _ _ _ _ huv := huv
  run _ _ cut _ _ u v _ huv := hstage cut.stage u v huv

omit T in
/-- **A job that runs keeps up the law.** -/
theorem runJob {a : Accepted} (ha : Positional a.job.chain)
    (S : Shadows h h none ((Task.ofAccepted a).context h) fun _ _ => Alone J) (hu : J u) :
    J ((Engine.runJob h a).run u).2 := by
  obtain ⟨_, -, -, -, hrun⟩ := S.runFor (t := .ofAccepted a) (p := .waiting) rfl ha rfl
    (Task.ofAccepted a).messageBound (u := u) (v := u) ⟨rfl, hu⟩
  exact (release hsame a.job.targetKey a.ticket _ _ ⟨rfl, hrun⟩).2.2

end

end Alone

end Decompile
