import Decompile.Proofs.Markers.Visit

/-!
# The stages of a run

A run of a job is a row of stages, and between them nothing happens in the trees that bear marks.

- `Engine.visits`: the stages that a job runs, each with the world in which it begins.
- `Ready`: where the marks can be relied on; `Ready.finish`: they still can when a stage is over.
- `Woven`: a run as a row of stages; `Task.runFor_woven`: each run is woven so.
- `Tallied`: what the phase of a job says of them; `Engine.visits_succeeded`: a job that has succeeded
  has run all of its stages with success.
-/

namespace Decompile

open World (changesIn)

/-! ## The stages that are run -/

/-- The stage that is run by an action, if it is one. -/
def Action.visits (w : World) : Action → List Visit
  | .run s => [⟨s, w⟩]
  | _ => []

namespace Task

/-- The stages that are run by actions of a task. -/
def visitsOf (h : Host) : List Action → Task → World → List Visit
  | [], _, _ => []
  | a :: as, t, w =>
    a.visits w ++ visitsOf h as ((t.perform h a).run w).1 ((t.perform h a).run w).2

/-- The stages that are run while a task takes its messages, at most `fuel`. -/
def visits (h : Host) : (fuel : Nat) → Task → World → List Visit
  | 0, _, _ => []
  | fuel + 1, t, w =>
    match t.queue with
    | [] => []
    | m :: rest =>
      let v := ((World.pause h).run w).2
      let u := t.taken (v.registry.isCancelled t.ticket) m rest
      visitsOf h (u.2.flatMap (Effect.actions u.1.job)) u.1 v ++
        visits h fuel ((t.step h m rest).run w).1 ((t.step h m rest).run w).2

end Task

/-- The stages that a job runs when it begins in a world. -/
def Engine.visits (h : Host) (a : Accepted) (w : World) : List Visit :=
  Task.visits h (Task.ofAccepted a).messageBound (.ofAccepted a) w

variable {h : Host} {c : StageContext} {store : Place} {key : String} {kind : StageKind}
  {X : Change → Prop} {u v w : World} {vs ws : List Visit} {x : Visit} {j : List Occurrence}
  {t : Task} {a : Action} {as bs : List Action}

/-- What a task takes leaves the context of its stages as it is. -/
theorem Task.context_eq {t t' : Task} (hjob : t'.job = t.job) (hticket : t'.ticket = t.ticket) :
    t'.context h = t.context h := by
  rw [Task.context, Task.layout, hjob, hticket]
  rfl

theorem Task.context_performAll (as : List Action) (t : Task) (w : World) :
    ((t.performAll h as).run w).1.context h = t.context h := by
  obtain ⟨r, queue, hfst⟩ := performAll_fst (h := h) as t w
  rw [hfst]
  rfl

/-! ## Where marks can be relied on -/

/-- The storage is without links and found for good, and the calls of each stage keep out of the trees
of the others. -/
structure Ready (h : Host) (c : StageContext) (store : Place) (key : String) (w : World) : Prop where
  settled : Settled h.settings.storage store w
  aloof : Aloof h c store key w

theorem Ready.along (hw : Ready h c store key w) (hu : Along h.settings.storage store key X w u) :
    Ready h c store key u :=
  ⟨hw.settled.along hu, hw.aloof.of_links hu.links hu.stretch.cwd⟩

section

variable (hlayout : c.layout = .of h.settings.storage key) (hkey : isTargetKey key = true)
  (hkind : kind.hasMarkers = true) (hhonest : ∀ n e, h.fault n = some e → e.kind ≠ .notFound)
include hlayout hkey hkind

/-- A stage of another kind leaves the tree alone. -/
theorem Ready.elsewhere (hx : Ready h c store key x.start) (hother : x.stage.kind ≠ kind) :
    Along h.settings.storage store key (Elsewhere store key kind) x.start (x.finish h c) :=
  runStage_elsewhere hx.settled.stored (target_root hlayout hkey) hx.aloof hkind hother (.refl hx.settled.stored)

include hhonest

/-- When a stage is over, all its changes were regular. -/
theorem Ready.finish (hx : Ready h c store key x.start) :
    Along h.settings.storage store key (fun _ => True) x.start (x.finish h c) := by
  by_cases hsame : x.stage.kind = kind
  · rw [← hsame] at hkind
    have hannounced : Along h.settings.storage store key (fun _ => True) x.start (c.announced x.stage x.start) :=
      (Along.refl hx.settled.stored).sameDisk (c.announced_sameDisk x.stage x.start)
    have hprepared := hannounced.trans (Visit.prepared_along hlayout hkey hx.settled)
    have hall : ∀ {Y : Change → Prop} {y z}, Along h.settings.storage store key Y y z →
        Along h.settings.storage store key (fun _ => True) y z := fun hy => hy.mono fun _ _ => trivial
    cases Visit.course hlayout hkey hx.settled hkind hhonest with
    | refused _ hrest => exact hprepared.sameDisk hrest
    | broken _ hworked => exact hprepared.trans (hall hworked)
    | finished _ hworked hregular hcleared =>
      have hended := (hall hworked).change (hregular.mono fun _ => trivial)
      exact (hprepared.trans hended).trans (hall hcleared)
  · exact (Ready.elsewhere hlayout hkey hkind hx hsame).mono fun _ _ => trivial

end

/-- The record of a job is stored outside of the trees. -/
theorem Ready.saveRecord (hw : Ready h c store key w) (hlayout : c.layout = .of h.settings.storage key)
    (hkey : isTargetKey key = true) (ht : t.context h = c) :
    Along h.settings.storage store key (Elsewhere store key kind) w ((t.saveRecord h).run w).2 :=
  Alone.keeps (Alone.saveRecord twins_along trivial
    (Realm.admitting_record hw.settled.stored (target_root hlayout hkey) Elsewhere.records) ht)
    (.refl hw.settled.stored)

/-- Apart from stages, what a job does is outside of the trees. -/
theorem Ready.perform (hw : Ready h c store key w) (hlayout : c.layout = .of h.settings.storage key)
    (hkey : isTargetKey key = true) (ht : t.context h = c) (ha : ∀ s, a ≠ .run s) :
    Along h.settings.storage store key (Elsewhere store key kind) w ((t.perform h a).run w).2 := by
  have hsame : ∀ {v}, SameDisk w v → Along h.settings.storage store key (Elsewhere store key kind) w v :=
    fun hv => (Along.refl hw.settled.stored).sameDisk hv
  cases a with
  | record e =>
    rw [Task.run_record]
    exact hw.saveRecord hlayout hkey ht
  | tell m => exact hsame (.of_still (World.publish_still t.job.targetKey m w))
  | release => exact hsame (.of_note (o := .released t.job.targetKey t.ticket) rfl rfl rfl rfl)
  | log r => exact hsame (.of_note (o := .logged r) rfl rfl rfl rfl)
  | run s => exact absurd rfl (ha s)

/-! ## Runs are woven of stages -/

/-- A run is a row of stages; between them nothing happens in the tree. -/
def Woven (h : Host) (c : StageContext) (store : Place) (key : String) (kind : StageKind) :
    World → List Visit → World → Prop
  | w, [], v => Along h.settings.storage store key (Elsewhere store key kind) w v
  | w, x :: xs, v => Along h.settings.storage store key (Elsewhere store key kind) w x.start ∧
    Woven h c store key kind (x.finish h c) xs v

namespace Woven

theorem prepend (hu : Along h.settings.storage store key (Elsewhere store key kind) w u)
    (hv : Woven h c store key kind u vs v) : Woven h c store key kind w vs v := by
  cases vs with
  | nil => exact hu.trans hv
  | cons x xs => exact ⟨hu.trans hv.1, hv.2⟩

theorem append (hu : Woven h c store key kind w vs u) (hv : Woven h c store key kind u ws v) :
    Woven h c store key kind w (vs ++ ws) v := by
  induction vs generalizing w with
  | nil => exact hv.prepend hu
  | cons x xs ih => exact ⟨hu.1, ih hu.2⟩

end Woven

section

variable (hlayout : c.layout = .of h.settings.storage key) (hkey : isTargetKey key = true)
  (hkind : kind.hasMarkers = true) (hhonest : ∀ n e, h.fault n = some e → e.kind ≠ .notFound)
include hlayout hkey hkind hhonest

theorem Woven.along (hw : Ready h c store key w) (hv : Woven h c store key kind w vs v) :
    Along h.settings.storage store key (fun _ => True) w v := by
  induction vs generalizing w with
  | nil => exact Along.mono (fun _ _ => trivial) hv
  | cons x xs ih =>
    have hx := hw.along hv.1
    have hfinish := hx.finish hlayout hkey hkind hhonest
    exact ((hv.1.mono fun _ _ => trivial).trans hfinish).trans (ih (hx.along hfinish) hv.2)

/-- The marks can be relied on when a stage begins, and it is over when the run is. -/
theorem Woven.ready (hw : Ready h c store key w) (hv : Woven h c store key kind w vs v) (hx : x ∈ vs) :
    Ready h c store key x.start ∧ (x.finish h c).journal <+: v.journal := by
  induction vs generalizing w with
  | nil => exact absurd hx List.not_mem_nil
  | cons y ys ih =>
    have hy := hw.along hv.1
    have hfinish := hy.along (hy.finish hlayout hkey hkind hhonest)
    rcases List.mem_cons.mp hx with rfl | hx
    · exact ⟨hy, (Woven.along hlayout hkey hkind hhonest hfinish hv.2).stretch.grows⟩
    · exact ih hfinish hv.2 hx

namespace Task

theorem performAll_woven (as : List Action) (ht : t.context h = c) (hw : Ready h c store key w) :
    Woven h c store key kind w (visitsOf h as t w) ((t.performAll h as).run w).2 := by
  induction as generalizing t w with
  | nil => exact .refl hw.settled.stored
  | cons a as ih =>
    rw [run_performAll]
    have hcontext : ((t.perform h a).run w).1.context h = c := by
      obtain ⟨r, queue, hfst⟩ := perform_fst (h := h) t a w
      rw [hfst]
      exact ht
    -- all actions but one are elsewhere
    have haside : (∀ s, a ≠ .run s) →
        Woven h c store key kind w (visitsOf h as ((t.perform h a).run w).1 ((t.perform h a).run w).2)
          ((((t.perform h a).run w).1.performAll h as).run ((t.perform h a).run w).2).2 := fun ha =>
      have halong := hw.perform hlayout hkey ht ha
      (ih hcontext (hw.along halong)).prepend halong
    cases a with
    | record | tell | release | log => exact haside nofun
    | run s =>
      have hperform : ((t.perform h (.run s)).run w).2 = (Visit.mk s w).finish h c := by
        show ((runStage h (t.context h) s).run w).2 = _
        rw [ht]
        rfl
      refine ⟨.refl hw.settled.stored, ?_⟩
      have hready : Ready h c store key ((t.perform h (.run s)).run w).2 := by
        rw [hperform]
        exact hw.along (Ready.finish (x := ⟨s, w⟩) hlayout hkey hkind hhonest hw)
      rw [← hperform]
      exact ih hcontext hready

/-- **Runs are woven of their stages.** -/
theorem runFor_woven (fuel : Nat) (ht : t.context h = c) (hw : Ready h c store key w) :
    Woven h c store key kind w (visits h fuel t w) ((t.runFor h fuel).run w).2 := by
  induction fuel generalizing t w with
  | zero => exact .refl hw.settled.stored
  | succ fuel ih =>
    rw [runFor_succ, visits]
    cases hq : t.queue with
    | nil => exact .refl hw.settled.stored
    | cons m rest =>
      simp only
      rw [Act.run_bind]
      have hpaused : Along h.settings.storage store key (Elsewhere store key kind) w ((World.pause h).run w).2 :=
        (Along.refl hw.settled.stored).sameDisk (World.pause_still.sameDisk w)
      obtain ⟨hjob, hticket, -⟩ :=
        t.taken_eq (((World.pause h).run w).2.registry.isCancelled t.ticket) m rest
      have hcontext := (context_eq (h := h) hjob hticket).trans ht
      have hstep := performAll_woven hlayout hkey hkind hhonest ((t.taken
        (((World.pause h).run w).2.registry.isCancelled t.ticket) m rest).2.flatMap (Effect.actions
          (t.taken (((World.pause h).run w).2.registry.isCancelled t.ticket) m rest).1.job))
        hcontext (hw.along hpaused)
      have hready := (hw.along hpaused).along (hstep.along hlayout hkey hkind hhonest (hw.along hpaused))
      refine (hstep.prepend hpaused).append (ih ?_ hready)
      rw [run_step]
      exact (context_performAll _ _ _).trans hcontext

end Task

end

end Decompile
