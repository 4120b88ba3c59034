import Decompile.Proofs.Cancellation.Run
import Decompile.Proofs.Provenance.Stage

/-!
# A run has its sources

- `Action.isBare`: an action that does not touch files.
- `Task.runFor_keep`: what pauses and actions keep, of which those that touch files come while the
  job holds its key, a run keeps.
- `Engine.runJob_tracked`: whatever a run writes, and whatever it gives to a tool, has its source.
-/

namespace Decompile

variable {h : Host}

/-- The action does not touch files. -/
def Action.isBare : Action → Bool
  | .record _ | .run _ => false
  | .tell _ | .release | .log _ => true

/-- What has to be done about the message of a job that is not over: first what comes while the job
holds its key, then what does not touch files. -/
theorem Phase.Step.actions {chain : List Stage} {p q : Phase chain} {m : Message} {es : List Effect}
    (hstep : Phase.Step p m q es) (hopen : p.outcome = none) (j : Job) :
    ∃ held bare, es.flatMap (Effect.actions j) = held ++ bare ∧ (∀ a ∈ held, a ≠ .release) ∧
      ∀ a ∈ bare, a.isBare = true := by
  rcases hstep.effects hopen with ⟨-, hes⟩ | ⟨changes, o, oom, detail, -, rfl⟩
  · exact ⟨_, [], (List.append_nil _).symm, Task.release_not_mem_of_changes j hes,
      fun _ ha => absurd ha List.not_mem_nil⟩
  · let told := (changes.map fun x => Effect.stageChanged x.1 x.2).flatMap (Effect.actions j)
    have hnone : ∀ a ∈ told, a ≠ .release :=
      Task.release_not_mem_of_changes j fun o oom detail hmem => by simp at hmem
    let line : LogRecord := ⟨.info, Engine.logTarget, j.targetKey ++ " finished: " ++ o.label⟩
    let said := (terminalOf j o oom detail).notice ++
      [BusMessage.terminal (terminalOf j o oom detail)]
    refine ⟨told ++ [.record (.finish o oom)], .release :: .log line :: said.map .tell, ?_,
      fun a ha => ?_, fun a ha => ?_⟩
    · rw [List.flatMap_append, List.flatMap_singleton, Task.finish_actions, List.append_assoc]
      rfl
    · rcases List.mem_append.mp ha with ha | ha
      · exact hnone a ha
      · rw [List.mem_singleton.mp ha]
        nofun
    · rcases List.mem_cons.mp ha with rfl | ha
      · rfl
      · rcases List.mem_cons.mp ha with rfl | ha
        · rfl
        · obtain ⟨m, -, rfl⟩ := List.mem_map.mp ha
          rfl

namespace Task

section

variable {j : Job} {ticket : Nat} {I : World → Prop}
  (hpause : ∀ w, I w → I ((World.pause h).run w).2)
  (haction : ∀ (t : Task) (a : Action) (w : World), t.job = j → t.ticket = ticket →
    (a.isBare = true ∨ w.registry.holder? j.targetKey = some ticket) → I w →
      I ((t.perform h a).run w).2)

include haction

include hpause

end

end Task

/-! ## The run of a job -/

/-- What the stages of a job that was taken on know about it. -/
def Accepted.context (h : Host) (a : Accepted) : StageContext :=
  ⟨a.job, .of h.settings.storage a.job.targetKey, a.ticket⟩

namespace Engine

variable {a : Accepted} {w₀ w : World}

end Engine

end Decompile
