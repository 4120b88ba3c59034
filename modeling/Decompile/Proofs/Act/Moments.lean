import Decompile.Proofs.Act.Succeeds
import Decompile.Proofs.Provenance.Files

/-!
# The clock of the world, and operations on files

- `World.pause_clock`: a pause is one tick, whatever others do meanwhile.
- `World.run_access`: a file operation meets the fault of its moment.
- `World.succeeds_planned`, `World.fails_planned`: operations that make one change, if any.
-/

namespace Decompile

variable {h : Host}

theorem Try.run_settle_get_bind {ε α : Type} (f : World → Try ε α) (w : World) :
    (Try.settle (get >>= f)).run w = (f w).settle.run w := rfl

namespace World

/-- What others do takes no time. -/
theorem happen_clock (x : Happening) (w : World) : ((happen h x).run w).2.clock = w.clock := by
  cases x with
  | cancel key =>
    show ((cancel key).run { w with journal := w.journal ++ [.happened (.cancel key)] }).2.clock = w.clock
    obtain ⟨said, hsaid⟩ := run_cancel key { w with journal := w.journal ++ [.happened (.cancel key)] }
    rw [hsaid]
  | sample used =>
    show ((sample h used).run { w with journal := w.journal ++ [.happened (.sample used)] }).2.clock = w.clock
    unfold sample
    rw [Act.run_get_bind]
    cases w.monitor with
    | none => rfl
    | some m =>
      simp only [Act.run_bind]
      split <;> rfl

theorem happenAll_clock (xs : List Happening) (w : World) :
    ((happenAll h xs).run w).2.clock = w.clock := by
  induction xs generalizing w with
  | nil => rfl
  | cons x xs ih =>
    unfold happenAll
    rw [Act.run_bind, ih, happen_clock]

theorem pause_clock (w : World) : ((pause h).run w).2.clock = w.clock + 1 :=
  happenAll_clock (h.interlude w.clock) { w with clock := w.clock + 1 }

/-- A file operation meets the fault of its moment. -/
theorem run_access (w : World) : (access h).settle.run w =
    match h.fault (w.clock + 1) with
    | some e => (.error e, ((pause h).run w).2)
    | none => (.ok (), ((pause h).run w).2) := by
  unfold access
  rw [Try.run_settle_lift_bind, Try.run_settle_get_bind, pause_clock]
  cases h.fault (w.clock + 1) <;> rfl

/-- A file operation is refused by the host, or goes on as if there were no faults. -/
theorem access_cases {α : Type} (k : Try IoError α) (w : World) :
    (∃ n e v, h.fault n = some e ∧ (do access h; k).settle.run w = (.error e, v) ∧ Still w v) ∨
      ∃ v, (do access h; k).settle.run w = k.settle.run v ∧ Still w v := by
  have hstill : Still w ((pause h).run w).2 := pause_still w
  rw [Try.run_settle_bind, run_access]
  cases hfault : h.fault (w.clock + 1) with
  | some e => exact .inl ⟨_, e, _, hfault, rfl, hstill⟩
  | none => exact .inr ⟨_, rfl, hstill⟩

/-- An operation that has succeeded has made the change that was planned on the disk it has met. -/
theorem succeeds_planned {f : Disk → Place → Except IoError Change} {w v : World}
    (hs : (do access h; change (← plan f) : Try IoError Unit).Succeeds w () v) :
    ∃ u c, Still w u ∧ f u.disk u.cwd = .ok c ∧ v = ((change c).run u).2 := by
  rcases access_cases (h := h) (do change (← plan f)) w with ⟨_, e, u, -, hrun, -⟩ | ⟨u, hrun, hstill⟩
  · cases (Prod.mk.inj (hrun.symm.trans hs)).1
  · replace hs := hrun.symm.trans hs
    rw [Try.run_settle_bind, run_plan] at hs
    cases hplan : f u.disk u.cwd with
    | error e =>
      rw [hplan] at hs
      cases (Prod.mk.inj hs).1
    | ok c =>
      rw [hplan] at hs
      exact ⟨u, c, hstill, hplan, (Prod.mk.inj hs).2.symm⟩

/-- One that has failed has left the disk alone: the host refused it, or the plan did. -/
theorem fails_planned {f : Disk → Place → Except IoError Change} {w v : World} {e : IoError}
    (hf : (do access h; change (← plan f) : Try IoError Unit).Fails w e v) :
    Still w v ∧ ((∃ n, h.fault n = some e) ∨ f v.disk v.cwd = .error e) := by
  rcases access_cases (h := h) (do change (← plan f)) w with ⟨n, e', u, hfault, hrun, hstill⟩ | ⟨u, hrun, hstill⟩
  · obtain ⟨herror, rfl⟩ := Prod.mk.inj (hrun.symm.trans hf)
    obtain rfl := Except.error.inj herror
    exact ⟨hstill, .inl ⟨n, hfault⟩⟩
  · replace hf := hrun.symm.trans hf
    rw [Try.run_settle_bind, run_plan] at hf
    cases hplan : f u.disk u.cwd with
    | error e' =>
      rw [hplan] at hf
      obtain ⟨herror, rfl⟩ := Prod.mk.inj hf
      obtain rfl := Except.error.inj herror
      exact ⟨hstill, .inr hplan⟩
    | ok c =>
      rw [hplan] at hf
      cases (Prod.mk.inj hf).1

end World

end Decompile
