import Decompile.Proofs.Act.Keeps

/-!
# Actions that succeed, and actions that fail

An action that may fail and has succeeded has gone through all its parts; one that has failed has
failed in one of them.

- `Try.Succeeds`: begun in a world, the action succeeds with a value and leaves a world behind.
- `Succeeds.bind`, `lift`, `outcome`, `mapError`: the parts of an action that has succeeded; `andThen` and
  `relabelled` put them together.
- `Try.Fails`, `Fails.bind`, `mapError`: the same of actions that have failed.
-/

namespace Decompile

variable {α β ε ε' : Type}

/-- Begun in a world, the action succeeds with a value and leaves a world behind. -/
def Try.Succeeds (t : Try ε α) (w : World) (a : α) (v : World) : Prop :=
  t.settle.run w = (.ok a, v)

namespace Try.Succeeds

variable {t : Try ε α} {f : α → Try ε β} {w u v : World} {a c : α} {b : β}

theorem bind (h : Try.Succeeds (t >>= f) w b v) :
    ∃ a u, t.Succeeds w a u ∧ (f a).Succeeds u b v := by
  unfold Try.Succeeds at h
  rw [run_settle_bind] at h
  rcases hfirst : t.settle.run w with ⟨e | a, u⟩
  · rw [hfirst] at h
    cases (Prod.mk.inj h).1
  · rw [hfirst] at h
    exact ⟨a, u, hfirst, h⟩

theorem andThen (h : t.Succeeds w a u) (hf : (f a).Succeeds u b v) :
    Try.Succeeds (t >>= f) w b v := by
  unfold Try.Succeeds
  rw [run_settle_bind, h]
  exact hf

theorem relabelled (h : t.Succeeds w a v) (g : ε → ε') : (t.mapError g).Succeeds w a v := by
  show ((t.settle.run w).1.mapError g, (t.settle.run w).2) = _
  rw [h]
  rfl

theorem lift {x : Act α} {f : α → Try ε β} (h : Try.Succeeds (liftM x >>= f) w b v) :
    (f (x.run w).1).Succeeds (x.run w).2 b v := h

theorem outcome {f : Except ε α → Try ε' β} (h : Try.Succeeds (t.outcome >>= f) w b v) :
    (f (t.settle.run w).1).Succeeds (t.settle.run w).2 b v := h

theorem mapError {g : ε → ε'} (h : (t.mapError g).Succeeds w a v) : t.Succeeds w a v := by
  unfold Try.Succeeds at h ⊢
  replace h : ((t.settle.run w).1.mapError g, (t.settle.run w).2) = (.ok a, v) := h
  rcases hrun : t.settle.run w with ⟨e | c, u⟩
  · rw [hrun] at h
    cases (Prod.mk.inj h).1
  · rw [hrun] at h
    obtain ⟨hok, hworld⟩ := Prod.mk.inj h
    obtain rfl := Except.ok.inj hok
    exact Prod.ext rfl hworld

theorem pure (h : (Pure.pure a : Try ε α).Succeeds w c v) : c = a ∧ v = w := by
  obtain ⟨hok, hworld⟩ := Prod.mk.inj h
  exact ⟨(Except.ok.inj hok).symm, hworld.symm⟩

theorem not_throw {e : ε} : ¬ (MonadExcept.throw e : Try ε α).Succeeds w a v :=
  fun h => by cases (Prod.mk.inj h).1

/-- The action fails at once on a condition, and goes on otherwise. -/
theorem passed {p : Prop} [Decidable p] {e : ε} {f : Unit → Try ε α}
    (h : Try.Succeeds (if p then MonadExcept.throw e >>= f else f ()) w a v) :
    ¬ p ∧ (f ()).Succeeds w a v := by
  split at h
  · obtain ⟨_, _, hthrow, -⟩ := bind h
    exact absurd hthrow not_throw
  · next hp => exact ⟨hp, h⟩

/-- What an action keeps, it has kept. -/
theorem keeps {R : World → World → Prop} (h : t.Succeeds w a v) (ht : Try.Keeps R t) : R w v :=
  ht.of_run h

end Try.Succeeds

/-! ## Failures -/

/-- Begun in a world, the action fails and leaves a world behind. -/
def Try.Fails (t : Try ε α) (w : World) (e : ε) (v : World) : Prop :=
  t.settle.run w = (.error e, v)

namespace Try.Fails

variable {t : Try ε α} {f : α → Try ε β} {w v : World} {e : ε}

/-- Of two actions the first has failed, or the second after what the first has given. -/
theorem bind (h : Try.Fails (t >>= f) w e v) :
    t.Fails w e v ∨ ∃ a u, t.Succeeds w a u ∧ (f a).Fails u e v := by
  unfold Try.Fails at h
  rw [run_settle_bind] at h
  rcases hfirst : t.settle.run w with ⟨d | a, u⟩
  · rw [hfirst] at h
    obtain ⟨hsame, rfl⟩ := Prod.mk.inj h
    obtain rfl := Except.error.inj hsame
    exact .inl hfirst
  · rw [hfirst] at h
    exact .inr ⟨a, u, hfirst, h⟩

theorem outcome {g : Except ε α → Try ε' β} {e : ε'} (h : Try.Fails (t.outcome >>= g) w e v) :
    (g (t.settle.run w).1).Fails (t.settle.run w).2 e v := h

theorem mapError {g : ε → ε'} {e : ε'} (h : (t.mapError g).Fails w e v) :
    ∃ d, e = g d ∧ t.Fails w d v := by
  unfold Try.Fails at h ⊢
  replace h : ((t.settle.run w).1.mapError g, (t.settle.run w).2) = (.error e, v) := h
  rcases hrun : t.settle.run w with ⟨d | a, u⟩
  · rw [hrun] at h
    obtain ⟨herror, hworld⟩ := Prod.mk.inj h
    exact ⟨d, (Except.error.inj herror).symm, Prod.ext rfl hworld⟩
  · rw [hrun] at h
    cases (Prod.mk.inj h).1

theorem throw {d : ε} (h : (MonadExcept.throw d : Try ε α).Fails w e v) : e = d ∧ v = w := by
  obtain ⟨herror, hworld⟩ := Prod.mk.inj h
  exact ⟨(Except.error.inj herror).symm, hworld.symm⟩

theorem not_pure {a : α} : ¬ (Pure.pure a : Try ε α).Fails w e v :=
  fun h => by cases (Prod.mk.inj h).1

theorem not_lift {x : Act α} : ¬ (liftM x : Try ε α).Fails w e v :=
  fun h => by cases (Prod.mk.inj h).1

/-- What an action keeps, it has kept. -/
theorem keeps {R : World → World → Prop} (h : t.Fails w e v) (ht : Try.Keeps R t) : R w v :=
  ht.of_run h

end Try.Fails

end Decompile
