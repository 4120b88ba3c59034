import Decompile.World.Basic
import Mathlib.Order.Defs.Unbundled

/-!
# What actions keep

An action takes a world to a world. A relation between the two that holds of doing nothing, and of
two actions in a row when it holds of each, is shown of a program by going through it once.

- `Act.Keeps`, `Try.Keeps`: whatever the world before, the relation leads to the world after, also
  when the action fails.
- `Act.Reads`: the action leaves the world as it is.
- `Act.Keeps.bind`, `Try.Keeps.bind`: two actions in a row.
- `Try.Yields`: what an action comes to when it succeeds.
- `World.since`: what has happened since a world.
-/

namespace Decompile

variable {R : World → World → Prop} {α β ε ε' : Type}

/-- Whatever the world before, the relation leads to the world after. -/
def Act.Keeps (R : World → World → Prop) (x : Act α) : Prop := ∀ w, R w (x.run w).2

/-- The same of an action that may fail, whether it does or not. -/
def Try.Keeps (R : World → World → Prop) (t : Try ε α) : Prop := Act.Keeps R t.settle

/-- The action leaves the world as it is. -/
def Act.Reads (x : Act α) : Prop := ∀ w, (x.run w).2 = w

/-! ## Runs of two actions -/

theorem Act.run_bind (x : Act α) (f : α → Act β) (w : World) :
    (x >>= f).run w = (f (x.run w).1).run (x.run w).2 := rfl

theorem Act.run_get_bind (f : World → Act β) (w : World) :
    ((MonadState.get : Act World) >>= f).run w = (f w).run w := rfl

theorem Try.run_settle_bind (t : Try ε α) (f : α → Try ε β) (w : World) :
    (Try.settle (t >>= f)).run w =
      match t.settle.run w with
      | (.ok a, w) => (f a).settle.run w
      | (.error e, w) => (.error e, w) := by
  unfold Try.settle
  rw [ExceptT.run_bind, Act.run_bind]
  rcases (ExceptT.run t).run w with ⟨_ | _, _⟩ <;> rfl

theorem Try.run_settle_lift_bind (x : Act α) (f : α → Try ε β) (w : World) :
    (Try.settle (liftM x >>= f)).run w = (f (x.run w).1).settle.run (x.run w).2 := rfl

theorem Try.run_settle_outcome_bind (t : Try ε α) (f : Except ε α → Try ε' β) (w : World) :
    (Try.settle (t.outcome >>= f)).run w =
      (f (t.settle.run w).1).settle.run (t.settle.run w).2 := rfl

/-! ## Actions that cannot fail -/

namespace Act

theorem Keeps.mono {S : World → World → Prop} {x : Act α} (hx : Keeps R x)
    (hRS : ∀ w v, R w v → S w v) : Keeps S x :=
  fun w => hRS _ _ (hx w)

theorem Keeps.bind [IsTrans World R] {x : Act α} {f : α → Act β} (hx : Keeps R x)
    (hf : ∀ a, Keeps R (f a)) : Keeps R (x >>= f) := by
  intro w
  rw [run_bind]
  exact IsTrans.trans _ _ _ (hx w) (hf _ _)

variable [Std.Refl R]

theorem Reads.keeps {x : Act α} (h : x.Reads) : Keeps R x := by
  intro w
  rw [h w]
  exact Std.Refl.refl w

theorem Keeps.pure (a : α) : Keeps R (Pure.pure a : Act α) := fun w => Std.Refl.refl w

theorem Keeps.get : Keeps R (MonadState.get : Act World) := fun w => Std.Refl.refl w

end Act

/-! ## Actions that may fail -/

namespace Try

theorem Keeps.settle {t : Try ε α} (h : Keeps R t) : Act.Keeps R t.settle := h

theorem Keeps.of_run {t : Try ε α} (h : Keeps R t) {w v : World} {r : Except ε α}
    (hrun : t.settle.run w = (r, v)) : R w v := by
  have hw := h w
  rwa [hrun] at hw

theorem Keeps.lift {x : Act α} (h : Act.Keeps R x) : Keeps R (liftM x : Try ε α) := h

theorem Keeps.outcome {t : Try ε α} (h : Keeps R t) : Keeps R (t.outcome : Try ε' _) := h

theorem Keeps.mapError {f : ε → ε'} {t : Try ε α} (h : Keeps R t) : Keeps R (t.mapError f) := h

theorem Keeps.bind [IsTrans World R] {t : Try ε α} {f : α → Try ε β} (ht : Keeps R t)
    (hf : ∀ a, Keeps R (f a)) : Keeps R (t >>= f) := by
  intro w
  have hfirst : R w (t.settle.run w).2 := ht w
  rw [run_settle_bind]
  rcases hrun : t.settle.run w with ⟨e | a, v⟩
  · rw [hrun] at hfirst
    exact hfirst
  · rw [hrun] at hfirst
    exact IsTrans.trans _ _ _ hfirst (hf a v)

/-- An action that cannot fail, then one that may, each with a relation of its own. -/
theorem Keeps.lift_comp {S T : World → World → Prop} {x : Act α} {f : α → Try ε β}
    (hx : Act.Keeps S x) (hf : ∀ a, Keeps T (f a)) (hR : ∀ u v w, S u v → T v w → R u w) :
    Keeps R (liftM x >>= f) :=
  fun w => hR _ _ _ (hx w) (hf _ _)

variable [Std.Refl R]

theorem Keeps.pure (a : α) : Keeps R (Pure.pure a : Try ε α) := fun w => Std.Refl.refl w

theorem Keeps.throw (e : ε) : Keeps R (MonadExcept.throw e : Try ε α) := fun w => Std.Refl.refl w

theorem Keeps.get : Keeps R (MonadState.get : Try ε World) := fun w => Std.Refl.refl w

/-- The action fails at once on a condition, and goes on otherwise. -/
theorem Keeps.throwIf [IsTrans World R] {p : Prop} [Decidable p] {e : ε} {f : Unit → Try ε α}
    (hf : ∀ u, Keeps R (f u)) : Keeps R (if p then MonadExcept.throw e >>= f else f ()) := by
  split
  · exact (Keeps.throw e).bind hf
  · exact hf ()

end Try

/-! ## What actions come to -/

/-- Whatever an action that may fail succeeds with is so. -/
def Try.Yields (P : α → Prop) (t : Try ε α) : Prop :=
  ∀ w a v, t.settle.run w = (.ok a, v) → P a

namespace Try.Yields

variable {P : β → Prop}

theorem pure {b : β} (hb : P b) : Try.Yields P (Pure.pure b : Try ε β) := fun w a v hrun => by
  obtain rfl : b = a := Except.ok.inj (Prod.mk.inj hrun).1
  exact hb

theorem throw (e : ε) : Try.Yields P (MonadExcept.throw e : Try ε β) := fun w a v hrun => by
  cases (Prod.mk.inj hrun).1

theorem bind {t : Try ε α} {f : α → Try ε β} (hf : ∀ a, Try.Yields P (f a)) :
    Try.Yields P (t >>= f) := by
  intro w b v hrun
  rw [Try.run_settle_bind] at hrun
  rcases hfirst : t.settle.run w with ⟨e | a, u⟩
  · rw [hfirst] at hrun
    cases (Prod.mk.inj hrun).1
  · rw [hfirst] at hrun
    exact hf a u b v hrun

/-- The action fails at once on a condition, and goes on otherwise. -/
theorem throwIf {p : Prop} [Decidable p] {e : ε} {f : Unit → Try ε β}
    (hf : ∀ u, Try.Yields P (f u)) :
    Try.Yields P (if p then MonadExcept.throw e >>= f else f ()) := by
  split
  · exact .bind hf
  · exact hf ()

end Try.Yields

/-! ## What has happened since a world -/

namespace World

/-- What has happened since a world. -/
def since (w v : World) : List Occurrence := v.journal.drop w.journal.length

theorem since_eq {w v : World} {new : List Occurrence} (hv : v.journal = w.journal ++ new) :
    w.since v = new := by
  rw [since, hv, List.drop_left]

end World

end Decompile
