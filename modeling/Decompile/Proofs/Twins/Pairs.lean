import Decompile.Proofs.Act.Keeps

/-!
# Two runs side by side

Two programs are run in two worlds that are related. If they come to the same and leave worlds that
are related again, then so do two programs that are put together from such parts.

- `Act.Pairs`, `Try.Pairs`: the two programs go together; `Act.PairsTo` if what they come to counts.
- `Act.Pairs.bind`, `Try.Pairs.bind`: two actions in a row; `Try.Pairs.bind_gain` when the first has
  given something that the second needs, `bind_after` with relations of their own.
-/

namespace Decompile

variable {R S T : World → World → Prop} {α β ε ε' : Type}

/-- Run in two worlds that are related by `R`, the two actions come to the same, and leave worlds
that are related by `S`. -/
def Act.Pairs (R S : World → World → Prop) (x y : Act α) : Prop :=
  ∀ u v, R u v → (x.run u).1 = (y.run v).1 ∧ S (x.run u).2 (y.run v).2

/-- The same, where what is related afterwards depends on what the actions come to. -/
def Act.PairsTo (R : World → World → Prop) (S : α → World → World → Prop) (x y : Act α) : Prop :=
  ∀ u v, R u v → (x.run u).1 = (y.run v).1 ∧ S (x.run u).1 (x.run u).2 (y.run v).2

/-- The same of actions that may fail: both do, or none. -/
def Try.Pairs (R : World → World → Prop) (t t' : Try ε α) : Prop :=
  Act.Pairs R R t.settle t'.settle

namespace Act.Pairs

theorem bind {x y : Act α} {f g : α → Act β} (hx : Pairs R S x y)
    (hf : ∀ a, Pairs S T (f a) (g a)) : Pairs R T (x >>= f) (y >>= g) := by
  intro u v huv
  obtain ⟨hsame, hrel⟩ := hx u v huv
  rw [run_bind, run_bind, ← hsame]
  exact hf _ _ _ hrel

theorem mono {R' S' : World → World → Prop} {x y : Act α} (h : Pairs R S x y)
    (hR : ∀ u v, R' u v → R u v) (hS : ∀ u v, S u v → S' u v) : Pairs R' S' x y := by
  intro u v huv
  obtain ⟨hsame, hrel⟩ := h u v (hR u v huv)
  exact ⟨hsame, hS _ _ hrel⟩

theorem pure (a : α) : Pairs R R (Pure.pure a : Act α) (Pure.pure a) :=
  fun _ _ huv => ⟨rfl, huv⟩

/-- What is asked about two worlds, and how they go on after the answer. -/
theorem get_bind {f g : World → Act β}
    (hf : ∀ u v, R u v →
      ((f u).run u).1 = ((g v).run v).1 ∧ S ((f u).run u).2 ((g v).run v).2) :
    Pairs R S ((MonadState.get : Act World) >>= f) ((MonadState.get : Act World) >>= g) :=
  hf

end Act.Pairs

namespace Act.PairsTo

variable {Q : α → World → World → Prop} {U : β → World → World → Prop}

theorem bind {x y : Act α} {f g : α → Act β} (hx : PairsTo R Q x y)
    (hf : ∀ a, PairsTo (Q a) U (f a) (g a)) : PairsTo R U (x >>= f) (y >>= g) := by
  intro u v huv
  obtain ⟨hsame, hrel⟩ := hx u v huv
  rw [run_bind, run_bind, ← hsame]
  exact hf _ _ _ hrel

theorem of_pairs {x y : Act α} (h : Pairs R S x y) : PairsTo R (fun _ => S) x y := h

theorem pure {a : α} (hR : ∀ u v, R u v → Q a u v) :
    PairsTo R Q (Pure.pure a : Act α) (Pure.pure a) :=
  fun u v huv => ⟨rfl, hR u v huv⟩

end Act.PairsTo

namespace Try.Pairs

theorem settle {t t' : Try ε α} (h : Pairs R t t') : Act.Pairs R R t.settle t'.settle := h

theorem lift {x y : Act α} (h : Act.Pairs R R x y) :
    Pairs R (liftM x : Try ε α) (liftM y) := by
  intro u v huv
  obtain ⟨hsame, hrel⟩ := h u v huv
  exact ⟨congrArg Except.ok hsame, hrel⟩

theorem outcome {t t' : Try ε α} (h : Pairs R t t') :
    Pairs R (t.outcome : Try ε' _) t'.outcome :=
  lift h

theorem mapError {f : ε → ε'} {t t' : Try ε α} (h : Pairs R t t') :
    Pairs R (t.mapError f) (t'.mapError f) := by
  intro u v huv
  obtain ⟨hsame, hrel⟩ := h u v huv
  exact ⟨congrArg (Except.mapError f) hsame, hrel⟩

/-- Two actions in a row, the second after whatever the first may have given. -/
theorem bind_gain {φ : α → Prop} {t t' : Try ε α} {f g : α → Try ε β} (ht : Pairs R t t')
    (hφ : ∀ u v a w, R u v → t.settle.run u = (.ok a, w) → φ a)
    (hf : ∀ a, φ a → Pairs R (f a) (g a)) : Pairs R (t >>= f) (t' >>= g) := by
  intro u v huv
  obtain ⟨hsame, hrel⟩ := ht u v huv
  have hgain := hφ u v
  rw [run_settle_bind, run_settle_bind]
  rcases hu : t.settle.run u with ⟨r, u'⟩
  rcases hv : t'.settle.run v with ⟨r', v'⟩
  rw [hu, hv] at hsame hrel
  obtain rfl : r = r' := hsame
  cases r with
  | error e => exact ⟨rfl, hrel⟩
  | ok a => exact hf a (hgain a u' huv hu) u' v' hrel

theorem bind {t t' : Try ε α} {f g : α → Try ε β} (ht : Pairs R t t')
    (hf : ∀ a, Pairs R (f a) (g a)) : Pairs R (t >>= f) (t' >>= g) :=
  ht.bind_gain (φ := fun _ => True) (fun _ _ _ _ _ _ => trivial) fun a _ => hf a

/-- Two actions in a row, with relations of their own between and after them. -/
theorem bind_after {t t' : Try ε α} {f g : α → Try ε β} (ht : Act.Pairs T S t.settle t'.settle)
    (hS : ∀ u v, S u v → R u v) (hf : ∀ a, Act.Pairs S R (f a).settle (g a).settle) :
    Act.Pairs T R (Try.settle (t >>= f)) (Try.settle (t' >>= g)) := by
  intro u v huv
  obtain ⟨hsame, hrel⟩ := ht u v huv
  rw [run_settle_bind, run_settle_bind]
  rcases hu : t.settle.run u with ⟨r, u'⟩
  rcases hv : t'.settle.run v with ⟨r', v'⟩
  rw [hu, hv] at hsame hrel
  obtain rfl : r = r' := hsame
  cases r with
  | error e => exact ⟨rfl, hS _ _ hrel⟩
  | ok a => exact hf a u' v' hrel

theorem pure (a : α) : Pairs R (Pure.pure a : Try ε α) (Pure.pure a) :=
  fun _ _ huv => ⟨rfl, huv⟩

theorem throw (e : ε) :
    Pairs R (MonadExcept.throw e : Try ε α) (MonadExcept.throw e) :=
  fun _ _ huv => ⟨rfl, huv⟩

/-- What is asked about two worlds, and how they go on after the answer. -/
theorem get_bind_after {f g : World → Try ε α}
    (hf : ∀ u v, T u v → Act.Pairs T R (f u).settle (g v).settle) :
    Act.Pairs T R (Try.settle (MonadState.get >>= f)) (Try.settle (MonadState.get >>= g)) :=
  fun u v huv => hf u v huv u v huv

theorem get_bind {f g : World → Try ε α} (hf : ∀ u v, R u v → Pairs R (f u) (g v)) :
    Pairs R ((MonadState.get : Try ε World) >>= f) ((MonadState.get : Try ε World) >>= g) :=
  get_bind_after hf

/-- The actions fail at once on a condition, and go on otherwise. -/
theorem throwIf {p : Prop} [Decidable p] {e : ε} {f g : Unit → Try ε α}
    (hf : ∀ u, Pairs R (f u) (g u)) :
    Pairs R (if p then MonadExcept.throw e >>= f else f ())
      (if p then MonadExcept.throw e >>= g else g ()) := by
  split
  · exact (throw e).bind hf
  · exact hf ()

/-- The actions go one of two ways, together. -/
theorem branch {p : Prop} [Decidable p] {s s' t t' : Try ε α} (hs : p → Pairs R s s')
    (ht : ¬ p → Pairs R t t') : Pairs R (if p then s else t) (if p then s' else t') := by
  split
  · next hp => exact hs hp
  · next hp => exact ht hp

end Try.Pairs

end Decompile
