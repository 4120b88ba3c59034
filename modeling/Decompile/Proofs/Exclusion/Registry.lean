import Decompile.Registry
import Mathlib.Data.List.Nodup

/-!
# Holders of keys

- `Registry.Sound`: every key has at most one holder, every ticket holds at most one key, and no
  ticket is known that was not given out.
- `claim_spec`, `holder?_release`, `holder?_cancel`, `isCancelled_cancel`: what the operations do to
  holders and to wishes to stop; `Sound.claim`, `Sound.release`, `Sound.cancel`: they keep a registry
  sound.
-/

namespace Decompile.Registry

/-- Every key has at most one holder, and only tickets that were given out are known. -/
structure Sound (r : Registry) : Prop where
  keys : (r.holders.map Prod.fst).Nodup
  tickets : (r.holders.map Prod.snd).Nodup
  given : ∀ x ∈ r.holders, x.2 < r.nextTicket
  asked : ∀ t ∈ r.cancelled, t < r.nextTicket

theorem sound_empty : empty.Sound := ⟨.nil, .nil, nofun, nofun⟩

variable {r : Registry} {key : String} {ticket : Nat}

/-! ## Holders -/

theorem mem_of_lookup {l : List (String × Nat)} (h : l.lookup key = some ticket) :
    (key, ticket) ∈ l := by
  induction l with
  | nil => cases h
  | cons x l ih =>
    obtain ⟨k, t⟩ := x
    rw [List.lookup_cons] at h
    by_cases hk : key = k
    · subst hk
      rw [beq_self_eq_true] at h
      obtain rfl : t = ticket := Option.some.inj h
      exact List.mem_cons_self
    · rw [beq_false_of_ne hk] at h
      exact List.mem_cons_of_mem _ (ih h)

theorem lookup_of_mem {l : List (String × Nat)} (hl : (l.map Prod.fst).Nodup)
    (h : (key, ticket) ∈ l) : l.lookup key = some ticket := by
  induction l with
  | nil => cases h
  | cons x l ih =>
    obtain ⟨k, t⟩ := x
    rw [List.map_cons, List.nodup_cons] at hl
    rw [List.lookup_cons]
    rcases List.mem_cons.mp h with heq | h
    · obtain ⟨rfl, rfl⟩ := Prod.mk.inj heq
      rw [beq_self_eq_true]
    · have hk : key ≠ k := fun heq => hl.1 (heq ▸ List.mem_map.mpr ⟨_, h, rfl⟩)
      rw [beq_false_of_ne hk]
      exact ih hl.2 h

/-- Who holds a key is who is listed with it. -/
theorem Sound.holder?_eq_some (hr : r.Sound) :
    r.holder? key = some ticket ↔ (key, ticket) ∈ r.holders :=
  ⟨mem_of_lookup, lookup_of_mem hr.keys⟩

/-- A ticket holds one key at most. -/
theorem Sound.key_unique (hr : r.Sound) {other : String} (hk : r.holder? key = some ticket)
    (ho : r.holder? other = some ticket) : other = key := by
  rw [hr.holder?_eq_some] at hk ho
  exact congrArg Prod.fst (List.inj_on_of_nodup_map hr.tickets ho hk rfl)

theorem Sound.lt_nextTicket (hr : r.Sound) (hk : r.holder? key = some ticket) :
    ticket < r.nextTicket :=
  hr.given _ (hr.holder?_eq_some.mp hk)

theorem isActive_iff : r.isActive key = true ↔ ∃ t, r.holder? key = some t :=
  Option.isSome_iff_exists

theorem isActive_eq_false : r.isActive key = false ↔ r.holder? key = none := by
  unfold isActive
  cases r.holder? key <;> simp

/-! ## Claims -/

/-- A claim is granted for a key that nobody holds, with a ticket never given out before. -/
theorem claim_spec {registry : Registry} (h : r.claim key = some (ticket, registry)) :
    r.holder? key = none ∧ ticket = r.nextTicket ∧
      registry = { r with
        nextTicket := r.nextTicket + 1, holders := (key, r.nextTicket) :: r.holders } := by
  unfold claim at h
  split at h
  · cases h
  · next hfree =>
    obtain ⟨rfl, rfl⟩ := Prod.mk.inj (Option.some.inj h)
    exact ⟨isActive_eq_false.mp (Bool.eq_false_iff.mpr hfree), rfl, rfl⟩

theorem claim_eq_none : r.claim key = none ↔ ∃ t, r.holder? key = some t := by
  rw [claim, ← isActive_iff]
  split <;> simp_all

theorem holder?_of_claim {registry : Registry} (h : r.claim key = some (ticket, registry))
    (k : String) : registry.holder? k = if k = key then some ticket else r.holder? k := by
  obtain ⟨-, rfl, rfl⟩ := claim_spec h
  rw [holder?, List.lookup_cons]
  by_cases hk : k = key
  · rw [if_pos hk, hk, beq_self_eq_true]
  · rw [if_neg hk, beq_false_of_ne hk]
    rfl

theorem isCancelled_of_claim {registry : Registry} (h : r.claim key = some (ticket, registry))
    (t : Nat) : registry.isCancelled t = r.isCancelled t := by
  obtain ⟨-, -, rfl⟩ := claim_spec h
  rfl

theorem Sound.not_isCancelled (hr : r.Sound) {t : Nat} (ht : r.nextTicket ≤ t) :
    r.isCancelled t = false := by
  refine Bool.eq_false_iff.mpr fun h => ?_
  have hlt := hr.asked t (List.contains_iff_mem.mp h)
  omega

theorem Sound.claim {registry : Registry} (hr : r.Sound)
    (h : r.claim key = some (ticket, registry)) : registry.Sound := by
  obtain ⟨hfree, -, rfl⟩ := claim_spec h
  constructor
  case keys =>
    rw [List.map_cons, List.nodup_cons]
    refine ⟨fun hmem => ?_, hr.keys⟩
    obtain ⟨⟨k, t⟩, hx, rfl⟩ := List.mem_map.mp hmem
    have hheld := hr.holder?_eq_some.mpr hx
    rw [hfree] at hheld
    cases hheld
  case tickets =>
    rw [List.map_cons, List.nodup_cons]
    refine ⟨fun hmem => ?_, hr.tickets⟩
    obtain ⟨x, hx, heq⟩ := List.mem_map.mp hmem
    have hlt := hr.given x hx
    omega
  case given =>
    intro x hx
    rcases List.mem_cons.mp hx with rfl | hx
    · exact Nat.lt_succ_self _
    · exact Nat.lt_succ_of_lt (hr.given x hx)
  case asked => exact fun t ht => Nat.lt_succ_of_lt (hr.asked t ht)

/-! ## Releases -/

theorem release_of_ne (h : r.holder? key ≠ some ticket) : r.release key ticket = r := if_neg h

theorem lookup_filter_ne (l : List (String × Nat)) (k : String) :
    (l.filter fun h => h.1 ≠ key).lookup k = if k = key then none else l.lookup k := by
  induction l with
  | nil => simp
  | cons x l ih =>
    obtain ⟨k', t⟩ := x
    by_cases hk' : k' = key
    · have hdrop : ((k', t) :: l).filter (fun h => h.1 ≠ key) = l.filter fun h => h.1 ≠ key := by
        simp [hk']
      rw [hdrop, ih, List.lookup_cons]
      by_cases hk : k = key
      · rw [if_pos hk, if_pos hk]
      · rw [if_neg hk, if_neg hk, beq_false_of_ne (hk' ▸ hk)]
    · have hkeep : ((k', t) :: l).filter (fun h => h.1 ≠ key) =
          (k', t) :: l.filter fun h => h.1 ≠ key := by
        simp [hk']
      rw [hkeep, List.lookup_cons, List.lookup_cons, ih]
      by_cases hk : k = k'
      · simp only [hk, beq_self_eq_true, hk', if_false]
      · rw [beq_false_of_ne hk]

/-- A release frees its own key, and only if its ticket still holds it. -/
theorem holder?_release (k : String) : (r.release key ticket).holder? k =
    if k = key ∧ r.holder? key = some ticket then none else r.holder? k := by
  by_cases hheld : r.holder? key = some ticket
  · rw [release, if_pos hheld, holder?, lookup_filter_ne]
    simp only [hheld, and_true]
    rfl
  · rw [release_of_ne hheld]
    simp [hheld]

@[simp] theorem isCancelled_release (t : Nat) :
    (r.release key ticket).isCancelled t = r.isCancelled t := by
  unfold release
  split <;> rfl

@[simp] theorem nextTicket_release : (r.release key ticket).nextTicket = r.nextTicket := by
  unfold release
  split <;> rfl

theorem Sound.release (hr : r.Sound) : (r.release key ticket).Sound := by
  unfold Registry.release
  split
  · have hsub : (r.holders.filter fun h => h.1 ≠ key).Sublist r.holders := List.filter_sublist
    exact ⟨hr.keys.sublist (hsub.map _), hr.tickets.sublist (hsub.map _),
      fun x hx => hr.given x (hsub.subset hx), hr.asked⟩
  · exact hr

/-! ## Wishes to stop -/

@[simp] theorem holder?_cancel (k : String) : (r.cancel key).holder? k = r.holder? k := by
  unfold cancel
  split
  · split <;> rfl
  · rfl

@[simp] theorem nextTicket_cancel : (r.cancel key).nextTicket = r.nextTicket := by
  unfold cancel
  split
  · split <;> rfl
  · rfl

/-- A wish to stop reaches who holds the key now, and nobody else. -/
theorem isCancelled_cancel (t : Nat) :
    (r.cancel key).isCancelled t = (r.isCancelled t || r.holder? key == some t) := by
  unfold cancel
  cases hheld : r.holder? key with
  | none => rw [Option.none_beq_some, Bool.or_false]
  | some u =>
    simp only
    have hsame : (some u == some t) = (t == u) := by
      rw [Bool.eq_iff_iff, beq_iff_eq, beq_iff_eq, Option.some.injEq, eq_comm]
    rw [hsame]
    by_cases hu : r.isCancelled u = true
    · rw [if_pos hu]
      by_cases ht : t = u
      · rw [ht, hu, Bool.true_or]
      · rw [beq_false_of_ne ht, Bool.or_false]
    · rw [if_neg hu, Bool.or_comm]
      exact List.contains_cons

/-- Without a holder there is nobody to stop. -/
theorem cancel_of_none (h : r.holder? key = none) : r.cancel key = r := by
  rw [cancel, h]

/-- Whoever was asked to stop is not asked again. -/
theorem cancel_of_isCancelled (h : r.holder? key = some ticket) (ht : r.isCancelled ticket = true) :
    r.cancel key = r := by
  rw [cancel, h]
  simp [ht]

theorem cancel_cancel : (r.cancel key).cancel key = r.cancel key := by
  cases hheld : r.holder? key with
  | none => rw [cancel_of_none hheld, cancel_of_none hheld]
  | some ticket =>
    have hstill : (r.cancel key).holder? key = some ticket := by rw [holder?_cancel, hheld]
    refine cancel_of_isCancelled hstill ?_
    rw [isCancelled_cancel, hheld]
    simp

theorem Sound.cancel (hr : r.Sound) : (r.cancel key).Sound := by
  unfold Registry.cancel
  cases hheld : r.holder? key with
  | none => exact hr
  | some ticket =>
    simp only
    split
    · exact hr
    · refine ⟨hr.keys, hr.tickets, hr.given, fun t ht => ?_⟩
      rcases List.mem_cons.mp ht with rfl | ht
      · exact hr.lt_nextTicket hheld
      · exact hr.asked t ht

/-! ## Registries that differ in wishes to stop -/

/-- The same tickets hold the same keys; more of them may have been asked to stop. -/
structure Alike (r s : Registry) : Prop where
  holders : s.holders = r.holders
  nextTicket : s.nextTicket = r.nextTicket
  sound : r.Sound → s.Sound

namespace Alike

variable {s t : Registry}

theorem refl (r : Registry) : r.Alike r := ⟨rfl, rfl, id⟩

theorem trans (hs : r.Alike s) (ht : s.Alike t) : r.Alike t :=
  ⟨ht.holders.trans hs.holders, ht.nextTicket.trans hs.nextTicket, ht.sound ∘ hs.sound⟩

theorem holder? (hs : r.Alike s) (key : String) : s.holder? key = r.holder? key := by
  rw [Registry.holder?, hs.holders]
  rfl

theorem cancel (r : Registry) (key : String) : r.Alike (r.cancel key) := by
  refine ⟨?_, nextTicket_cancel, Sound.cancel⟩
  unfold Registry.cancel
  split
  · split <;> rfl
  · rfl

end Alike

end Decompile.Registry
