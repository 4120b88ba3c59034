import Decompile.Proofs.Exclusion.Registry
import Decompile.Proofs.Session

/-!
# Jobs hold their keys

- `Idles`: holders of keys and jobs that wait stay as they are, and no attempt is begun.
- `Holding`: jobs that hold their keys, each a key of its own.
- `Guards`: from one world to another who holds a key goes on to hold it, and jobs that are taken on
  hold theirs.
- `Moves.guards`: whatever happens while a stage runs guards the keys.
-/

namespace Decompile

variable {h : Host}

/-! ## Nothing but time passes -/

/-- Holders of keys and jobs that wait stay as they are, and no attempt is begun. -/
structure Idles (w v : World) : Prop where
  alike : w.registry.Alike v.registry
  waiting : v.waiting = w.waiting
  journal : ∃ late, v.journal = w.journal ++ late ∧
    ∀ ticket kind chunk, .attempted ticket kind chunk ∉ late

namespace Idles

variable {u v w : World}

theorem of_note {o : Occurrence} (hjournal : v.journal = w.journal ++ [o])
    (ho : ∀ ticket kind chunk, o ≠ .attempted ticket kind chunk)
    (hregistry : v.registry = w.registry) (hwaiting : v.waiting = w.waiting) : Idles w v where
  alike := hregistry ▸ .refl w.registry
  waiting := hwaiting
  journal := by
    refine ⟨[o], hjournal, fun ticket kind chunk hmem => ?_⟩
    exact ho ticket kind chunk (List.mem_singleton.mp hmem).symm

theorem of_eq (hjournal : v.journal = w.journal) (hregistry : v.registry = w.registry)
    (hwaiting : v.waiting = w.waiting) : Idles w v where
  alike := hregistry ▸ .refl w.registry
  waiting := hwaiting
  journal := ⟨[], hjournal.trans (List.append_nil _).symm, fun _ _ _ => List.not_mem_nil⟩

theorem trans (hu : Idles u v) (hv : Idles v w) : Idles u w where
  alike := hu.alike.trans hv.alike
  waiting := hv.waiting.trans hu.waiting
  journal := by
    obtain ⟨first, hfirst, hnone₁⟩ := hu.journal
    obtain ⟨second, hsecond, hnone₂⟩ := hv.journal
    refine ⟨first ++ second, by rw [hsecond, hfirst, List.append_assoc], fun t k c hmem => ?_⟩
    rcases List.mem_append.mp hmem with hmem | hmem
    · exact hnone₁ t k c hmem
    · exact hnone₂ t k c hmem

end Idles

instance : Std.Refl Idles := ⟨fun _ => .of_eq rfl rfl rfl⟩

instance : IsTrans World Idles := ⟨fun _ _ _ => Idles.trans⟩

theorem Moves.idles {w v : World} (hm : Moves h (fun _ => False) w v) : Idles w v := by
  refine hm.keep fun w v hm => ?_
  cases hm with
  | tick => exact .of_eq rfl rfl rfl
  | change c => exact .of_note rfl nofun rfl rfl
  | call i admitted => exact absurd admitted id
  | attempt t kind chunk admitted => exact absurd admitted id
  | tell k m admitted => exact absurd admitted id
  | answer s admitted => exact absurd (admitted true none) id
  | read m percent watched => exact .of_note rfl nofun rfl rfl
  | aside o free =>
    refine .of_note rfl (fun t k c heq => ?_) rfl rfl
    rw [heq] at free
    cases free
  | cancel k said =>
    refine ⟨.cancel _ _, rfl, _, rfl, ?_⟩
    intro t kind chunk hmem
    rcases List.mem_cons.mp hmem with heq | hmem
    · cases heq
    · obtain ⟨r, -, hr⟩ := List.mem_map.mp hmem
      cases hr

/-! ## Keys that are held -/

/-- The jobs hold their keys, each a key of its own. -/
structure Holding (r : Registry) (as : List Accepted) : Prop where
  sound : r.Sound
  held : ∀ a ∈ as, r.holder? a.job.targetKey = some a.ticket
  keys : (as.map fun a => a.job.targetKey).Nodup

/-- Who holds a key goes on to hold it, and jobs that are taken on hold theirs, which nobody held
before. -/
structure Guards (w v : World) : Prop where
  sound : w.registry.Sound → v.registry.Sound
  held : ∀ {key : String} {t : Nat}, w.registry.holder? key = some t →
    v.registry.holder? key = some t
  waiting : ∃ more, v.waiting = w.waiting ++ more ∧
    (more.map fun a => a.job.targetKey).Nodup ∧ ∀ a ∈ more,
      w.registry.holder? a.job.targetKey = none ∧ v.registry.holder? a.job.targetKey = some a.ticket

namespace Guards

variable {u v w : World}

/-- What nobody holds in the end, nobody held before. -/
theorem free (hw : Guards w v) {key : String} (hv : v.registry.holder? key = none) :
    w.registry.holder? key = none := by
  cases hheld : w.registry.holder? key with
  | none => rfl
  | some t =>
    rw [hw.held hheld] at hv
    cases hv

/-- The holders stay, and nobody is taken on. -/
theorem of_holders (hsound : w.registry.Sound → v.registry.Sound)
    (hheld : ∀ key, v.registry.holder? key = w.registry.holder? key)
    (hwaiting : v.waiting = w.waiting) : Guards w v where
  sound := hsound
  held hk := (hheld _).trans hk
  waiting := ⟨[], hwaiting.trans (List.append_nil _).symm, .nil, fun _ ha => absurd ha List.not_mem_nil⟩

theorem of_eq (hregistry : v.registry = w.registry) (hwaiting : v.waiting = w.waiting) :
    Guards w v :=
  .of_holders (fun hw => hregistry ▸ hw) (fun _ => by rw [hregistry]) hwaiting

theorem trans (hu : Guards u v) (hv : Guards v w) : Guards u w := by
  obtain ⟨first, hfirst, hkeys₁, hheld₁⟩ := hu.waiting
  obtain ⟨second, hsecond, hkeys₂, hheld₂⟩ := hv.waiting
  refine ⟨hv.sound ∘ hu.sound, fun hk => hv.held (hu.held hk), first ++ second, ?_, ?_, ?_⟩
  · rw [hsecond, hfirst, List.append_assoc]
  · rw [List.map_append]
    refine List.nodup_append.mpr ⟨hkeys₁, hkeys₂, ?_⟩
    -- the first hold their keys when those of the second are still free
    intro k hk k' hk' heq
    obtain ⟨a, ha, rfl⟩ := List.mem_map.mp hk
    obtain ⟨b, hb, rfl⟩ := List.mem_map.mp hk'
    have hfree := (hheld₂ b hb).1
    rw [← heq, (hheld₁ a ha).2] at hfree
    cases hfree
  · intro a ha
    rcases List.mem_append.mp ha with ha | ha
    · exact ⟨(hheld₁ a ha).1, hv.held (hheld₁ a ha).2⟩
    · exact ⟨hu.free (hheld₂ a ha).1, (hheld₂ a ha).2⟩

end Guards

instance : Std.Refl Guards := ⟨fun _ => .of_eq rfl rfl⟩

instance : IsTrans World Guards := ⟨fun _ _ _ => Guards.trans⟩

/-! ## What guards the keys -/

theorem Guards.cancel {w v : World} {key : String}
    (hregistry : v.registry = w.registry.cancel key) (hwaiting : v.waiting = w.waiting) :
    Guards w v := by
  refine .of_holders (fun hw => ?_) (fun k => ?_) hwaiting
  · rw [hregistry]
    exact hw.cancel
  · rw [hregistry, Registry.holder?_cancel]

/-- A key is claimed. -/
theorem Guards.claim {w : World} {key : String} {ticket : Nat} {registry : Registry}
    (claimed : w.registry.claim key = some (ticket, registry)) :
    Guards w { w with registry, journal := w.journal ++ [.claimed key ticket] } where
  sound hw := hw.claim claimed
  held {k t} hk := by
    have hne : k ≠ key := by
      rintro rfl
      rw [(Registry.claim_spec claimed).1] at hk
      cases hk
    rw [Registry.holder?_of_claim claimed, if_neg hne, hk]
  waiting := ⟨[], (List.append_nil _).symm, .nil, fun _ ha => absurd ha List.not_mem_nil⟩

/-- A request guards the keys of all others, if storing its record does. -/
theorem Engine.Submitted.guards {s : Submission} {w v : World} {r : Except SubmitError Unit}
    (hs : Submitted h s w r v) (hfiles : ∀ u v, Moves h (fun _ => False) u v → Guards u v) :
    Guards w v := by
  have hsave : ∀ job : Job, Try.Keeps Guards ((JobRecord.new job (h.time w.clock)).save h
      (.of h.settings.storage job.targetKey)) := fun _ u => hfiles _ _ (JobRecord.save_moves _ _ u)
  cases hs with
  | refused plan => exact Std.Refl.refl w
  | active plan held => exact Std.Refl.refl w
  | @unsaved job plan ticket registry claimed e v save =>
    have hg := (Guards.claim claimed).trans ((hsave job).of_run save)
    have hfree := (Registry.claim_spec claimed).1
    obtain ⟨more, hmore, hkeys, hheld⟩ := ((hsave job).of_run save).waiting
    -- only the key that was claimed here is given back
    have hkept : ∀ k, k ≠ job.targetKey →
        (v.registry.release job.targetKey ticket).holder? k = v.registry.holder? k := by
      intro k hk
      rw [Registry.holder?_release, if_neg fun hand => hk hand.1]
    have hne : ∀ {k t}, w.registry.holder? k = some t → k ≠ job.targetKey := by
      rintro k t hk rfl
      rw [hfree] at hk
      cases hk
    refine ⟨fun hw => (hg.sound hw).release, fun {k t} hk => ?_, more, hmore, hkeys, fun a ha => ?_⟩
    · exact (hkept k (hne hk)).trans (hg.held hk)
    · obtain ⟨hbefore, hafter⟩ := hheld a ha
      replace hbefore : registry.holder? a.job.targetKey = none := hbefore
      rw [Registry.holder?_of_claim claimed] at hbefore
      split at hbefore
      · cases hbefore
      · next hother => exact ⟨hbefore, (hkept _ hother).trans hafter⟩
  | @accepted job plan ticket registry claimed v save said =>
    have hg := (Guards.claim claimed).trans ((hsave job).of_run save)
    have hfree := (Registry.claim_spec claimed).1
    obtain ⟨more, hmore, hkeys, hheld⟩ := ((hsave job).of_run save).waiting
    have hclaimed : registry.holder? job.targetKey = some ticket := by
      rw [Registry.holder?_of_claim claimed, if_pos rfl]
    have hafter := ((hsave job).of_run save).held hclaimed
    have hothers : ∀ a ∈ more, a.job.targetKey ≠ job.targetKey ∧
        w.registry.holder? a.job.targetKey = none := by
      intro a ha
      have hbefore : registry.holder? a.job.targetKey = none := (hheld a ha).1
      rw [Registry.holder?_of_claim claimed] at hbefore
      split at hbefore
      · cases hbefore
      · next hother => exact ⟨hother, hbefore⟩
    refine ⟨hg.sound, hg.held, more ++ [⟨job, .new job (h.time w.clock), ticket⟩], ?_, ?_, ?_⟩
    · show v.waiting ++ _ = _
      rw [hmore, List.append_assoc]
    · rw [List.map_append]
      refine List.nodup_append.mpr ⟨hkeys, List.nodup_singleton _, fun k hk k' hk' heq => ?_⟩
      obtain ⟨a, ha, rfl⟩ := List.mem_map.mp hk
      obtain rfl := List.mem_singleton.mp hk'
      exact (hothers a ha).1 heq
    · intro a ha
      rcases List.mem_append.mp ha with ha | ha
      · exact ⟨(hothers a ha).2, (hheld a ha).2⟩
      · obtain rfl := List.mem_singleton.mp ha
        exact ⟨hfree, hafter⟩

theorem Moves.guards {N : Occurrence → Prop} {w v : World} (hm : Moves h N w v) : Guards w v := by
  refine hm.keep_answers (fun _ w v hm hanswer => ?_)
    (fun hfiles s w => (Engine.submit_submitted s w).guards hfiles) fun _ _ _ => .of_eq rfl rfl
  cases hm with
  | cancel key said => exact .cancel rfl rfl
  | answer s admitted => exact hanswer s admitted
  | _ => exact .of_eq rfl rfl

end Decompile
