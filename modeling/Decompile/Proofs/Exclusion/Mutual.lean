import Decompile.Proofs.Exclusion.Fleet
import Decompile.Proofs.Protocol.Bus

/-!
# One job for each key

Whatever jobs run at once and however their steps follow one another, a key belongs to one of them at
a time.

- `Between`: a job is between its claim and its first release.
- `Ledger`: the registry says of every key who that is.
- `Stand.Lawful`: a job that has given its key back neither writes its record nor begins a stage.
- `Fleet.Step.kept`, `Fleet.Run.kept`: every step keeps both.
- `Fleet.run_exclusion`: the law of mutual exclusion.
-/

namespace Decompile

/-- The job of the ticket has claimed the key and has not given it back yet. -/
def Between (es : List Event) (ticket : Nat) (key : String) : Prop :=
  .claimed ticket key ∈ es ∧ .released ticket key ∉ es

/-- The ticket of a claim. -/
def Event.claimant? : Event → Option Nat
  | .claimed ticket _ => some ticket
  | _ => none

section

variable {es : List Event} {e : Event} {t : Nat} {k : String}

theorem Between.snoc (hb : Between es t k) (he : e ≠ .released t k) : Between (es ++ [e]) t k := by
  refine ⟨List.mem_append_left _ hb.1, fun hmem => ?_⟩
  rcases List.mem_append.mp hmem with hmem | hmem
  · exact hb.2 hmem
  · exact he (List.mem_singleton.mp hmem).symm

theorem between_snoc_iff : Between (es ++ [e]) t k ↔
    (.claimed t k ∈ es ∨ e = .claimed t k) ∧ .released t k ∉ es ∧ e ≠ .released t k := by
  unfold Between
  simp only [List.mem_append, List.mem_singleton, not_or, ne_eq, eq_comm (a := e)]

theorem between_snoc_of_aside (hclaim : e ≠ .claimed t k) (hrelease : e ≠ .released t k) :
    Between (es ++ [e]) t k ↔ Between es t k := by
  rw [between_snoc_iff, Between]
  simp [hclaim, hrelease]

end

/-! ## The registry and what has happened -/

/-- The registry says of every key who is between claim and release. Tickets ascend, so of the jobs
that ever claimed a key the one that holds it came last. -/
structure Ledger (es : List Event) (r : Registry) : Prop where
  sound : r.Sound
  holder : ∀ t k, r.holder? k = some t ↔ Between es t k
  known : ∀ t k, .claimed t k ∈ es → t < r.nextTicket
  given : ∀ t k, .released t k ∈ es → t < r.nextTicket
  ascending : (es.filterMap Event.claimant?).Pairwise (· < ·)
  latest : ∀ t t' k, .claimed t' k ∈ es → Between es t k → t' ≤ t

namespace Ledger

variable {es : List Event} {r s : Registry}

theorem nil : Ledger [] .empty where
  sound := Registry.sound_empty
  holder _ _ := ⟨nofun, fun hb => absurd hb.1 List.not_mem_nil⟩
  known _ _ h := absurd h List.not_mem_nil
  given _ _ h := absurd h List.not_mem_nil
  ascending := .nil
  latest _ _ _ h := absurd h List.not_mem_nil

/-- An event that is neither a claim nor a release. -/
theorem aside {e : Event} (hr : Ledger es r) (hs : r.Alike s) (hclaim : ∀ t k, e ≠ .claimed t k)
    (hrelease : ∀ t k, e ≠ .released t k) : Ledger (es ++ [e]) s := by
  have hbetween : ∀ t k, Between (es ++ [e]) t k ↔ Between es t k :=
    fun t k => between_snoc_of_aside (hclaim t k) (hrelease t k)
  have hclaimed : ∀ t k, .claimed t k ∈ es ++ [e] → .claimed t k ∈ es := fun t k hmem =>
    (List.mem_append.mp hmem).resolve_right fun h => hclaim t k (List.mem_singleton.mp h).symm
  constructor
  case sound => exact hs.sound hr.sound
  case holder =>
    intro t k
    rw [hs.holder?, hr.holder, hbetween]
  case known =>
    intro t k hmem
    rw [hs.nextTicket]
    exact hr.known t k (hclaimed t k hmem)
  case given =>
    intro t k hmem
    rw [hs.nextTicket]
    rcases List.mem_append.mp hmem with hmem | hmem
    · exact hr.given t k hmem
    · exact absurd (List.mem_singleton.mp hmem).symm (hrelease t k)
  case ascending =>
    have hnone : e.claimant? = none := by
      cases e with
      | claimed t k => exact absurd rfl (hclaim t k)
      | _ => rfl
    rw [List.filterMap_append]
    simpa [hnone] using hr.ascending
  case latest =>
    intro t t' k hmem hb
    exact hr.latest t t' k (hclaimed t' k hmem) ((hbetween t k).mp hb)

/-- A claim. -/
theorem claim (hr : Ledger es r) {t : Nat} {k : String} (h : r.claim k = some (t, s)) :
    Ledger (es ++ [.claimed t k]) s := by
  obtain ⟨hfree, rfl, hs⟩ := Registry.claim_spec h
  have hnext : s.nextTicket = r.nextTicket + 1 := by rw [hs]
  have hother : ∀ t' k', Event.claimed t' k' ∈ es ++ [.claimed r.nextTicket k] →
      .claimed t' k' ∈ es ∨ t' = r.nextTicket ∧ k' = k := by
    intro t' k' hmem
    rcases List.mem_append.mp hmem with hmem | hmem
    · exact .inl hmem
    · obtain ⟨rfl, rfl⟩ := Event.claimed.inj (List.mem_singleton.mp hmem)
      exact .inr ⟨rfl, rfl⟩
  constructor
  case sound => exact hr.sound.claim h
  case holder =>
    intro t' k'
    rw [Registry.holder?_of_claim h, between_snoc_iff]
    by_cases hk : k' = k
    · subst hk
      rw [if_pos rfl, Option.some.injEq]
      constructor
      · rintro rfl
        exact ⟨.inr rfl, fun hmem => Nat.lt_irrefl _ (hr.given _ _ hmem), nofun⟩
      · rintro ⟨hclaimed | heq, hreleased, -⟩
        · have hheld := (hr.holder t' k').mpr ⟨hclaimed, hreleased⟩
          rw [hfree] at hheld
          cases hheld
        · exact (Event.claimed.inj heq).1
    · rw [if_neg hk, hr.holder, Between]
      refine ⟨fun hb => ⟨.inl hb.1, hb.2, nofun⟩, fun hb => ⟨hb.1.resolve_right fun heq => ?_, hb.2.1⟩⟩
      exact hk (Event.claimed.inj heq).2.symm
  case known =>
    intro t' k' hmem
    rw [hnext]
    rcases hother t' k' hmem with hmem | ⟨rfl, -⟩
    · exact Nat.lt_succ_of_lt (hr.known t' k' hmem)
    · exact Nat.lt_succ_self _
  case given =>
    intro t' k' hmem
    rw [hnext]
    rcases List.mem_append.mp hmem with hmem | hmem
    · exact Nat.lt_succ_of_lt (hr.given t' k' hmem)
    · cases List.mem_singleton.mp hmem
  case ascending =>
    rw [List.filterMap_append]
    refine List.pairwise_append.mpr ⟨hr.ascending, List.pairwise_singleton _ _, ?_⟩
    intro a ha b hb
    obtain rfl := List.mem_singleton.mp hb
    obtain ⟨e, he, hclaimant⟩ := List.mem_filterMap.mp ha
    cases e with
    | claimed t' k' =>
      obtain rfl : t' = a := Option.some.inj hclaimant
      exact hr.known t' k' he
    | _ => cases hclaimant
  case latest =>
    intro t' u k' hmem hb
    rcases hother u k' hmem with hmem | ⟨rfl, rfl⟩
    · rcases hother t' k' hb.1 with hclaimed | ⟨rfl, -⟩
      · refine hr.latest t' u k' hmem ⟨hclaimed, fun hreleased => ?_⟩
        exact hb.2 (List.mem_append_left _ hreleased)
      · exact Nat.le_of_lt (hr.known u k' hmem)
    · rcases hother t' k' hb.1 with hclaimed | ⟨rfl, -⟩
      · have hheld := (hr.holder t' k').mpr
          ⟨hclaimed, fun hreleased => hb.2 (List.mem_append_left _ hreleased)⟩
        rw [hfree] at hheld
        cases hheld
      · exact Nat.le_refl _

/-- A release, be it the first or not. -/
theorem release (hr : Ledger es r) {t : Nat} (ht : t < r.nextTicket) (k : String) :
    Ledger (es ++ [.released t k]) (r.release k t) := by
  have hclaimed : ∀ t' k', Event.claimed t' k' ∈ es ++ [.released t k] → .claimed t' k' ∈ es :=
    fun t' k' hmem => (List.mem_append.mp hmem).resolve_right fun h => by
      cases List.mem_singleton.mp h
  have hbetween : ∀ {t' k'}, Between (es ++ [.released t k]) t' k' → Between es t' k' :=
    fun hb => ⟨hclaimed _ _ hb.1, fun hmem => hb.2 (List.mem_append_left _ hmem)⟩
  constructor
  case sound => exact hr.sound.release
  case holder =>
    intro t' k'
    rw [Registry.holder?_release]
    split
    · next hmine =>
      obtain ⟨rfl, hheld⟩ := hmine
      refine ⟨nofun, fun hb => ?_⟩
      have hsame := (hr.holder t' k').mpr (hbetween hb)
      rw [hheld] at hsame
      obtain rfl := Option.some.inj hsame
      exact absurd (List.mem_append_right _ (List.mem_singleton_self _)) hb.2
    · next hmine =>
      rw [hr.holder]
      refine ⟨fun hb => hb.snoc fun heq => hmine ?_, hbetween⟩
      obtain ⟨rfl, rfl⟩ := Event.released.inj heq
      exact ⟨rfl, (hr.holder t k).mpr hb⟩
  case known =>
    intro t' k' hmem
    rw [Registry.nextTicket_release]
    exact hr.known t' k' (hclaimed t' k' hmem)
  case given =>
    intro t' k' hmem
    rw [Registry.nextTicket_release]
    rcases List.mem_append.mp hmem with hmem | hmem
    · exact hr.given t' k' hmem
    · obtain ⟨rfl, -⟩ := Event.released.inj (List.mem_singleton.mp hmem)
      exact ht
  case ascending =>
    rw [List.filterMap_append]
    show (es.filterMap Event.claimant? ++ []).Pairwise (· < ·)
    rw [List.append_nil]
    exact hr.ascending
  case latest =>
    intro t' u k' hmem hb
    exact hr.latest t' u k' (hclaimed u k' hmem) (hbetween hb)

end Ledger

/-! ## Jobs that hold their keys and jobs that do not -/

/-- The action tells or logs something. -/
def Action.speaks : Action → Prop
  | .tell _ | .log _ => True
  | _ => False

/-- How a task that runs stands to its key. -/
inductive Task.Orderly (es : List Event) (t : Task) : List Action → Prop where
  /-- It is not over, and holds its key. -/
  | open {todo : List Action} (outcome : t.state.outcome = none) (quiet : ∀ a ∈ todo, a ≠ .release)
    (holds : Between es t.ticket t.job.targetKey) : t.Orderly es todo
  /-- It is over, and gives its key back after what it writes down and tells first. -/
  | closing {before after : List Action} (outcome : t.state.outcome ≠ none)
    (first : ∀ a ∈ before, a ≠ .release ∧ ∀ s, a ≠ .run s) (last : ∀ a ∈ after, a.speaks)
    (holds : Between es t.ticket t.job.targetKey) : t.Orderly es (before ++ .release :: after)
  /-- It is over, has given its key back, and has only to tell so. -/
  | closed {todo : List Action} (outcome : t.state.outcome ≠ none) (last : ∀ a ∈ todo, a.speaks) :
    t.Orderly es todo

/-- The task is that of the ticket, and is in a phase. -/
structure Task.Of (ticket : Nat) (t : Task) : Prop where
  ticket : t.ticket = ticket
  positional : Positional t.job.chain
  phase : ∃ p : Phase t.job.chain, t.state = p.job t.job.targetKey

/-- A job that has given its key back neither writes its record nor begins a stage. -/
def Stand.Lawful (es : List Event) (ticket : Nat) : Stand → Prop
  | .claimed job _ | .unsaved job | .stored job _ =>
    Positional job.chain ∧ Between es ticket job.targetKey
  | .queued a => a.ticket = ticket ∧ Positional a.job.chain ∧ Between es ticket a.job.targetKey
  | .working t todo => t.Of ticket ∧ t.Orderly es todo
  | .staging t _ todo => t.Of ticket ∧ t.state.outcome = none ∧ (∀ a ∈ todo, a ≠ .release) ∧
      Between es ticket t.job.targetKey
  | .gone => True

section

variable {es : List Event} {e : Event} {ticket : Nat} {t : Task} {todo : List Action}

theorem Task.Orderly.snoc (ht : t.Orderly es todo) (he : ∀ k, e ≠ .released t.ticket k) :
    t.Orderly (es ++ [e]) todo := by
  cases ht with
  | «open» outcome quiet holds => exact .open outcome quiet (holds.snoc (he _))
  | closing outcome first last holds => exact .closing outcome first last (holds.snoc (he _))
  | closed outcome last => exact .closed outcome last

/-- What others do leaves a job as it stands. -/
theorem Stand.Lawful.snoc {s : Stand} (hs : s.Lawful es ticket)
    (he : ∀ k, e ≠ .released ticket k) : s.Lawful (es ++ [e]) ticket := by
  cases s with
  | claimed job record => exact ⟨hs.1, hs.2.snoc (he _)⟩
  | unsaved job => exact ⟨hs.1, hs.2.snoc (he _)⟩
  | stored job record => exact ⟨hs.1, hs.2.snoc (he _)⟩
  | queued a => exact ⟨hs.1, hs.2.1, hs.2.2.snoc (he _)⟩
  | working t todo => exact ⟨hs.1, hs.2.snoc (by rw [hs.1.ticket]; exact he)⟩
  | staging t s todo => exact ⟨hs.1, hs.2.1, hs.2.2.1, hs.2.2.2.snoc (he _)⟩
  | gone => trivial

end

namespace Fleet

variable {h : Host} {es : List Event} {e : Event} {f g : Fleet}

/-- The registry and the jobs agree with what has happened. -/
structure Kept (es : List Event) (f : Fleet) : Prop where
  ledger : Ledger es f.world.registry
  stands : ∀ t s, f.stand t = some s → t < f.world.registry.nextTicket ∧ s.Lawful es t

theorem Kept.new (disk : Disk) (cwd : Place) : Kept [] (.new disk cwd) where
  ledger := .nil
  stands _ _ hs := by cases hs

/-- A job makes a step, and the others stay as they stand. -/
theorem Kept.move (hf : Kept es f) {ticket : Nat} {s : Stand} {w : World}
    (hledger : Ledger (es ++ [e]) w.registry)
    (hnext : f.world.registry.nextTicket ≤ w.registry.nextTicket)
    (hticket : ticket < w.registry.nextTicket) (hs : s.Lawful (es ++ [e]) ticket)
    (he : ∀ t k, t ≠ ticket → e ≠ .released t k) : Kept (es ++ [e]) (f.move ticket s w) := by
  refine ⟨hledger, fun t s' hs' => ?_⟩
  by_cases ht : t = ticket
  · subst ht
    rw [move_stand_self] at hs'
    obtain rfl := Option.some.inj hs'
    exact ⟨hticket, hs⟩
  · rw [move_stand_of_ne f ht] at hs'
    obtain ⟨hknown, hlawful⟩ := hf.stands t s' hs'
    exact ⟨Nat.lt_of_lt_of_le hknown hnext, hlawful.snoc fun k => he t k ht⟩

/-- The same of a step that neither claims nor releases a key. -/
theorem Kept.move_aside (hf : Kept es f) {ticket : Nat} {s s' : Stand} {w : World}
    (hs' : f.stand ticket = some s') (halike : f.world.registry.Alike w.registry)
    (hclaim : ∀ t k, e ≠ .claimed t k) (hrelease : ∀ t k, e ≠ .released t k)
    (hs : s'.Lawful es ticket → s.Lawful es ticket) :
    Kept (es ++ [e]) (f.move ticket s w) := by
  obtain ⟨hknown, hlawful⟩ := hf.stands ticket s' hs'
  refine hf.move (hf.ledger.aside halike hclaim hrelease) (Nat.le_of_eq halike.nextTicket.symm) ?_
    ((hs hlawful).snoc (hrelease ticket)) fun t k _ => hrelease t k
  rw [halike.nextTicket]
  exact hknown

/-- A job that gives its key back for good. -/
theorem Kept.move_gone (hf : Kept es f) {ticket : Nat} {s : Stand}
    (hs : f.stand ticket = some s) (k : String) :
    Kept (es ++ [.released ticket k])
      (f.move ticket .gone ((Engine.release k ticket).run f.world).2) := by
  obtain ⟨hknown, -⟩ := hf.stands ticket s hs
  have hnext : ((Engine.release k ticket).run f.world).2.registry.nextTicket =
      f.world.registry.nextTicket := Registry.nextTicket_release
  refine hf.move (hf.ledger.release hknown k) (Nat.le_of_eq hnext.symm) ?_ trivial ?_
  · rw [hnext]
    exact hknown
  · intro t k' ht heq
    exact ht (Event.released.inj heq).1.symm

/-- What storing a record does to the registry. -/
theorem save_alike {record : JobRecord} {l : Layout} {r : Except PersistError Unit} {w v : World}
    (hrun : (record.save h l).settle.run w = (r, v)) : w.registry.Alike v.registry := by
  have hsave : Try.Keeps Idles (record.save h l) := fun u => (JobRecord.save_moves l record u).idles
  exact (hsave.of_run hrun).alike

/-- The same when no job moves. -/
theorem Kept.stay (hf : Kept es f) {w : World} (halike : f.world.registry.Alike w.registry)
    (hclaim : ∀ t k, e ≠ .claimed t k) (hrelease : ∀ t k, e ≠ .released t k) :
    Kept (es ++ [e]) ⟨w, f.stand⟩ := by
  refine ⟨hf.ledger.aside halike hclaim hrelease, fun t s hs => ?_⟩
  obtain ⟨hknown, hlawful⟩ := hf.stands t s hs
  refine ⟨?_, hlawful.snoc (hrelease t)⟩
  show t < w.registry.nextTicket
  rw [halike.nextTicket]
  exact hknown

/-- A key that was claimed was free. -/
theorem claim_granted {key : String} {w v : World} {ticket : Nat}
    (hrun : (Engine.claim key).settle.run w = (.ok ticket, v)) :
    ∃ registry, w.registry.claim key = some (ticket, registry) ∧ v.registry = registry := by
  cases hc : w.registry.claim key with
  | none =>
    rw [Engine.run_claim_of_none hc] at hrun
    cases (Prod.mk.inj hrun).1
  | some granted =>
    obtain ⟨t, registry⟩ := granted
    rw [Engine.run_claim hc] at hrun
    obtain ⟨hok, rfl⟩ := Prod.mk.inj hrun
    obtain rfl := Except.ok.inj hok
    exact ⟨registry, rfl, rfl⟩

/-! ### Tasks -/

section

variable {ticket : Nat} {t : Task} {todo : List Action}

/-- A task that takes a message goes on in order. -/
theorem taken_lawful (ht : t.Of ticket) (horderly : t.Orderly es []) (m : Message)
    (rest : List Message) (stop : Bool) :
    (t.taken stop m rest).1.Of ticket ∧ (t.taken stop m rest).1.Orderly es
      ((t.taken stop m rest).2.flatMap (Effect.actions (t.taken stop m rest).1.job)) := by
  obtain ⟨hticket, hc, p, hp⟩ := ht
  obtain ⟨hjob, hsame, n, hhandle⟩ := t.taken_eq stop m rest
  generalize t.taken stop m rest = u at hjob hsame hhandle ⊢
  obtain ⟨q, effects, hphase, hstep⟩ := Phase.handle_step hc t.job.targetKey p n
  rw [← hp, hhandle] at hphase
  obtain ⟨hstate, heffects⟩ := Prod.mk.inj hphase
  have hof : u.1.Of ticket := ⟨hsame.trans hticket, hjob ▸ hc, hjob ▸ ⟨q, hstate⟩⟩
  refine ⟨hof, ?_⟩
  rw [heffects]
  generalize horder : ([] : List Action) = nothing at horderly
  cases horderly with
  | closing outcome first last holds => simp at horder
  | closed outcome last =>
    rw [JobState.handle_of_outcome outcome] at hhandle
    obtain ⟨hsamestate, hnone⟩ := Prod.mk.inj hhandle
    rw [← heffects, ← hnone]
    exact .closed (by rw [← hsamestate]; exact outcome) fun _ ha => absurd ha List.not_mem_nil
  | «open» outcome quiet holds =>
    have hholds : Between es u.1.ticket u.1.job.targetKey := by
      rw [hsame, hjob]
      exact holds
    have hopen : p.outcome = none := by
      rw [hp] at outcome
      exact outcome
    rcases hstep.effects hopen with ⟨hq, hfinish⟩ | ⟨changes, o, oom, detail, hq, rfl⟩
    · refine .open (by rw [hstate]; exact hq) ?_ hholds
      exact Task.release_not_mem_of_changes u.1.job hfinish
    · -- the key is given back after the record is written and before the end is told
      rw [List.flatMap_append, List.flatMap_singleton, Task.finish_actions, List.append_cons]
      refine .closing (by rw [hstate]; show q.outcome ≠ none; rw [hq]; nofun) ?_ ?_ hholds
      · intro a ha
        rcases List.mem_append.mp ha with ha | ha
        · obtain ⟨x, hx, ha⟩ := List.mem_flatMap.mp ha
          obtain ⟨y, -, rfl⟩ := List.mem_map.mp hx
          rcases List.mem_cons.mp ha with rfl | ha
          · exact ⟨nofun, nofun⟩
          · obtain rfl := List.mem_singleton.mp ha
            exact ⟨nofun, nofun⟩
        · obtain rfl := List.mem_singleton.mp ha
          exact ⟨nofun, nofun⟩
      · intro a ha
        rcases List.mem_cons.mp ha with rfl | ha
        · trivial
        · obtain ⟨m, -, rfl⟩ := List.mem_map.mp ha
          trivial

/-- Neither the record of a task nor its messages matter. -/
theorem orderly_of_perform (horderly : t.Orderly es todo) (r : JobRecord) (queue : List Message) :
    { t with record := r, queue := queue }.Orderly es todo := by
  cases horderly with
  | «open» outcome quiet holds => exact .open outcome quiet holds
  | closing outcome first last holds => exact .closing outcome first last holds
  | closed outcome last => exact .closed outcome last

/-- An action that is not the release leaves a task in order. -/
theorem orderly_tail {a : Action} (horderly : t.Orderly es (a :: todo)) (ha : a ≠ .release) :
    t.Orderly es todo := by
  generalize horder : a :: todo = all at horderly
  cases horderly with
  | «open» outcome quiet holds =>
    subst horder
    exact .open outcome (fun b hb => quiet b (List.mem_cons_of_mem _ hb)) holds
  | @closing before after outcome first last holds =>
    cases before with
    | nil => exact absurd (List.cons.inj horder).1 ha
    | cons b before =>
      obtain ⟨-, rfl⟩ := List.cons.inj horder
      exact .closing outcome (fun c hc => first c (List.mem_cons_of_mem _ hc)) last holds
  | closed outcome last =>
    subst horder
    exact .closed outcome fun b hb => last b (List.mem_cons_of_mem _ hb)

/-- After the release there is only to tell of it. -/
theorem orderly_released (horderly : t.Orderly es (.release :: todo)) :
    t.state.outcome ≠ none ∧ ∀ a ∈ todo, a.speaks := by
  generalize horder : Action.release :: todo = all at horderly
  cases horderly with
  | «open» outcome quiet holds =>
    subst horder
    exact absurd rfl (quiet _ List.mem_cons_self)
  | @closing before after outcome first last holds =>
    cases before with
    | nil =>
      obtain ⟨-, rfl⟩ := List.cons.inj horder
      exact ⟨outcome, last⟩
    | cons b before =>
      obtain ⟨rfl, -⟩ := List.cons.inj horder
      exact absurd rfl (first _ List.mem_cons_self).1
  | closed outcome last =>
    subst horder
    exact absurd (last _ List.mem_cons_self) id

/-- A task that begins a stage is not over. -/
theorem orderly_run {s : Stage} (horderly : t.Orderly es (.run s :: todo)) :
    t.state.outcome = none ∧ (∀ a ∈ todo, a ≠ .release) ∧
      Between es t.ticket t.job.targetKey := by
  generalize horder : Action.run s :: todo = all at horderly
  cases horderly with
  | «open» outcome quiet holds =>
    subst horder
    exact ⟨outcome, fun a ha => quiet a (List.mem_cons_of_mem _ ha), holds⟩
  | @closing before after outcome first last holds =>
    cases before with
    | nil => cases (List.cons.inj horder).1
    | cons b before =>
      obtain ⟨rfl, -⟩ := List.cons.inj horder
      exact absurd rfl ((first _ List.mem_cons_self).2 s)
  | closed outcome last =>
    subst horder
    exact absurd (last _ List.mem_cons_self) id

/-- A task that is to write its record holds its key. -/
theorem orderly_record {edit : RecordEdit} (horderly : t.Orderly es (.record edit :: todo)) :
    Between es t.ticket t.job.targetKey := by
  generalize horder : Action.record edit :: todo = all at horderly
  cases horderly with
  | «open» outcome quiet holds => exact holds
  | closing outcome first last holds => exact holds
  | closed outcome last =>
    subst horder
    exact absurd (last _ List.mem_cons_self) id

end

/-- Writing a record leaves the holders of keys alone. -/
theorem record_idles (t : Task) (edit : RecordEdit) : Act.Keeps Idles (t.perform h (.record edit)) := by
  unfold Task.perform
  refine World.now_reads.keeps.bind fun now => ?_
  have hsave : Act.Keeps Idles (Task.saveRecord h { t with record := edit.apply t.record now }) :=
    fun u => (Task.saveRecord_moves _ u).idles
  exact hsave.bind fun _ => .pure _

/-- A short action other than the release leaves the holders of keys alone. -/
theorem perform_alike {t : Task} {a : Action} (short : ∀ s, a ≠ .run s) (ha : a ≠ .release)
    (w : World) : w.registry.Alike ((t.perform h a).run w).2.registry := by
  cases a with
  | run s => exact absurd rfl (short s)
  | release => exact absurd rfl ha
  | tell m => exact .refl _
  | log r => exact .refl _
  | record edit => exact (record_idles t edit w).alike

/-- An action of a task. -/
theorem Kept.act (hf : Kept es f) {ticket : Nat} {t u : Task} {a : Action} {todo : List Action}
    (stands : f.stand ticket = some (.working t (a :: todo))) (short : ∀ s, a ≠ .run s) {w : World}
    (run : (t.perform h a).run f.world = (u, w)) :
    Kept (es ++ [eventOf t a]) (f.move ticket (.working u todo) w) := by
  obtain ⟨r, queue, hfst⟩ := t.perform_fst (h := h) a f.world
  rw [run] at hfst
  obtain rfl : u = { t with record := r, queue := queue } := hfst
  by_cases ha : a = .release
  · subst ha
    obtain ⟨hknown, ht, horderly⟩ := hf.stands ticket _ stands
    obtain ⟨hover, hspeaks⟩ := orderly_released horderly
    have hw : w.registry = f.world.registry.release t.job.targetKey ticket := by
      have hsnd := congrArg (fun x => x.2.registry) run
      rw [← ht.ticket]
      exact hsnd.symm
    have hevent : eventOf t .release = .released ticket t.job.targetKey := by
      rw [← ht.ticket]
      rfl
    rw [hevent]
    have hnext : w.registry.nextTicket = f.world.registry.nextTicket := by
      rw [hw, Registry.nextTicket_release]
    refine hf.move ?_ (Nat.le_of_eq hnext.symm) (by rw [hnext]; exact hknown) ?_ ?_
    · rw [hw]
      exact hf.ledger.release hknown _
    · exact ⟨⟨ht.ticket, ht.positional, ht.phase⟩, .closed hover hspeaks⟩
    · exact fun t' k ht' heq => ht' (Event.released.inj heq).1.symm
  · have halike := perform_alike (h := h) (t := t) short ha f.world
    rw [run] at halike
    have hclaim : ∀ t' k, eventOf t a ≠ .claimed t' k := by
      cases a <;> exact nofun
    have hrelease : ∀ t' k, eventOf t a ≠ .released t' k := by
      cases a with
      | release => exact absurd rfl ha
      | _ => exact nofun
    refine hf.move_aside stands halike hclaim hrelease fun hlawful => ?_
    obtain ⟨ht, horderly⟩ := hlawful
    exact ⟨⟨ht.ticket, ht.positional, ht.phase⟩,
      orderly_of_perform (orderly_tail horderly ha) r queue⟩

/-- **One step.** The registry and the jobs go on to agree with what has happened. -/
theorem Step.kept (hs : Step h f e g) (hf : Kept es f) : Kept (es ++ [e]) g := by
  cases hs with
  | @claim s job plan ticket w granted =>
    obtain ⟨registry, hclaim, rfl⟩ := claim_granted granted
    have hledger := hf.ledger.claim hclaim
    have hc : Positional job.chain :=
      Accepted.Planned.positional (a := ⟨job, .new job (h.time w.clock), ticket⟩) ⟨s, plan⟩
    have hholds : Between (es ++ [.claimed ticket job.targetKey]) ticket job.targetKey := by
      rw [← hledger.holder, Registry.holder?_of_claim hclaim, if_pos rfl]
    have hnext : f.world.registry.nextTicket ≤ w.registry.nextTicket := by
      obtain ⟨-, -, hs⟩ := Registry.claim_spec hclaim
      rw [hs]
      exact Nat.le_succ _
    exact hf.move hledger hnext (hledger.known _ _ hholds.1) ⟨hc, hholds⟩ fun _ _ _ => nofun
  | @save ticket job record stands r w run =>
    refine hf.move_aside stands (save_alike run) nofun nofun fun hlawful => ?_
    cases r with
    | ok _ => exact hlawful
    | error e => exact hlawful
  | giveUp stands => exact hf.move_gone stands _
  | enqueue stands =>
    exact hf.move_aside stands (.refl _) nofun nofun fun hlawful => ⟨rfl, hlawful⟩
  | begin stands waits =>
    refine hf.move_aside stands (.refl _) nofun nofun fun hlawful => ?_
    obtain ⟨rfl, hc, hholds⟩ := hlawful
    exact ⟨⟨rfl, hc, .waiting, rfl⟩, .open rfl (fun _ ha => absurd ha List.not_mem_nil) hholds⟩
  | @take ticket t stands m rest queue stop w poll =>
    have hidles : Act.Keeps Idles (pollCancelled h t.ticket) :=
      fun w => (pollCancelled_moves t.ticket w).idles
    have halike := (hidles f.world).alike
    rw [poll] at halike
    refine hf.move_aside stands halike nofun nofun fun hlawful => ?_
    exact taken_lawful hlawful.1 hlawful.2 m rest stop
  | act stands short run => exact hf.act stands short run
  | @start ticket t s todo stands =>
    refine hf.move_aside stands (.refl _) nofun nofun fun hlawful => ?_
    obtain ⟨ht, horderly⟩ := hlawful
    obtain ⟨hopen, hquiet, hholds⟩ := orderly_run horderly
    exact ⟨ht, hopen, hquiet, by rw [← ht.ticket]; exact hholds⟩
  | @report ticket t s todo stands r =>
    refine hf.move_aside stands (.refl _) nofun nofun fun hlawful => ?_
    obtain ⟨⟨hticket, hc, hphase⟩, hopen, hquiet, hholds⟩ := hlawful
    exact ⟨⟨hticket, hc, hphase⟩, .open hopen hquiet (by rw [hticket]; exact hholds)⟩
  | drop stands =>
    rcases stands with stands | ⟨s, stands⟩
    · exact hf.move_gone stands _
    · exact hf.move_gone stands _
  | cancel key =>
    refine hf.stay ?_ nofun nofun
    obtain ⟨said, hsaid⟩ := World.run_cancel key f.world
    show f.world.registry.Alike ((World.cancel key).run f.world).2.registry
    rw [hsaid]
    exact .cancel _ _
  | elsewhere registry waiting =>
    refine hf.stay ?_ nofun nofun
    rw [registry]
    exact .refl _

/-- **Any number of steps.** -/
theorem Run.kept {disk : Disk} {cwd : Place} (hr : Run h (.new disk cwd) es f) : Kept es f := by
  induction hr with
  | nil => exact .new disk cwd
  | snoc _ step ih => exact step.kept ih

/-! ## Mutual exclusion -/

/-- Every release is a release by its ticket. -/
theorem Step.registry_of_released {t : Nat} {k : String} (hs : Step h f e g)
    (he : e = .released t k) :
    g.world.registry = f.world.registry.release k t := by
  cases hs with
  | giveUp stands =>
    obtain ⟨rfl, rfl⟩ := Event.released.inj he
    rfl
  | drop stands =>
    obtain ⟨rfl, rfl⟩ := Event.released.inj he
    rfl
  | @act ticket task a todo stands short u w run =>
    cases a with
    | release =>
      obtain ⟨rfl, rfl⟩ := Event.released.inj he
      exact (congrArg (fun x => x.2.registry) run).symm
    | _ => cases he
  | _ => cases he

/-- A job that writes its record or begins a stage is between its claim and its first release. -/
theorem Step.between {t : Nat} {k : String} (hs : Step h f e g)
    (he : e = .saved t k ∨ e = .started t k) (hf : Kept es f) : Between es t k := by
  cases hs with
  | save stands run =>
    rcases he with he | he
    · obtain ⟨rfl, rfl⟩ := Event.saved.inj he
      exact (hf.stands _ _ stands).2.2
    · cases he
  | @act ticket task a todo stands short u w run =>
    obtain ⟨-, ht, horderly⟩ := hf.stands _ _ stands
    cases a with
    | record edit =>
      rcases he with he | he
      · obtain ⟨rfl, rfl⟩ := Event.saved.inj he
        exact orderly_record horderly
      · cases he
    | run s => exact absurd rfl (short s)
    | _ => rcases he with he | he <;> cases he
  | start stands =>
    obtain ⟨-, ht, horderly⟩ := hf.stands _ _ stands
    rcases he with he | he
    · cases he
    · obtain ⟨rfl, rfl⟩ := Event.started.inj he
      exact (orderly_run horderly).2.2
  | _ => rcases he with he | he <;> cases he

/-- Mutual exclusion on keys, after some events and for every step that can come next. -/
structure Exclusion (h : Host) (es : List Event) (f : Fleet) : Prop where
  /-- At most one job of a key is between its claim and its first release. -/
  single : ∀ k t t', Between es t k → Between es t' k → t = t'
  /-- A key is active if there is such a job, and only then. -/
  active : ∀ k, f.world.registry.isActive k = true ↔ ∃ t, Between es t k
  /-- A job that gives its key back once more changes nothing, whoever holds the key now. -/
  again : ∀ t k g, Step h f (.released t k) g → .released t k ∈ es →
    g.world.registry = f.world.registry
  /-- A wish that the job of a key stops reaches the job that holds it now, and no other. -/
  token : ∀ k g, Step h f (.cancelled k) g → ∀ t, g.world.registry.isCancelled t = true ↔
    f.world.registry.isCancelled t = true ∨ Between es t k
  /-- A job that has given its key back neither writes the record of the key nor begins a stage. -/
  entitled : ∀ t k g, Step h f (.saved t k) g ∨ Step h f (.started t k) g → Between es t k
  /-- Once a job has claimed a key, no job that claimed it earlier writes its record. -/
  newest : ∀ t k g past t' later, Step h f (.saved t k) g →
    es = past ++ .claimed t' k :: later → .claimed t k ∉ past

/-- **Mutual exclusion.** It holds for any number of jobs and keys, however the steps of the jobs
follow one another, for every host. -/
theorem run_exclusion {disk : Disk} {cwd : Place} (hr : Run h (.new disk cwd) es f) :
    Exclusion h es f := by
  have hf := hr.kept
  constructor
  case single =>
    intro k t t' ht ht'
    rw [← hf.ledger.holder] at ht ht'
    exact Option.some.inj (ht.symm.trans ht')
  case active =>
    intro k
    rw [Registry.isActive_iff]
    exact exists_congr fun t => hf.ledger.holder t k
  case again =>
    intro t k g hs hreleased
    rw [hs.registry_of_released rfl]
    refine Registry.release_of_ne fun hheld => ?_
    exact ((hf.ledger.holder t k).mp hheld).2 hreleased
  case token =>
    intro k g hs t
    generalize he : Event.cancelled k = e at hs
    cases hs with
    | cancel key =>
      obtain rfl := Event.cancelled.inj he
      obtain ⟨said, hsaid⟩ := World.run_cancel k f.world
      show ((World.cancel k).run f.world).2.registry.isCancelled t = true ↔ _
      rw [hsaid, Registry.isCancelled_cancel, Bool.or_eq_true, beq_iff_eq, hf.ledger.holder]
    | @act ticket task a todo stands short u w run => cases a <;> cases he
    | _ => cases he
  case entitled =>
    rintro t k g (hs | hs)
    · exact hs.between (.inl rfl) hf
    · exact hs.between (.inr rfl) hf
  case newest =>
    rintro t k g past t' later hs rfl hearlier
    have hbetween := hs.between (.inl rfl) hf
    have hle : t' ≤ t := hf.ledger.latest t t' k (by simp) hbetween
    -- tickets ascend
    have hlt : t < t' := by
      have hascending := hf.ledger.ascending
      rw [List.filterMap_append] at hascending
      refine (List.pairwise_append.mp hascending).2.2 t ?_ t' ?_
      · exact List.mem_filterMap.mpr ⟨_, hearlier, rfl⟩
      · exact List.mem_filterMap.mpr ⟨_, List.mem_cons_self, rfl⟩
    omega

/-- A host on which every file operation fails. -/
def failingHost : Host :=
  { Engine.stoppingHost 12 with fault := fun _ => some (.fault .permissionDenied) }

/-- A job that gives up its key since its record cannot be stored, and a second one that claims it. -/
theorem run_exclusion_reclaimed :
    ∃ es f, Run failingHost (.new Disk.empty []) es f ∧ .released 1 "app" ∈ es ∧
      Between es 2 "app" ∧ Exclusion failingHost es f := by
  let job : Job :=
    ⟨⟨"jadx", false, 1, 1, 90, false, "app", "App", ⟨"app.dex"⟩, .dex⟩, .jadx, chainOf .jadx⟩
  have plan : Job.plan job.submission failingHost.catalog.has = .ok job := by decide +kernel
  let claimed := ((Engine.claim "app").settle.run (.new Disk.empty [])).2
  let save := ((JobRecord.new job (failingHost.time claimed.clock)).save failingHost
    (.of failingHost.settings.storage "app")).settle.run claimed
  let freed := ((Engine.release "app" 1).run save.2).2
  let again := (Engine.claim "app").settle.run freed
  have hfails : save.1.isOk = false ∧ again.1.toOption = some 2 := by decide +kernel
  obtain ⟨e, he⟩ : ∃ e, save.1 = .error e := by
    cases hr : save.1 with
    | error e => exact ⟨e, rfl⟩
    | ok _ =>
      rw [hr] at hfails
      cases hfails.1
  have hagain : again.1 = .ok 2 := by
    cases hr : again.1 with
    | error e =>
      rw [hr] at hfails
      cases hfails.2
    | ok t =>
      rw [hr] at hfails
      exact congrArg Except.ok (Option.some.inj hfails.2)
  obtain ⟨g, hworld, hgone⟩ : ∃ g : Fleet, g.world = freed ∧ Run failingHost (.new Disk.empty [])
      [.claimed 1 "app", .saved 1 "app", .released 1 "app"] g := by
    have hclaimed : Run failingHost (.new Disk.empty []) [.claimed 1 "app"] _ :=
      .snoc .nil (.claim plan rfl)
    have hsaved := hclaimed.snoc (.save (move_stand_self ..) (Prod.ext he rfl : save = (_, save.2)))
    exact ⟨_, rfl, hsaved.snoc (.giveUp (move_stand_self ..))⟩
  have granted : (Engine.claim "app").settle.run g.world = (.ok 2, again.2) := by
    rw [hworld]
    exact Prod.ext hagain rfl
  have hrun := hgone.snoc (.claim plan granted)
  refine ⟨_, _, hrun, ?_, ?_, run_exclusion hrun⟩
  · decide
  · exact ⟨by decide, by decide⟩

end Fleet

end Decompile
