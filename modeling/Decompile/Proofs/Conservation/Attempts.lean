import Decompile.Proofs.Act.StageMoves
import Decompile.Proofs.Act.Succeeds
import Mathlib.Data.List.Pairwise

/-!
# Attempts and calls

The journal says which attempts were begun and which tools were called. From that alone it can be
told what each attempt passed to the tools.

- `Worked`: the attempts and calls between two worlds.
- `Try.Calls`: what an action calls, a part of it if it fails.
- `plannedCalls`, `Work.processChunk_calls`: the calls of a stage for a chunk.
- `Attempt`, `attemptsIn`, `settled`: the attempts of a journal, and those that were not repeated.
- `Tried`: what is noted of the chunks of a stage that has come to its end; `Tried.settled`: every
  chunk has an attempt that was not repeated, and that one has made all calls.
-/

namespace Decompile

/-! ## Attempts and calls of a journal -/

/-- The entry says that an attempt was begun or a tool called. -/
def Occurrence.isWork : Occurrence → Bool
  | .called _ | .attempted _ _ _ => true
  | _ => false

/-- The attempts and calls of a journal, oldest first. -/
def World.workIn (journal : List Occurrence) : List Occurrence := journal.filter Occurrence.isWork

/-- These attempts and calls came between two worlds. -/
def Worked (os : List Occurrence) (w v : World) : Prop :=
  World.workIn v.journal = World.workIn w.journal ++ os

namespace Worked

variable {os more new : List Occurrence} {w v u : World}

theorem refl (w : World) : Worked [] w w := (List.append_nil _).symm

theorem append (h : Worked os w v) (h' : Worked more v u) : Worked (os ++ more) w u := by
  unfold Worked at h h' ⊢
  rw [h', h, List.append_assoc]

instance : Std.Refl (Worked []) := ⟨refl⟩

instance : IsTrans World (Worked []) := ⟨fun _ _ _ => append⟩

theorem of_journal (hjournal : v.journal = w.journal ++ new) :
    Worked (World.workIn new) w v := by
  unfold Worked World.workIn
  rw [hjournal, List.filter_append]

theorem of_note {o : Occurrence} (hjournal : v.journal = w.journal ++ [o]) (ho : o.isWork = false) :
    Worked [] w v := by
  have hworked := of_journal hjournal
  rwa [World.workIn, List.filter_cons_of_neg (ho ▸ Bool.false_ne_true), List.filter_nil] at hworked

theorem of_eq (hjournal : v.journal = w.journal) : Worked [] w v := by
  unfold Worked
  rw [hjournal, List.append_nil]

end Worked

/-- Moves that begin no attempt and call no tool. -/
theorem Moves.worked {h : Host} {N : Occurrence → Prop} (hN : ∀ o, N o → o.isWork = false)
    {w v : World} (hm : Moves h N w v) : Worked [] w v := by
  refine hm.keep_answers (fun hsub w v hm hanswer => ?_)
    (fun hfiles s w => (Engine.submit_submitted s w).keep (R := Worked []) hfiles
      (fun _ _ _ _ => .of_note rfl rfl) (fun _ _ _ => .of_note rfl rfl)
      fun _ _ _ _ => .of_note rfl rfl) fun _ _ _ => .of_note rfl rfl
  cases hm with
  | tick => exact .of_eq rfl
  | call i admitted => cases hN _ (hsub _ admitted)
  | attempt t kind chunk admitted => cases hN _ (hsub _ admitted)
  | answer s admitted => exact hanswer s admitted
  | cancel key said =>
    have hworked := Worked.of_journal (w := w) (v := { w with
      registry := w.registry.cancel key
      journal := w.journal ++ .happened (.cancel key) :: said.map .logged }) rfl
    rwa [World.workIn, List.filter_eq_nil_iff.mpr ?_] at hworked
    rintro o (_ | ⟨_, ho⟩)
    · exact Bool.false_ne_true
    · obtain ⟨r, -, rfl⟩ := List.mem_map.mp ho
      exact Bool.false_ne_true
  | aside o free =>
    refine .of_note rfl ?_
    cases o <;> first | rfl | cases free
  | _ => exact .of_note rfl rfl

theorem Act.Keeps.worked {h : Host} {α : Type} {x : Act α}
    (hx : Act.Keeps (Moves h fun _ => False) x) : Act.Keeps (Worked []) x :=
  hx.mono fun _ _ hm => hm.worked fun _ => False.elim

theorem Try.Keeps.worked {h : Host} {ε α : Type} {t : Try ε α}
    (ht : Try.Keeps (Moves h fun _ => False) t) : Try.Keeps (Worked []) t :=
  Act.Keeps.worked ht

/-! ## What is called -/

/-- The action makes these calls in order, or the first of them if it fails, and begins no
attempt. -/
def Try.Calls {ε α : Type} (cs : List Invocation) (t : Try ε α) : Prop :=
  ∀ w, ∃ made, made <+: cs ∧ Worked (made.map .called) w (t.settle.run w).2 ∧
    ∀ a, (t.settle.run w).1 = .ok a → made = cs

namespace Try.Calls

variable {ε α β : Type} {cs ds : List Invocation}

theorem of_keeps {t : Try ε α} (ht : Try.Keeps (Worked []) t) : t.Calls [] :=
  fun w => ⟨[], List.prefix_refl _, ht w, fun _ _ => rfl⟩

theorem pure (a : α) : (Pure.pure a : Try ε α).Calls [] := of_keeps (.pure a)

/-- An action that fails may have been about to call anything. -/
theorem throw (e : ε) (cs : List Invocation) : (MonadExcept.throw e : Try ε α).Calls cs :=
  fun w => ⟨[], List.nil_prefix, Worked.refl w, nofun⟩

theorem bind {t : Try ε α} {f : α → Try ε β} (ht : t.Calls cs) (hf : ∀ a, (f a).Calls ds) :
    (t >>= f).Calls (cs ++ ds) := by
  intro w
  obtain ⟨made, hmade, hworked, hall⟩ := ht w
  rw [run_settle_bind]
  rcases hrun : t.settle.run w with ⟨e | a, v⟩
  · rw [hrun] at hworked
    exact ⟨made, hmade.trans (List.prefix_append _ _), hworked, nofun⟩
  · rw [hrun] at hworked hall
    obtain rfl := hall a rfl
    obtain ⟨more, hmore, hthen, hrest⟩ := hf a v
    refine ⟨made ++ more, (List.prefix_append_right_inj _).mpr hmore, ?_, fun b hb => ?_⟩
    · rw [List.map_append]
      exact hworked.append hthen
    · rw [hrest b hb]

end Try.Calls

namespace Work

variable {h : Host} {c : StageContext}

/-- What a tool does besides being called is no call. -/
theorem act_worked (key title : String) (a : Activity) :
    Act.Keeps (Worked []) (act h key title a) := by
  have hmoves : Act.Keeps (Moves h fun o => o.isWork = false) (act h key title a) := by
    cases a with
    | line raw =>
      show Act.Keeps _ (tellLine key title raw)
      unfold tellLine
      cases ProgressLine.normalize raw with
      | none => exact World.log_moves _ _ _
      | some clean => exact (World.log_moves _ _ _).bind fun _ => World.emit_moves rfl
    | happening x => exact World.happen_moves x
    | submit s => exact fun _ => .single (.answer s fun _ _ => rfl)
    | makeDirectories p => exact (World.makeDirectories_moves p).settle.bind fun _ => .pure ()
    | writeFile p contents => exact (World.writeFile_moves p contents).settle.bind fun _ => .pure ()
  exact hmoves.mono fun _ _ hm => hm.worked fun _ => id

theorem actAll_worked (key title : String) : ∀ as : List Activity,
    Try.Keeps (Worked []) (actAll h key title as)
  | [] => .pure ()
  | a :: as => by
    unfold actAll
    refine .bind (.lift (act_worked key title a)) fun _ => ?_
    exact (breakOff_moves (h := h)).worked.bind fun _ => actAll_worked key title as

theorem callTool_calls (key title : String) (i : Invocation) :
    (callTool h key title i).Calls [i] := by
  have hcall : (liftM (World.note (.called i)) : Try StageError Unit).Calls [i] :=
    fun w => ⟨[i], List.prefix_refl _, @Worked.of_journal [.called i] _ _ rfl, fun _ _ => rfl⟩
  have hpause : (liftM (World.pause h) : Try StageError Unit).Calls [] :=
    .of_keeps (.lift World.pause_moves.worked)
  have hlog : ∀ text, (liftM (World.log .debug toolLogTarget text) : Try StageError Unit).Calls [] :=
    fun _ => .of_keeps (.lift (World.log_moves (h := h) _ _ _).worked)
  unfold callTool
  refine hpause.bind fun _ => .bind (.of_keeps (breakOff_moves (h := h)).worked) fun _ => ?_
  refine (hlog _).bind fun _ => .bind (.of_keeps .get) fun w => hcall.bind fun _ => ?_
  refine Try.Calls.bind (.of_keeps (actAll_worked key title _)) fun _ => ?_
  cases (h.tool (World.callsIn w.journal) w.disk i).result with
  | ok _ => exact .pure ()
  | error e => exact .throw e _

theorem callAll_calls (key title : String) : ∀ is : List Invocation,
    (callAll h key title is).Calls is
  | [] => .pure ()
  | i :: is => by
    unfold callAll
    exact (callTool_calls key title i).bind fun _ => callAll_calls key title is

end Work

/-- The calls of a stage for one chunk. -/
def plannedCalls (h : Host) (c : StageContext) (kind : StageKind) (items : Items) (chunk : Chunk) :
    List Invocation :=
  match kind, items with
  | .intermediateConvert, .files files =>
    if c.job.submission.inputType = .jar then []
    else
      match planIntermediate c.job.backend h.catalog (chunk.slice files) c.layout.intermediate with
      | .error _ => []
      | .ok calls => calls
  | .convert, .files files => planConvert c.job.backend h.catalog (chunk.slice files) c.layout.java
  | _, _ => []

namespace Work

variable {h : Host} {c : StageContext}

/-- The work on a chunk makes the calls that are planned for it. -/
theorem processChunk_calls (kind : StageKind) (index : Nat) (items : Items) (chunk : Chunk) :
    (processChunk h c kind index items chunk).Calls (plannedCalls h c kind items chunk) := by
  unfold processChunk
  split
  · exact .of_keeps (extract_moves (h := h) _ _ _ true).worked
  · exact .of_keeps (copyInto_moves (h := h) _ _).worked
  · show Try.Calls _ (ite _ _ _)
    unfold plannedCalls
    simp only
    split
    · exact .of_keeps (pack_moves (h := h) _ _ _).worked
    · cases planIntermediate c.job.backend h.catalog (chunk.slice _) c.layout.intermediate with
      | error e => exact .throw e _
      | ok calls => exact callAll_calls _ _ calls
  · exact callAll_calls _ _ _
  · exact .of_keeps (copyBelow_moves (h := h) _ _ _).worked
  · exact .throw _ _

end Work

/-! ## Attempts -/

/-- An attempt of a job at a chunk, and the calls it has made. -/
structure Attempt where
  ticket : Nat
  kind : StageKind
  chunk : Nat
  calls : List Invocation
  deriving DecidableEq, Repr

/-- The entry begins an attempt. -/
def Occurrence.isAttempt : Occurrence → Bool
  | .attempted _ _ _ => true
  | _ => false

/-- The attempts of a journal, oldest first, each with the calls up to the next one. -/
def attemptsIn : List Occurrence → List Attempt
  | [] => []
  | .attempted ticket kind chunk :: os =>
    ⟨ticket, kind, chunk, World.callsIn (os.takeWhile fun o => !o.isAttempt)⟩ :: attemptsIn os
  | _ :: os => attemptsIn os

/-- The attempts at chunks that were not made again. -/
def settled (as : List Attempt) : List Attempt := as.pwFilter fun a b => a.chunk ≠ b.chunk

/-- What is noted of an attempt at a chunk. -/
def Attempt.noted (a : Attempt) : List Occurrence :=
  .attempted a.ticket a.kind a.chunk :: a.calls.map .called

/-- The attempts of a row that was noted one after another. -/
theorem attemptsIn_noted : ∀ as : List Attempt, attemptsIn (as.flatMap Attempt.noted) = as
  | [] => rfl
  | a :: as => by
    have hskip : ∀ is : List Invocation,
        attemptsIn (is.map Occurrence.called ++ as.flatMap Attempt.noted) =
        attemptsIn (as.flatMap Attempt.noted) := by
      intro is
      induction is with
      | nil => rfl
      | cons i is ih => exact ih
    have hcalls : ∀ is : List Invocation, World.callsIn
        ((is.map Occurrence.called ++ as.flatMap Attempt.noted).takeWhile
          fun o => !o.isAttempt) = is := by
      intro is
      induction is with
      | nil => cases as <;> rfl
      | cons i is ih => exact congrArg (i :: ·) ih
    rw [List.flatMap_cons]
    show ⟨_, _, _, World.callsIn ((a.calls.map Occurrence.called ++ _).takeWhile _)⟩ ::
      attemptsIn (a.calls.map Occurrence.called ++ _) = _
    rw [hskip, attemptsIn_noted as, hcalls]

/-- A journal has the attempts of its attempts and calls. -/
theorem attemptsIn_workIn : ∀ os : List Occurrence, attemptsIn (World.workIn os) = attemptsIn os := by
  have hcalls : ∀ os : List Occurrence,
      World.callsIn ((World.workIn os).takeWhile fun o => !o.isAttempt) =
        World.callsIn (os.takeWhile fun o => !o.isAttempt) := by
    intro os
    induction os with
    | nil => rfl
    | cons o os ih =>
      cases o with
      | attempted ticket kind chunk => rfl
      | called i => exact congrArg (i :: ·) ih
      | _ => exact ih
  intro os
  induction os with
  | nil => rfl
  | cons o os ih =>
    cases o with
    | attempted ticket kind chunk =>
      show _ :: attemptsIn (World.workIn os) = _ :: attemptsIn os
      rw [ih]
      exact congrArg (⟨ticket, kind, chunk, ·⟩ :: attemptsIn os) (hcalls os)
    | _ => exact ih

/-! ## Chunks that were tried -/

/-- The attempts at the chunks of a stage, of which there are `total`, from chunk `k` up to chunk
`n`. Each chunk is tried until an attempt succeeds. -/
inductive Tried (ticket : Nat) (kind : StageKind) (plan : Nat → List Invocation) (total : Nat) :
    Nat → Nat → List Attempt → Prop where
  | none (k : Nat) : Tried ticket kind plan total k k []
  /-- An attempt that fails has made some of the calls at most. -/
  | failed {k n : Nat} {made : List Invocation} {as : List Attempt} (there : k < total)
    (some : made <+: plan k) (rest : Tried ticket kind plan total k n as) :
    Tried ticket kind plan total k n (⟨ticket, kind, k, made⟩ :: as)
  | done {k n : Nat} {as : List Attempt} (there : k < total)
    (rest : Tried ticket kind plan total (k + 1) n as) :
    Tried ticket kind plan total k n (⟨ticket, kind, k, plan k⟩ :: as)

namespace Tried

variable {ticket : Nat} {kind : StageKind} {plan : Nat → List Invocation} {total k n m : Nat}
  {as bs : List Attempt}

theorem append (ha : Tried ticket kind plan total k n as) (hb : Tried ticket kind plan total n m bs) :
    Tried ticket kind plan total k m (as ++ bs) := by
  induction ha with
  | none => exact hb
  | failed there some _ ih => exact .failed there some (ih hb)
  | done there _ ih => exact .done there (ih hb)

/-- No attempt makes a call that is not planned for its chunk. -/
theorem calls (ha : Tried ticket kind plan total k n as) {a : Attempt} (hmem : a ∈ as) :
    a.ticket = ticket ∧ a.kind = kind ∧ a.chunk < total ∧ a.calls <+: plan a.chunk := by
  induction ha with
  | none => cases hmem
  | failed there some _ ih =>
    rcases List.mem_cons.mp hmem with rfl | hmem
    · exact ⟨rfl, rfl, there, some⟩
    · exact ih hmem
  | done there _ ih =>
    rcases List.mem_cons.mp hmem with rfl | hmem
    · exact ⟨rfl, rfl, there, List.prefix_refl _⟩
    · exact ih hmem

/-- **Every chunk is settled once**, by an attempt that has made all calls planned for it. -/
theorem settled (ha : Tried ticket kind plan total k total as) :
    settled as = (List.range' k (total - k)).map fun i => ⟨ticket, kind, i, plan i⟩ := by
  unfold Decompile.settled
  generalize hend : (total : Nat) = n at ha
  replace ha : Tried ticket kind plan total k n as := by rwa [hend]
  induction ha with
  | none k => rw [Nat.sub_self, List.range'_zero, List.map_nil, List.pwFilter_nil]
  | @failed k n made as there some _ ih =>
    have hrange : n - k = n - (k + 1) + 1 := by omega
    -- the chunk is tried again
    rw [List.pwFilter_cons_of_neg, ih hend]
    rw [ih hend, hrange, List.range'_succ, List.map_cons]
    exact fun hall => hall _ List.mem_cons_self rfl
  | @done k n as there _ ih =>
    have hrange : n - k = n - (k + 1) + 1 := by omega
    rw [List.pwFilter_cons_of_pos, ih hend, hrange, List.range'_succ, List.map_cons]
    rw [ih hend]
    intro b hb
    obtain ⟨i, hi, rfl⟩ := List.mem_map.mp hb
    have hlater := (List.mem_range'_1.mp hi).1
    show k ≠ i
    omega

end Tried

end Decompile
