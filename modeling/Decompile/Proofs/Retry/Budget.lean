import Decompile.Failure
import Mathlib.Data.List.Basic

/-!
# The rule of attempts

Which chunk a stage tries next, and how it ends, follows from what its attempts have come to so far:
chunks are tried in order, a chunk again after a failure that may pass, and the failures that may
pass are counted over all chunks.

- `Trial`: an attempt and what it came to.
- `next`: what the trials so far ask for.
- `Allowed`: trials that were made as the rule says.
- `Notice`, `notices`: what is told before each trial.
- `Obeyed`: what follows for a stage that is over; `Allowed.obeyed`.
-/

namespace Decompile.Retry

/-- An attempt at a chunk, and what it came to. -/
structure Trial where
  chunk : Nat
  result : Except StageError Unit

/-- The attempt has done its chunk. -/
def Trial.isDone (t : Trial) : Bool :=
  match t.result with
  | .ok () => true
  | .error _ => false

/-- The attempt has failed, and another may succeed. -/
def Trial.isTransient (t : Trial) : Bool :=
  match t.result with
  | .ok () => false
  | .error e => e.isTransient

/-- How many chunks are done. -/
def done (past : List Trial) : Nat := past.countP Trial.isDone

/-- How many attempts have failed that were worth another. -/
def transients (past : List Trial) : Nat := past.countP Trial.isTransient

/-- What a stage does next. -/
inductive Next where
  | attempt (chunk : Nat)
  | finish (result : Except StageError Unit)

/-- What the trials so far ask for, if there are `n` chunks and failure number `m` ends the stage. -/
def next (n m : Nat) (past : List Trial) : Next :=
  match past.getLast? with
  | none => if 0 < n then .attempt 0 else .finish (.ok ())
  | some t =>
    match t.result with
    | .ok () => if t.chunk + 1 < n then .attempt (t.chunk + 1) else .finish (.ok ())
    | .error e =>
      if e.isTransient && decide (transients past < m) then .attempt t.chunk
      else .finish (.error e)

/-- The trials were made as the rule says. -/
inductive Allowed (n m : Nat) : List Trial → Prop where
  | none : Allowed n m []
  | more {past : List Trial} {t : Trial} (before : Allowed n m past)
    (asked : next n m past = .attempt t.chunk) : Allowed n m (past ++ [t])

variable {n m : Nat} {past : List Trial} {t : Trial}

/-! ## What the last trial asks for -/

theorem next_nil : next n m [] = if 0 < n then .attempt 0 else .finish (.ok ()) := rfl

theorem next_of_ok (ht : t.result = .ok ()) :
    next n m (past ++ [t]) =
      if t.chunk + 1 < n then .attempt (t.chunk + 1) else .finish (.ok ()) := by
  simp [next, ht]

theorem next_of_error {e : StageError} (ht : t.result = .error e) :
    next n m (past ++ [t]) =
      if e.isTransient && decide (transients (past ++ [t]) < m) then .attempt t.chunk
      else .finish (.error e) := by
  simp [next, ht]

theorem done_concat (past : List Trial) (t : Trial) :
    done (past ++ [t]) = done past + if t.isDone then 1 else 0 := by
  simp [done, List.countP_append]

theorem transients_concat (past : List Trial) (t : Trial) :
    transients (past ++ [t]) = transients past + if t.isTransient then 1 else 0 := by
  simp [transients, List.countP_append]

/-! ## Trials that were made by the rule -/

/-- Where a stage stands that goes on. -/
structure Standing (n m : Nat) (past : List Trial) (chunk : Nat) : Prop where
  /-- The first chunk that is not done is tried. -/
  chunk : chunk = done past
  room : done past < n
  left : transients past < m
  /-- Every trial so far has done a chunk or was worth another. -/
  length : past.length = done past + transients past

/-- A stage that goes on tries the first chunk that is not done. -/
theorem Allowed.standing (h : Allowed n m past) (hm : 0 < m) {chunk : Nat}
    (hnext : next n m past = .attempt chunk) : Standing n m past chunk := by
  induction h generalizing chunk with
  | none =>
    rw [next_nil] at hnext
    split at hnext
    · obtain rfl := Next.attempt.inj hnext
      exact ⟨rfl, ‹_›, hm, rfl⟩
    · cases hnext
  | @more past t _ asked ih =>
    obtain ⟨hchunk, hroom, hleft, hlength⟩ := ih asked
    cases hresult : t.result with
    | ok _ =>
      have hdone : done (past ++ [t]) = done past + 1 := by
        simp [done_concat, Trial.isDone, hresult]
      have htransients : transients (past ++ [t]) = transients past := by
        simp [transients_concat, Trial.isTransient, hresult]
      rw [next_of_ok hresult] at hnext
      split at hnext
      · obtain rfl := Next.attempt.inj hnext
        refine ⟨by omega, by omega, by omega, ?_⟩
        simp only [List.length_append, List.length_singleton]
        omega
      · cases hnext
    | error e =>
      have hdone : done (past ++ [t]) = done past := by
        simp [done_concat, Trial.isDone, hresult]
      rw [next_of_error hresult] at hnext
      split at hnext
      case isTrue hagain =>
        obtain ⟨htransient, hless⟩ : e.isTransient = true ∧ transients (past ++ [t]) < m := by
          simpa using hagain
        obtain rfl := Next.attempt.inj hnext
        have htransients : transients (past ++ [t]) = transients past + 1 := by
          simp [transients_concat, Trial.isTransient, hresult, htransient]
        refine ⟨by omega, by omega, hless, ?_⟩
        simp only [List.length_append, List.length_singleton]
        omega
      case isFalse => cases hnext

/-- A part of the trials was made by the rule too, and what came next was asked for. -/
theorem Allowed.split {ts later : List Trial} (h : Allowed n m ts) (hts : ts = past ++ t :: later) :
    Allowed n m past ∧ next n m past = .attempt t.chunk := by
  induction h generalizing later with
  | none => simp at hts
  | @more before last hbefore asked ih =>
    obtain rfl | ⟨rest, final, rfl⟩ := List.eq_nil_or_concat' later
    · obtain ⟨rfl, hlast⟩ := List.append_inj' hts rfl
      obtain rfl := List.head_eq_of_cons_eq hlast
      exact ⟨hbefore, asked⟩
    · rw [← List.cons_append, ← List.append_assoc] at hts
      exact ih (List.append_inj' hts rfl).1

/-- The chunks that are done are done in order, each once. -/
theorem Allowed.order (h : Allowed n m past) (hm : 0 < m) :
    (past.filter Trial.isDone).map Trial.chunk = List.range (done past) := by
  induction h with
  | none => rfl
  | @more past t before asked ih =>
    obtain ⟨hchunk, -⟩ := before.standing hm asked
    rw [List.filter_append, List.map_append, ih, done_concat]
    cases hdone : t.isDone with
    | false => simp [hdone]
    | true => simp [hdone, List.range_succ, hchunk]

theorem Allowed.mem_iff (h : Allowed n m past) (hm : 0 < m) (i : Nat) :
    ⟨i, .ok ()⟩ ∈ past ↔ i < done past := by
  rw [← List.mem_range, ← h.order hm, List.mem_map]
  constructor
  · exact fun hmem => ⟨_, List.mem_filter.mpr ⟨hmem, rfl⟩, rfl⟩
  · rintro ⟨⟨chunk, result⟩, hmem, rfl⟩
    obtain ⟨hmem, hdone⟩ := List.mem_filter.mp hmem
    cases result with
    | ok _ => exact hmem
    | error e => cases hdone

/-! ## What is told before a trial -/

/-- A trial is told as the first at its chunk, or by the number of failures before it. -/
inductive Notice where
  | chunk (index : Nat)
  | again (number : Nat)

/-- The number of a further attempt. -/
def Notice.again? : Notice → Option Nat
  | again number => some number
  | chunk _ => none

/-- What is told before the next trial. -/
def notice (past : List Trial) (chunk : Nat) : Notice :=
  match past.getLast? with
  | some ⟨_, .error _⟩ => .again (transients past + 1)
  | _ => .chunk chunk

/-- What is told before the trials that come after others. -/
def noticesAfter (past : List Trial) : List Trial → List Notice
  | [] => []
  | t :: later => notice past t.chunk :: noticesAfter (past ++ [t]) later

/-- What is told before each trial. -/
def notices (ts : List Trial) : List Notice := noticesAfter [] ts

theorem noticesAfter_concat (past ts : List Trial) (t : Trial) :
    noticesAfter past (ts ++ [t]) = noticesAfter past ts ++ [notice (past ++ ts) t.chunk] := by
  induction ts generalizing past with
  | nil => simp [noticesAfter]
  | cons first ts ih => simp [noticesAfter, ih]

theorem notices_concat (ts : List Trial) (t : Trial) :
    notices (ts ++ [t]) = notices ts ++ [notice ts t.chunk] := noticesAfter_concat [] ts t

/-- The numbers of further attempts. -/
def repeats (ts : List Trial) : List Nat := (notices ts).filterMap Notice.again?

/-- How often a failure was followed by another attempt. -/
def repeated (ts : List Trial) : Nat := transients ts.dropLast

/-- **Further attempts are numbered 2, 3 and so on**, also when chunks were done between them. -/
theorem Allowed.repeats_eq (h : Allowed n m past) :
    repeats past = List.range' 2 (repeated past) := by
  induction h with
  | none => rfl
  | @more past t before asked ih =>
    rw [repeats, notices_concat, List.filterMap_append, ← repeats, ih]
    have hlast : repeated (past ++ [t]) = transients past := by
      rw [repeated, List.dropLast_concat]
    rw [hlast]
    obtain rfl | ⟨rest, last, rfl⟩ := List.eq_nil_or_concat' past
    · rfl
    have hbefore : repeated (rest ++ [last]) = transients rest := by
      rw [repeated, List.dropLast_concat]
    rw [hbefore]
    obtain ⟨chunk, result⟩ := last
    cases result with
    | ok _ => simp [notice, Notice.again?, transients_concat, Trial.isTransient]
    | error e =>
      -- what is tried again was worth it
      rw [next_of_error rfl] at asked
      split at asked
      case isTrue hagain =>
        have htransient : e.isTransient = true := by
          rw [Bool.and_eq_true] at hagain
          exact hagain.1
        have hmore : transients (rest ++ [⟨chunk, .error e⟩]) = transients rest + 1 := by
          simp [transients_concat, Trial.isTransient, htransient]
        rw [hmore, List.range'_1_concat]
        simp only [notice, List.getLast?_concat, List.filterMap_cons, Notice.again?,
          List.filterMap_nil, hmore]
        rw [Nat.add_comm 2, Nat.add_assoc]
      case isFalse => cases asked

/-! ## A stage that is over -/

/-- What holds of the trials of a stage that has ended so. -/
structure Obeyed (n m : Nat) (ts : List Trial) (r : Except StageError Unit) : Prop where
  /-- Every trial was the one that those before it asked for. -/
  asked : ∀ past t later, ts = past ++ t :: later → next n m past = .attempt t.chunk
  /-- The stage ends as its trials ask for. -/
  ends : next n m ts = .finish r
  /-- Chunks are done in order, each once. -/
  order : (ts.filter Trial.isDone).map Trial.chunk = List.range (done ts)
  /-- A chunk comes after the one before it is done. -/
  advances : ∀ past t t' later, ts = past ++ t :: t' :: later → t.result = .ok () →
    t'.chunk = t.chunk + 1
  /-- After a failure that may pass the same chunk is tried again. -/
  again : ∀ past t t' later e, ts = past ++ t :: t' :: later → t.result = .error e →
    e.isTransient = true ∧ t'.chunk = t.chunk
  /-- The stage succeeds if and only if every chunk is done. -/
  succeeds : r = .ok () ↔ ∀ i < n, ⟨i, .ok ()⟩ ∈ ts
  /-- A failure that will not pass ends the stage at once, and so does the failure number `m` that
  may pass. -/
  stops : ∀ past t later e, ts = past ++ t :: later → t.result = .error e →
    (e.isTransient = false ∨ transients (past ++ [t]) = m) → later = [] ∧ r = .error e
  /-- Nothing else ends it early. -/
  fails : ∀ e, r = .error e → ∃ past chunk, ts = past ++ [⟨chunk, .error e⟩] ∧
    (e.isTransient = false ∨ transients ts = m)
  /-- At most `m` attempts fail that are worth another. -/
  transients : transients ts ≤ m
  /-- At most so many attempts are made. -/
  attempts : ts.length ≤ n + m - 1
  /-- Further attempts are numbered 2, 3 and so on, up to `m` at most. -/
  numbers : repeats ts = List.range' 2 (repeated ts) ∧ ∀ k ∈ repeats ts, k ≤ m

/-- How many trials are done or worth another, with a last one that may be neither. -/
theorem Allowed.bounds (h : Allowed n m past) (hm : 0 < m) :
    done past ≤ n ∧ transients past ≤ m ∧ repeated past < m ∧ past.length ≤ n + m - 1 := by
  cases h with
  | none => exact ⟨Nat.zero_le n, Nat.zero_le m, hm, Nat.zero_le _⟩
  | @more past t before asked =>
    obtain ⟨-, hroom, hleft, hlength⟩ := before.standing hm asked
    have hdone := done_concat past t
    have htransients := transients_concat past t
    rw [repeated, List.dropLast_concat, List.length_append, List.length_singleton]
    refine ⟨?_, ?_, hleft, by omega⟩
    · split at hdone <;> omega
    · split at htransients <;> omega

/-- A stage that is over has succeeded if it has done all its chunks, and only then. -/
theorem Allowed.succeeds_iff {r : Except StageError Unit} (h : Allowed n m past) (hm : 0 < m)
    (hends : next n m past = .finish r) : r = .ok () ↔ n ≤ done past := by
  cases h with
  | none =>
    rw [next_nil] at hends
    split at hends
    case isTrue => cases hends
    case isFalse hnone =>
      obtain rfl := Next.finish.inj hends
      exact iff_of_true rfl (Nat.le_of_not_lt hnone)
  | @more past t before asked =>
    obtain ⟨hchunk, hroom, -, -⟩ := before.standing hm asked
    cases hresult : t.result with
    | ok _ =>
      rw [next_of_ok hresult] at hends
      split at hends
      case isTrue => cases hends
      case isFalse hlast =>
        obtain rfl := Next.finish.inj hends
        refine iff_of_true rfl ?_
        simp only [done_concat, Trial.isDone, hresult, if_true]
        omega
    | error e =>
      rw [next_of_error hresult] at hends
      split at hends
      case isTrue => cases hends
      case isFalse =>
        obtain rfl := Next.finish.inj hends
        refine iff_of_false nofun ?_
        simp only [done_concat, Trial.isDone, hresult]
        exact Nat.not_le.mpr hroom

/-- **The rule of attempts**, for a stage that is over. -/
theorem Allowed.obeyed {ts : List Trial} {r : Except StageError Unit} (h : Allowed n m ts)
    (hm : 0 < m) (hends : next n m ts = .finish r) : Obeyed n m ts r := by
  obtain ⟨hdone, htransients, hrepeated, hlength⟩ := h.bounds hm
  have hasked : ∀ past t later, ts = past ++ t :: later → next n m past = .attempt t.chunk :=
    fun _ _ _ hts => (h.split hts).2
  have hthen : ∀ past t t' later, ts = past ++ t :: t' :: later →
      next n m (past ++ [t]) = .attempt t'.chunk :=
    fun past t t' later hts => hasked (past ++ [t]) t' later (by simp [hts])
  refine ⟨hasked, hends, h.order hm, ?advances, ?again, ?succeeds, ?stops, ?fails, htransients,
    hlength, ?numbers⟩
  case advances =>
    intro past t t' later hts hok
    have hnext := hthen past t t' later hts
    rw [next_of_ok hok] at hnext
    split at hnext
    · exact (Next.attempt.inj hnext).symm
    · cases hnext
  case again =>
    intro past t t' later e hts herror
    have hnext := hthen past t t' later hts
    rw [next_of_error herror] at hnext
    split at hnext
    case isTrue hagain =>
      rw [Bool.and_eq_true] at hagain
      exact ⟨hagain.1, (Next.attempt.inj hnext).symm⟩
    case isFalse => cases hnext
  case succeeds =>
    rw [h.succeeds_iff hm hends]
    refine ⟨fun hall i hi => (h.mem_iff hm i).mpr (Nat.lt_of_lt_of_le hi hall), fun hall => ?_⟩
    refine Nat.le_of_not_lt fun hless => ?_
    exact Nat.lt_irrefl _ ((h.mem_iff hm _).mp (hall _ hless))
  case stops =>
    intro past t later e hts herror hlast
    have hover : next n m (past ++ [t]) = .finish (.error e) := by
      rw [next_of_error herror]
      refine if_neg ?_
      obtain hlast | hlast := hlast <;> simp [hlast]
    cases later with
    | nil =>
      rw [hts, hover] at hends
      exact ⟨rfl, (Next.finish.inj hends).symm⟩
    | cons t' later =>
      rw [hthen past t t' later hts] at hover
      cases hover
  case fails =>
    rintro e rfl
    obtain rfl | ⟨past, ⟨chunk, result⟩, rfl⟩ := List.eq_nil_or_concat' ts
    · rw [next_nil] at hends
      split at hends <;> cases hends
    cases result with
    | ok _ =>
      rw [next_of_ok rfl] at hends
      split at hends <;> cases hends
    | error e' =>
      rw [next_of_error rfl] at hends
      split at hends
      case isTrue => cases hends
      case isFalse hlast =>
        obtain rfl := Except.error.inj (Next.finish.inj hends)
        refine ⟨past, chunk, rfl, ?_⟩
        cases htransient : e'.isTransient with
        | false => exact .inl rfl
        | true =>
          simp only [htransient, Bool.true_and, decide_eq_true_eq] at hlast
          exact .inr (by omega)
  case numbers =>
    have hrepeats := h.repeats_eq
    refine ⟨hrepeats, fun k hk => ?_⟩
    rw [hrepeats, List.mem_range'_1] at hk
    omega

end Decompile.Retry
