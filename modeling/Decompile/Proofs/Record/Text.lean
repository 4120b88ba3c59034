import Decompile.Proofs.Ron.Values
import Decompile.Proofs.Text.Timestamp
import Decompile.Record.Text
import Mathlib.Data.List.Nodup

/-!
# Job records are read as they were stored

- `JobRecord.Dated`: the years of a record are some that dates may lie in.
- `storable_toValue`: what is written has a stored form.
- `ofValue?_toValue`: what is written is understood, once the names of structures are gone.
- `JobRecord.read?_render`: the stored text of such a record is read as that record.
-/

namespace Decompile

open Ron
open Timestamp (read_bind)

/-- The year of the point in time is one that a date may lie in. -/
def Timestamp.Dated (t : Timestamp) : Prop := yearInRange t.date.year = true

/-- The years of the record are some that dates may lie in. -/
structure JobRecord.Dated (r : JobRecord) : Prop where
  created : r.created.Dated
  updated : r.updated.Dated

/-! ## Records have a stored form -/

theorem InputType.isCase_word (t : InputType) : IsCase t.word := by cases t <;> decide

theorem StageKind.isCase_word (k : StageKind) : IsCase k.word := by cases k <;> decide

theorem StageState.isCase_word (s : StageState) : IsCase s.word := by cases s <;> decide

theorem Outcome.isCase_word (o : Outcome) : IsCase o.word := by cases o <;> decide

theorem Backend.isCase_name (b : Backend) : IsCase b.name := by cases b <;> decide

theorem Submission.storable_toValue (s : Submission) : s.toValue.Storable := by
  refine ⟨List.cons_ne_nil _ _, ?_⟩
  simp only [FieldsStorable, Value.Storable, Value.ofNat, s.inputType.isCase_word, true_and, and_true]
  decide

/-- What stages are stored as has a stored form, and is not deep. -/
theorem StageRecord.storable_toValues (ss : List StageRecord) :
    AllStorable (ss.map toValue) ∧ heightAll (ss.map toValue) ≤ 1 := by
  induction ss with
  | nil => exact ⟨trivial, Nat.zero_le 1⟩
  | cons s ss ih =>
    obtain ⟨hstorable, hheight⟩ := ih
    refine ⟨⟨⟨List.cons_ne_nil _ _, ?_⟩, hstorable⟩, Nat.max_le.mpr ⟨Nat.le_refl 1, hheight⟩⟩
    simp only [FieldsStorable, Value.Storable, s.kind.isCase_word, s.state.isCase_word, true_and,
      and_true]
    decide

theorem JobRecord.storable_toValue (r : JobRecord) :
    r.toValue.Storable ∧ r.toValue.height ≤ nestingLimit := by
  obtain ⟨hstages, hheight⟩ := StageRecord.storable_toValues r.stages
  constructor
  · refine ⟨List.cons_ne_nil _ _, ?_⟩
    have houtcome : (Value.option (r.outcome.map fun o => .word o.word)).Storable := by
      cases r.outcome with
      | none => exact trivial
      | some o => exact o.isCase_word
    simp only [FieldsStorable, Value.Storable, Timestamp.toValue, r.backend.isCase_name, hstages,
      r.submission.storable_toValue, houtcome, true_and, and_true]
    decide
  · have houtcome : (Value.option (r.outcome.map fun o => .word o.word)).height ≤ 1 := by
      cases r.outcome with
      | none => decide
      | some o => exact Nat.le_refl 1
    simp [JobRecord.toValue, Value.height, heightFields, Timestamp.toValue, Submission.toValue,
      Value.ofNat, nestingLimit] at houtcome ⊢
    omega

/-! ## What is stored is understood -/

/-- A text that asks for nothing special. -/
def plainExtensions : Extensions := ⟨false, false⟩

/-- Fields are given once if their names are different. -/
theorem givenOnce_of_names {fs : List (String × Value)} {names : List String}
    (hfs : fs.map Prod.fst = names) (hnames : names.Nodup) : givenOnce names fs = true := by
  refine List.all_eq_true.mpr fun n _ => decide_eq_true ?_
  have hcount : (fs.filter fun f => f.1 == n).length = names.count n := by
    rw [← hfs, ← List.countP_eq_length_filter, List.count, List.countP_map]
    rfl
  rw [hcount]
  exact List.nodup_iff_count_le_one.mp hnames n

/-- A number is read as one of a type that has it. -/
theorem asNat_ofNat {n bound : Nat} (hn : n < bound) (type : String) :
    (Value.ofNat n).asNat type bound = some n := by
  simp [Value.ofNat, Value.asNat, hn]

/-- The fields of a structure are all there, each once, and the reading goes on. -/
theorem read_guard {names : List String} {fs : List (String × Value)} {β : Type}
    {f : Unit → Option β} {b : Option β} (hfs : fs.map Prod.fst = names) (hnames : names.Nodup)
    (hf : f () = b) :
    (if (!givenOnce names fs) = true then none >>= f else f ()) = b := by
  rw [givenOnce_of_names hfs hnames]
  exact hf

theorem Submission.ofValue?_toValue (s : Submission) :
    ofValue? plainExtensions s.toValue.unnamed = some s := by
  have hattempts : (Value.ofNat s.maxAttempts.toNat).asNat "u32" UInt32.size = some _ :=
    asNat_ofNat s.maxAttempts.toNat_lt "u32"
  have hchunk : (Value.ofNat s.chunkSize.toNat).asNat "u64" UInt64.size = some _ :=
    asNat_ofNat s.chunkSize.toNat_lt "u64"
  have hthreshold : (Value.ofNat s.memoryThreshold.toNat).asNat "u8" 256 = some _ :=
    asNat_ofNat s.memoryThreshold.toNat_lt "u8"
  refine read_bind rfl (read_guard rfl (by decide) ?_)
  refine read_bind rfl (read_bind rfl ?_)
  refine read_bind rfl (read_bind rfl ?_)
  refine read_bind rfl (read_bind hattempts ?_)
  refine read_bind rfl (read_bind hchunk ?_)
  refine read_bind rfl (read_bind hthreshold ?_)
  refine read_bind rfl (read_bind rfl ?_)
  refine read_bind rfl (read_bind rfl ?_)
  refine read_bind rfl (read_bind rfl ?_)
  refine read_bind rfl (read_bind rfl ?_)
  refine read_bind rfl (read_bind (InputType.ofWord?_word s.inputType) ?_)
  simp

theorem StageRecord.ofValue?_toValue (s : StageRecord) :
    ofValue? plainExtensions s.toValue.unnamed = some s := by
  refine read_bind rfl (read_guard rfl (by decide) ?_)
  refine read_bind rfl (read_bind (StageKind.ofWord?_word s.kind) ?_)
  exact read_bind rfl (read_bind (StageState.ofWord?_word s.state) rfl)

theorem StageRecord.mapM_ofValue? (ss : List StageRecord) :
    (unnamedAll (ss.map toValue)).mapM (ofValue? plainExtensions) = some ss := by
  induction ss with
  | nil => rfl
  | cons s ss ih =>
    rw [List.map_cons, unnamedAll, List.mapM_cons]
    exact read_bind s.ofValue?_toValue (read_bind ih rfl)

theorem Timestamp.ofValue?_toValue {t : Timestamp} (ht : t.Dated) : ofValue? t.toValue = some t := by
  refine read_bind (a := String.ofList t.render) rfl ?_
  rw [String.toList_ofList, read?_render ht]

theorem JobRecord.outcomeOf?_toValue (o : Option Outcome) :
    outcomeOf? plainExtensions (some (Value.option (o.map fun o => .word o.word)).unnamed) =
      some o := by
  cases o with
  | none => rfl
  | some o => exact read_bind rfl (read_bind (Outcome.ofWord?_word o) rfl)

theorem JobRecord.ofValue?_toValue {r : JobRecord} (hr : r.Dated) :
    ofValue? plainExtensions r.toValue.unnamed = some r := by
  refine read_bind rfl (read_guard rfl (by decide) ?_)
  refine read_bind rfl (read_bind r.submission.ofValue?_toValue ?_)
  refine read_bind rfl (read_bind (Backend.ofWord?_name r.backend) ?_)
  refine read_bind rfl (read_bind rfl (read_bind (StageRecord.mapM_ofValue? r.stages) ?_))
  refine read_bind (outcomeOf?_toValue r.outcome) ?_
  refine read_bind rfl (read_bind rfl ?_)
  refine read_bind rfl (read_bind (Timestamp.ofValue?_toValue hr.created) ?_)
  exact read_bind rfl (read_bind (Timestamp.ofValue?_toValue hr.updated) rfl)

/-- **The stored text of a record is read as that record.** -/
theorem JobRecord.read?_render {r : JobRecord} (hr : r.Dated) : read? r.render = some r := by
  obtain ⟨hstorable, hheight⟩ := r.storable_toValue
  have hread := Ron.read_render hstorable hheight
  refine read_bind (a := (plainExtensions, r.toValue.unnamed)) ?_ (ofValue?_toValue hr)
  rw [render, String.toList_ofList, hread]
  rfl

end Decompile
