import Decompile.Proofs.Disk.Anchored
import Mathlib.Data.List.Induction
import Mathlib.Data.List.Nodup

/-!
# What is written and what is left alone

- `Disk.Untouched`: a place at which nothing happened, except perhaps that a directory was made where
  nothing was.
- `lastWrite`: the contents that a row of writes leaves at a place; `writesBelow`: the same writes
  below a directory.
- `Disk.Written`: the files of a row of writes have the contents written last, and all other places
  are untouched. Some places may be left open, for what was begun and not finished.
- `Written.append`, `Written.leave`: two rows of writes, and what may happen between them.
-/

namespace Decompile

namespace Disk

variable {d d' d'' : Disk} {q : Place}

/-- Nothing happened at the place, except perhaps that a directory was made where nothing was. -/
def Untouched (d d' : Disk) (q : Place) : Prop :=
  d'.find? q = d.find? q ∨ d.find? q = none ∧ d'.find? q = some .directory

namespace Untouched

theorem refl (d : Disk) (q : Place) : d.Untouched d q := .inl rfl

theorem trans (h : d.Untouched d' q) (h' : d'.Untouched d'' q) : d.Untouched d'' q := by
  rcases h with h | ⟨hnone, hdirectory⟩
  · rcases h' with h' | ⟨hnone, hdirectory⟩
    · exact .inl (h'.trans h)
    · exact .inr ⟨h ▸ hnone, hdirectory⟩
  · rcases h' with h' | ⟨hnone', -⟩
    · exact .inr ⟨hnone, h'.trans hdirectory⟩
    · rw [hdirectory] at hnone'
      cases hnone'

/-- What stands at such a place stays. -/
theorem some (h : d.Untouched d' q) {e : Entry} (he : d.find? q = .some e) :
    d'.find? q = .some e := by
  rcases h with h | ⟨hnone, -⟩
  · rw [h, he]
  · rw [hnone] at he
    cases he

/-- A file at such a place has been there. -/
theorem file_iff (h : d.Untouched d' q) {b : Bytes} {x : Bool} :
    d'.find? q = .some (.file b x) ↔ d.find? q = .some (.file b x) := by
  refine ⟨fun hfile => ?_, h.some⟩
  rcases h with h | ⟨-, hdirectory⟩
  · rw [← h, hfile]
  · rw [hdirectory] at hfile
    cases hfile

end Untouched

/-- The contents of the file at a place; none if there is no file. -/
def contents (d : Disk) (q : Place) : Bytes :=
  match d.find? q with
  | some (.file b _) => b
  | _ => []

theorem contents_of_find? {b : Bytes} {x : Bool} (hq : d.find? q = some (.file b x)) :
    d.contents q = b := by
  rw [contents, hq]

theorem Untouched.contents (h : d.Untouched d' q) : d'.contents q = d.contents q := by
  rcases h with h | ⟨hnone, hdirectory⟩
  · rw [Disk.contents, Disk.contents, h]
  · rw [Disk.contents, Disk.contents, hnone, hdirectory]

/-! ## Writes -/

end Disk

/-- The contents that a row of writes leaves at a place, if it writes there. -/
def lastWrite (ws : List (Place × Bytes)) (q : Place) : Option Bytes := ws.reverse.lookup q

section

variable {ws vs : List (Place × Bytes)} {q : Place} {b : Bytes}

@[simp] theorem lastWrite_nil (q : Place) : lastWrite [] q = none := rfl

theorem lastWrite_append (ws vs : List (Place × Bytes)) (q : Place) :
    lastWrite (ws ++ vs) q = (lastWrite vs q).or (lastWrite ws q) := by
  rw [lastWrite, List.reverse_append, List.lookup_append]
  rfl

theorem lastWrite_singleton (p q : Place) (b : Bytes) :
    lastWrite [(p, b)] q = if q = p then some b else none := by
  rw [lastWrite, List.reverse_singleton, List.lookup_cons, List.lookup_nil]
  by_cases hq : q = p
  · simp [hq]
  · rw [if_neg hq, beq_eq_false_iff_ne.mpr hq]

theorem mem_of_lastWrite (h : lastWrite ws q = some b) : (q, b) ∈ ws := by
  induction ws using List.reverseRecOn with
  | nil => cases h
  | append_singleton ws w ih =>
    obtain ⟨p, c⟩ := w
    rw [lastWrite_append, lastWrite_singleton] at h
    split at h
    · next hq =>
      obtain rfl := Option.some.inj h
      rw [hq]
      exact List.mem_append_right _ List.mem_cons_self
    · exact List.mem_append_left _ (ih h)

theorem lastWrite_ne_none (h : (q, b) ∈ ws) : lastWrite ws q ≠ none := by
  induction ws using List.reverseRecOn with
  | nil => cases h
  | append_singleton ws w ih =>
    rw [lastWrite_append, lastWrite_singleton]
    split
    · nofun
    · next hq =>
      rcases List.mem_append.mp h with h | h
      · exact ih h
      · obtain ⟨rfl, -⟩ := Prod.mk.inj (List.mem_singleton.mp h)
        exact absurd rfl hq

/-- Of a row that writes to each place once every write counts. -/
theorem lastWrite_of_mem (hws : (ws.map Prod.fst).Nodup) (h : (q, b) ∈ ws) :
    lastWrite ws q = some b := by
  cases hlast : lastWrite ws q with
  | none => exact absurd hlast (lastWrite_ne_none h)
  | some c =>
    have hsame := List.inj_on_of_nodup_map hws (mem_of_lastWrite hlast) h rfl
    rw [(Prod.mk.inj hsame).2]

theorem lastWrite_eq_some_iff (hws : (ws.map Prod.fst).Nodup) :
    lastWrite ws q = some b ↔ (q, b) ∈ ws :=
  ⟨mem_of_lastWrite, lastWrite_of_mem hws⟩

/-- Writes below a directory. -/
def writesBelow (dir : Place) (ws : List (Place × Bytes)) : List (Place × Bytes) :=
  ws.map fun w => (dir ++ w.1, w.2)

theorem writesBelow_append (dir : Place) (ws vs : List (Place × Bytes)) :
    writesBelow dir (ws ++ vs) = writesBelow dir ws ++ writesBelow dir vs :=
  List.map_append

theorem lastWrite_writesBelow (dir : Place) (ws : List (Place × Bytes)) (q : Place) :
    lastWrite (writesBelow dir ws) (dir ++ q) = lastWrite ws q := by
  induction ws using List.reverseRecOn with
  | nil => rfl
  | append_singleton ws w ih =>
    rw [writesBelow_append, lastWrite_append, lastWrite_append, ih]
    show (lastWrite [(dir ++ w.1, w.2)] (dir ++ q)).or _ = (lastWrite [(w.1, w.2)] q).or _
    rw [lastWrite_singleton, lastWrite_singleton]
    congr 1
    exact if_congr (List.append_right_inj dir) rfl rfl

theorem lastWrite_writesBelow_of_ne {dir q : Place} (ws : List (Place × Bytes))
    (hq : ∀ rest, q ≠ dir ++ rest) : lastWrite (writesBelow dir ws) q = none := by
  cases hlast : lastWrite (writesBelow dir ws) q with
  | none => rfl
  | some b =>
    obtain ⟨w, -, hw⟩ := List.mem_map.mp (mem_of_lastWrite hlast)
    exact absurd (Prod.mk.inj hw).1.symm (hq w.1)

end

namespace Disk

/-- The files of a row of writes have the contents that were written last, and all other places are
untouched. Nothing is said of the places that are left `loose`. -/
structure Written (loose : Place → Prop) (ws : List (Place × Bytes)) (d d' : Disk) : Prop where
  wrote : ∀ q b, ¬ loose q → lastWrite ws q = some b → ∃ x, d'.find? q = some (.file b x)
  others : ∀ q, ¬ loose q → lastWrite ws q = none → d.Untouched d' q

/-- No place is left loose. -/
abbrev Wrote : List (Place × Bytes) → Disk → Disk → Prop := Written fun _ => False

namespace Written

variable {loose : Place → Prop} {ws vs : List (Place × Bytes)} {d d' d'' : Disk}

theorem nil (h : ∀ q, ¬ loose q → d.Untouched d' q) : Written loose [] d d' :=
  ⟨fun _ _ _ hlast => absurd hlast nofun, fun q hloose _ => h q hloose⟩

theorem refl (d : Disk) : Written loose [] d d := .nil fun q _ => .refl d q

theorem mono {looser : Place → Prop} (h : Written loose ws d d')
    (hloose : ∀ q, loose q → looser q) : Written looser ws d d' :=
  ⟨fun q b hq => h.wrote q b fun hl => hq (hloose q hl), fun q hq => h.others q fun hl =>
    hq (hloose q hl)⟩

/-- What happens at loose places only. -/
theorem leave (h : Written loose ws d d') (h' : ∀ q, ¬ loose q → d'.Untouched d'' q) :
    Written loose ws d d'' := by
  refine ⟨fun q b hq hlast => ?_, fun q hq hlast => (h.others q hq hlast).trans (h' q hq)⟩
  obtain ⟨x, hx⟩ := h.wrote q b hq hlast
  exact ⟨x, (h' q hq).some hx⟩

/-- One file that was written, and nothing else. -/
theorem single {p : Place} {b : Bytes} {x : Bool} (hfile : d'.find? p = Option.some (.file b x))
    (hothers : ∀ q, q ≠ p → d'.find? q = d.find? q) : Wrote [(p, b)] d d' := by
  constructor
  · intro q c _ hlast
    rw [lastWrite_singleton] at hlast
    split at hlast
    · next hq =>
      obtain rfl := Option.some.inj hlast
      exact ⟨x, hq ▸ hfile⟩
    · cases hlast
  · intro q _ hlast
    rw [lastWrite_singleton] at hlast
    split at hlast
    · cases hlast
    · next hq => exact .inl (hothers q hq)

/-- A second row of writes settles the places that the first one has left loose. -/
theorem append (h : Written loose ws d d') (h' : Wrote vs d' d'')
    (hloose : ∀ q, loose q → lastWrite vs q ≠ none) : Wrote (ws ++ vs) d d'' := by
  constructor
  · intro q b _ hlast
    rw [lastWrite_append] at hlast
    cases hvs : lastWrite vs q with
    | some c =>
      rw [hvs] at hlast
      obtain rfl : c = b := Option.some.inj hlast
      exact h'.wrote q c id hvs
    | none =>
      rw [hvs] at hlast
      obtain ⟨x, hx⟩ := h.wrote q b (fun hl => hloose q hl hvs) hlast
      exact ⟨x, (h'.others q id hvs).some hx⟩
  · intro q _ hlast
    rw [lastWrite_append, Option.or_eq_none_iff] at hlast
    exact (h.others q (fun hl => hloose q hl hlast.1) hlast.2).trans (h'.others q id hlast.1)

theorem comp (h : Wrote ws d d') (h' : Wrote vs d' d'') : Wrote (ws ++ vs) d d'' :=
  h.append h' nofun

/-- What was there and was not written to is there. -/
theorem some (h : Written loose ws d d') {q : Place} (hq : ¬ loose q) (hws : lastWrite ws q = none)
    {e : Entry} (he : d.find? q = .some e) : d'.find? q = .some e :=
  (h.others q hq hws).some he

/-- The files that are there afterwards. -/
theorem file_iff (h : Wrote ws d d') {q : Place} {b : Bytes} :
    (∃ x, d'.find? q = .some (.file b x)) ↔
      lastWrite ws q = .some b ∨ lastWrite ws q = none ∧ ∃ x, d.find? q = .some (.file b x) := by
  cases hlast : lastWrite ws q with
  | some c =>
    obtain ⟨x, hx⟩ := h.wrote q c id hlast
    constructor
    · rintro ⟨y, hy⟩
      rw [hx] at hy
      obtain ⟨rfl, -⟩ := Entry.file.inj (Option.some.inj hy)
      exact .inl rfl
    · rintro (heq | ⟨hnone, -⟩)
      · obtain rfl := Option.some.inj heq
        exact ⟨x, hx⟩
      · cases hnone
  | none =>
    have huntouched := h.others q id hlast
    constructor
    · rintro ⟨x, hx⟩
      exact .inr ⟨rfl, x, huntouched.file_iff.mp hx⟩
    · rintro (heq | ⟨-, x, hx⟩)
      · cases heq
      · exact ⟨x, huntouched.file_iff.mpr hx⟩

end Written

end Disk

end Decompile
