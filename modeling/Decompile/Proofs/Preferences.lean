import Decompile.Preferences
import Decompile.Proofs.Record.Storage
import Decompile.Proofs.Unpacking.Directories

/-!
# Preferences are loaded field by field

A stored text may list any of the fields, in any order and among others. Each field is loaded on its
own: as it is listed, or as the default. A text that cannot be understood gives nothing but defaults.

- `Admits`, `Listed`: the fields of a text, each at most once and with a value of its type.
- `Merges`: preferences in which every field is the listed one or the default.
- `Writable`: a storage to which a file of the name can be moved.
- `LoadLaw`: what a stored text gives, whatever it is.
- `load_law`: what was saved is loaded, and every stored text is loaded by that law.
-/

namespace Decompile.Preferences

open Timestamp (read_bind)

/-! ## Fields and their values -/

/-- The value is the text. -/
def IsText (v : Ron.Value) (s : String) : Prop := v = .text s

/-- The value is the truth value. -/
def IsBool (v : Ron.Value) (b : Bool) : Prop := v = .bool b

/-- The value is a number of a type that has the numbers below `bound`. The type may stand behind it,
and a byte may be written as one. -/
def IsNumber (type : String) (bound : Nat) (v : Ron.Value) (n : Nat) : Prop :=
  n < bound ∧ ∃ m : Ron.Numeral, v = .number m ∧ m.magnitude = n ∧ (m.negative = false ∨ n = 0) ∧
    (m.suffix = "" ∨ m.suffix = type ∨ m.suffix = "byte" ∧ type = "u8")

/-- What a field takes. -/
inductive FieldType where
  | text
  | bool
  | number (type : String) (bound : Nat)
  deriving DecidableEq, Repr

/-- The fields, with what they take. -/
def fieldTypes : List (String × FieldType) :=
  [("decompiler_backend", .text), ("max_attempts", .number "u32" UInt32.size),
   ("chunk_size", .number "u64" UInt64.size), ("memory_threshold", .number "u8" 256),
   ("ignore_libraries", .bool), ("keep_intermediate_files", .bool),
   ("runtime_version", .number "u32" UInt32.size)]

/-- The value is one that the field takes. -/
def FieldType.Admits : FieldType → Ron.Value → Prop
  | text, v => ∃ s, IsText v s
  | bool, v => ∃ b, IsBool v b
  | number type bound, v => ∃ n, IsNumber type bound v n

/-- Each field is listed at most once, and with a value that it takes. What other fields are listed is
left open. -/
structure Listed (fs : List (String × Ron.Value)) : Prop where
  once : ∀ f ∈ fieldTypes, (fs.map Prod.fst).count f.1 ≤ 1
  admitted : ∀ f ∈ fieldTypes, ∀ v, (f.1, v) ∈ fs → f.2.Admits v

/-- A field is the listed one, or the default if none is listed. -/
structure Takes {α : Type} (fs : List (String × Ron.Value)) (name : String)
    (means : Ron.Value → α → Prop) (default x : α) : Prop where
  listed : ∀ v, (name, v) ∈ fs → means v x
  missing : name ∉ fs.map Prod.fst → x = default

/-- Every field is the listed one, or the default. -/
structure Merges (fs : List (String × Ron.Value)) (p : Preferences) : Prop where
  backend : Takes fs "decompiler_backend" IsText default.backend p.backend
  maxAttempts : Takes fs "max_attempts" (fun v n => IsNumber "u32" UInt32.size v n.toNat)
    default.maxAttempts p.maxAttempts
  chunkSize : Takes fs "chunk_size" (fun v n => IsNumber "u64" UInt64.size v n.toNat)
    default.chunkSize p.chunkSize
  memoryThreshold : Takes fs "memory_threshold" (fun v n => IsNumber "u8" 256 v n.toNat)
    default.memoryThreshold p.memoryThreshold
  ignoreLibraries : Takes fs "ignore_libraries" IsBool default.ignoreLibraries p.ignoreLibraries
  keepIntermediate : Takes fs "keep_intermediate_files" IsBool default.keepIntermediate p.keepIntermediate
  runtime : Takes fs "runtime_version" (fun v n => IsNumber "u32" UInt32.size v n.toNat)
    default.runtime p.runtime

variable {fs : List (String × Ron.Value)} {v : Ron.Value} {name : String}

/-! ## Values -/

theorem asText_eq_some_iff {s : String} : v.asText = some s ↔ IsText v s := by
  cases v <;> simp [Ron.Value.asText, IsText]

theorem asBool_eq_some_iff {b : Bool} : v.asBool = some b ↔ IsBool v b := by
  cases v <;> simp [Ron.Value.asBool, IsBool]

theorem asNat_eq_some_iff {type : String} {bound n : Nat} :
    v.asNat type bound = some n ↔ IsNumber type bound v n := by
  cases v with
  | number m =>
    simp only [Ron.Value.asNat, IsNumber, Ron.Value.number.injEq, exists_eq_left', Bool.not_eq_eq_eq_not,
      Bool.not_true, Option.ite_none_right_eq_some, Option.some_inj]
    constructor
    · rintro ⟨⟨hsuffix, hsign, hbound⟩, rfl⟩
      exact ⟨hbound, rfl, hsign, hsuffix⟩
    · rintro ⟨hbound, rfl, hsign, hsuffix⟩
      exact ⟨⟨hsuffix, hsign, hbound⟩, rfl⟩
  | _ => simp [Ron.Value.asNat, IsNumber]

/-! ## Fields -/

theorem field?_eq_some_of_mem (hv : (name, v) ∈ fs) (honce : (fs.map Prod.fst).count name ≤ 1) :
    Ron.field? name fs = some v := by
  induction fs with
  | nil => cases hv
  | cons f fs ih =>
    rw [List.map_cons, List.count_cons] at honce
    by_cases hf : f.1 = name
    · rw [if_pos (beq_iff_eq.mpr hf)] at honce
      have hnone : name ∉ fs.map Prod.fst := List.count_eq_zero.mp (by omega)
      rcases List.mem_cons.mp hv with rfl | hmem
      · simp [Ron.field?]
      · exact absurd (List.mem_map_of_mem hmem) hnone
    · rw [if_neg fun h => hf (beq_iff_eq.mp h)] at honce
      rcases List.mem_cons.mp hv with rfl | hmem
      · exact absurd rfl hf
      · have hrest := ih hmem honce
        rw [Ron.field?] at hrest ⊢
        rwa [List.find?_cons_of_neg (by simpa using hf)]

theorem field?_eq_none_iff : Ron.field? name fs = none ↔ name ∉ fs.map Prod.fst := by
  rw [Ron.field?, Option.map_eq_none_iff, List.find?_eq_none, List.mem_map]
  refine ⟨fun h hmem => ?_, fun h f hf heq => h ⟨f, hf, beq_iff_eq.mp heq⟩⟩
  obtain ⟨f, hf, heq⟩ := hmem
  exact h f hf (beq_iff_eq.mpr heq)

theorem mem_of_field? (h : Ron.field? name fs = some v) : (name, v) ∈ fs := by
  obtain ⟨⟨n, u⟩, hfind, rfl⟩ := Option.map_eq_some_iff.mp h
  obtain rfl : n = name := by simpa using List.find?_some hfind
  exact List.mem_of_find?_eq_some hfind

/-- A field that is listed once is loaded as it is listed, or as the default. -/
theorem takes_of_fieldOr {α : Type} {as : Ron.Value → Option α} {means : Ron.Value → α → Prop}
    (hmeans : ∀ v x, as v = some x → means v x) {given x : α} (honce : (fs.map Prod.fst).count name ≤ 1)
    (h : fieldOr fs name given as = some x) : Takes fs name means given x := by
  refine ⟨fun v hv => ?_, fun hnone => ?_⟩
  · rw [fieldOr, field?_eq_some_of_mem hv honce] at h
    exact hmeans v x h
  · rw [fieldOr, field?_eq_none_iff.mpr hnone] at h
    exact (Option.some.inj h).symm

theorem fieldOr_isSome {α : Type} {as : Ron.Value → Option α}
    (hv : ∀ v, (name, v) ∈ fs → ∃ x, as v = some x) (given : α) : ∃ x, fieldOr fs name given as = some x := by
  cases hfield : Ron.field? name fs with
  | none => exact ⟨given, by rw [fieldOr, hfield]⟩
  | some v =>
    obtain ⟨x, hx⟩ := hv v (mem_of_field? hfield)
    exact ⟨x, by rw [fieldOr, hfield, ← hx]⟩

/-- The same of a field that takes numbers, which are kept in a machine word. -/
theorem takes_of_number {α : Type} {ofNat : Nat → α} {toNat : α → Nat} {type : String} {bound : Nat}
    (hto : ∀ n, n < bound → toNat (ofNat n) = n) (hof : ∀ x, ofNat (toNat x) = x)
    {given : α} {n : Nat} (honce : (fs.map Prod.fst).count name ≤ 1)
    (h : fieldOr fs name (toNat given) (Ron.Value.asNat type bound) = some n) :
    Takes fs name (fun v x => IsNumber type bound v (toNat x)) given (ofNat n) := by
  have htakes := takes_of_fieldOr (fun v x => asNat_eq_some_iff.mp) honce h
  refine ⟨fun v hv => ?_, fun hnone => ?_⟩
  · have hn := htakes.listed v hv
    rwa [hto n hn.1]
  · rw [htakes.missing hnone, hof]

/-! ## Whole texts -/

/-- The names of the fields. -/
def fieldNames : List String := fieldTypes.map Prod.fst

/-- What it takes that fields are understood. -/
theorem ofValue?_eq_some_iff {e : Ron.Extensions} {p : Preferences} : ofValue? e v = some p ↔
    ∃ fs, v.asFields e "Preferences" = some fs ∧ Ron.givenOnce fieldNames fs = true ∧
      ∃ b a c m i k r,
        fieldOr fs "decompiler_backend" default.backend Ron.Value.asText = some b ∧
        fieldOr fs "max_attempts" default.maxAttempts.toNat (Ron.Value.asNat "u32" UInt32.size) = some a ∧
        fieldOr fs "chunk_size" default.chunkSize.toNat (Ron.Value.asNat "u64" UInt64.size) = some c ∧
        fieldOr fs "memory_threshold" default.memoryThreshold.toNat (Ron.Value.asNat "u8" 256) = some m ∧
        fieldOr fs "ignore_libraries" default.ignoreLibraries Ron.Value.asBool = some i ∧
        fieldOr fs "keep_intermediate_files" default.keepIntermediate Ron.Value.asBool = some k ∧
        fieldOr fs "runtime_version" default.runtime.toNat (Ron.Value.asNat "u32" UInt32.size) = some r ∧
        ⟨b, .ofNat a, .ofNat c, .ofNat m, i, k, .ofNat r⟩ = p := by
  unfold ofValue?
  simp only [Option.bind_eq_bind, Option.bind_eq_some_iff]
  refine exists_congr fun fs => and_congr_right fun _ => ?_
  have hnames : Ron.givenOnce ["decompiler_backend", "max_attempts", "chunk_size", "memory_threshold",
    "ignore_libraries", "keep_intermediate_files", "runtime_version"] fs = Ron.givenOnce fieldNames fs := rfl
  rw [hnames]
  cases Ron.givenOnce fieldNames fs with
  | false => simp
  | true =>
    simp only [Bool.not_true, Bool.false_eq_true, if_false, Option.bind_eq_some_iff, Option.pure_def,
      Option.some_inj, exists_and_left, true_and]

theorem givenOnce_iff : Ron.givenOnce fieldNames fs = true ↔
    ∀ f ∈ fieldTypes, (fs.map Prod.fst).count f.1 ≤ 1 := by
  have hcount : ∀ n, (fs.filter fun f => f.1 == n).length = (fs.map Prod.fst).count n := fun n => by
    rw [← List.countP_eq_length_filter, List.count, List.countP_map]
    rfl
  rw [Ron.givenOnce, fieldNames, List.all_map, List.all_eq_true]
  refine forall_congr' fun f => imp_congr_right fun _ => ?_
  rw [Function.comp_apply, decide_eq_true_eq, hcount]

/-- Fields that are listed are understood, each on its own. -/
theorem ofValue?_of_listed {e : Ron.Extensions} (hfields : v.asFields e "Preferences" = some fs)
    (hfs : Listed fs) : ∃ p, ofValue? e v = some p ∧ Merges fs p := by
  have hgiven := givenOnce_iff.mpr hfs.once
  obtain ⟨honce, hadmitted⟩ := hfs
  simp only [fieldTypes, List.forall_mem_cons, List.not_mem_nil, false_implies, implies_true, and_true,
    FieldType.Admits, ← asText_eq_some_iff, ← asBool_eq_some_iff, ← asNat_eq_some_iff] at honce hadmitted
  obtain ⟨onceB, onceA, onceC, onceM, onceI, onceK, onceR⟩ := honce
  obtain ⟨someB, someA, someC, someM, someI, someK, someR⟩ := hadmitted
  obtain ⟨b, hb⟩ := fieldOr_isSome someB default.backend
  obtain ⟨a, ha⟩ := fieldOr_isSome someA default.maxAttempts.toNat
  obtain ⟨c, hc⟩ := fieldOr_isSome someC default.chunkSize.toNat
  obtain ⟨m, hm⟩ := fieldOr_isSome someM default.memoryThreshold.toNat
  obtain ⟨i, hi⟩ := fieldOr_isSome someI default.ignoreLibraries
  obtain ⟨k, hk⟩ := fieldOr_isSome someK default.keepIntermediate
  obtain ⟨r, hr⟩ := fieldOr_isSome someR default.runtime.toNat
  refine ⟨_, ofValue?_eq_some_iff.mpr ⟨fs, hfields, hgiven, b, a, c, m, i, k, r, hb, ha, hc, hm, hi, hk, hr,
    rfl⟩, ?_⟩
  exact {
    backend := takes_of_fieldOr (fun _ _ => asText_eq_some_iff.mp) onceB hb
    maxAttempts := takes_of_number (fun _ => UInt32.toNat_ofNat_of_lt') (fun _ => UInt32.ofNat_toNat) onceA ha
    chunkSize := takes_of_number (fun _ => UInt64.toNat_ofNat_of_lt') (fun _ => UInt64.ofNat_toNat) onceC hc
    memoryThreshold := takes_of_number (fun _ => UInt8.toNat_ofNat_of_lt') (fun _ => UInt8.ofNat_toNat) onceM hm
    ignoreLibraries := takes_of_fieldOr (fun _ _ => asBool_eq_some_iff.mp) onceI hi
    keepIntermediate := takes_of_fieldOr (fun _ _ => asBool_eq_some_iff.mp) onceK hk
    runtime := takes_of_number (fun _ => UInt32.toNat_ofNat_of_lt') (fun _ => UInt32.ofNat_toNat) onceR hr }

/-- A field that is listed once takes its value, if fields are understood. -/
theorem admits_of_fieldOr {α : Type} {as : Ron.Value → Option α} {t : FieldType}
    (ht : ∀ v x, as v = some x → t.Admits v) {given x : α} (honce : (fs.map Prod.fst).count name ≤ 1)
    (h : fieldOr fs name given as = some x) (v : Ron.Value) (hv : (name, v) ∈ fs) : t.Admits v :=
  have htakes : Takes fs name (fun v _ => t.Admits v) given x := takes_of_fieldOr ht honce h
  htakes.listed v hv

/-- Nothing else is understood. -/
theorem listed_of_ofValue? {e : Ron.Extensions} {p : Preferences} (h : ofValue? e v = some p) :
    ∃ fs, v.asFields e "Preferences" = some fs ∧ Listed fs := by
  obtain ⟨fs, hfields, hgiven, b, a, c, m, i, k, r, hb, ha, hc, hm, hi, hk, hr, -⟩ :=
    ofValue?_eq_some_iff.mp h
  have honce := givenOnce_iff.mp hgiven
  refine ⟨fs, hfields, honce, ?_⟩
  simp only [fieldTypes, List.forall_mem_cons, List.not_mem_nil, false_implies, implies_true, and_true]
    at honce ⊢
  obtain ⟨onceB, onceA, onceC, onceM, onceI, onceK, onceR⟩ := honce
  have htext : ∀ v x, Ron.Value.asText v = some x → FieldType.text.Admits v :=
    fun _ x hx => ⟨x, asText_eq_some_iff.mp hx⟩
  have hbool : ∀ v x, Ron.Value.asBool v = some x → FieldType.bool.Admits v :=
    fun _ x hx => ⟨x, asBool_eq_some_iff.mp hx⟩
  have hnumber : ∀ type bound v x, Ron.Value.asNat type bound v = some x →
      (FieldType.number type bound).Admits v := fun _ _ _ x hx => ⟨x, asNat_eq_some_iff.mp hx⟩
  exact ⟨admits_of_fieldOr htext onceB hb, admits_of_fieldOr (hnumber _ _) onceA ha,
    admits_of_fieldOr (hnumber _ _) onceC hc, admits_of_fieldOr (hnumber _ _) onceM hm,
    admits_of_fieldOr hbool onceI hi, admits_of_fieldOr hbool onceK hk,
    admits_of_fieldOr (hnumber _ _) onceR hr⟩

/-! ## Stored texts -/

/-- The storage holds a text under the name of the preferences. -/
def Stored (d : Disk) (cwd : Place) (storage : FilePath) (text : String) : Prop :=
  ∃ bytes, d.read cwd (storage.join ⟨fileName⟩) = .ok bytes ∧ Text.decode? bytes = some text

/-- The text is a structure with the fields. The name of the structure may stand before them. -/
def Lists (text : String) (fs : List (String × Ron.Value)) : Prop :=
  ∃ e v, Ron.read text.toList = some (e, v) ∧ v.asFields e "Preferences" = some fs

variable {d : Disk} {cwd : Place} {storage : FilePath} {text : String}

theorem load_of_read? {p : Preferences} (hstored : Stored d cwd storage text) (hp : read? text = some p) :
    (load d cwd storage).1 = p := by
  obtain ⟨bytes, hread, htext⟩ := hstored
  simp only [load, hread, htext, hp]

theorem load_of_not_read? (hstored : Stored d cwd storage text) (hp : read? text = none) :
    (load d cwd storage).1 = default := by
  obtain ⟨bytes, hread, htext⟩ := hstored
  simp only [load, hread, htext, hp]

/-- Where no text is stored, whatever the reason, there are the defaults. -/
theorem load_of_not_stored (h : ∀ text, ¬ Stored d cwd storage text) : (load d cwd storage).1 = default := by
  cases hread : d.read cwd (storage.join ⟨fileName⟩) with
  | error e =>
    simp only [load, hread]
    split <;> rfl
  | ok bytes =>
    cases htext : Text.decode? bytes with
    | none => simp only [load, hread, htext]
    | some text => exact absurd ⟨bytes, hread, htext⟩ (h text)

/-- What a storage gives, whatever it holds. -/
structure LoadLaw (d : Disk) (cwd : Place) (storage : FilePath) : Prop where
  /-- A structure is loaded field by field. -/
  listed : ∀ text fs, Stored d cwd storage text → Lists text fs → Listed fs →
    Merges fs (load d cwd storage).1
  missing : (∀ text, ¬ Stored d cwd storage text) → (load d cwd storage).1 = default
  /-- No structure, or one with a field that is given twice or has no value of its type. -/
  refused : ∀ text, Stored d cwd storage text → (∀ fs, Lists text fs → ¬ Listed fs) →
    (load d cwd storage).1 = default

theorem loadLaw (d : Disk) (cwd : Place) (storage : FilePath) : LoadLaw d cwd storage := by
  constructor
  case missing => exact load_of_not_stored
  case listed =>
    rintro text fs hstored ⟨e, v, hread, hfields⟩ hfs
    obtain ⟨p, hp, hmerges⟩ := ofValue?_of_listed hfields hfs
    have hload := load_of_read? (p := p) hstored (read_bind hread hp)
    rwa [hload]
  case refused =>
    intro text hstored hnone
    refine load_of_not_read? hstored (Option.eq_none_iff_forall_ne_some.mpr fun p hp => ?_)
    obtain ⟨⟨e, v⟩, hread, hvalue⟩ := Option.bind_eq_some_iff.mp hp
    obtain ⟨fs, hfields, hfs⟩ := listed_of_ofValue? hvalue
    exact hnone fs ⟨e, v, hread, hfields⟩ hfs

/-- Fields can be stored in any order, with any others among them. -/
theorem lists_render (hne : fs ≠ []) (hfs : Ron.FieldsStorable fs)
    (hheight : Ron.heightFields fs < Ron.nestingLimit) :
    Lists (String.ofList (Ron.render 0 (.fields none fs))) (Ron.unnamedFields fs) := by
  refine ⟨plainExtensions, .fields none (Ron.unnamedFields fs), ?_, rfl⟩
  rw [String.toList_ofList]
  exact Ron.read_render (v := .fields none fs) ⟨hne, hfs⟩ hheight

/-! ## Saving -/

theorem storable_toValue (p : Preferences) : p.toValue.Storable ∧ p.toValue.height ≤ Ron.nestingLimit := by
  refine ⟨⟨List.cons_ne_nil _ _, ?_⟩, ?_⟩
  · simp only [Ron.FieldsStorable, Ron.Value.Storable, Ron.Value.ofNat, true_and, and_true]
    decide
  · simp [toValue, Ron.Value.height, Ron.heightFields, Ron.Value.ofNat, Ron.nestingLimit]

/-- **The stored text of preferences is read as these.** -/
theorem read?_render (p : Preferences) : read? p.render = some p := by
  obtain ⟨hstorable, hheight⟩ := p.storable_toValue
  have hread := Ron.read_render hstorable hheight
  have hvalue : ofValue? plainExtensions p.toValue.unnamed = some p := by
    refine ofValue?_eq_some_iff.mpr ⟨_, rfl, givenOnce_of_names rfl (by decide), _, _, _, _, _, _, _, rfl,
      asNat_ofNat p.maxAttempts.toNat_lt "u32", asNat_ofNat p.chunkSize.toNat_lt "u64",
      asNat_ofNat p.memoryThreshold.toNat_lt "u8", rfl, rfl, asNat_ofNat p.runtime.toNat_lt "u32", ?_⟩
    simp
  refine read_bind (a := (plainExtensions, p.toValue.unnamed)) ?_ hvalue
  rw [render, String.toList_ofList, hread]
  rfl

/-- The storage can be written to: its directory, which is there or can be made, is at `base`, and no
directory of it has the name of the file. `d` is the disk once the directory is there. -/
structure Writable (h : Host) (w : World) (storage : FilePath) (d : Disk) (base : Place) : Prop where
  calm : h.Calm
  ensured : (World.ensureDirectory h storage).Comes w (.ok ()) d
  directory : d.entryAt w.cwd true storage = .ok (base, .directory)
  free : d.find? (base ++ [fileName]) ≠ some .directory

section

variable {h : Host} {w : World} {base : Place} {n : String} {bytes : Bytes}

/-- Where a name of a directory is moved to, link or not. -/
theorem locate_itself {root : FilePath} (hroot : d.entryAt cwd true root = .ok (base, .directory))
    (hn : IsEntryName n) (hshort : ¬ nameLimit < (Text.encode n).length) (hclean : '\x00' ∉ n.toList) :
    d.locate cwd false (root.join ⟨n⟩) = .ok (base ++ [n], .plain) := by
  have hp := FilePath.Continues.join (FilePath.isAbsolute_of_isEntryName hn) (Disk.clean_of_entryAt hroot) hclean
  rw [FilePath.steps_of_isEntryName hn] at hp
  obtain ⟨k, hk⟩ := Disk.locate_down hroot (List.cons_ne_nil _ _) hp false
  rw [hk, FilePath.ending_child hn]
  have hfollow : d.follow true false base [n] = .ok (.arrived (base ++ [n])) := by
    unfold Disk.follow
    rw [if_neg hn.2.2.1, if_neg hshort]
    cases hnext : d.find? (base ++ [n]) with
    | none => simp [hnext]
    | some e => cases e <;> simp [hnext, Disk.follow]
  cases k with
  | zero | succ k =>
    unfold Disk.locateFrom
    simp [hfollow]

/-- A storage that can be written to holds the file once it is stored. -/
theorem Writable.store_comes (hw : Writable h w storage d base) {u : World} (hdisk : u.disk = d)
    (hcwd : u.cwd = w.cwd) (bytes : Bytes) :
    d.planReplace w.cwd (storage.join ⟨fileName⟩) bytes = .ok (.replace (base ++ [fileName]) bytes) ∧
      (World.store h storage fileName bytes).Comes u (.ok (storage.join ⟨fileName⟩))
        (d.apply (.replace (base ++ [fileName]) bytes)) := by
  have hplan : d.planReplace w.cwd (storage.join ⟨fileName⟩) bytes =
      .ok (.replace (base ++ [fileName]) bytes) := by
    have hlocate := locate_itself hw.directory (n := fileName) (by decide) (by decide) (by decide)
    simp only [Disk.planReplace, hlocate]
    cases hfound : d.find? (base ++ [fileName]) with
    | none => rfl
    | some e =>
      cases e with
      | directory => exact absurd hfound hw.free
      | file | link => rfl
  refine ⟨hplan, ?_⟩
  have hentry : u.disk.entryAt u.cwd true storage = .ok (base, .directory) := by
    rw [hdisk, hcwd]
    exact hw.directory
  have hexists : u.disk.exists? u.cwd storage = true := by
    rw [Disk.exists?, hentry]
    rfl
  have hthere := World.ensureDirectory_there h hexists
  rw [Disk.isDirectory, hentry, if_pos rfl] at hthere
  unfold World.store
  refine hthere.bind fun x hx hxcwd => ?_
  have hreplace := World.planned_change_comes hw.calm
    (fun d cwd => d.planReplace cwd (storage.join ⟨fileName⟩) bytes) x
  rw [hx, hxcwd, hdisk, hcwd, hplan] at hreplace
  refine (hreplace.mapError PersistError.io).bind fun y hy _ => ?_
  have hdone : y.disk = d.apply (.replace (base ++ [fileName]) bytes) := hy
  rw [← hdone]
  exact .pure _ y

/-- The disk after a save. -/
theorem Writable.save (hw : Writable h w storage d base) (p : Preferences) :
    ((save h storage p).run w).2.disk = d.apply (.replace (base ++ [fileName]) (Text.encode p.render)) ∧
      ((save h storage p).run w).2.cwd = w.cwd := by
  obtain ⟨u, hensure, hdisk, hcwd⟩ := hw.ensured.run
  obtain ⟨v, hstore, hdisk', hcwd'⟩ := (hw.store_comes hdisk hcwd (Text.encode p.render)).2.run
  have hrun : (Preferences.save h storage p).run w = ((), v) := by
    unfold Preferences.save
    rw [Act.run_bind, hensure]
    simp only
    rw [Act.run_bind, hstore]
    rfl
  rw [hrun]
  exact ⟨hdisk', hcwd'.trans hcwd⟩

/-- Preferences that were saved are loaded. A link that has the name of the file is replaced and not
followed; the directory must not have been found through it. -/
theorem Writable.load_saved (hw : Writable h w storage d base) {p : Preferences} {v : World}
    (hv : ((Preferences.save h storage p).run w).2 = v)
    (hlink : ∀ t, d.find? (base ++ [fileName]) = some (.link t) → v.disk.isDirectory v.cwd storage = true) :
    (load v.disk v.cwd storage).1 = p := by
  obtain ⟨hdisk, hcwd⟩ := hw.save p
  rw [hv] at hdisk hcwd
  obtain ⟨hplan, -⟩ := hw.store_comes (u := { w with disk := d }) rfl rfl (Text.encode p.render)
  refine load_of_read? ⟨Text.encode p.render, ?_, Text.decode?_encode _⟩ (read?_render p)
  rw [hdisk, hcwd] at hlink ⊢
  by_cases hfound : ∃ t, d.find? (base ++ [fileName]) = some (.link t)
  · obtain ⟨t, ht⟩ := hfound
    exact Disk.read_of_planReplace_child (by decide) hplan (hlink t ht)
  · exact Disk.read_of_planReplace hplan fun t ht => hfound ⟨t, ht⟩

end

/-- **Preferences are kept, and loaded field by field.** What is saved to a storage that can be written
to is loaded from it; and whatever a storage holds, each field is loaded on its own from a structure,
and all else gives the defaults. -/
theorem load_law (h : Host) (storage : FilePath) :
    (∀ (p : Preferences) (w v : World) (d : Disk) (base : Place), Writable h w storage d base →
      ((save h storage p).run w).2 = v →
      (∀ t, d.find? (base ++ [fileName]) = some (.link t) → v.disk.isDirectory v.cwd storage = true) →
      (load v.disk v.cwd storage).1 = p) ∧
    ∀ (d : Disk) (cwd : Place), LoadLaw d cwd storage :=
  ⟨fun _ _ _ _ _ hw hv hlink => hw.load_saved hv hlink, fun d cwd => loadLaw d cwd storage⟩

/-- A disk that holds one entry. -/
def diskWith (name : String) (e : Entry) : Disk := Disk.empty.put [name] e

/-- A directory that is there, and in which nothing has the name of the file, can be written to. -/
theorem writable_directory : Writable (Engine.idleHost "/") (.new (diskWith "store" .directory) []) ⟨"/store"⟩
    (diskWith "store" .directory) ["store"] where
  calm _ := rfl
  ensured := World.ensureDirectory_there _ (by decide +kernel)
  directory := by decide +kernel
  free := by decide +kernel

/-- Two of the fields, among others and not in their order. -/
def someFields : List (String × Ron.Value) :=
  [("runtime_version", .ofNat 21), ("tools", .list [.text "cfr", .bool false]), ("decompiler_backend", .text "c\"fr")]

/-- A text that lists them. -/
def someText : String := String.ofList (Ron.render 0 (.fields none someFields))

theorem lists_someText : Lists someText someFields := by
  have hstorable : Ron.FieldsStorable someFields := by
    simp only [someFields, Ron.FieldsStorable, Ron.Value.Storable, Ron.AllStorable, Ron.Value.ofNat, and_true,
      true_and]
    decide
  exact lists_render (by decide) hstorable (by decide)

/-- A disk with the text. -/
def someStored : Disk := diskWith fileName (.file (Text.encode someText) false)

theorem listed_someFields : Listed someFields := by
  constructor
  · decide
  · simp [fieldTypes, someFields, FieldType.Admits, IsText, IsNumber, Ron.Value.ofNat, UInt32.size]

/-- Preferences with some values that need care are saved and loaded; and of a text that lists two of the
fields, only these are not the defaults. -/
theorem load_law_partial :
    let p : Preferences := ⟨"c\"f\r", 4294967295, 18446744073709551615, 255, false, true, 0⟩
    let v := ((save (Engine.idleHost "/") ⟨"/store"⟩ p).run (.new (diskWith "store" .directory) [])).2
    (load v.disk v.cwd ⟨"/store"⟩).1 = p ∧ Merges someFields (load someStored [] ⟨"/"⟩).1 ∧
      (load someStored [] ⟨"/"⟩).1 = { default with backend := "c\"fr", runtime := 21 } := by
  refine ⟨?_, ?_, by decide +kernel⟩
  · refine (load_law (Engine.idleHost "/") ⟨"/store"⟩).1 _ _ _ _ _ writable_directory rfl fun t ht => ?_
    have hnone : (diskWith "store" .directory).find? (["store"] ++ [fileName]) = none := by decide +kernel
    rw [hnone] at ht
    cases ht
  · have hstored : Stored someStored [] ⟨"/"⟩ someText :=
      ⟨Text.encode someText, by decide +kernel, Text.decode?_encode someText⟩
    exact ((load_law (Engine.idleHost "/") ⟨"/"⟩).2 someStored []).listed someText someFields hstored
      lists_someText listed_someFields

/-- The way to a storage may lead through a link that has the name of the file. The save replaces the
link, and the preferences are lost. -/
theorem preferences_lost_behind_link :
    let p : Preferences := { default with backend := "cfr" }
    let d := diskWith fileName (.link ".")
    let v := ((save (Engine.idleHost "/") ⟨"/preferences.ron"⟩ p).run (.new d [])).2
    Writable (Engine.idleHost "/") (.new d []) ⟨"/preferences.ron"⟩ d [] ∧
      (load v.disk v.cwd ⟨"/preferences.ron"⟩).1 = default ∧ default ≠ p := by
  refine ⟨⟨fun _ => rfl, World.ensureDirectory_there _ (by decide +kernel), by decide +kernel, by decide +kernel⟩,
    by decide +kernel, by decide⟩

end Decompile.Preferences
