import Decompile.Stage.Chunks
import Mathlib.Algebra.Group.Nat.Defs
import Mathlib.Data.List.Basic
import Mathlib.Algebra.Order.Floor.Div
import Mathlib.Data.List.Chain

/-!
# Chunks cover and partition all items

Whatever their size, the chunks of so many items lie one behind the other from the first item to the
last, and no position on the way leaves 64 bits.

- `slice_ne_nil`: no chunk is empty.
- `flatten_slices`: the chunks hold every item once, in order.
- `sliceOf`: the items of the chunk of a number.
- `Partitions`: what it means that chunks partition so many items.
- `getElem_chunksOf`: the chunk of a number, in numbers without bound.
- `chunksOf_partitions`: the chunks do so, and their items are all items.
-/

namespace Decompile

/-! ## All items, once and in order -/

section

/-- As many items as the 64 bits of a position allow for whatever the size of a chunk. -/
def itemLimit : Nat := 2 ^ 63

variable {α : Type} {items : List α} {size : UInt64}

theorem chunkStep_pos (size : UInt64) : 0 < (chunkStep size).toNat := by
  have hmax : chunkStep size = if size ≤ 1 then 1 else size := rfl
  rw [hmax]
  split
  · decide
  · next hsize => exact Nat.lt_trans (by decide) (UInt64.lt_iff_toNat_lt.mp (UInt64.not_le.mp hsize))

/-- A chunk begins before the end of the items. -/
theorem mul_lt_of_lt_chunkCount {i count : Nat} (hi : i < chunkCount count size) :
    i * (chunkStep size).toNat < count := by
  unfold chunkCount at hi
  have hpos := chunkStep_pos size
  have hmul := (Nat.le_div_iff_mul_le hpos).mp (Nat.succ_le_of_lt hi)
  rw [Nat.succ_mul] at hmul
  omega

/-- The chunks reach the end of the items. -/
theorem le_chunkCount_mul (count : Nat) (size : UInt64) :
    count ≤ chunkCount count size * (chunkStep size).toNat := by
  unfold chunkCount
  have hpos := chunkStep_pos size
  have hdiv := Nat.div_add_mod (count + ((chunkStep size).toNat - 1)) (chunkStep size).toNat
  have hmod := Nat.mod_lt (count + ((chunkStep size).toNat - 1)) hpos
  rw [Nat.mul_comm] at hdiv
  omega

/-- There are no more chunks than items. -/
theorem length_chunksOf_le (count : Nat) (size : UInt64) : (chunksOf count size).length ≤ count := by
  rw [chunksOf, List.length_map, List.length_range]
  refine Nat.le_of_not_lt fun hlt => Nat.not_lt_of_le ?_ (mul_lt_of_lt_chunkCount hlt)
  exact Nat.le_mul_of_pos_right _ (chunkStep_pos size)

/-- Positions of chunks fit into 64 bits. -/
theorem chunkEnd_eq {i count : Nat} (hcount : count ≤ itemLimit) (hi : i < chunkCount count size) :
    chunkEnd (i * (chunkStep size).toNat) (chunkStep size) =
      i * (chunkStep size).toNat + (chunkStep size).toNat := by
  have hstart := mul_lt_of_lt_chunkCount hi
  have hsize := (chunkStep size).toNat_lt
  unfold itemLimit at hcount
  unfold chunkEnd
  rw [UInt64.toNat_add, UInt64.toNat_ofNat', Nat.mod_eq_of_lt (a := i * _) (by omega)]
  refine Nat.mod_eq_of_lt ?_
  cases i with
  | zero => omega
  | succ i =>
    -- behind the first chunk the size is less than the number of items
    have hless : (chunkStep size).toNat ≤ (i + 1) * (chunkStep size).toNat :=
      Nat.le_mul_of_pos_left _ i.succ_pos
    omega

/-- The items of each chunk. -/
theorem map_slice_chunksOf (hcount : items.length ≤ itemLimit) (size : UInt64) :
    ((chunksOf items.length size).map fun c => c.slice items) =
      (List.range (chunkCount items.length size)).map fun i =>
        (items.drop (i * (chunkStep size).toNat)).take (chunkStep size).toNat := by
  unfold chunksOf
  rw [List.map_map]
  refine List.map_congr_left fun i hi => ?_
  have hi := List.mem_range.mp hi
  have hstart := mul_lt_of_lt_chunkCount hi
  simp only [Function.comp_apply, Chunk.slice, chunkEnd_eq hcount hi]
  rw [List.take_eq_take_iff, List.length_drop]
  omega

/-- No chunk is empty. -/
theorem slice_ne_nil (hcount : items.length ≤ itemLimit) {chunk : Chunk}
    (hchunk : chunk ∈ chunksOf items.length size) : chunk.slice items ≠ [] := by
  have hmem : chunk.slice items ∈ (chunksOf items.length size).map fun c => c.slice items :=
    List.mem_map.mpr ⟨chunk, hchunk, rfl⟩
  rw [map_slice_chunksOf hcount] at hmem
  obtain ⟨i, hi, heq⟩ := List.mem_map.mp hmem
  have hstart := mul_lt_of_lt_chunkCount (List.mem_range.mp hi)
  have hpos := chunkStep_pos size
  rw [← heq]
  refine List.ne_nil_of_length_pos ?_
  rw [List.length_take, List.length_drop]
  omega

/-- A single item makes a single chunk. -/
theorem slice_singleton {a : α} {chunk : Chunk} (hchunk : chunk ∈ chunksOf [a].length size) :
    chunk.slice [a] = [a] := by
  have hlimit : [a].length ≤ itemLimit := (by decide : 1 ≤ itemLimit)
  have hne := slice_ne_nil hlimit hchunk
  obtain ⟨start, stop⟩ := chunk
  unfold Chunk.slice at hne ⊢
  cases start with
  | zero =>
    cases stop with
    | zero => exact absurd rfl hne
    | succ stop => simp
  | succ start => simp at hne

/-- **Chunks cover all items**: they hold every item once, in order. -/
theorem flatten_slices (hcount : items.length ≤ itemLimit) (size : UInt64) :
    ((chunksOf items.length size).map fun c => c.slice items).flatten = items := by
  have hfirst : ∀ k, ((List.range k).map fun i =>
      (items.drop (i * (chunkStep size).toNat)).take (chunkStep size).toNat).flatten =
        items.take (k * (chunkStep size).toNat) := by
    intro k
    induction k with
    | zero => rw [Nat.zero_mul, List.take_zero, List.range_zero, List.map_nil, List.flatten_nil]
    | succ k ih =>
      rw [List.range_succ, List.map_append, List.flatten_append, ih, Nat.succ_mul, List.take_add,
        List.map_singleton, List.flatten_singleton]
  rw [map_slice_chunksOf hcount, hfirst]
  exact List.take_of_length_le (le_chunkCount_mul _ _)

/-- The items of the chunk of a number; there are none behind the last chunk. -/
def sliceOf (size : UInt64) (items : List α) (k : Nat) : List α :=
  match (chunksOf items.length size)[k]? with
  | some chunk => chunk.slice items
  | none => []

theorem sliceOf_eq {k : Nat} {chunk : Chunk} (hchunk : (chunksOf items.length size)[k]? = some chunk) :
    sliceOf size items k = chunk.slice items := by
  rw [sliceOf, hchunk]

theorem map_sliceOf (size : UInt64) (items : List α) :
    (List.range (chunksOf items.length size).length).map (sliceOf size items) =
      (chunksOf items.length size).map fun c => c.slice items := by
  refine List.ext_getElem (by simp) fun i hi _ => ?_
  rw [List.length_map, List.length_range] at hi
  rw [List.getElem_map, List.getElem_map, List.getElem_range]
  exact sliceOf_eq (List.getElem?_eq_getElem hi)

/-- What is done with the items of one chunk after another is done with all items. -/
theorem flatMap_sliceOf {β : Type} (hcount : items.length ≤ itemLimit) (size : UInt64)
    (f : α → List β) :
    ((List.range (chunksOf items.length size).length).flatMap fun k =>
      (sliceOf size items k).flatMap f) = items.flatMap f := by
  have hflatten : ∀ L : List (List α), L.flatMap (fun l => l.flatMap f) = L.flatten.flatMap f :=
    fun L => by rw [List.flatten_eq_flatMap, List.flatMap_assoc]; rfl
  rw [List.flatMap_def, ← Function.comp_def (fun l : List α => l.flatMap f), ← List.map_map,
    map_sliceOf, ← List.flatMap_def, hflatten, flatten_slices hcount]

end

/-! ## One chunk behind the other -/

/-- Chunks of `step` items, of which there are `count`. -/
structure Partitions (count step : Nat) (chunks : List Chunk) : Prop where
  /-- No position behind a chunk leaves 64 bits before it is cut off at the end of the items. -/
  fits : ∀ c ∈ chunks, c.start + step < UInt64.size ∧ c.stop = min (c.start + step) count
  nonempty : ∀ c ∈ chunks, c.start < c.stop
  ascending : chunks.Pairwise fun a b => a.stop ≤ b.start
  /-- Each begins where the one before it ends. -/
  adjacent : chunks.IsChain fun a b => a.stop = b.start
  first : ∀ c, chunks.head? = some c → c.start = 0
  last : ∀ c, chunks.getLast? = some c → c.stop = count
  /-- All but the last are full, and the last is not larger. -/
  full : ∀ c ∈ chunks.dropLast, c.stop - c.start = step
  bounded : ∀ c ∈ chunks, c.stop - c.start ≤ step
  length_eq : chunks.length = count ⌈/⌉ step

variable {count i : Nat} {size : UInt64}

theorem toNat_chunkStep (size : UInt64) : (chunkStep size).toNat = max size.toNat 1 := by
  have hmax : chunkStep size = if size ≤ 1 then 1 else size := rfl
  rw [hmax]
  split
  · next hsize =>
    have hle : size.toNat ≤ 1 := UInt64.le_iff_toNat_le.mp hsize
    show 1 = _
    omega
  · next hsize =>
    have hlt : 1 < size.toNat := UInt64.lt_iff_toNat_lt.mp (UInt64.not_le.mp hsize)
    omega

theorem length_chunksOf (count : Nat) (size : UInt64) :
    (chunksOf count size).length = count ⌈/⌉ max size.toNat 1 := by
  rw [chunksOf, List.length_map, List.length_range, chunkCount, toNat_chunkStep,
    Nat.ceilDiv_eq_add_pred_div]
  congr 1
  omega

section

variable (hcount : count ≤ itemLimit)
include hcount

/-- The sum that ends a chunk fits into 64 bits. -/
theorem chunkEnd_lt (hi : i < chunkCount count size) :
    i * max size.toNat 1 + max size.toNat 1 < UInt64.size := by
  have hend := chunkEnd_eq hcount hi
  rw [toNat_chunkStep] at hend
  rw [← hend]
  exact UInt64.toNat_lt_size _

/-- The chunk of a number. -/
theorem getElem_chunksOf (hi : i < (chunksOf count size).length) :
    (chunksOf count size)[i] =
      ⟨i * max size.toNat 1, min (i * max size.toNat 1 + max size.toNat 1) count⟩ := by
  have hcounted : i < chunkCount count size := by
    rwa [chunksOf, List.length_map, List.length_range] at hi
  have hend := chunkEnd_eq hcount hcounted
  rw [toNat_chunkStep] at hend
  simp only [chunksOf, List.getElem_map, List.getElem_range, toNat_chunkStep, hend]

omit hcount in
/-- A chunk begins before the end of the items, and behind all but the last more items follow. -/
theorem chunk_bounds (hi : i < (chunksOf count size).length) :
    i * max size.toNat 1 < count ∧
      (i + 1 < (chunksOf count size).length → i * max size.toNat 1 + max size.toNat 1 < count) := by
  rw [chunksOf, List.length_map, List.length_range] at hi ⊢
  refine ⟨toNat_chunkStep size ▸ mul_lt_of_lt_chunkCount hi, fun hnext => ?_⟩
  have hstart := mul_lt_of_lt_chunkCount hnext
  rwa [toNat_chunkStep, Nat.succ_mul] at hstart

theorem partitions_chunksOf (size : UInt64) : Partitions count (max size.toNat 1) (chunksOf count size) := by
  have hchunk : ∀ c ∈ chunksOf count size, ∃ i, ∃ hi : i < (chunksOf count size).length,
      c = ⟨i * max size.toNat 1, min (i * max size.toNat 1 + max size.toNat 1) count⟩ := by
    intro c hc
    obtain ⟨i, hi, rfl⟩ := List.getElem_of_mem hc
    exact ⟨i, hi, getElem_chunksOf hcount hi⟩
  have hcounted : (chunksOf count size).length = chunkCount count size := by
    rw [chunksOf, List.length_map, List.length_range]
  constructor
  case fits =>
    intro c hc
    obtain ⟨i, hi, rfl⟩ := hchunk c hc
    exact ⟨chunkEnd_lt hcount (hcounted ▸ hi), rfl⟩
  case nonempty =>
    intro c hc
    obtain ⟨i, hi, rfl⟩ := hchunk c hc
    obtain ⟨hstart, -⟩ := chunk_bounds hi
    show i * _ < min _ count
    omega
  case ascending =>
    rw [List.pairwise_iff_getElem]
    intro i j hi hj hij
    rw [getElem_chunksOf hcount hi, getElem_chunksOf hcount hj]
    have hmul : (i + 1) * max size.toNat 1 ≤ j * max size.toNat 1 := Nat.mul_le_mul_right _ hij
    rw [Nat.succ_mul] at hmul
    exact (Nat.min_le_left _ _).trans hmul
  case adjacent =>
    rw [List.isChain_iff_getElem]
    intro i hi
    obtain ⟨-, hmore⟩ := chunk_bounds (Nat.lt_of_succ_lt hi)
    rw [getElem_chunksOf hcount (Nat.lt_of_succ_lt hi), getElem_chunksOf hcount hi]
    show min _ count = _
    rw [Nat.succ_mul]
    exact Nat.min_eq_left (hmore hi).le
  case first =>
    intro c hc
    rw [List.head?_eq_getElem?] at hc
    obtain ⟨hpos, rfl⟩ := List.getElem?_eq_some_iff.mp hc
    rw [getElem_chunksOf hcount hpos]
    exact Nat.zero_mul _
  case last =>
    intro c hc
    rw [List.getLast?_eq_getElem?] at hc
    obtain ⟨hlt, rfl⟩ := List.getElem?_eq_some_iff.mp hc
    rw [getElem_chunksOf hcount hlt]
    -- the chunks reach the end of the items
    have hreach := le_chunkCount_mul count size
    rw [← hcounted, toNat_chunkStep] at hreach
    have hlast : (chunksOf count size).length = (chunksOf count size).length - 1 + 1 := by omega
    rw [hlast, Nat.succ_mul] at hreach
    exact Nat.min_eq_right hreach
  case full =>
    intro c hc
    obtain ⟨i, hi, rfl⟩ := List.getElem_of_mem hc
    rw [List.length_dropLast] at hi
    have hi' : i < (chunksOf count size).length := by omega
    obtain ⟨-, hmore⟩ := chunk_bounds hi'
    rw [List.getElem_dropLast, getElem_chunksOf hcount hi']
    have hless := hmore (by omega)
    show min (i * max size.toNat 1 + max size.toNat 1) count - i * max size.toNat 1 = _
    omega
  case bounded =>
    intro c hc
    obtain ⟨i, hi, rfl⟩ := hchunk c hc
    show min (i * max size.toNat 1 + max size.toNat 1) count - i * max size.toNat 1 ≤ _
    omega
  case length_eq => exact length_chunksOf count size

/-- **Chunks partition the items.** A size of zero counts as one. -/
theorem chunksOf_partitions (size : UInt64) :
    Partitions count (max size.toNat 1) (chunksOf count size) ∧
      ∀ (α : Type) (items : List α), items.length = count →
        ((chunksOf count size).map fun c => c.slice items).flatten = items := by
  refine ⟨partitions_chunksOf hcount size, fun α items hitems => ?_⟩
  subst hitems
  exact flatten_slices hcount size

end

/-- As many items as there may be, and the largest size. -/
theorem chunksOf_partitions_limits :
    2 ^ 63 - 1 ≤ itemLimit ∧ (chunksOf (2 ^ 63 - 1) 0xFFFFFFFFFFFFFFFF).length = 1 ∧
      Partitions (2 ^ 63 - 1) (2 ^ 64 - 1) (chunksOf (2 ^ 63 - 1) 0xFFFFFFFFFFFFFFFF) := by
  have hcount : 2 ^ 63 - 1 ≤ itemLimit := by decide
  exact ⟨hcount, by decide, (chunksOf_partitions hcount 0xFFFFFFFFFFFFFFFF).1⟩

example : chunksOf 5 2 = [⟨0, 2⟩, ⟨2, 4⟩, ⟨4, 5⟩] := by decide

end Decompile
