/-!
# Chunks

The items of a stage are worked on in chunks of equal size; the last one may be shorter.

- `Chunk`: a part of the items, from one position up to another.
- `chunksOf`: the chunks of so many items.
- `Chunk.slice`: the items of a chunk.
-/

namespace Decompile

/-- The items from position `start` up to, but not with, position `stop`. -/
structure Chunk where
  start : Nat
  stop : Nat
  deriving DecidableEq, Repr

/-- The size of a chunk; there are no empty ones. -/
def chunkStep (size : UInt64) : UInt64 := max size 1

/-- The position behind a chunk that starts at `start`, in 64 bits. -/
def chunkEnd (start : Nat) (size : UInt64) : Nat := (UInt64.ofNat start + size).toNat

/-- How many chunks `count` items make. -/
def chunkCount (count : Nat) (size : UInt64) : Nat :=
  (count + ((chunkStep size).toNat - 1)) / (chunkStep size).toNat

/-- The chunks of `count` items, in order. -/
def chunksOf (count : Nat) (size : UInt64) : List Chunk :=
  (List.range (chunkCount count size)).map fun i =>
    let start := i * (chunkStep size).toNat
    ⟨start, min (chunkEnd start (chunkStep size)) count⟩

/-- The items of a chunk. -/
def Chunk.slice {α : Type} (c : Chunk) (items : List α) : List α :=
  (items.drop c.start).take (c.stop - c.start)

end Decompile
