/-!
# Memory use

- `percentUsed`: the share of a ceiling, between 0 and 100.
- `MemoryWatch`: counts readings above a threshold that follow each other; it trips when there are
  enough of them.
- `MemoryBand`: how a share is shown.
-/

namespace Decompile

/-- The share of `ceiling` that is in use, in percent. Of no ceiling nothing is used. -/
def percentUsed (used ceiling : UInt64) : Float :=
  if ceiling = 0 then 0.0
  else
    let percent := used.toFloat / ceiling.toFloat * 100.0
    if percent < 0.0 then 0.0 else if 100.0 < percent then 100.0 else percent

/-- What the watch says of a reading. -/
inductive Verdict where
  | healthy
  | tripped
  deriving DecidableEq, Repr

/-- Counts readings above a threshold. -/
structure MemoryWatch where
  /-- Readings above this count. -/
  threshold : Float
  /-- So many readings in a row trip the watch. -/
  required : UInt32
  /-- So many have just followed each other. -/
  streak : UInt32

namespace MemoryWatch

/-- A watch over a threshold in percent; at least one reading is required. -/
def new (threshold : UInt8) (required : UInt32) : MemoryWatch where
  threshold := (min threshold 100).toFloat
  required := max required 1
  streak := 0

/-- The next number, or the greatest one. -/
def nextStreak (n : UInt32) : UInt32 := if n = 0xFFFFFFFF then n else n + 1

/-- Takes a reading. -/
def observe (w : MemoryWatch) (percent : Float) : MemoryWatch × Verdict :=
  let streak := if w.threshold < percent then nextStreak w.streak else 0
  ({ w with streak := streak }, if w.required ≤ streak then .tripped else .healthy)

/-- Takes several readings. -/
def observeAll (w : MemoryWatch) : List Float → List (Verdict × UInt32)
  | [] => []
  | x :: xs =>
    let (w, verdict) := w.observe x
    (verdict, w.streak) :: w.observeAll xs

end MemoryWatch

/-- How a share of memory is shown. -/
inductive MemoryBand where
  | low
  | moderate
  | high
  | critical
  deriving DecidableEq, Repr

namespace MemoryBand

/-- The band as a name. -/
def label : MemoryBand → String
  | low => "Low"
  | moderate => "Moderate"
  | high => "High"
  | critical => "Critical"

/-- The band of a share in percent. What is no number is critical. -/
def ofPercent (percent : Float) : MemoryBand :=
  if percent < 40.0 then low
  else if percent < 60.0 then moderate
  else if percent < 80.0 then high
  else critical

end MemoryBand

end Decompile
