/-!
# The active jobs

At most one job per key is active. Whoever claims a key gets a ticket, and only the holder of that
ticket can release the key.

- `Registry.claim`, `release`, `cancel`: the operations, each of them one step.
- `Registry.holder?`, `isActive`, `isCancelled`: what they leave behind.
-/

namespace Decompile

/-- The active jobs. -/
structure Registry where
  /-- The next ticket. -/
  nextTicket : Nat
  /-- The active keys, each with the ticket of its job. -/
  holders : List (String × Nat)
  /-- The tickets of the jobs that were asked to stop. -/
  cancelled : List Nat
  deriving DecidableEq, Repr

namespace Registry

/-- No job is active. -/
def empty : Registry := ⟨1, [], []⟩

/-- The ticket that holds a key. -/
def holder? (r : Registry) (key : String) : Option Nat := r.holders.lookup key

/-- Some job of the key is active. -/
def isActive (r : Registry) (key : String) : Bool := (r.holder? key).isSome

/-- The job with the ticket was asked to stop. -/
def isCancelled (r : Registry) (ticket : Nat) : Bool := r.cancelled.contains ticket

/-- Claims a key with a new ticket, if no job holds it. -/
def claim (r : Registry) (key : String) : Option (Nat × Registry) :=
  if r.isActive key then none
  else some (r.nextTicket,
    { r with nextTicket := r.nextTicket + 1, holders := (key, r.nextTicket) :: r.holders })

/-- Releases a key, if the ticket still holds it. -/
def release (r : Registry) (key : String) (ticket : Nat) : Registry :=
  if r.holder? key = some ticket then
    { r with holders := r.holders.filter fun h => h.1 ≠ key }
  else r

/-- Asks the job that holds the key to stop, if there is one. To ask again changes nothing. -/
def cancel (r : Registry) (key : String) : Registry :=
  match r.holder? key with
  | some ticket => if r.isCancelled ticket then r else { r with cancelled := ticket :: r.cancelled }
  | none => r

end Registry

end Decompile
