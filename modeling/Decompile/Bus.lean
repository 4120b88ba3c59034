import Decompile.Progress

/-!
# The bus

Listeners subscribe to a key and get what is published on it from then on, each message once and
in order.

- `Subscription`: a listener, and the messages it has not taken yet.
- `Bus.subscribe`, `Bus.drop`, `Bus.publish`, `Bus.drain`: a listener comes, leaves, is told
  something, takes what it was told.
- `Bus.count`: the listeners of a key. One that left is counted until the next message.
-/

namespace Decompile

/-- A listener. -/
structure Subscription where
  id : Nat
  key : String
  /-- The listener is still there. -/
  live : Bool
  /-- Messages not taken yet, oldest first. -/
  queue : List BusMessage

/-- All listeners, in the order in which they came. -/
structure Bus where
  nextId : Nat
  subscriptions : List Subscription

namespace Bus

/-- A bus without listeners. -/
def empty : Bus := ⟨0, []⟩

/-- A new listener of a key, and its number. -/
def subscribe (b : Bus) (key : String) : Nat × Bus :=
  (b.nextId, ⟨b.nextId + 1, b.subscriptions ++ [⟨b.nextId, key, true, []⟩]⟩)

/-- A listener leaves. -/
def drop (b : Bus) (id : Nat) : Bus :=
  { b with
    subscriptions := b.subscriptions.map fun s =>
      if s.id = id then { s with live := false, queue := [] } else s }

/-- What a message on `key` does to a listener: it gets the message, or is forgotten if it left. -/
def receive (key : String) (m : BusMessage) (s : Subscription) : Option Subscription :=
  if s.key = key then
    if s.live then some { s with queue := s.queue ++ [m] } else none
  else some s

/-- A message on `key`. -/
def publish (b : Bus) (key : String) (m : BusMessage) : Bus :=
  { b with subscriptions := b.subscriptions.filterMap (receive key m) }

/-- How many listeners a key has. -/
def count (b : Bus) (key : String) : Nat :=
  (b.subscriptions.filter fun s => s.key == key).length

/-- The messages that a listener has not taken yet. -/
def queued (b : Bus) (id : Nat) : List BusMessage :=
  ((b.subscriptions.find? fun s => s.id == id).map Subscription.queue).getD []

/-- A listener takes its messages. -/
def drain (b : Bus) (id : Nat) : List BusMessage × Bus :=
  (b.queued id,
    { b with
      subscriptions := b.subscriptions.map fun s => if s.id = id then { s with queue := [] } else s })

end Bus

end Decompile
