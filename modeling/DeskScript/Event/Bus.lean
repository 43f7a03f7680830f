import DeskScript.Event.Channel

/-!
A bus is a channel that numbers what is published.

It keeps the latest events, and a receiver knows the number it reads next. One that
has fallen further behind is told once how many it missed, and goes on with the
oldest event that is kept.
-/

namespace DeskScript

structure Bus where
  /-- The capacity asked for, at least one. -/
  capacity : Nat
  /-- The latest events, the oldest first. -/
  kept : List Event
  /-- How many events were published while somebody listened. -/
  published : Nat
  /-- The next number of each receiver; none for one that left. -/
  receivers : List (Option Nat)

namespace Bus

def defaultCapacity : Nat := 100

def ofCapacity (n : Nat) : Bus := ⟨max n 1, [], 0, []⟩

/-- How many events are kept: the capacity, rounded up to a power of two. -/
def room (b : Bus) : Nat := if b.capacity ≤ 1 then 1 else 1 <<< ((b.capacity - 1).log2 + 1)

def subscriberCount (b : Bus) : Nat := b.receivers.countP Option.isSome

/-- A new receiver, which gets what is published from now on. -/
def subscribe (b : Bus) : Nat × Bus :=
  (b.receivers.length, { b with receivers := b.receivers ++ [some b.published] })

def unsubscribe (b : Bus) (receiver : Nat) : Bus :=
  { b with receivers := b.receivers.set receiver none }

/-- Publishes an event, and says how many receive it. Without a receiver it is lost. -/
def publish (b : Bus) (e : Event) : Nat × Bus :=
  let n := b.subscriberCount
  if n = 0 then (0, b)
  else
    let kept := b.kept ++ [e]
    (n, { b with kept := kept.drop (kept.length - b.room), published := b.published + 1 })

/-- The number of the oldest event that is kept. -/
def oldest (b : Bus) : Nat := b.published - b.kept.length

/-- The next thing for a receiver. -/
def receive (b : Bus) (receiver : Nat) : Received × Bus :=
  let moveTo (n : Nat) : Bus := { b with receivers := b.receivers.set receiver (some n) }
  match b.receivers.getD receiver none with
  | none => (.empty, b)
  | some next =>
    if next < b.oldest then (.lagged (b.oldest - next), moveTo b.oldest)
    else
      match b.kept[next - b.oldest]? with
      | some e => (.event e, moveTo (next + 1))
      | none => (.empty, b)

instance : Channel Bus where
  ofCapacity := ofCapacity
  capacity := capacity
  subscribe := subscribe
  unsubscribe := unsubscribe
  publish := publish
  receive := receive

end Bus

end DeskScript
