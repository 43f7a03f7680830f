import DeskScript.Event

/-!
A channel hands every published event to all who subscribed before. It keeps only
the latest events, and a receiver that has fallen further behind is told so. What
contexts need of one are its operations; `Bus` is the channel that is used.
-/

namespace DeskScript

/-- What a receiver gets. -/
inductive Received where
  | event (e : Event)
  | lagged (missed : Nat)
  | empty

/-- The operations of a channel. Receivers are told apart by numbers. -/
class Channel (B : Type) where
  ofCapacity : Nat → B
  /-- The capacity asked for, at least one. -/
  capacity : B → Nat
  /-- A new receiver, which gets what is published from now on. -/
  subscribe : B → Nat × B
  unsubscribe : B → Nat → B
  /-- Publishes an event, and says how many receive it. -/
  publish : B → Event → Nat × B
  /-- The next thing for a receiver. -/
  receive : B → Nat → Received × B

/-- Publishes events one after the other. -/
def Channel.publishAll {B : Type} [Channel B] (b : B) (es : List Event) : B :=
  es.foldl (fun b e => (publish b e).2) b

end DeskScript
