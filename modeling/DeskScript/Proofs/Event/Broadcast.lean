import Mathlib.Logic.Function.Basic
import DeskScript.Event.Channel

/-!
# Broadcast channels

What a channel shows its receivers is a feed: all that was published while somebody
listened, and the place of each receiver in it. Contexts on a channel need only that
every operation does to the feed what it should (`Broadcast`):

* a new receiver begins at the end of the log, and what is published comes after that;
* a receiver gets the event at its place, or nothing at the end;
* it is told that it has fallen behind only if more than `capacity` events are ahead of
  it, and goes on at one that has at least `capacity` events ahead.

The channel is free to keep more events than its capacity.
-/

namespace DeskScript

/-! ## Feeds -/

structure Feed where
  capacity : Nat
  /-- All events that were published while somebody listened. -/
  log : List Event
  /-- Where each receiver goes on in the log; none for one that does not listen. -/
  places : Nat → Option Nat

namespace Feed

def ofCapacity (n : Nat) : Feed := ⟨n, [], fun _ => none⟩

/-- The receiver goes on at another place. -/
def move (f : Feed) (r i : Nat) : Feed := { f with places := Function.update f.places r (some i) }

/-- More events are published. -/
def send (f : Feed) (es : List Event) : Feed := { f with log := f.log ++ es }

def Listened (f : Feed) : Prop := ∃ r i, f.places r = some i

/-- The events that a receiver has not got yet. -/
def unread (f : Feed) (r : Nat) : List Event := (f.places r).elim [] fun i => f.log.drop i

/-- What a receiver at place `i` gets, and where it goes on. -/
inductive Gets (f : Feed) (i : Nat) : Received → Nat → Prop
  | event {e : Event} : f.log[i]? = some e → Gets f i (.event e) (i + 1)
  | lagged {j : Nat} : i < j → j + f.capacity ≤ f.log.length → Gets f i (.lagged (j - i)) j
  | empty : i = f.log.length → Gets f i .empty i

section
variable {f : Feed} {r i : Nat}

@[simp] theorem log_move : (f.move r i).log = f.log := rfl

@[simp] theorem capacity_move : (f.move r i).capacity = f.capacity := rfl

@[simp] theorem places_move_self : (f.move r i).places r = some i := by
  simp [move]

theorem places_move_of_ne {q : Nat} (h : q ≠ r) : (f.move r i).places q = f.places q := by
  simp [move, h]

theorem move_self (h : f.places r = some i) : f.move r i = f := by
  rw [move, ← h, Function.update_eq_self]

@[simp] theorem send_nil (f : Feed) : f.send [] = f := by
  rw [send, List.append_nil]

theorem unread_eq (h : f.places r = some i) : f.unread r = f.log.drop i := by
  rw [unread, h, Option.elim_some]

theorem unread_send (h : f.places r = some i) (hi : i ≤ f.log.length) (es : List Event) :
    (f.send es).unread r = f.unread r ++ es := by
  have hsend : (f.send es).places r = some i := h
  rw [unread_eq h, unread_eq hsend]
  exact List.drop_append_of_le_length hi

end

end Feed

/-! ## The laws -/

/-- The laws of a broadcast channel: what it shows, and what each operation does to that. -/
class Broadcast (B : Type) [Channel B] where
  Shows : B → Feed → Prop
  /-- How many events a receiver has not got yet. -/
  behind : B → Nat → Nat
  shows_capacity {b : B} {f : Feed} : Shows b f → Channel.capacity b = f.capacity
  shows_behind {b : B} {f : Feed} {r i : Nat} :
    Shows b f → f.places r = some i → behind b r = f.log.length - i
  shows_ofCapacity (n : Nat) :
    Shows (Channel.ofCapacity n) (.ofCapacity (Channel.capacity (Channel.ofCapacity n : B)))
  shows_subscribe {b : B} {f : Feed} : Shows b f →
    f.places (Channel.subscribe b).1 = none ∧
      Shows (Channel.subscribe b).2 (f.move (Channel.subscribe b).1 f.log.length)
  shows_publish {b : B} {f : Feed} (e : Event) : Shows b f → f.Listened →
    Shows (Channel.publish b e).2 (f.send [e])
  /-- What is published is lost while nobody listens. -/
  shows_unheard {b : B} {f : Feed} (e : Event) : Shows b f → ¬ f.Listened →
    Shows (Channel.publish b e).2 f
  shows_receive {b : B} {f : Feed} {r i : Nat} :
    Shows b f → f.places r = some i → i ≤ f.log.length →
      ∃ j, f.Gets i (Channel.receive b r).1 j ∧ Shows (Channel.receive b r).2 (f.move r j)

theorem Broadcast.shows_publishAll {B : Type} [Channel B] [Broadcast B] {b : B} {f : Feed}
    (h : Shows b f) (hf : f.Listened) (es : List Event) :
    Shows (Channel.publishAll b es) (f.send es) := by
  induction es generalizing b f with
  | nil => rwa [Feed.send_nil]
  | cons e es ih =>
    have hrest := ih (shows_publish e h hf) hf
    rwa [Feed.send, Feed.send, List.append_assoc] at hrest

end DeskScript
