import DeskScript.Event.Bus
import DeskScript.Proofs.Event.Broadcast

/-!
# A bus is a broadcast channel

A bus keeps the last events that were published, as many as there is room for, and there
is room for at least as many as its capacity (`Bus.capacity_le_room`). So a receiver that
is told that it has fallen behind has more than that ahead:

    b.Shows f → f.places r = some i → f.Gets i (b.receive r).1 _          (Bus.Shows.receive)
-/

namespace DeskScript

namespace Bus

/-- How many events a receiver is behind. -/
def behind (b : Bus) (receiver : Nat) : Nat :=
  match b.receivers.getD receiver none with
  | some next => b.published - next
  | none => 0

/-- The bus numbers the events of the feed, and keeps the last ones. -/
structure Shows (b : Bus) (f : Feed) : Prop where
  capacity : b.capacity = f.capacity
  published : b.published = f.log.length
  kept : b.kept = f.log.drop (f.log.length - b.room)
  places : ∀ r, b.receivers.getD r none = f.places r

theorem capacity_le_room (b : Bus) : b.capacity ≤ b.room := by
  unfold room
  split
  · assumption
  · have hlog := Nat.lt_log2_self (n := b.capacity - 1)
    rw [Nat.one_shiftLeft]
    omega

/-- Only the capacity matters for the room. -/
theorem room_congr {b b' : Bus} (h : b'.capacity = b.capacity) : b'.room = b.room := by
  rw [room, room, h]

section
variable {b : Bus} {f : Feed} {r i : Nat}

theorem shows_ofCapacity (n : Nat) : (ofCapacity n).Shows (.ofCapacity (ofCapacity n).capacity) :=
  ⟨rfl, rfl, List.drop_nil.symm, fun _ => rfl⟩

theorem Shows.behind_eq (h : b.Shows f) (hr : f.places r = some i) :
    b.behind r = f.log.length - i := by
  rw [behind, h.places, hr, h.published]

theorem Shows.oldest_eq (h : b.Shows f) : b.oldest = f.log.length - b.room := by
  simp only [oldest, h.published, h.kept, List.length_drop]
  omega

theorem Shows.lt_length (h : b.Shows f) (hr : f.places r = some i) : r < b.receivers.length := by
  have hplace := h.places r
  by_contra hlt
  simp [hr, hlt] at hplace

/-- The receiver goes on at another place. -/
theorem Shows.move (h : b.Shows f) (hr : r < b.receivers.length) (j : Nat) :
    { b with receivers := b.receivers.set r (some j) }.Shows (f.move r j) := by
  refine ⟨h.capacity, h.published, h.kept, fun q => ?_⟩
  by_cases hq : q = r
  · subst hq
    simp [hr]
  · rw [Feed.places_move_of_ne hq, ← h.places q]
    simp [List.getD, List.getElem?_set_ne (Ne.symm hq)]

theorem Shows.subscribe (h : b.Shows f) :
    f.places b.subscribe.1 = none ∧ b.subscribe.2.Shows (f.move b.subscribe.1 f.log.length) := by
  refine ⟨by simp [Bus.subscribe, ← h.places], h.capacity, h.published, h.kept, fun q => ?_⟩
  simp only [Bus.subscribe, h.published]
  by_cases hq : q = b.receivers.length
  · subst hq
    simp
  · rw [Feed.places_move_of_ne hq, ← h.places q]
    simp only [List.getD]
    rcases Nat.lt_or_gt_of_ne hq with hlt | hgt
    · rw [List.getElem?_append_left hlt]
    · rw [List.getElem?_eq_none_iff.mpr (by simp; omega), List.getElem?_eq_none_iff.mpr (by omega)]

/-- There are subscribers exactly if somebody listens. -/
theorem Shows.listened_iff (h : b.Shows f) : b.subscriberCount ≠ 0 ↔ f.Listened := by
  unfold subscriberCount
  rw [← Nat.pos_iff_ne_zero, List.countP_pos_iff]
  constructor
  · rintro ⟨o, ho, hsome⟩
    obtain ⟨r, hr⟩ := List.mem_iff_getElem?.mp ho
    obtain ⟨i, rfl⟩ := Option.isSome_iff_exists.mp hsome
    exact ⟨r, i, by simp [← h.places r, hr]⟩
  · rintro ⟨r, i, hr⟩
    have hlt := h.lt_length hr
    have hget : b.receivers[r] = some i := by
      simpa [hr, hlt] using h.places r
    exact ⟨some i, hget ▸ List.getElem_mem hlt, rfl⟩

theorem Shows.publish (h : b.Shows f) (hf : f.Listened) (e : Event) :
    (b.publish e).2.Shows (f.send [e]) := by
  have hroom (kept : List Event) (published : Nat) : { b with kept, published }.room = b.room :=
    room_congr rfl
  simp only [Bus.publish, h.listened_iff.mpr hf, if_false]
  refine ⟨h.capacity, by simp [Feed.send, h.published], ?_, h.places⟩
  simp only [hroom, h.kept, Feed.send]
  rw [← List.drop_append_of_le_length (by omega), List.drop_drop]
  congr 1
  simp only [List.length_append, List.length_drop, List.length_singleton]
  omega

theorem Shows.unheard (h : b.Shows f) (hf : ¬ f.Listened) (e : Event) :
    (b.publish e).2.Shows f := by
  have hzero : b.subscriberCount = 0 := by
    by_contra hcount
    exact hf (h.listened_iff.mp hcount)
  simpa only [Bus.publish, hzero, if_true] using h

/-- **A receiver gets the next event of the log**, or is told that it has fallen behind. -/
theorem Shows.receive (h : b.Shows f) (hr : f.places r = some i) (hi : i ≤ f.log.length) :
    ∃ j, f.Gets i (b.receive r).1 j ∧ (b.receive r).2.Shows (f.move r j) := by
  have hold := h.oldest_eq
  have hlt := h.lt_length hr
  have hcapacity := b.capacity_le_room
  rw [h.capacity] at hcapacity
  have hplace : b.receivers.getD r none = some i := (h.places r).trans hr
  simp only [Bus.receive, hplace]
  by_cases hlag : i < b.oldest
  · rw [if_pos hlag]
    exact ⟨b.oldest, .lagged hlag (by omega), h.move hlt b.oldest⟩
  · rw [if_neg hlag]
    have hget : b.kept[i - b.oldest]? = f.log[i]? := by
      rw [h.kept, List.getElem?_drop]
      congr 1
      omega
    rw [hget]
    cases hlog : f.log[i]? with
    | some e => exact ⟨i + 1, .event hlog, h.move hlt (i + 1)⟩
    | none =>
      have hend : f.log.length ≤ i := List.getElem?_eq_none_iff.mp hlog
      refine ⟨i, .empty (Nat.le_antisymm hi hend), ?_⟩
      rwa [Feed.move_self hr]

end

instance : Broadcast Bus where
  Shows := Shows
  behind := behind
  shows_capacity := Shows.capacity
  shows_behind := Shows.behind_eq
  shows_ofCapacity := shows_ofCapacity
  shows_subscribe := Shows.subscribe
  shows_publish e h hf := h.publish hf e
  shows_unheard e h hf := h.unheard hf e
  shows_receive := Shows.receive

end Bus

end DeskScript
