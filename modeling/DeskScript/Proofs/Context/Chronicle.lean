import Mathlib
import DeskScript.Context
import DeskScript.Event.Bus
import DeskScript.Proofs.Machine.Outbox

/-!
# Emitted events are handled once and in order

A context without a bus keeps the events of its script in a queue. The chronicle of a
context has all that happens in its calls, one after the other: what begins and ends,
and each event that is emitted or handed to its handlers. Every chronicle can be read as
that of a queue with one worker (`Ledger.Notes`), so at every moment

    emittedIn log = handledIn log ++ what waits                       (Ledger.Reads.order)

Nothing is handled while something runs. A call that succeeds leaves nothing waiting,
and what a failed main program left is handled by the next call, after its own event.
-/

namespace DeskScript

/-- What happens in a context. -/
inductive Deed where
  /-- The main program begins. -/
  | started
  /-- An event of the host is handed to its handlers. -/
  | dispatched (e : Event)
  | emitted (e : Event)
  /-- An emitted event is handed to its handlers. -/
  | handled (e : Event)
  /-- The main program is done, or all handlers of an event. -/
  | finished
  /-- A call ends, and with it what it was doing. -/
  | returned (r : CallResult)
  /-- A call is given up by the host. -/
  | dropped

namespace Deed

def emitted? : Deed → Option Event
  | emitted e => some e
  | _ => none

def handled? : Deed → Option Event
  | handled e => some e
  | _ => none

/-- Is something running afterwards? -/
def running (before : Bool) : Deed → Bool
  | started | dispatched _ | handled _ => true
  | finished | returned _ | dropped => false
  | emitted _ => before

/-- Code begins to run. -/
def Works : Deed → Prop
  | started | dispatched _ | handled _ => True
  | _ => False

/-- The first thing in a call. -/
def Begins : Deed → Prop
  | started | dispatched _ => True
  | _ => False

/-- The last thing in a call. -/
def Ends : Deed → Prop
  | returned _ | dropped => True
  | _ => False

end Deed

/-- The emitted events, the first one first. -/
def emittedIn (log : List Deed) : List Event := log.filterMap Deed.emitted?

/-- The emitted events that were handed to their handlers, the first one first. -/
def handledIn (log : List Deed) : List Event := log.filterMap Deed.handled?

/-- Is something running: the main program, or the handlers of an event? -/
def runningAfter (log : List Deed) : Bool := log.foldl Deed.running false

@[simp] theorem emittedIn_nil : emittedIn [] = [] := rfl

@[simp] theorem handledIn_nil : handledIn [] = [] := rfl

@[simp] theorem emittedIn_append (log mid : List Deed) :
    emittedIn (log ++ mid) = emittedIn log ++ emittedIn mid := List.filterMap_append

@[simp] theorem handledIn_append (log mid : List Deed) :
    handledIn (log ++ mid) = handledIn log ++ handledIn mid := List.filterMap_append

@[simp] theorem emittedIn_cons (d : Deed) (log : List Deed) :
    emittedIn (d :: log) = d.emitted?.toList ++ emittedIn log := by
  cases d <;> rfl

@[simp] theorem handledIn_cons (d : Deed) (log : List Deed) :
    handledIn (d :: log) = d.handled?.toList ++ handledIn log := by
  cases d <;> rfl

@[simp] theorem runningAfter_snoc (log : List Deed) (d : Deed) :
    runningAfter (log ++ [d]) = d.running (runningAfter log) := by
  simp [runningAfter]

/-! ## Chronicles -/

/-- A context with the call that goes on, and all that has happened. -/
structure Chronicle (B : Type) where
  bus : B
  context : Context
  call : Option Call
  deeds : List Deed

/-- What the host of a context does. -/
inductive Act where
  | start
  | dispatch (e : Event)
  /-- Lets the call go on for one stage, of so many steps at most. -/
  | run (n : Nat)
  | reply (r : Reply)
  | cancel
  /-- Gives the call up. -/
  | drop

/-- What happens when an event is handed over; without handlers it is done at once. -/
def Context.handing (c : Context) (deed : Deed) (e : Event) : List Deed :=
  if c.cancelled then []
  else
    match (Task.ofEvent c.session e).2 with
    | .busy _ => [deed]
    | .over _ => [deed, .finished]

/-- What happens while a task runs. -/
def Task.deeds (n : Nat) (s : Session) (t : Task) : List Deed :=
  (Task.emissions n s t).map .emitted ++
    match Task.run n s t with
    | .over _ _ => [.finished]
    | _ => []

/-- What happens in a stage of a call. -/
def Call.deeds (n : Nat) (c : Context) (call : Call) : List Deed :=
  match call.phase with
  | .main t | .handling t => if c.cancelled then [] else Task.deeds n c.session t
  | .settling =>
    match c.session.nextEmitted? with
    | some (e, s) => { c with session := s }.handing (.handled e) e
    | none => []

variable {B : Type}

/-- An event that is noted as handled is the one that the stage hands over. -/
theorem Call.stage_of_handled [Channel B] {n : Nat} {c : Context} {call : Call} {e : Event}
    (h : .handled e ∈ call.deeds n c) (bus : B) :
    ∃ s, c.session.nextEmitted? = some (e, s) ∧
      call.stage n bus c = Call.handle bus { c with session := s } call e := by
  have hwork : ∀ t, .handled e ∉ if c.cancelled then [] else Task.deeds n c.session t := by
    intro t
    split
    · simp
    · unfold Task.deeds
      cases Task.run n c.session t <;> simp
  unfold Call.deeds at h
  unfold Call.stage
  cases hphase : call.phase with
  | main t => exact absurd (by simpa only [hphase] using h) (hwork t)
  | handling t => exact absurd (by simpa only [hphase] using h) (hwork t)
  | settling =>
    simp only [hphase] at h
    cases hnext : c.session.nextEmitted? with
    | none => simp [hnext] at h
    | some p =>
      obtain ⟨e', s⟩ := p
      simp only [hnext, Context.handing] at h
      obtain rfl : e = e' := by
        split at h
        · cases h
        · split at h <;> simpa using h
      exact ⟨s, rfl, by simp [Call.settle, hnext]⟩

namespace Chronicle

/-- A context of its own, before any call. -/
def ofContext [Channel B] (c : Context) : Chronicle B := ⟨Channel.ofCapacity 1, c, none, []⟩

/-- Notes what happened in a stage, and where it led. -/
def follow (x : Chronicle B) (deeds : List Deed) : Call.Stage B → Chronicle B
  | .next bus c call | .rest (.asks _ bus c call) | .rest (.idle bus c call)
  | .rest (.unfinished bus c call) => ⟨bus, c, some call, x.deeds ++ deeds⟩
  | .rest (.ended bus c r) => ⟨bus, c, none, x.deeds ++ deeds ++ [.returned r]⟩

/-- A call begins when there is none. -/
def act [Channel B] (x : Chronicle B) : Act → Chronicle B
  | .start =>
    match x.call with
    | some _ => x
    | none =>
      x.follow (if x.context.cancelled then [] else [.started]) (Call.start x.bus x.context)
  | .dispatch e =>
    match x.call with
    | some _ => x
    | none => x.follow (x.context.handing (.dispatched e) e) (Call.dispatch x.bus x.context e)
  | .run n =>
    match x.call with
    | some call => x.follow (call.deeds n x.context) (call.stage n x.bus x.context)
    | none => x
  | .reply r => { x with call := x.call.map (·.answer x.context r) }
  | .cancel => { x with context := x.context.cancel }
  | .drop =>
    match x.call with
    | some _ => { x with call := none, deeds := x.deeds ++ [.dropped] }
    | none => x

def play [Channel B] (x : Chronicle B) (acts : List Act) : Chronicle B := acts.foldl act x

end Chronicle

/-! ## A queue with one worker -/

/-- Where a worker is. -/
inductive Stand where
  | idle
  | main
  /-- The main program is done. -/
  | mainOver
  | handling
  /-- The handlers of an event are done. -/
  | settling

namespace Stand

def Running : Stand → Prop
  | main | handling => True
  | _ => False

/-- In a call, between two pieces of work. -/
def Between : Stand → Prop
  | mainOver | settling => True
  | _ => False

/-- After what is running. -/
def after : Stand → Stand
  | main => mainOver
  | _ => settling

end Stand

structure Ledger where
  /-- The events that wait, the oldest first. -/
  waiting : List Event
  stand : Stand

namespace Ledger

/-- What may happen next. -/
inductive Notes : Ledger → Deed → Ledger → Prop
  | started {w : List Event} : Notes ⟨w, .idle⟩ .started ⟨w, .main⟩
  | dispatched {w : List Event} {e : Event} : Notes ⟨w, .idle⟩ (.dispatched e) ⟨w, .handling⟩
  | emitted {w : List Event} {e : Event} {p : Stand} : p.Running →
      Notes ⟨w, p⟩ (.emitted e) ⟨w ++ [e], p⟩
  | finished {w : List Event} {p : Stand} : p.Running → Notes ⟨w, p⟩ .finished ⟨w, p.after⟩
  | handled {w : List Event} {e : Event} {p : Stand} : p.Between →
      Notes ⟨e :: w, p⟩ (.handled e) ⟨w, .handling⟩
  | failed {w : List Event} {r : Raised} :
      Notes ⟨w, .mainOver⟩ (.returned (.error (.raised r))) ⟨w, .idle⟩
  | succeeded {p : Stand} : p.Between → Notes ⟨[], p⟩ (.returned (.ok ())) ⟨[], .idle⟩
  | cancelled {w : List Event} {p : Stand} :
      Notes ⟨w, p⟩ (.returned (.error .cancelled)) ⟨w, .idle⟩
  | dropped {w : List Event} {p : Stand} : Notes ⟨w, p⟩ .dropped ⟨w, .idle⟩

/-- The ledger after a chronicle. -/
inductive Reads : List Deed → Ledger → Prop
  | nil : Reads [] ⟨[], .idle⟩
  | snoc {log : List Deed} {a b : Ledger} {d : Deed} : Reads log a → Notes a d b →
      Reads (log ++ [d]) b

namespace Reads

variable {log mid : List Deed} {a b : Ledger} {d : Deed}

theorem last (h : Reads (log ++ [d]) b) : ∃ a, Reads log a ∧ Notes a d b := by
  generalize hl : log ++ [d] = l at h
  cases h with
  | nil => simp at hl
  | @snoc log' a _ d' hreads hnotes =>
    obtain ⟨rfl, hd⟩ := List.append_inj' hl rfl
    obtain rfl : d = d' := by simpa using hd
    exact ⟨a, hreads, hnotes⟩

theorem append_left (h : Reads (log ++ mid) b) : ∃ a, Reads log a := by
  induction mid using List.reverseRecOn generalizing b with
  | nil => exact ⟨b, by simpa using h⟩
  | append_singleton mid d ih =>
    rw [← List.append_assoc] at h
    obtain ⟨a, ha, -⟩ := h.last
    exact ih ha

theorem of_prefix {l : List Deed} (h : Reads l b) (hl : log <+: l) : ∃ a, Reads log a := by
  obtain ⟨mid, rfl⟩ := hl
  exact h.append_left

/-- Some deeds after each other that are all of one kind. -/
theorem emitted {w : List Event} {p : Stand} (h : Reads log ⟨w, p⟩) (hp : p.Running)
    (es : List Event) : Reads (log ++ es.map .emitted) ⟨w ++ es, p⟩ := by
  induction es generalizing log w with
  | nil => simpa using h
  | cons e es ih => simpa using ih (h.snoc (.emitted (e := e) hp))

/-- **What was emitted was handled or waits**, in the order of its emission. -/
theorem order (h : Reads log a) : emittedIn log = handledIn log ++ a.waiting := by
  induction h with
  | nil => rfl
  | snoc _ hnotes ih =>
    rw [emittedIn_append, handledIn_append, ih]
    cases hnotes <;> simp [Deed.emitted?, Deed.handled?]

theorem running (h : Reads log a) : runningAfter log = true ↔ a.stand.Running := by
  induction h with
  | nil => simp [runningAfter, Stand.Running]
  | snoc _ hnotes ih =>
    rw [runningAfter_snoc]
    cases hnotes with
    | emitted hp => simpa [Deed.running] using ih
    | finished hp => cases ‹Stand› <;> simp [Deed.running, Stand.after, Stand.Running]
    | _ => simp [Deed.running, Stand.Running]

/-- One thing at a time. -/
theorem turns (h : Reads (log ++ [d]) b) :
    (d.Works → runningAfter log = false) ∧ (d.emitted?.isSome → runningAfter log = true) := by
  obtain ⟨a, ha, hnotes⟩ := h.last
  have hrest : ¬ a.stand.Running → runningAfter log = false := fun hp =>
    Bool.eq_false_iff.mpr (mt ha.running.mp hp)
  cases hnotes with
  | started | dispatched => exact ⟨fun _ => hrest id, by simp [Deed.emitted?]⟩
  | @handled w e p hp =>
    refine ⟨fun _ => hrest ?_, by simp [Deed.emitted?]⟩
    cases p <;> simp_all [Stand.Running, Stand.Between]
  | emitted hp => exact ⟨fun hd => hd.elim, fun _ => ha.running.mpr hp⟩
  | _ => exact ⟨fun hd => hd.elim, by simp [Deed.emitted?]⟩

/-- What was left is handled before what is emitted later. -/
theorem left_over (h : Reads (log ++ mid) b) :
    ∃ left, emittedIn log = handledIn log ++ left ∧ handledIn mid <+: left ++ emittedIn mid := by
  obtain ⟨a, ha⟩ := h.append_left
  refine ⟨a.waiting, ha.order, b.waiting, ?_⟩
  have horder := h.order
  rw [emittedIn_append, handledIn_append, ha.order, List.append_assoc, List.append_assoc] at horder
  exact (List.append_cancel_left horder).symm

/-- Between two calls the last one has ended. -/
theorem idle_ends (h : Reads log a) (ha : a.stand = .idle) : ∀ d ∈ log.getLast?, d.Ends := by
  cases h with
  | nil => simp
  | snoc _ hnotes =>
    cases hnotes with
    | emitted hp =>
      subst ha
      exact hp.elim
    | finished hp => cases ‹Stand› <;> cases ha
    | started | dispatched | handled => cases ha
    | _ => simp [Deed.Ends]

/-- In a call that began with the main program: nothing has been handled as long as that program is
the last thing done. -/
theorem main_first (h : Reads (log ++ .started :: mid) a) (hmid : ∀ d ∈ mid, ¬ d.Ends) :
    a.stand ≠ .idle ∧ (a.stand = .main ∨ a.stand = .mainOver → handledIn mid = []) := by
  induction mid using List.reverseRecOn generalizing a with
  | nil =>
    obtain ⟨_, -, hnotes⟩ := h.last
    cases hnotes
    simp
  | append_singleton mid d ih =>
    obtain ⟨hmid, hd⟩ := List.forall_mem_append.mp hmid
    rw [← List.cons_append, ← List.append_assoc] at h
    obtain ⟨b, hb, hnotes⟩ := h.last
    obtain ⟨hidle, hmain⟩ := ih hb hmid
    have hd : ¬ d.Ends := hd d (List.mem_singleton_self d)
    cases hnotes with
    | started | dispatched => exact absurd rfl hidle
    | emitted hp => simpa [Deed.handled?] using ⟨hidle, hmain⟩
    | finished hp =>
      cases ‹Stand› with
      | main => simpa [Deed.handled?, Stand.after] using hmain
      | _ => simp [Stand.after]
    | handled hp => simp
    | _ => exact absurd trivial hd

end Reads

end Ledger

/-! ## Chronicles are those of a queue -/

/-- What a call is about. -/
def Call.StandsAt (p : Stand) : Option Call → Prop
  | none => p = .idle
  | some call =>
    call.serving = none ∧
      match call.phase with
      | .main _ => p = .main
      | .handling _ => p = .handling
      | .settling => p.Between

theorem Call.StandsAt.answer {p : Stand} {call : Option Call} (h : StandsAt p call) (c : Context)
    (r : Reply) : StandsAt p (call.map (·.answer c r)) := by
  cases call with
  | none => exact h
  | some call =>
    obtain ⟨phase, serving⟩ := call
    cases phase <;> exact h

/-- The chronicle of a context without a bus reads as a ledger. The queue has what waits; only after
a call that was cancelled it may have less, and then no call will do anything. -/
structure Chronicle.Linked (x : Chronicle B) (a : Ledger) : Prop where
  reads : Ledger.Reads x.deeds a
  stands : Call.StandsAt a.stand x.call
  onBus : x.context.onBus = false
  receiver : x.context.receiver = none
  waiting : x.context.session.outbox = a.waiting ∨
    x.call = none ∧ x.context.cancelled = true ∧
      x.deeds.getLast? = some (.returned (.error .cancelled))

namespace Chronicle

open Ledger (Reads Notes)

variable {x : Chronicle B} {a : Ledger}

theorem Linked.idle (h : x.Linked a) (hcall : x.call = none) : a.stand = .idle := by
  have hstands := h.stands
  rw [hcall] at hstands
  exact hstands

theorem Linked.queue (h : x.Linked a) {call : Call} (hcall : x.call = some call) :
    x.context.session.outbox = a.waiting :=
  h.waiting.resolve_right fun ⟨hnone, _⟩ => by simp [hcall] at hnone

theorem follow_ended {deeds : List Deed} {bus : B} {c : Context} {r : CallResult}
    (hlog : Reads (x.deeds ++ deeds) a) {w : List Event} (hr : Notes a (.returned r) ⟨w, .idle⟩)
    (honBus : c.onBus = false) (hreceiver : c.receiver = none)
    (hw : c.session.outbox = w ∨ c.cancelled = true ∧ r = .error .cancelled) :
    (x.follow deeds (.rest (.ended bus c r))).Linked ⟨w, .idle⟩ where
  reads := hlog.snoc hr
  stands := rfl
  onBus := honBus
  receiver := hreceiver
  waiting := hw.imp_right fun ⟨hcancelled, hr⟩ => ⟨rfl, hcancelled, by simp [follow, hr]⟩

/-- A call that is cancelled ends, and nothing happens. -/
theorem follow_cancelled (h : x.Linked a) (bus : B) {c : Context}
    (honBus : c.onBus = false) (hreceiver : c.receiver = none) (hc : c.cancelled = true) :
    ∃ b, (x.follow [] (.rest (.ended bus c (.error .cancelled)))).Linked b := by
  have hlog : Reads (x.deeds ++ []) a := by simpa using h.reads
  exact ⟨_, follow_ended hlog .cancelled honBus hreceiver (.inr ⟨hc, rfl⟩)⟩

variable [Channel B]

/-- An event is handed over. -/
theorem follow_handle {c : Context} {call : Call} {deed : Deed} {w : List Event}
    (hlog : Reads x.deeds a) (hdeed : Notes a deed ⟨w, .handling⟩) (honBus : c.onBus = false)
    (hreceiver : c.receiver = none) (hserving : call.serving = none)
    (hcancelled : c.cancelled = false) (hw : c.session.outbox = w) (bus : B) (e : Event) :
    ∃ b, (x.follow (c.handing deed e) (Call.handle bus c call e)).Linked b := by
  have hout := Task.outbox_ofEvent c.session e
  unfold Context.handing Call.handle
  simp only [hcancelled, Bool.false_eq_true, if_false]
  rcases hevent : Task.ofEvent c.session e with ⟨s, t | faults⟩
  · rw [hevent, hw] at hout
    exact ⟨⟨w, .handling⟩, hlog.snoc hdeed, ⟨hserving, rfl⟩, honBus, hreceiver, .inl hout⟩
  · rw [hevent, hw] at hout
    refine ⟨⟨w, .settling⟩, ?_, ⟨hserving, trivial⟩, honBus, hreceiver, .inl hout⟩
    have hreads := (hlog.snoc hdeed).snoc (Notes.finished (p := .handling) trivial)
    simpa [follow, Stand.after] using hreads

/-- A piece of work runs. -/
theorem follow_perform (h : x.Linked a) {call : Call} (hcall : x.call = some call)
    (hp : a.stand.Running) (n : Nat) (t : Task) {f : Task → Phase}
    (hf : ∀ t', Call.StandsAt a.stand (some ⟨f t', call.serving⟩))
    {after : B → Context → List Raised → Call.Stage B}
    (hafter : ∀ log s faults, Reads (x.deeds ++ log) ⟨s.outbox, a.stand.after⟩ →
      ∃ b, (x.follow log (after x.bus { x.context with session := s } faults)).Linked b) :
    ∃ b, (x.follow (if x.context.cancelled then [] else Task.deeds n x.context.session t)
      (Call.perform n x.bus x.context call t f after)).Linked b := by
  unfold Call.perform
  split
  · next hcancelled => exact follow_cancelled h _ h.onBus h.receiver hcancelled
  have hwaiting := h.queue hcall
  have hout := Task.outbox_run x.context.session n t
  rw [hwaiting] at hout
  have hreads := Reads.emitted (w := a.waiting) h.reads hp (Task.emissions n x.context.session t)
  have hflush : ∀ s, { x.context with session := s }.flush x.bus =
      (x.bus, { x.context with session := s }) := fun s => by simp [Context.flush, h.onBus]
  unfold Task.deeds
  cases hrun : Task.run n x.context.session t with
  | asks command s t' =>
    rw [hrun] at hout
    simp only [hflush, List.append_nil]
    exact ⟨_, hreads, hf t', h.onBus, h.receiver, .inl hout⟩
  | «over» s faults =>
    rw [hrun] at hout
    simp only [hflush]
    refine hafter _ s faults ?_
    rw [← List.append_assoc, show s.outbox = _ from hout]
    exact hreads.snoc (.finished hp)
  | unfinished s t' =>
    rw [hrun] at hout
    simp only [List.append_nil]
    exact ⟨_, hreads, hf t', h.onBus, h.receiver, .inl hout⟩

/-- **A stage keeps the ledger.** -/
theorem follow_stage (h : x.Linked a) {call : Call} (hcall : x.call = some call) (n : Nat) :
    ∃ b, (x.follow (call.deeds n x.context) (call.stage n x.bus x.context)).Linked b := by
  obtain ⟨hserving, hstands⟩ : Call.StandsAt a.stand (some call) := hcall ▸ h.stands
  have hwaiting := h.queue hcall
  obtain ⟨w, p⟩ := a
  unfold Call.deeds Call.stage
  cases hphase : call.phase with
  | main t =>
    rw [hphase] at hstands
    obtain rfl : p = .main := hstands
    refine follow_perform (f := .main) h hcall trivial n t (fun _ => ⟨hserving, rfl⟩) ?_
    intro log s faults hlog
    cases faults with
    | nil => exact ⟨_, hlog, ⟨hserving, trivial⟩, h.onBus, h.receiver, .inl rfl⟩
    | cons r rest => exact ⟨_, follow_ended hlog .failed h.onBus h.receiver (.inl rfl)⟩
  | handling t =>
    rw [hphase] at hstands
    obtain rfl : p = .handling := hstands
    refine follow_perform (f := .handling) h hcall trivial n t (fun _ => ⟨hserving, rfl⟩) ?_
    intro log s faults hlog
    exact ⟨_, hlog, ⟨hserving, trivial⟩, h.onBus, h.receiver, .inl rfl⟩
  | settling =>
    rw [hphase] at hstands
    simp only [Call.settle]
    cases hqueue : x.context.session.outbox with
    | nil =>
      obtain rfl : w = [] := hwaiting.symm.trans hqueue
      simp only [Session.nextEmitted?, hqueue, h.receiver, Call.settled, hserving]
      refine ⟨_, follow_ended (a := ⟨[], p⟩) ?_ (.succeeded hstands) h.onBus h.receiver (.inl hqueue)⟩
      simpa using h.reads
    | cons e rest =>
      obtain rfl : w = e :: rest := hwaiting.symm.trans hqueue
      simp only [Session.nextEmitted?, hqueue]
      cases hcancelled : x.context.cancelled with
      | false =>
        exact follow_handle (c := ⟨_, _, _, _, false, _, _⟩) h.reads (.handled hstands) h.onBus
          h.receiver hserving rfl rfl _ e
      | true =>
        simp only [Context.handing, Call.handle, if_true, Call.endWith]
        exact follow_cancelled h _ h.onBus h.receiver rfl

/-- **Whatever the host does, the chronicle is that of a queue.** -/
theorem Linked.act (h : x.Linked a) (m : Act) : ∃ b, (x.act m).Linked b := by
  unfold Chronicle.act
  cases m with
  | start =>
    cases hcall : x.call with
    | some call => exact ⟨a, h⟩
    | none =>
      have hidle := h.idle hcall
      obtain ⟨w, p⟩ := a
      subst hidle
      by_cases hcancelled : x.context.cancelled = true
      · simp only [Call.start, hcancelled, if_true, Call.endWith]
        exact follow_cancelled h _ h.onBus h.receiver hcancelled
      · have hwaiting := h.waiting.resolve_right fun ⟨_, hc, _⟩ => hcancelled hc
        simp only [Call.start, hcancelled]
        exact ⟨⟨w, .main⟩, h.reads.snoc .started, ⟨rfl, rfl⟩, h.onBus, h.receiver, .inl hwaiting⟩
  | dispatch e =>
    cases hcall : x.call with
    | some call => exact ⟨a, h⟩
    | none =>
      have hidle := h.idle hcall
      obtain ⟨w, p⟩ := a
      subst hidle
      by_cases hcancelled : x.context.cancelled = true
      · simp only [Call.dispatch, Context.handing, Call.handle, hcancelled, if_true, Call.endWith]
        exact follow_cancelled h _ h.onBus h.receiver hcancelled
      · have hwaiting := h.waiting.resolve_right fun ⟨_, hc, _⟩ => hcancelled hc
        exact follow_handle h.reads .dispatched h.onBus h.receiver rfl (by simpa using hcancelled)
          hwaiting _ e
  | run n =>
    cases hcall : x.call with
    | some call => exact follow_stage h hcall n
    | none => exact ⟨a, h⟩
  | reply r =>
    refine ⟨a, h.reads, h.stands.answer x.context r, h.onBus, h.receiver, ?_⟩
    exact h.waiting.imp_right fun ⟨hcall, hrest⟩ => ⟨by simp [hcall], hrest⟩
  | cancel =>
    exact ⟨a, h.reads, h.stands, h.onBus, h.receiver,
      h.waiting.imp_right fun ⟨hcall, _, hlast⟩ => ⟨hcall, rfl, hlast⟩⟩
  | drop =>
    cases hcall : x.call with
    | none => exact ⟨a, h⟩
    | some call =>
      exact ⟨⟨a.waiting, .idle⟩, h.reads.snoc .dropped, rfl, h.onBus, h.receiver,
        .inl (h.queue hcall)⟩

theorem Linked.play (h : x.Linked a) (acts : List Act) : ∃ b, (x.play acts).Linked b := by
  induction acts generalizing x a with
  | nil => exact ⟨a, h⟩
  | cons m acts ih =>
    obtain ⟨b, hb⟩ := h.act m
    exact ih hb

/-- **Emitted events are handled once and in order**, whatever calls the host makes on a context
without a bus. At every moment those that were handled are the first of those emitted. One thing
runs at a time: nothing begins while something runs, and only what runs emits. A call that succeeds
leaves nothing waiting. A call whose main program fails handles nothing. And a call first does what
it was made for, then handles what was left, in order, before what it emits itself. The notes are
true to the context: what was emitted and not handled is in the queue, unless the context was
cancelled, and what is noted as handled is what a stage takes off the queue and hands over. -/
theorem emitted_handled_in_order (s : Session) (hs : s.outbox = []) (program : Block)
    (acts : List Act) :
    let x : Chronicle B := (ofContext (.local_ s program)).play acts
    -- order
    (∀ log, log <+: x.deeds → handledIn log <+: emittedIn log) ∧
    -- turns
    (∀ log d, log ++ [d] <+: x.deeds →
      (d.Works → runningAfter log = false) ∧ (d.emitted?.isSome → runningAfter log = true)) ∧
    -- success
    (∀ log, log ++ [.returned (.ok ())] <+: x.deeds → handledIn log = emittedIn log) ∧
    (x.deeds.getLast? = some (.returned (.ok ())) → x.context.session.outbox = []) ∧
    -- failure
    (∀ log mid r, log ++ .started :: mid ++ [.returned (.error (.raised r))] <+: x.deeds →
      (∀ d ∈ mid, ¬ d.Ends) → handledIn mid = []) ∧
    -- what was left
    (∀ log d mid, log ++ d :: mid <+: x.deeds → d.Begins →
      (∀ d' ∈ log.getLast?, d'.Ends) ∧
        ∃ left, emittedIn log = handledIn log ++ left ∧ handledIn mid <+: left ++ emittedIn mid) ∧
    -- notes
    (x.context.cancelled = false →
      emittedIn x.deeds = handledIn x.deeds ++ x.context.session.outbox) ∧
    (∀ n call e, .handled e ∈ call.deeds n x.context →
      ∃ s', x.context.session.nextEmitted? = some (e, s') ∧
        call.stage n x.bus x.context = Call.handle x.bus { x.context with session := s' } call e) := by
  intro x
  have hstart : (ofContext (.local_ s program) : Chronicle B).Linked ⟨[], .idle⟩ :=
    ⟨.nil, rfl, rfl, rfl, .inl hs⟩
  obtain ⟨a, hlinked⟩ := hstart.play acts
  have hread : ∀ log, log <+: x.deeds → ∃ b, Reads log b := fun log hlog =>
    hlinked.reads.of_prefix hlog
  refine ⟨fun log hlog => ?_, fun log d hlog => ?_, fun log hlog => ?_, fun hlast => ?_,
    fun log mid r hlog hmid => ?_, fun log d mid hlog hd => ?_, fun hgoing => ?_,
    fun n call e he => Call.stage_of_handled he x.bus⟩
  · obtain ⟨b, hb⟩ := hread log hlog
    exact ⟨b.waiting, hb.order.symm⟩
  · obtain ⟨b, hb⟩ := hread _ hlog
    exact hb.turns
  · obtain ⟨b, hb⟩ := hread _ hlog
    obtain ⟨b', hb', hnotes⟩ := hb.last
    have horder := hb'.order
    cases hnotes
    simpa using horder.symm
  · obtain ⟨log, hlog⟩ := List.getLast?_eq_some_iff.mp hlast
    obtain ⟨b, -, hnotes⟩ := Reads.last (hlog ▸ hlinked.reads)
    rcases hlinked.waiting with hwaiting | ⟨-, -, hcancelled⟩
    · rw [hwaiting]
      cases hnotes
      rfl
    · cases hlast.symm.trans hcancelled
  · obtain ⟨b, hb⟩ := hread _ hlog
    obtain ⟨b', hb', hnotes⟩ := hb.last
    obtain ⟨-, hmain⟩ := hb'.main_first hmid
    cases hnotes
    exact hmain (.inr rfl)
  · obtain ⟨b, hb⟩ := hread _ hlog
    obtain ⟨left, hleft, hmid⟩ := hb.left_over
    have hbegins : d.handled? = none ∧ d.emitted? = none := by
      cases d <;> first | exact ⟨rfl, rfl⟩ | exact hd.elim
    refine ⟨?_, left, hleft, by simpa [hbegins] using hmid⟩
    rw [List.append_cons] at hb
    obtain ⟨b', hb'⟩ := hb.append_left
    obtain ⟨b₀, hb₀, hnotes⟩ := hb'.last
    refine hb₀.idle_ends ?_
    cases hnotes <;> first | rfl | exact hd.elim
  · have hwaiting : x.context.session.outbox = a.waiting :=
      hlinked.waiting.resolve_right fun ⟨_, hcancelled, _⟩ => by
        cases hgoing.symm.trans hcancelled
    rw [hwaiting]
    exact hlinked.reads.order

/-- Emits an event whose handler emits another one, and fails. -/
def failing : Block :=
  .mk .start [.on ⟨1, 1⟩ "a" (.mk ⟨1, 6⟩ [.emit ⟨1, 8⟩ "c" none]), .emit ⟨2, 1⟩ "a" none,
    .call ⟨3, 1⟩ "missing" []]

/-- The call of a failing program, and after it one for an event that has no handlers. -/
def failingFirst : Chronicle Bus :=
  (ofContext (.local_ (.initial 7 [] 9) failing)).play
    [.start, .run 9, .dispatch ⟨"b", .null, none⟩, .run 9, .run 9, .run 9, .run 9]

theorem failingFirst_deeds : failingFirst.deeds =
    [.started, .emitted ⟨"a", .null, some 7⟩, .finished,
      .returned (.error (.raised ⟨.undefinedFunction "missing", ⟨3, 1⟩⟩)),
      .dispatched ⟨"b", .null, none⟩, .finished, .handled ⟨"a", .null, some 7⟩,
      .emitted ⟨"c", .null, some 7⟩, .finished, .handled ⟨"c", .null, some 7⟩, .finished,
      .returned (.ok ())] := by
  cbv

/-- The second call handles its own event first, then what the first one left, then what that
handler emitted. -/
theorem emitted_handled_in_order_failing :
    let a : Event := ⟨"a", .null, some 7⟩
    let b : Event := ⟨"b", .null, none⟩
    let c : Event := ⟨"c", .null, some 7⟩
    let log : List Deed := [.started, .emitted a, .finished,
      .returned (.error (.raised ⟨.undefinedFunction "missing", ⟨3, 1⟩⟩))]
    let mid : List Deed := [.finished, .handled a, .emitted c, .finished, .handled c, .finished]
    (Session.initial 7 [] 9).outbox = [] ∧
      failingFirst.deeds = log ++ .dispatched b :: mid ++ [.returned (.ok ())] ∧
      handledIn (log ++ .dispatched b :: mid) = emittedIn (log ++ .dispatched b :: mid) ∧
      failingFirst.context.session.outbox = [] ∧
      ∃ left, emittedIn log = handledIn log ++ left ∧ handledIn mid <+: left ++ emittedIn mid := by
  intro a b c log mid
  have hdeeds : failingFirst.deeds = log ++ .dispatched b :: mid ++ [.returned (.ok ())] :=
    failingFirst_deeds
  obtain ⟨-, -, hok, hempty, -, hleft, -⟩ := emitted_handled_in_order (B := Bus) (.initial 7 [] 9)
    rfl failing [.start, .run 9, .dispatch b, .run 9, .run 9, .run 9, .run 9]
  have hall : log ++ .dispatched b :: mid ++ [.returned (.ok ())] <+: failingFirst.deeds :=
    ⟨[], by rw [hdeeds, List.append_nil]⟩
  refine ⟨rfl, hdeeds, hok _ hall, hempty ?_, ?_⟩
  · exact (congrArg List.getLast? hdeeds).trans rfl
  · exact (hleft log (.dispatched b) mid ⟨_, hdeeds.symm⟩ trivial).2

end Chronicle

end DeskScript
