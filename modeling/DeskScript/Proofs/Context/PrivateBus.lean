import DeskScript.Proofs.Context.Lived
import DeskScript.Proofs.Event.Log
import DeskScript.Proofs.Machine.Outbox

/-!
# A bus of one's own is a queue

A context on a bus that nobody else uses gets its own events back, in the order it
emitted them. What it has not read yet, followed by what it has not sent yet, is what
the same context without a bus has in its queue:

    ∃ f', stage n b (c.offBus f) call = (stage n bus c call).offBus b f'     (Call.stage_same)

Here `f` and `f'` are the feeds that the bus shows before and after. So both do the same,
as long as the bus loses nothing: at no moment may there be more events published and not
handled than the capacity. Any broadcast channel will do for the bus.
-/

namespace DeskScript

variable {B : Type}

/-! ## Off the bus -/

/-- The same context without the bus: what waits on the bus waits in its queue. -/
def Context.offBus (f : Feed) (c : Context) : Context :=
  { c with
    session := c.session.withOutbox (c.receiver.elim [] f.unread ++ c.session.outbox)
    onBus := false
    receiver := none }

namespace Call

def Rest.offBus (b : B) (f : Feed) : Rest B → Rest B
  | asks command _ c call => .asks command b (c.offBus f) call
  | idle _ c call => .idle b (c.offBus f) call
  | ended _ c r => .ended b (c.offBus f) r
  | unfinished _ c call => .unfinished b (c.offBus f) call

def Stage.offBus (b : B) (f : Feed) : Stage B → Stage B
  | next _ c call => .next b (c.offBus f) call
  | rest r => .rest (r.offBus b f)

def Ending.offBus (b : B) (f : Feed) : Ending B → Ending B
  | ended _ c r => .ended b (c.offBus f) r
  | cutOff _ c call => .cutOff b (c.offBus f) call
  | unfinished _ c => .unfinished b (c.offBus f)

end Call

theorem Outcome.ofEnding_offBus (b : B) (f : Feed) (ending : Call.Ending B) :
    Outcome.ofEnding (ending.offBus b f) = Outcome.ofEnding ending := by
  cases ending <;> rfl

/-! ## Moments -/

namespace Call

/-- The bus and the context of a call that rests. -/
def Rest.state : Rest B → B × Context
  | asks _ bus c _ | idle bus c _ | ended bus c _ | unfinished bus c _ => (bus, c)

def Stage.state : Stage B → B × Context
  | next bus c _ => (bus, c)
  | rest r => r.state

end Call

variable [Channel B]

namespace Call

/-- Where a call comes to until it rests, stage by stage. -/
def moments : Nat → B → Context → Call → List (B × Context)
  | 0, bus, c, _ => [(bus, c)]
  | n + 1, bus, c, call =>
    (bus, c) ::
      match stage n bus c call with
      | .next bus c call => moments n bus c call
      | .rest r => [r.state]

def Stage.moments (n : Nat) : Stage B → List (B × Context)
  | .next bus c call => Call.moments n bus c call
  | .rest r => [r.state]

/-- Where a driven call comes to after it has rested. -/
def drivenMoments {σ : Type} (around : Surroundings (StateM σ)) :
    Nat → Nat → Rest B → σ → List (B × Context)
  | n + 1, known, .asks command bus c call, host =>
    match (around.execute command).run ((tell around known c).run host).2 with
    | (some reply, host) =>
      moments n bus c (call.answer c reply) ++
        drivenMoments around n c.session.output.size (run n bus c (call.answer c reply)) host
    | (none, _) => []
  | _, _, _, _ => []

theorem self_mem_moments (n : Nat) (bus : B) (c : Context) (call : Call) :
    (bus, c) ∈ moments n bus c call := by
  cases n <;> exact List.mem_cons_self

theorem endWith_eq {call : Call} (hserving : call.serving = none) (bus : B) (c : Context)
    (x : CallResult) : endWith bus c call x = .rest (.ended bus c x) := by
  simp [endWith, release, hserving]

end Call

/-- All that a run of a source on a bus comes to. -/
def busMoments {σ : Type} (around : Surroundings (StateM σ)) (n : Nat) (o : RunOptions)
    (bus : B) (source : String) (host : σ) : List (B × Context) :=
  match readProgram source with
  | .error _ => []
  | .ok program =>
    let first := startProgram o 0 (some bus) program
    first.moments n ++ Call.drivenMoments around n 0 (first.run n) host

/-! ## Alone on a bus -/

variable [Broadcast B]

/-- The events of a context that were emitted and not handled: those on the bus, and those that have
not been sent yet. -/
def Context.unhandled (bus : B) (c : Context) : Nat :=
  c.receiver.elim 0 (Broadcast.behind bus) + c.session.outbox.length

/-- At no moment are there more unhandled events than the bus was made for. -/
def Call.Fits (capacity : Nat) (ps : List (B × Context)) : Prop :=
  ∀ p ∈ ps, p.2.unhandled p.1 ≤ capacity

/-- The context is receiver `r` of a bus that shows `f`. It has not fallen behind. -/
structure Context.Alone (capacity : Nat) (bus : B) (f : Feed) (r i : Nat) (c : Context) : Prop where
  shows : Broadcast.Shows bus f
  onBus : c.onBus = true
  receiver : c.receiver = some r
  place : f.places r = some i
  place_le : i ≤ f.log.length
  fits : f.log.length ≤ i + capacity
  capacity : f.capacity = capacity

/-- A call of such a context. When it settles, all it emitted is on the bus. -/
structure Call.Alone (capacity : Nat) (bus : B) (f : Feed) (c : Context) (call : Call) : Prop where
  context : ∃ r i, c.Alone capacity bus f r i
  serving : call.serving = none
  sent : call.phase = .settling → c.session.outbox = []

def Call.Rest.Alone (capacity : Nat) (f : Feed) : Call.Rest B → Prop
  | asks _ bus c call | idle bus c call | unfinished bus c call => call.Alone capacity bus f c
  | ended _ _ _ => True

def Call.Stage.Alone (capacity : Nat) (f : Feed) : Call.Stage B → Prop
  | next bus c call => call.Alone capacity bus f c
  | rest r => r.Alone capacity f

/-- Off the bus the stage is the same, with what the bus shows afterwards. -/
def Call.Stage.Same (capacity : Nat) (b : B) (x y : Call.Stage B) : Prop :=
  ∃ f, y = x.offBus b f ∧ x.Alone capacity f

section
variable {capacity : Nat} {bus : B} {f : Feed} {r i : Nat} {c : Context}

theorem Context.Alone.offBus_eq (h : c.Alone capacity bus f r i) :
    c.offBus f = { c with
      session := c.session.withOutbox (f.unread r ++ c.session.outbox)
      onBus := false
      receiver := none } := by
  simp [Context.offBus, h.receiver]

theorem Context.Alone.withSession (h : c.Alone capacity bus f r i) (s : Session) :
    { c with session := s }.Alone capacity bus f r i :=
  ⟨h.shows, h.onBus, h.receiver, h.place, h.place_le, h.fits, h.capacity⟩

theorem Context.Alone.record (h : c.Alone capacity bus f r i) (faults : List Raised) :
    (c.record faults).Alone capacity bus f r i :=
  ⟨h.shows, h.onBus, h.receiver, h.place, h.place_le, h.fits, h.capacity⟩

/-- Sending what was emitted moves it from one end of the queue to the other. -/
theorem Context.Alone.flush (h : c.Alone capacity bus f r i)
    (hfits : (c.flush bus).2.unhandled (c.flush bus).1 ≤ capacity) :
    ∃ f', (c.flush bus).2.Alone capacity (c.flush bus).1 f' r i ∧
      (c.flush bus).2.session.outbox = [] ∧ (c.flush bus).2.offBus f' = c.offBus f := by
  have hflush : c.flush bus = (Channel.publishAll bus c.session.outbox,
      { c with session := { c.session with outbox := [] } }) := by
    simp [Context.flush, h.onBus]
  rw [hflush] at hfits ⊢
  have hshows := Broadcast.shows_publishAll h.shows ⟨r, i, h.place⟩ c.session.outbox
  have hbehind : Broadcast.behind (Channel.publishAll bus c.session.outbox) r =
      (f.log ++ c.session.outbox).length - i := Broadcast.shows_behind hshows h.place
  have hle := h.place_le
  simp only [Context.unhandled, h.receiver, Option.elim_some, List.length_nil, hbehind] at hfits
  have halone : { c with session := { c.session with outbox := [] } }.Alone capacity
      (Channel.publishAll bus c.session.outbox) (f.send c.session.outbox) r i :=
    { shows := hshows
      onBus := h.onBus
      receiver := h.receiver
      place := h.place
      place_le := by
        rw [Feed.send, List.length_append]
        exact Nat.le_add_right_of_le hle
      fits := by
        show (f.log ++ c.session.outbox).length ≤ i + capacity
        omega
      capacity := h.capacity }
  refine ⟨f.send c.session.outbox, halone, rfl, ?_⟩
  rw [halone.offBus_eq, h.offBus_eq, Feed.unread_send h.place hle, List.append_nil]
  rfl

theorem Context.offBus_record (f : Feed) (c : Context) (faults : List Raised) :
    (c.record faults).offBus f = (c.offBus f).record faults := rfl

end

/-! ## Stages -/

namespace Call

section
variable {capacity : Nat} {bus : B} {f : Feed} {r i : Nat} {c : Context} {call : Call}

theorem endWith_same (hserving : call.serving = none) (b bus : B) (f : Feed) (c : Context)
    (x : CallResult) : (endWith bus c call x).Same capacity b (endWith b (c.offBus f) call x) := by
  rw [endWith_eq hserving, endWith_eq hserving]
  exact ⟨f, rfl, trivial⟩

/-- Handing an event over is the same on and off the bus. -/
theorem handle_same (h : c.Alone capacity bus f r i) (hserving : call.serving = none)
    (hsent : c.session.outbox = []) (b : B) (e : Event) :
    (handle bus c call e).Same capacity b (handle b (c.offBus f) call e) := by
  have hout := Task.outbox_ofEvent c.session e
  rw [hsent] at hout
  have hof : Task.ofEvent (c.offBus f).session e =
      ((Task.ofEvent c.session e).1.withOutbox (f.unread r), (Task.ofEvent c.session e).2) := by
    rw [h.offBus_eq, hsent, List.append_nil]
    exact Task.ofEvent_withOutbox c.session _ e
  have hsession (s : Session) (hs : s.outbox = []) : { c with session := s }.offBus f =
      { c.offBus f with session := s.withOutbox (f.unread r) } := by
    rw [(h.withSession s).offBus_eq, h.offBus_eq, hs, List.append_nil]
  unfold handle
  have hcancelled : (c.offBus f).cancelled = c.cancelled := rfl
  rw [hcancelled, hof]
  split
  · exact endWith_same hserving b bus f c _
  · rcases hevent : Task.ofEvent c.session e with ⟨s, t | faults⟩
    · rw [hevent] at hout
      refine ⟨f, ?_, ⟨r, i, h.withSession s⟩, hserving, fun _ => hout⟩
      simp only [Stage.offBus, hsession s hout, hcancelled]
    · rw [hevent] at hout
      refine ⟨f, ?_, ⟨r, i, (h.withSession s).record faults⟩, hserving, fun _ => hout⟩
      simp only [Stage.offBus, Context.offBus_record, hsession s hout, hcancelled]

/-- The next event is the same on and off the bus. -/
theorem settle_same (h : call.Alone capacity bus f c) (hphase : call.phase = .settling) (b : B) :
    (settle bus c call).Same capacity b (settle b (c.offBus f) call) := by
  obtain ⟨r, i, hc⟩ := h.context
  have hsent := h.sent hphase
  have hquiet : c.session.nextEmitted? = none := by simp [Session.nextEmitted?, hsent]
  have hoff := hc.offBus_eq
  rw [hsent, List.append_nil, Feed.unread_eq hc.place] at hoff
  have hfits := hc.fits
  obtain ⟨j, hgets, hshows⟩ := Broadcast.shows_receive hc.shows hc.place hc.place_le
  simp only [settle, hquiet, hc.receiver, hear]
  rcases hreceive : Channel.receive bus r with ⟨x, bus'⟩
  rw [hreceive] at hgets hshows
  cases hgets with
  | @event e he =>
    obtain ⟨hlt, hget⟩ := List.getElem?_eq_some_iff.mp he
    have halone : c.Alone capacity bus' (f.move r (i + 1)) r (i + 1) :=
      ⟨hshows, hc.onBus, hc.receiver, Feed.places_move_self, hlt,
        hfits.trans (Nat.add_le_add_right (Nat.le_add_right i 1) capacity), hc.capacity⟩
    have hsome : (c.offBus f).session.nextEmitted? =
        some (e, (c.offBus (f.move r (i + 1))).session) := by
      rw [List.drop_eq_getElem_cons hlt, hget] at hoff
      rw [hoff, halone.offBus_eq, Feed.unread_eq halone.place, hsent, List.append_nil]
      rfl
    simp only [hsome]
    exact handle_same halone h.serving hsent b e
  | lagged hlt hlag =>
    -- only a receiver that is further behind than the capacity is told so
    rw [hc.capacity] at hlag
    omega
  | empty hend =>
    rw [hend, List.drop_length] at hoff
    have hnone : (c.offBus f).session.nextEmitted? = none := by
      simp [hoff, Session.nextEmitted?, Session.withOutbox]
    have hreceiver : (c.offBus f).receiver = none := rfl
    simp only [hnone, hreceiver, settled, h.serving]
    exact endWith_same h.serving b bus' f c _

/-- The unhandled events of where a stage leads to. -/
def Stage.unhandled (x : Stage B) : Nat := x.state.2.unhandled x.state.1

/-- A task runs the same on and off the bus. -/
theorem perform_same (h : call.Alone capacity bus f c) (b : B) (n : Nat) (t : Task)
    {phase : Task → Phase} (hphase : ∀ t', phase t' ≠ .settling)
    {after : B → Context → List Raised → Stage B}
    (hafter : ∀ bus c f r i faults, c.Alone capacity bus f r i → c.session.outbox = [] →
      (after bus c faults).Same capacity b (after b (c.offBus f) faults))
    (hcount : ∀ bus c faults, (after bus c faults).unhandled = c.unhandled bus)
    (hfits : (perform n bus c call t phase after).unhandled ≤ capacity) :
    (perform n bus c call t phase after).Same capacity b
      (perform n b (c.offBus f) call t phase after) := by
  obtain ⟨r, i, hc⟩ := h.context
  have hrun : Task.run n (c.offBus f).session t = (Task.run n c.session t).withOutbox
      (f.unread r ++ (Task.run n c.session t).session.outbox) := by
    rw [Task.outbox_run, ← List.append_assoc, ← Task.run_withOutbox, hc.offBus_eq]
  have hsession (s : Session) :
      { c.offBus f with session := s.withOutbox (f.unread r ++ s.outbox) } =
        { c with session := s }.offBus f := by
    rw [(hc.withSession s).offBus_eq, hc.offBus_eq]
  have hstill (s : Session) : ({ c with session := s }.offBus f).flush b =
      (b, { c with session := s }.offBus f) := rfl
  by_cases hcancelled : c.cancelled = true
  · have hsame : (c.offBus f).cancelled = true := hcancelled
    rw [perform, perform, if_pos hcancelled, if_pos hsame]
    exact endWith_same h.serving b bus f c _
  have hsame : ¬ (c.offBus f).cancelled = true := hcancelled
  unfold perform at hfits ⊢
  rw [if_neg hcancelled] at hfits
  rw [if_neg hcancelled, if_neg hsame, hrun]
  cases hresult : Task.run n c.session t with
  | asks command s t' =>
    simp only [hresult] at hfits
    simp only [Task.Rest.withOutbox, Task.Rest.session, hsession, hstill]
    obtain ⟨f', halone, hsent, hoff⟩ := (hc.withSession s).flush hfits
    refine ⟨f', ?_, ⟨r, i, halone⟩, h.serving, fun _ => hsent⟩
    simp only [Stage.offBus, Rest.offBus, hoff]
  | «over» s faults =>
    simp only [hresult, hcount] at hfits
    simp only [Task.Rest.withOutbox, Task.Rest.session, hsession, hstill]
    obtain ⟨f', halone, hsent, hoff⟩ := (hc.withSession s).flush hfits
    rw [← hoff]
    exact hafter _ _ f' r i faults halone hsent
  | unfinished s t' =>
    simp only [Task.Rest.withOutbox, Task.Rest.session, hsession]
    exact ⟨f, rfl, ⟨r, i, hc.withSession s⟩, h.serving, fun hp => absurd hp (hphase t')⟩

/-- **A stage is the same on and off the bus**, if there are not too many events afterwards. -/
theorem stage_same (h : call.Alone capacity bus f c) (b : B) (n : Nat)
    (hfits : (stage n bus c call).unhandled ≤ capacity) :
    (stage n bus c call).Same capacity b (stage n b (c.offBus f) call) := by
  unfold stage at hfits ⊢
  cases hphase : call.phase with
  | main t =>
    simp only [hphase] at hfits
    refine perform_same h b n t (by simp) ?_ ?_ hfits
    · intro bus c f r i faults hc hsent
      cases faults with
      | nil => exact ⟨f, rfl, ⟨r, i, hc⟩, h.serving, fun _ => hsent⟩
      | cons x rest =>
        exact endWith_same h.serving b bus f { c with reports := c.reports ++ [.raised x] } _
    · intro bus c faults
      cases faults with
      | nil => rfl
      | cons x rest =>
        rw [afterMain, endWith_eq h.serving]
        rfl
  | handling t =>
    simp only [hphase] at hfits
    refine perform_same h b n t (by simp) ?_ (fun _ _ _ => rfl) hfits
    intro bus c f r i faults hc hsent
    exact ⟨f, rfl, ⟨r, i, hc.record faults⟩, h.serving, fun _ => hsent⟩
  | settling => exact settle_same h hphase b

theorem answer_alone (h : call.Alone capacity bus f c) (x : Reply) :
    (call.answer c x).Alone capacity bus f c := by
  obtain ⟨phase, serving⟩ := call
  cases phase with
  | main t => exact ⟨h.context, h.serving, nofun⟩
  | handling t => exact ⟨h.context, h.serving, nofun⟩
  | settling => exact h

end

/-! ## Runs -/

section
variable {capacity : Nat} {bus : B} {f : Feed} {c : Context} {call : Call}

theorem run_offBus (h : call.Alone capacity bus f c) (b : B) (n : Nat)
    (hfits : Fits capacity (moments n bus c call)) :
    ∃ f', run n b (c.offBus f) call = (run n bus c call).offBus b f' ∧
      (run n bus c call).Alone capacity f' := by
  induction n generalizing bus f c call with
  | zero => exact ⟨f, rfl, h⟩
  | succ n ih =>
    obtain ⟨-, hlater⟩ := List.forall_mem_cons.mp hfits
    have hstage : (stage n bus c call).unhandled ≤ capacity := by
      cases hs : stage n bus c call with
      | next bus' c' call' =>
        rw [hs] at hlater
        exact hlater _ (self_mem_moments n bus' c' call')
      | rest r =>
        rw [hs] at hlater
        exact hlater _ (List.mem_singleton_self _)
    obtain ⟨f', hsame, halone⟩ := stage_same h b n hstage
    simp only [run, hsame]
    cases hs : stage n bus c call with
    | next bus' c' call' =>
      rw [hs] at hlater halone
      exact ih halone hlater
    | rest r =>
      rw [hs] at halone
      exact ⟨f', rfl, halone⟩

/-- **A driven call ends the same on and off the bus**, and so does its host. -/
theorem drive_offBus {σ : Type} (around : Surroundings (StateM σ)) (b : B) (n known : Nat)
    {rest : Rest B} (h : rest.Alone capacity f) (host : σ)
    (hfits : Fits capacity (drivenMoments around n known rest host)) :
    ∃ f', (drive around n known (rest.offBus b f)).run host =
      (((drive around n known rest).run host).1.offBus b f',
        ((drive around n known rest).run host).2) := by
  induction n generalizing f known rest host with
  | zero => exact ⟨f, by cases rest <;> rfl⟩
  | succ n ih =>
    cases rest with
    | asks command bus c call =>
      simp only [drivenMoments] at hfits
      have htell : tell around known (c.offBus f) = tell around known c := rfl
      simp only [Rest.offBus]
      rw [drive_asks, drive_asks, htell]
      rcases hexecute : (around.execute command).run ((tell around known c).run host).2 with
        ⟨_ | reply, host'⟩
      · exact ⟨f, rfl⟩
      · rw [hexecute] at hfits
        obtain ⟨hrun, hdriven⟩ := List.forall_mem_append.mp hfits
        obtain ⟨f', hsame, halone⟩ := run_offBus (answer_alone h reply) b n hrun
        have hanswer : call.answer (c.offBus f) reply = call.answer c reply := rfl
        simp only [hanswer, hsame]
        exact ih c.session.output.size halone host' hdriven
    | idle bus c call => exact ⟨f, rfl⟩
    | ended bus c r => exact ⟨f, rfl⟩
    | unfinished bus c call => exact ⟨f, rfl⟩

end

end Call

/-! ## Sources -/

/-- A program that is started on a new bus. -/
theorem startProgram_alone (o : RunOptions) (capacity : Nat) (program : Block) :
    ∃ (bus : B) (f : Feed) (c : Context) (call : Call),
      startProgram o 0 (some (Channel.ofCapacity capacity)) program = .next bus c call ∧
      call.Alone (Channel.capacity (Channel.ofCapacity capacity : B)) bus f c ∧
      startProgram o 0 none program = .next (Channel.ofCapacity 1 : B) (c.offBus f) call := by
  obtain ⟨-, hshows⟩ :=
    Broadcast.shows_subscribe (Broadcast.shows_ofCapacity (B := B) capacity)
  let c := (Context.attached (Channel.ofCapacity capacity : B) (o.session 0) program).2
  have hc : c.Alone (Channel.capacity (Channel.ofCapacity capacity : B)) _ _ _ 0 :=
    ⟨hshows, rfl, rfl, Feed.places_move_self, Nat.le_refl 0, Nat.zero_le _, rfl⟩
  refine ⟨_, _, c, _, rfl, ⟨⟨_, 0, hc⟩, rfl, nofun⟩, ?_⟩
  rw [hc.offBus_eq, Feed.unread_eq hc.place]
  rfl

/-- **A bus of one's own is a queue.** A source that runs on a new bus, which may be any broadcast
channel, has the same outcome and reports as without a bus, and its host ends in the same state,
having executed the same commands and heard the same lines. There must at no moment be more events
published and not handled than the capacity of the bus. -/
theorem runSource_private_bus {σ : Type} (around : Surroundings (StateM σ)) (n : Nat)
    (o : RunOptions) (capacity : Nat) (source : String) (host : σ)
    (hfits : Call.Fits (Channel.capacity (Channel.ofCapacity capacity : B))
      (busMoments around n o (Channel.ofCapacity capacity : B) source host)) :
    (runSource around n o (some (Channel.ofCapacity capacity : B)) source).run host =
      (runSource around n o (none : Option B) source).run host := by
  unfold busMoments at hfits
  cases hprogram : readProgram source with
  | error e => rw [runSource_failed around n o _ hprogram, runSource_failed around n o _ hprogram]
  | ok program =>
    rw [hprogram] at hfits
    obtain ⟨hrun, hdriven⟩ := List.forall_mem_append.mp hfits
    obtain ⟨bus, f, c, call, hfirst, halone, hlocal⟩ :=
      startProgram_alone (B := B) o capacity program
    rw [hfirst] at hrun hdriven
    obtain ⟨f₁, hsame, hrest⟩ := Call.run_offBus halone (Channel.ofCapacity 1) n hrun
    obtain ⟨f₂, hdrive⟩ := Call.drive_offBus around (Channel.ofCapacity 1) n 0 hrest host hdriven
    rw [runSource_run around n o _ hprogram, runSource_run around n o _ hprogram, hfirst, hlocal]
    simp only [Call.Stage.run, hsame, hdrive, Outcome.ofEnding_offBus]

/-- Two events, and a handler of the first one that emits a third. -/
def threeEvents : String :=
  "on a \x7b emit c \x7d\non b \x7b print \"b\" \x7d\non c \x7b print \"c\" \x7d\nemit a\nemit b"

/-- Surroundings that write down what they hear. -/
def Surroundings.scribe : Surroundings (StateM (List String)) :=
  ⟨fun _ => pure none, pure (), fun lines => modify (· ++ lines)⟩

theorem readProgram_threeEvents : readProgram threeEvents = .ok (.mk ⟨1, 1⟩
    [.on ⟨1, 1⟩ "a" (.mk ⟨1, 6⟩ [.emit ⟨1, 8⟩ "c" none]),
      .on ⟨2, 1⟩ "b" (.mk ⟨2, 6⟩ [.print ⟨2, 8⟩ (.literal ⟨2, 14⟩ (.string "b"))]),
      .on ⟨3, 1⟩ "c" (.mk ⟨3, 6⟩ [.print ⟨3, 8⟩ (.literal ⟨3, 14⟩ (.string "c"))]),
      .emit ⟨4, 1⟩ "a" none, .emit ⟨5, 1⟩ "b" none]) := by
  cbv

/-- A bus for two events is enough, and it is full twice. -/
theorem unhandled_threeEvents :
    (busMoments Surroundings.scribe 22 ⟨[], [], 9⟩ (Bus.ofCapacity 2) threeEvents []).map
      (fun p => p.2.unhandled p.1) = [0, 2, 1, 2, 1, 1, 0, 0, 0] := by
  simp only [busMoments, readProgram_threeEvents]
  cbv

theorem runSource_private_bus_threeEvents :
    let o : RunOptions := ⟨[], [], 9⟩
    let bus := Bus.ofCapacity 2
    Call.Fits 2 (busMoments Surroundings.scribe 22 o bus threeEvents []) ∧
      (runSource Surroundings.scribe 22 o (some bus) threeEvents).run [] =
        (runSource Surroundings.scribe 22 o (none : Option Bus) threeEvents).run [] := by
  intro o bus
  have hfits : Call.Fits 2 (busMoments Surroundings.scribe 22 o bus threeEvents []) := by
    have hle : ∀ k ∈ (busMoments Surroundings.scribe 22 o bus threeEvents []).map
        (fun p => p.2.unhandled p.1), k ≤ 2 := by
      rw [unhandled_threeEvents]
      decide
    exact fun p hp => hle _ (List.mem_map_of_mem hp)
  exact ⟨hfits, runSource_private_bus (B := Bus) Surroundings.scribe 22 o 2 threeEvents [] hfits⟩

end DeskScript
