import DeskScript.Proofs.Context.Chronicle
import DeskScript.Proofs.Context.PrivateBus

/-!
# A context that listens

A member is a context on a bus that others use too, with its `news`, all events published
since it joined, and the places in them of those that its handlers were run for. Whatever
is done with it, it does one of four things to the bus (`Member.Turns`): it sends events,
takes the next event and hands it over, loses it because it is cancelled, or learns that it
has fallen behind. In every case it goes on listening to what the bus shows, with its places
in order:

    m.Listens f r next → ∃ next', (the member later).Listens f' r next'   (Member.Listens.turn)
-/

namespace DeskScript

variable {B : Type} [Channel B]

/-! ## What a member does -/

/-- A context on a bus. -/
structure Member where
  context : Context
  call : Option Call
  /-- The events published since it joined, the first one first. -/
  news : List Event
  /-- The places in the news of those that its handlers were run for. -/
  heard : List Nat

/-- Where a stage leads to. What was emitted by then is sent, also if the stage is not finished. -/
def Call.Stage.turn : Call.Stage B → B × Context × Option Call
  | .next bus c call | .rest (.asks _ bus c call) | .rest (.idle bus c call) => (bus, c, some call)
  | .rest (.unfinished bus c call) => ((c.flush bus).1, (c.flush bus).2, some call)
  | .rest (.ended bus c _) => (bus, c, none)

/-- The events that a stage of a call emits. -/
def Call.sends (n : Nat) (c : Context) (call : Call) : List Event :=
  match call.phase with
  | .main t | .handling t => if c.cancelled then [] else Task.emissions n c.session t
  | .settling => []

/-- The event of the bus that the next stage of a call hands to its handlers. -/
def Call.heard? (bus : B) (c : Context) (call : Call) : Option Event :=
  match call.phase, c.session.nextEmitted?, c.receiver with
  | .settling, none, some receiver =>
    match (Channel.receive bus receiver).1 with
    | .event e => if c.cancelled then none else some e
    | _ => none
  | _, _, _ => none

namespace Member

variable [Broadcast B]

/-- How many events the member has not read. -/
def unread (bus : B) (m : Member) : Nat := m.context.receiver.elim 0 (Broadcast.behind bus)

/-- How many of its news are behind the member: it goes on with the one at this place. -/
def read (bus : B) (m : Member) : Nat := m.news.length - m.unread bus

/-- Something is done with the member: the bus, the member, and what it sent. -/
def act (bus : B) (m : Member) : Act → B × Member × List Event
  | .start =>
    match m.call with
    | some _ => (bus, m, [])
    | none =>
      let (bus, context, call) := (Call.start bus m.context).turn
      (bus, { m with context, call }, [])
  | .dispatch e =>
    match m.call with
    | some _ => (bus, m, [])
    | none =>
      let (bus, context, call) := (Call.dispatch bus m.context e).turn
      (bus, { m with context, call }, [])
  | .run n =>
    match m.call with
    | none => (bus, m, [])
    | some call =>
      let heard := m.heard ++ (call.heard? bus m.context).toList.map fun _ => m.read bus
      let sent := call.sends n m.context
      let (bus, context, call) := (call.stage n bus m.context).turn
      (bus, { m with context, call, heard }, sent)
  | .reply r => (bus, { m with call := m.call.map (·.answer m.context r) }, [])
  | .cancel => (bus, { m with context := m.context.cancel }, [])
  | .drop => (bus, { m with call := none }, [])

/-- The member after events were published. -/
def told (es : List Event) (m : Member) : Member := { m with news := m.news ++ es }

end Member

/-! ## Contexts on a bus -/

/-- The context hears the bus as receiver `r`, and has sent all that its script emitted. -/
structure Context.Attached (r : Nat) (c : Context) : Prop where
  onBus : c.onBus = true
  receiver : c.receiver = some r
  sent : c.session.outbox = []

/-- No call that goes on serves the bus. -/
def Call.Visits (call : Option Call) : Prop := ∀ k ∈ call, k.serving = none

theorem Call.visits_none : Visits none := fun _ hk => by cases hk

theorem Call.visits_some {call : Call} (h : call.serving = none) : Visits (some call) :=
  fun k hk => by rw [← Option.some.inj hk, h]

section
variable {r : Nat} {bus : B} {c : Context} {call : Call}

theorem Context.Attached.flush (h : c.Attached r) (bus : B) (s : Session) :
    ({ c with session := s }.flush bus).1 = Channel.publishAll bus s.outbox ∧
      ({ c with session := s }.flush bus).2.Attached r ∧
      ({ c with session := s }.flush bus).2.cancelled = c.cancelled := by
  have hflush : { c with session := s }.flush bus =
      (Channel.publishAll bus s.outbox, { c with session := { s with outbox := [] } }) := by
    simp [Context.flush, h.onBus]
  rw [hflush]
  exact ⟨rfl, ⟨h.onBus, h.receiver, rfl⟩, rfl⟩

namespace Call

/-- Where a stage of a context on a bus leads to, if it leaves the bus as `bus`. -/
structure Stage.LeadsTo (r : Nat) (bus : B) (cancelled : Bool) (x : Stage B) : Prop where
  bus : x.turn.1 = bus
  attached : x.turn.2.1.Attached r
  visits : Visits x.turn.2.2
  cancelled : x.turn.2.1.cancelled = cancelled

theorem endWith_leadsTo (h : c.Attached r) (bus : B) (hserving : call.serving = none)
    (x : CallResult) : (endWith bus c call x).LeadsTo r bus c.cancelled :=
  ⟨by simp [endWith, release, hserving, Stage.turn], h, visits_none, rfl⟩

/-- **Work sends what it emits.** -/
theorem perform_leadsTo (h : c.Attached r) (hserving : call.serving = none) (n : Nat) (t : Task)
    (phase : Task → Phase) {after : B → Context → List Raised → Stage B}
    (hafter : ∀ bus' c' faults, c'.Attached r → c'.cancelled = c.cancelled →
      (after bus' c' faults).LeadsTo r bus' c.cancelled) :
    (perform n bus c call t phase after).LeadsTo r
      (Channel.publishAll bus (if c.cancelled then [] else Task.emissions n c.session t))
      c.cancelled := by
  have hout := Task.outbox_run c.session n t
  rw [h.sent, List.nil_append] at hout
  unfold perform
  split
  · exact endWith_leadsTo h bus hserving _
  cases hrun : Task.run n c.session t with
  | asks command s t' =>
    rw [hrun] at hout
    obtain ⟨hbus, hattached, hcancelled⟩ := h.flush bus s
    rw [show s.outbox = _ from hout] at hbus
    exact ⟨hbus, hattached, visits_some hserving, hcancelled⟩
  | «over» s faults =>
    rw [hrun] at hout
    obtain ⟨hbus, hattached, hcancelled⟩ := h.flush bus s
    rw [show s.outbox = _ from hout] at hbus
    rw [← hbus]
    exact hafter _ _ faults hattached hcancelled
  | unfinished s t' =>
    rw [hrun] at hout
    obtain ⟨hbus, hattached, hcancelled⟩ := h.flush bus s
    rw [show s.outbox = _ from hout] at hbus
    exact ⟨hbus, hattached, visits_some hserving, hcancelled⟩

theorem stage_work (h : c.Attached r) (bus : B) (hserving : call.serving = none) (n : Nat)
    (hphase : call.phase ≠ .settling) :
    (stage n bus c call).LeadsTo r (Channel.publishAll bus (call.sends n c)) c.cancelled := by
  unfold stage sends
  cases hwork : call.phase with
  | main t =>
    refine perform_leadsTo h hserving n t .main fun bus' c' faults hc' hcancelled => ?_
    cases faults with
    | nil => exact ⟨rfl, hc', visits_some hserving, hcancelled⟩
    | cons x rest =>
      have hattached : Context.Attached r { c' with reports := c'.reports ++ [.raised x] } :=
        ⟨hc'.onBus, hc'.receiver, hc'.sent⟩
      rw [← hcancelled]
      exact endWith_leadsTo hattached bus' hserving _
  | handling t =>
    refine perform_leadsTo h hserving n t .handling fun bus' c' faults hc' hcancelled => ?_
    exact ⟨rfl, ⟨hc'.onBus, hc'.receiver, hc'.sent⟩, visits_some hserving,
      hcancelled⟩
  | settling => exact absurd hwork hphase

/-- An event is handed over, unless the context is cancelled: then the call ends. -/
theorem handle_leadsTo (h : c.Attached r) (bus : B) (hserving : call.serving = none) (e : Event) :
    (handle bus c call e).LeadsTo r bus c.cancelled ∧
      (c.cancelled = true → (handle bus c call e).turn.2.2 = none) := by
  have hout := Task.outbox_ofEvent c.session e
  rw [h.sent] at hout
  unfold handle
  split
  · next hcancelled =>
    exact ⟨endWith_leadsTo h bus hserving _, fun _ => rfl⟩
  · next hcancelled =>
    refine ⟨?_, fun hc => absurd hc hcancelled⟩
    rcases hevent : Task.ofEvent c.session e with ⟨s, t | faults⟩ <;> rw [hevent] at hout
    · exact ⟨rfl, ⟨h.onBus, h.receiver, hout⟩, visits_some hserving, rfl⟩
    · exact ⟨rfl, ⟨h.onBus, h.receiver, hout⟩, visits_some hserving, rfl⟩

/-- A call begins, unless the context is cancelled: then it ends. -/
theorem start_leadsTo (h : c.Attached r) (bus : B) :
    (start bus c).LeadsTo r bus c.cancelled ∧
      (c.cancelled = true → (start bus c).turn.2.2 = none) := by
  unfold start
  split
  · exact ⟨⟨rfl, h, visits_none, rfl⟩, fun _ => rfl⟩
  · next hgoing =>
    exact ⟨⟨rfl, h, visits_some rfl, rfl⟩, fun hc => absurd hc hgoing⟩

/-- A call that settles takes the next thing from the bus. -/
theorem stage_settling (h : c.Attached r) (bus : B) (hserving : call.serving = none) (n : Nat)
    (hphase : call.phase = .settling) :
    stage n bus c call =
      match Channel.receive bus r with
      | (.event e, bus) => handle bus c call e
      | (.lagged _, bus) => .next bus c call
      | (.empty, bus) => .rest (.ended bus c (.ok ())) := by
  have hquiet : c.session.nextEmitted? = none := by simp [Session.nextEmitted?, h.sent]
  have hstage : stage n bus c call = hear bus c call r fun bus => settled bus c call := by
    simp only [stage, hphase, settle, hquiet, h.receiver]
  rw [hstage, hear]
  rcases Channel.receive bus r with ⟨e | missed | _, bus'⟩
  · rfl
  · rfl
  · show settled bus' c call = .rest (.ended bus' c (.ok ()))
    simp [settled, hserving, endWith, release]

/-- Work does not succeed unless what comes after it does. -/
theorem perform_ne_ok {n : Nat} {t : Task} {phase : Task → Phase}
    {after : B → Context → List Raised → Stage B} {bus' : B} {c' : Context}
    (hafter : ∀ bus c faults, after bus c faults ≠ .rest (.ended bus' c' (.ok ()))) :
    perform n bus c call t phase after ≠ .rest (.ended bus' c' (.ok ())) := by
  unfold perform
  split
  · simp [endWith]
  · cases Task.run n c.session t with
    | «over» s faults => exact hafter _ _ faults
    | _ => simp

/-- A call succeeds only when it settles. -/
theorem settling_of_ok {n : Nat} {bus' : B} {c' : Context}
    (h : stage n bus c call = .rest (.ended bus' c' (.ok ()))) : call.phase = .settling := by
  unfold stage at h
  cases hphase : call.phase with
  | settling => rfl
  | main t =>
    rw [hphase] at h
    refine absurd h (perform_ne_ok fun bus c faults => ?_)
    cases faults <;> simp [afterMain, endWith]
  | handling t =>
    rw [hphase] at h
    exact absurd h (perform_ne_ok fun bus c faults => by simp)

theorem heard?_settling (h : c.Attached r) (bus : B) (hphase : call.phase = .settling) :
    call.heard? bus c =
      match (Channel.receive bus r).1 with
      | .event e => if c.cancelled then none else some e
      | _ => none := by
  have hquiet : c.session.nextEmitted? = none := by simp [Session.nextEmitted?, h.sent]
  simp only [heard?, hphase, hquiet, h.receiver]

end Call

end

/-! ## Members -/

namespace Member

/-- The member is cancelled and has no call: no call will do anything. -/
def Frozen (m : Member) : Prop := m.call = none ∧ m.context.cancelled = true

/-- The member listens as receiver `r`, and is to read the event of number `next`. Counted from the
beginning of its news, the events before that are read. -/
structure Listens (f : Feed) (r next : Nat) (m : Member) : Prop where
  attached : m.context.Attached r
  visits : Call.Visits m.call
  place : f.places r = some next
  next_le : next ≤ f.log.length
  le_next : f.log.length ≤ next + m.news.length
  news : m.news <:+ f.log
  heard : m.heard.Pairwise (· < ·)
  read : ∀ k ∈ m.heard, k + f.log.length < m.news.length + next

/-- What can become of a member, and with it of the feed: it sends events; or it takes the next
event, and hands it over or loses it; or it has fallen behind. -/
inductive Turns (f : Feed) (r next : Nat) (m : Member) : Feed → Member → List Event → Prop
  | sends {m' : Member} (es : List Event) : m'.heard = m.heard → (m.Frozen → m'.Frozen) →
      Turns f r next m (f.send es) m' es
  | hears {m' : Member} {e : Event} {k : Nat} : f.log[next]? = some e →
      k + f.log.length = m.news.length + next → m'.heard = m.heard ++ [k] → ¬ m.Frozen →
      Turns f r next m (f.move r (next + 1)) m' []
  | loses {m' : Member} {e : Event} : f.log[next]? = some e → m'.heard = m.heard → m'.Frozen →
      Turns f r next m (f.move r (next + 1)) m' []
  | lags {m' : Member} {j : Nat} : next < j → j + f.capacity ≤ f.log.length →
      m'.heard = m.heard → ¬ m.Frozen → Turns f r next m (f.move r j) m' []

variable [Broadcast B]

/-- What something that is done with a member leads to. -/
structure Acts (f : Feed) (r next : Nat) (m : Member) (x : B × Member × List Event) : Prop where
  turns : ∃ f', Broadcast.Shows x.1 f' ∧ Turns f r next m f' x.2.1 x.2.2
  attached : x.2.1.context.Attached r
  visits : Call.Visits x.2.1.call
  news : x.2.1.news = m.news

/-- Every event that the member has read was handed over, unless it is cancelled for good. -/
def Complete (bus : B) (m : Member) : Prop := m.Frozen ∨ m.heard = List.range (m.read bus)

section
variable {bus bus' : B} {f f' : Feed} {r next : Nat} {m m' : Member} {es : List Event}

theorem Listens.unread_eq (h : m.Listens f r next) (hbus : Broadcast.Shows bus f) :
    m.unread bus = f.log.length - next := by
  rw [unread, h.attached.receiver, Option.elim_some, Broadcast.shows_behind hbus h.place]

theorem Listens.read_eq (h : m.Listens f r next) (hbus : Broadcast.Shows bus f) :
    m.read bus + f.log.length = m.news.length + next := by
  have hnext := h.next_le
  have hle := h.le_next
  rw [Member.read, h.unread_eq hbus]
  omega

/-- The event that the member is to read is the one at its place in the news. -/
theorem Listens.news_read (h : m.Listens f r next) (hbus : Broadcast.Shows bus f) :
    m.news[m.read bus]? = f.log[next]? := by
  have hread := h.read_eq hbus
  obtain ⟨before, hlog⟩ := h.news
  rw [← hlog, List.length_append] at hread
  rw [← hlog, List.getElem?_append_right (by omega)]
  congr 1
  omega

theorem Listens.listened (h : m.Listens f r next) : f.Listened := ⟨r, next, h.place⟩

/-- A stage in which nothing is taken from the bus. -/
theorem Listens.leadsTo (h : m.Listens f r next) (hbus : Broadcast.Shows bus f) {x : Call.Stage B}
    {b : Bool} (hx : x.LeadsTo r (Channel.publishAll bus es) b)
    (hfrozen : m.Frozen → x.turn.2.2 = none ∧ b = true) :
    Acts f r next m (x.turn.1, { m with context := x.turn.2.1, call := x.turn.2.2 }, es) := by
  refine ⟨⟨f.send es, ?_, .sends es rfl fun hm => ?_⟩, hx.attached, hx.visits, rfl⟩
  · rw [hx.bus]
    exact Broadcast.shows_publishAll hbus h.listened es
  · obtain ⟨hcall, hb⟩ := hfrozen hm
    exact ⟨hcall, hx.cancelled.trans hb⟩

/-- A call that settles. -/
theorem Listens.settling (h : m.Listens f r next) (hbus : Broadcast.Shows bus f) {call : Call}
    (hcall : m.call = some call) (hphase : call.phase = .settling) (n : Nat) :
    Acts f r next m (m.act bus (.run n)) := by
  have hserving := h.visits call hcall
  have hgoing : ¬ m.Frozen := fun hm => by cases hcall.symm.trans hm.1
  have hsends : call.sends n m.context = [] := by simp [Call.sends, hphase]
  have hstage := Call.stage_settling h.attached bus hserving n hphase
  have hheard := Call.heard?_settling h.attached bus hphase
  obtain ⟨j, hgets, hshows⟩ := Broadcast.shows_receive hbus h.place h.next_le
  rcases hreceive : Channel.receive bus r with ⟨x, bus'⟩
  rw [hreceive] at hstage hheard hgets hshows
  cases hgets with
  | @event e he =>
    obtain ⟨hleads, hended⟩ := Call.handle_leadsTo h.attached bus' hserving e
    simp only [act, hcall, hsends, hstage, hheard]
    refine ⟨⟨_, hleads.bus.symm ▸ hshows, ?_⟩, hleads.attached, hleads.visits, rfl⟩
    cases hcancelled : m.context.cancelled with
    | true => exact .loses he (by simp) ⟨hended hcancelled, hleads.cancelled.trans hcancelled⟩
    | false => exact .hears he (h.read_eq hbus) (by simp) hgoing
  | lagged hlt hlag =>
    simp only [act, hcall, hsends, hstage, hheard, Call.Stage.turn]
    exact ⟨⟨_, hshows, .lags hlt hlag (by simp) hgoing⟩, h.attached, Call.visits_some hserving, rfl⟩
  | empty hend =>
    rw [Feed.move_self h.place] at hshows
    simp only [act, hcall, hsends, hstage, hheard, Call.Stage.turn]
    have hturns : Turns f r next m (f.send []) { m with
        call := none, heard := m.heard ++ [] } [] := .sends [] (by simp) fun hm => absurd hm hgoing
    rw [Feed.send_nil] at hturns
    exact ⟨⟨f, hshows, hturns⟩, h.attached, Call.visits_none, rfl⟩

/-- **What can be done with a member.** -/
theorem Listens.act (h : m.Listens f r next) (hbus : Broadcast.Shows bus f) (a : Act) :
    Acts f r next m (m.act bus a) := by
  have hstill (m' : Member) (hc : m'.context.Attached r) (hcall : Call.Visits m'.call)
      (hheard : m'.heard = m.heard) (hnews : m'.news = m.news) (hfrozen : m.Frozen → m'.Frozen) :
      Acts f r next m (bus, m', []) := by
    have hturns : Turns f r next m (f.send []) m' [] := .sends [] hheard hfrozen
    rw [Feed.send_nil] at hturns
    exact ⟨⟨f, hbus, hturns⟩, hc, hcall, hnews⟩
  have hsame := hstill m h.attached h.visits rfl rfl id
  cases a with
  | start =>
    simp only [Member.act]
    cases hcall : m.call with
    | some call => exact hsame
    | none =>
      obtain ⟨hleads, hended⟩ := Call.start_leadsTo h.attached (Channel.publishAll bus [])
      exact h.leadsTo hbus hleads fun hm => ⟨hended hm.2, hm.2⟩
  | dispatch e =>
    simp only [Member.act]
    cases hcall : m.call with
    | some call => exact hsame
    | none =>
      have hserving : (⟨.settling, none⟩ : Call).serving = none := rfl
      obtain ⟨hleads, hended⟩ :=
        Call.handle_leadsTo h.attached (Channel.publishAll bus []) hserving e
      exact h.leadsTo hbus hleads fun hm => ⟨hended hm.2, hm.2⟩
  | run n =>
    cases hcall : m.call with
    | none => simpa only [Member.act, hcall] using hsame
    | some call =>
      by_cases hphase : call.phase = .settling
      · exact h.settling hbus hcall hphase n
      · have hwork := Call.stage_work h.attached bus (h.visits call hcall) n hphase
        have hnone : call.heard? bus m.context = none := by
          cases hp : call.phase with
          | settling => exact absurd hp hphase
          | _ => simp [Call.heard?, hp]
        simp only [Member.act, hcall, hnone, Option.toList_none, List.map_nil, List.append_nil]
        exact h.leadsTo hbus hwork fun hm => by cases hcall.symm.trans hm.1
  | reply x =>
    refine hstill _ h.attached ?_ rfl rfl fun hm => ⟨by simp [hm.1], hm.2⟩
    intro k hk
    obtain ⟨call, hcall, rfl⟩ := Option.map_eq_some_iff.mp hk
    obtain ⟨phase, serving⟩ := call
    have hserving := h.visits _ hcall
    cases phase <;> exact hserving
  | cancel =>
    exact hstill _ ⟨h.attached.onBus, h.attached.receiver, h.attached.sent⟩ h.visits rfl rfl
      fun hm => ⟨hm.1, rfl⟩
  | drop => exact hstill _ h.attached Call.visits_none rfl rfl fun hm => ⟨rfl, hm.2⟩

/-- The feed after a turn of receiver `r`: only that one is at another place. -/
theorem Turns.feed (h : Turns f r next m f' m' es) :
    f'.log = f.log ++ es ∧ f'.capacity = f.capacity ∧ ∀ q, q ≠ r → f'.places q = f.places q := by
  cases h with
  | sends es => exact ⟨rfl, rfl, fun _ _ => rfl⟩
  | _ => exact ⟨(List.append_nil _).symm, rfl, fun q hq => Feed.places_move_of_ne hq⟩

/-- What is published comes to the news of every member, and the places stay. -/
theorem Listens.told (h : m.Listens f r next) (hlog : f'.log = f.log ++ es)
    (hplace : f'.places r = f.places r) : (m.told es).Listens f' r next where
  attached := h.attached
  visits := h.visits
  place := hplace.trans h.place
  next_le := by
    rw [hlog, List.length_append]
    exact Nat.le_add_right_of_le h.next_le
  le_next := by
    have hle := h.le_next
    simp only [Member.told, hlog, List.length_append]
    omega
  news := by
    obtain ⟨before, hbefore⟩ := h.news
    exact ⟨before, by rw [hlog, ← hbefore]; exact (List.append_assoc before m.news es).symm⟩
  heard := h.heard
  read := by
    intro k hk
    have hread := h.read k hk
    simp only [Member.told, hlog, List.length_append]
    omega

/-- Whoever is only told of events is where it was in its news. -/
theorem Listens.read_told (h : m.Listens f r next) (hbus : Broadcast.Shows bus f)
    (hlog : f'.log = f.log ++ es) (hplace : f'.places r = f.places r)
    (hbus' : Broadcast.Shows bus' f') : (m.told es).read bus' = m.read bus := by
  have hread := h.read_eq hbus
  have hread' := (h.told hlog hplace).read_eq hbus'
  have hnews : (m.told es).news.length = m.news.length + es.length := List.length_append
  rw [hnews, hlog, List.length_append] at hread'
  omega

/-- The member goes on to a later place. -/
theorem Listens.forward (h : m.Listens f r next) {next' : Nat} (hnext : next ≤ next')
    (hle : next' ≤ f.log.length) (hc : m'.context.Attached r) (hcall : Call.Visits m'.call)
    (hnews : m'.news = m.news) (hheard : m'.heard.Pairwise (· < ·))
    (hread : ∀ k ∈ m'.heard, k + f.log.length < m.news.length + next') :
    m'.Listens (f.move r next') r next' where
  attached := hc
  visits := hcall
  place := Feed.places_move_self
  next_le := hle
  le_next := by
    have hfits := h.le_next
    rw [hnews, Feed.log_move]
    omega
  news := hnews ▸ h.news
  heard := hheard
  read := by
    rw [hnews]
    exact hread

/-- The member goes on without having heard anything. -/
theorem Listens.onward (h : m.Listens f r next) {next' : Nat} (hnext : next ≤ next')
    (hle : next' ≤ f.log.length) (hc : m'.context.Attached r) (hcall : Call.Visits m'.call)
    (hnews : m'.news = m.news) (hheard : m'.heard = m.heard) :
    m'.Listens (f.move r next') r next' := by
  refine h.forward hnext hle hc hcall hnews (hheard ▸ h.heard) fun k hk => ?_
  have hk := h.read k (hheard ▸ hk)
  omega

/-- **A member goes on listening**, whatever is done with it, and misses nothing as long as it is no
further behind than the capacity. -/
theorem Listens.turn (h : m.Listens f r next) (hbus : Broadcast.Shows bus f)
    (hturns : Turns f r next m f' m' es) (hbus' : Broadcast.Shows bus' f')
    (hc : m'.context.Attached r) (hcall : Call.Visits m'.call) (hnews : m'.news = m.news) :
    ∃ next', (m'.told es).Listens f' r next' ∧
      (m.Complete bus → m.unread bus ≤ Channel.capacity bus → (m'.told es).Complete bus') := by
  have hold := h.read_eq hbus
  have hempty : m'.told [] = m' := by simp [Member.told]
  cases hturns with
  | sends es hheard hfrozen =>
    have hstill := h.onward (Nat.le_refl next) h.next_le hc hcall hnews hheard
    rw [Feed.move_self h.place] at hstill
    have hlog : (f.send es).log = f.log ++ es := rfl
    refine ⟨next, hstill.told hlog rfl, fun hcomplete _ => hcomplete.imp hfrozen fun hall => ?_⟩
    have hread := hstill.read_told hbus hlog rfl hbus'
    have hsame : m'.read bus = m.read bus := by
      have hread := hstill.read_eq hbus
      rw [hnews] at hread
      omega
    rw [hread, hsame, ← hall]
    exact hheard
  | @hears _ e k he hk hheard hgoing =>
    have hlt : next < f.log.length := (List.getElem?_eq_some_iff.mp he).1
    have hnew : m'.heard.Pairwise (· < ·) := by
      rw [hheard, List.pairwise_append]
      refine ⟨h.heard, List.pairwise_singleton _ _, fun x hx y hy => ?_⟩
      have hx := h.read x hx
      rw [List.mem_singleton.mp hy]
      omega
    have hstill := h.forward (Nat.le_add_right next 1) hlt hc hcall hnews hnew (by
      intro x hx
      rw [hheard] at hx
      rcases List.mem_append.mp hx with hx | hx
      · have hx := h.read x hx
        omega
      · rw [List.mem_singleton.mp hx]
        omega)
    rw [hempty]
    refine ⟨next + 1, hstill, fun hcomplete _ => .inr ?_⟩
    have hread := hstill.read_eq hbus'
    rw [hnews, Feed.log_move] at hread
    obtain rfl : k = m.read bus := by omega
    have hone : m'.read bus' = m.read bus + 1 := by omega
    rw [hone, List.range_succ, hheard, hcomplete.resolve_left hgoing]
  | @loses _ e he hheard hfrozen =>
    have hlt : next < f.log.length := (List.getElem?_eq_some_iff.mp he).1
    have hstill := h.onward (Nat.le_add_right next 1) hlt hc hcall hnews hheard
    rw [hempty]
    exact ⟨next + 1, hstill, fun _ _ => .inl hfrozen⟩
  | @lags _ j hlt hlag hheard hgoing =>
    have hle : j ≤ f.log.length := Nat.le_of_add_right_le hlag
    have hstill := h.onward (Nat.le_of_lt hlt) hle hc hcall hnews hheard
    rw [hempty]
    refine ⟨j, hstill, fun _ hfits => ?_⟩
    rw [h.unread_eq hbus, Broadcast.shows_capacity hbus] at hfits
    omega

/-- A call that succeeds has read everything. -/
theorem Listens.read_of_ok (h : m.Listens f r next) (hbus : Broadcast.Shows bus f) {call : Call}
    (hcall : m.call = some call) {n : Nat} {c : Context}
    (hok : call.stage n bus m.context = .rest (.ended bus' c (.ok ()))) :
    m.unread bus' = 0 ∧ m.read bus = m.news.length := by
  have hstage := Call.stage_settling h.attached bus (h.visits call hcall) n
    (Call.settling_of_ok hok)
  obtain ⟨j, hgets, hshows⟩ := Broadcast.shows_receive hbus h.place h.next_le
  rcases hreceive : Channel.receive bus r with ⟨x, bus''⟩
  rw [hok, hreceive] at hstage
  rw [hreceive] at hgets hshows
  cases hgets with
  | event he =>
    simp only [Call.handle] at hstage
    split at hstage
    · simp [Call.endWith] at hstage
    · split at hstage <;> cases hstage
  | lagged hlt hlag => simp at hstage
  | empty hend =>
    obtain ⟨rfl, -⟩ : bus' = bus'' ∧ c = m.context := by simpa using hstage
    rw [Feed.move_self h.place] at hshows
    have hread := h.read_eq hbus
    rw [h.unread_eq hshows]
    omega

/-- What is noted is what is done: the event at the member's place in its news is handed over, or
nothing is. -/
theorem Listens.hands (h : m.Listens f r next) (hbus : Broadcast.Shows bus f) {call : Call}
    (hcall : m.call = some call) (hphase : call.phase = .settling) (n : Nat) :
    match call.heard? bus m.context with
    | some e => m.news[m.read bus]? = some e ∧
        ∃ bus', call.stage n bus m.context = Call.handle bus' m.context call e
    | none => ∀ bus' c call', call.stage n bus m.context = .next bus' c call' →
        c = m.context ∧ call' = call := by
  have hstage := Call.stage_settling h.attached bus (h.visits call hcall) n hphase
  have hheard := Call.heard?_settling h.attached bus hphase
  obtain ⟨j, hgets, -⟩ := Broadcast.shows_receive hbus h.place h.next_le
  rcases hreceive : Channel.receive bus r with ⟨x, bus'⟩
  rw [hreceive] at hstage hheard hgets
  rw [hstage, hheard]
  cases hgets with
  | @event e he =>
    cases hcancelled : m.context.cancelled with
    | false => exact ⟨(h.news_read hbus).trans he, _, rfl⟩
    | true => simp [Call.handle, hcancelled, Call.endWith]
  | lagged hlt hlag =>
    intro bus' c call' hnext
    simp only [Call.Stage.next.injEq] at hnext
    exact ⟨hnext.2.1.symm, hnext.2.2.symm⟩
  | empty hend => simp

end

end Member

end DeskScript
