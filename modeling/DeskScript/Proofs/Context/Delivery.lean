import DeskScript.Proofs.Context.Member

/-!
# What contexts on one bus hear of each other

Several contexts share a bus. Each of them reads it at its own pace, and puts on it what
its script emits, while the host publishes events and makes calls in any order. For every
context there are the `news`, all events published since it joined, and the places in
them of those that its handlers were run for:

    m.heard is increasing, and m.heard = range m.news.length when a call succeeds

The second part needs a context that never has more unread events than the bus was made
for. One that has falls behind, and goes on with the oldest event that is kept.
-/

namespace DeskScript

/-! ## Assemblies -/

/-- Contexts on one bus. -/
structure Assembly (B : Type) where
  bus : B
  members : List Member

/-- What may happen next. -/
inductive Motion where
  /-- A context is made on the bus. -/
  | join (o : RunOptions) (program : Block)
  /-- The host publishes an event. -/
  | publish (e : Event)
  /-- Something is done with one of the contexts. -/
  | act (i : Nat) (a : Act)

namespace Assembly

variable {B : Type}

/-- The receivers of the members. -/
def receivers (x : Assembly B) : List (Option Nat) := x.members.map (·.context.receiver)

/-- Members that are told of events have the same receivers. -/
theorem receivers_told (bus : B) (ms : List Member) (es : List Event) :
    (⟨bus, ms.map (·.told es)⟩ : Assembly B).receivers = ms.map (·.context.receiver) := by
  simp [receivers, Member.told]

variable [Channel B] [Broadcast B]

def ofCapacity (n : Nat) : Assembly B := ⟨Channel.ofCapacity n, []⟩

def move (x : Assembly B) : Motion → Assembly B
  | .join o program =>
    let (bus, context) := Context.attached x.bus (o.session x.members.length) program
    ⟨bus, x.members ++ [⟨context, none, [], []⟩]⟩
  | .publish e => ⟨(Channel.publish x.bus e).2, x.members.map (·.told [e])⟩
  | .act i a =>
    match x.members[i]? with
    | none => x
    | some m =>
      let (bus, m, sent) := m.act x.bus a
      ⟨bus, (x.members.set i m).map (·.told sent)⟩

def play (x : Assembly B) (motions : List Motion) : Assembly B := motions.foldl move x

/-! ## All members -/

/-- The bus shows a feed, and every member listens to it as a receiver of its own. -/
structure Informs (capacity : Nat) (f : Feed) (x : Assembly B) : Prop where
  shows : Broadcast.Shows x.bus f
  capacity : f.capacity = capacity
  distinct : x.receivers.Nodup
  members : ∀ (i : Nat) (m : Member), x.members[i]? = some m → ∃ r next, m.Listens f r next

/-- Member `i` has missed nothing. -/
def CompleteAt (i : Nat) (x : Assembly B) : Prop :=
  ∀ m : Member, x.members[i]? = some m → m.Complete x.bus

/-- Member `i` has no more unread events than the bus was made for. -/
def FitsAt (i : Nat) (x : Assembly B) : Prop :=
  ∀ m : Member, x.members[i]? = some m → m.unread x.bus ≤ Channel.capacity x.bus

section
variable {x : Assembly B} {capacity : Nat} {f : Feed}

theorem informs_ofCapacity (n : Nat) :
    (ofCapacity n : Assembly B).Informs (Channel.capacity (Channel.ofCapacity n : B))
      (.ofCapacity (Channel.capacity (Channel.ofCapacity n : B))) :=
  ⟨Broadcast.shows_ofCapacity n, rfl, List.nodup_nil, by simp [ofCapacity]⟩

/-- After a motion that publishes `es`, each member was told of them and is where it was, or has
come to listen in another way. Then all listen. -/
theorem Informs.later (h : x.Informs capacity f) (y : Assembly B) {f' : Feed} {es : List Event}
    (hshows : Broadcast.Shows y.bus f') (hlog : f'.log = f.log ++ es)
    (hcapacity : f'.capacity = f.capacity) (hdistinct : y.receivers.Nodup)
    (hmembers : ∀ (i : Nat) (q : Member), y.members[i]? = some q →
      (∃ m, x.members[i]? = some m ∧ q = m.told es ∧
        ∀ r, m.context.receiver = some r → f'.places r = f.places r) ∨
      ∃ r next, q.Listens f' r next ∧ (x.CompleteAt i → x.FitsAt i → q.Complete y.bus)) :
    (∃ f', y.Informs capacity f') ∧
      ∀ i, x.CompleteAt i → x.FitsAt i → y.CompleteAt i := by
  refine ⟨⟨f', hshows, hcapacity.trans h.capacity, hdistinct, fun i q hq => ?_⟩,
    fun i hi hfits q hq => ?_⟩
  · rcases hmembers i q hq with ⟨m, hm, rfl, hplace⟩ | ⟨r, next, hlistens, -⟩
    · obtain ⟨r, next, hlistens⟩ := h.members i m hm
      exact ⟨r, next, hlistens.told hlog (hplace r hlistens.attached.receiver)⟩
    · exact ⟨r, next, hlistens⟩
  · rcases hmembers i q hq with ⟨m, hm, rfl, hplace⟩ | ⟨r, next, -, hcomplete⟩
    · obtain ⟨r, next, hlistens⟩ := h.members i m hm
      have hread := hlistens.read_told h.shows hlog (hplace r hlistens.attached.receiver) hshows
      rw [Member.Complete, hread]
      exact hi m hm
    · exact hcomplete hi hfits

/-- A context joins, and listens from now on. -/
theorem Informs.join (h : x.Informs capacity f) (o : RunOptions) (program : Block) :
    (∃ f', (x.move (.join o program)).Informs capacity f') ∧
      ∀ i, x.CompleteAt i → x.FitsAt i → (x.move (.join o program)).CompleteAt i := by
  let r := (Channel.subscribe x.bus).1
  let new : Member :=
    ⟨(Context.attached x.bus (o.session x.members.length) program).2, none, [], []⟩
  have hmembers : (x.move (.join o program)).members = x.members ++ [new] := rfl
  obtain ⟨hfresh, hshows⟩ := Broadcast.shows_subscribe h.shows
  have hlog : (f.move r f.log.length).log = f.log ++ [] := (List.append_nil f.log).symm
  -- the receivers of the others have a place already
  have hother {i : Nat} {m : Member} (hm : x.members[i]? = some m) :
      m.context.receiver ≠ some r := by
    obtain ⟨r', next, hlistens⟩ := h.members i m hm
    rw [hlistens.attached.receiver]
    rintro ⟨⟩
    cases hfresh.symm.trans hlistens.place
  have hnew : new.Listens (f.move r f.log.length) r f.log.length :=
    { attached := ⟨rfl, rfl, by
        show (o.session x.members.length).outbox = []
        rw [o.session_eq]
        rfl⟩
      visits := Call.visits_none
      place := Feed.places_move_self
      next_le := Nat.le_refl _
      le_next := Nat.le_refl _
      news := List.nil_suffix
      heard := .nil
      read := nofun }
  refine h.later _ hshows hlog rfl ?_ fun i q hq => ?_
  · have hreceivers : (x.move (.join o program)).receivers = x.receivers ++ [some r] := by
      rw [receivers, hmembers, List.map_append]
      rfl
    rw [hreceivers, List.nodup_append]
    refine ⟨h.distinct, List.nodup_singleton _, fun a ha b hb => ?_⟩
    obtain ⟨m, hm, rfl⟩ := List.mem_map.mp ha
    obtain ⟨i, hi⟩ := List.mem_iff_getElem?.mp hm
    rw [List.mem_singleton.mp hb]
    exact hother hi
  · rw [hmembers] at hq
    rcases Nat.lt_or_ge i x.members.length with hlt | hge
    · rw [List.getElem?_append_left hlt] at hq
      refine .inl ⟨q, hq, by simp [Member.told], fun r' hr' => Feed.places_move_of_ne ?_⟩
      rintro rfl
      exact hother hq hr'
    · rw [List.getElem?_append_right hge, List.getElem?_singleton] at hq
      split at hq
      · obtain rfl := Option.some.inj hq
        exact .inr ⟨r, _, hnew, fun _ _ => .inr (by simp [new, Member.read])⟩
      · cases hq

/-- The host publishes an event, which all members are told. -/
theorem Informs.publish (h : x.Informs capacity f) (e : Event) :
    (∃ f', (x.move (.publish e)).Informs capacity f') ∧
      ∀ i, x.CompleteAt i → x.FitsAt i → (x.move (.publish e)).CompleteAt i := by
  have hdistinct : (x.move (.publish e)).receivers.Nodup := by
    rw [move, receivers_told]
    exact h.distinct
  have hmembers : (x.move (.publish e)).members = x.members.map (·.told [e]) := rfl
  by_cases hlistened : f.Listened
  · have hshows := Broadcast.shows_publish e h.shows hlistened
    refine h.later _ hshows rfl rfl hdistinct fun i q hq => ?_
    rw [hmembers, List.getElem?_map] at hq
    obtain ⟨m, hm, rfl⟩ := Option.map_eq_some_iff.mp hq
    exact .inl ⟨m, hm, rfl, fun _ _ => rfl⟩
  · -- nobody listens, so there are no members
    have hnone (i : Nat) (q : Member) : (x.move (.publish e)).members[i]? ≠ some q := by
      intro hq
      rw [hmembers, List.getElem?_map] at hq
      obtain ⟨m, hm, -⟩ := Option.map_eq_some_iff.mp hq
      obtain ⟨r, next, hlistens⟩ := h.members i m hm
      exact hlistened hlistens.listened
    exact ⟨⟨f, Broadcast.shows_unheard e h.shows hlistened, h.capacity, hdistinct,
      fun i q hq => absurd hq (hnone i q)⟩, fun i _ _ q hq => absurd hq (hnone i q)⟩

/-- Something is done with one of the members. -/
theorem Informs.act (h : x.Informs capacity f) (j : Nat) (a : Act) :
    (∃ f', (x.move (.act j a)).Informs capacity f') ∧
      ∀ i, x.CompleteAt i → x.FitsAt i → (x.move (.act j a)).CompleteAt i := by
  cases hj : x.members[j]? with
  | none =>
    have hsame : x.move (.act j a) = x := by simp only [move, hj]
    rw [hsame]
    exact ⟨⟨f, h⟩, fun i hi _ => hi⟩
  | some m =>
    have hmove : x.move (.act j a) = ⟨(m.act x.bus a).1,
        (x.members.set j (m.act x.bus a).2.1).map (·.told (m.act x.bus a).2.2)⟩ := by
      simp only [move, hj]
    obtain ⟨r, next, hlistens⟩ := h.members j m hj
    obtain ⟨⟨f', hshows, hturns⟩, hattached, hvisits, hnews⟩ := hlistens.act h.shows a
    obtain ⟨next', hturn, hcomplete⟩ :=
      hlistens.turn h.shows hturns hshows hattached hvisits hnews
    obtain ⟨hlog, hcapacity, hplaces⟩ := hturns.feed
    have hlt : j < x.members.length := (List.getElem?_eq_some_iff.mp hj).1
    have hreceiver : x.receivers[j]? = some (some r) := by
      rw [receivers, List.getElem?_map, hj, Option.map_some, hlistens.attached.receiver]
    rw [hmove]
    generalize m.act x.bus a = y at *
    obtain ⟨bus, m', es⟩ := y
    refine h.later _ hshows hlog hcapacity ?_ fun i q hq => ?_
    · have hreceivers : x.receivers.set j (some r) = x.receivers := by
        obtain ⟨hlt, hget⟩ := List.getElem?_eq_some_iff.mp hreceiver
        rw [← hget, List.set_getElem_self]
      rw [receivers_told, List.map_set, hattached.receiver]
      exact hreceivers.symm ▸ h.distinct
    · rw [List.getElem?_map] at hq
      obtain ⟨q₀, hq₀, rfl⟩ := Option.map_eq_some_iff.mp hq
      -- the member itself has its turn, and the others are told of it
      by_cases hij : i = j
      · subst hij
        rw [List.getElem?_set_self hlt] at hq₀
        obtain rfl := Option.some.inj hq₀
        exact .inr ⟨r, next', hturn, fun hi hfits => hcomplete (hi m hj) (hfits m hj)⟩
      · rw [List.getElem?_set_ne (Ne.symm hij)] at hq₀
        refine .inl ⟨q₀, hq₀, rfl, fun r' hr' => hplaces r' ?_⟩
        rintro rfl
        have hother : x.receivers[i]? = some (some r') := by
          rw [receivers, List.getElem?_map, hq₀, Option.map_some, hr']
        have hi : i < x.receivers.length := (List.getElem?_eq_some_iff.mp hother).1
        exact hij ((List.getElem?_inj hi h.distinct).mp (hother.trans hreceiver.symm))

/-- **Whatever happens, every member goes on listening.** -/
theorem Informs.move (h : x.Informs capacity f) (q : Motion) :
    (∃ f', (x.move q).Informs capacity f') ∧
      ∀ i, x.CompleteAt i → x.FitsAt i → (x.move q).CompleteAt i := by
  cases q with
  | join o program => exact h.join o program
  | publish e => exact h.publish e
  | act j a => exact h.act j a

theorem play_append (x : Assembly B) (qs : List Motion) (q : Motion) :
    x.play (qs ++ [q]) = (x.play qs).move q := by
  simp [play, List.foldl_append]

theorem Informs.play (h : x.Informs capacity f) (qs : List Motion) :
    (∃ f', (x.play qs).Informs capacity f') ∧
      ∀ i, x.CompleteAt i → (∀ qs', qs' <+: qs → (x.play qs').FitsAt i) →
        (x.play qs).CompleteAt i := by
  -- from the end: the last motion needs that all fitted before it
  induction qs using List.reverseRecOn with
  | nil => exact ⟨⟨f, h⟩, fun i hi _ => hi⟩
  | append_singleton qs q ih =>
    obtain ⟨⟨f', hinforms⟩, hcomplete⟩ := ih
    obtain ⟨hmoved, hstep⟩ := hinforms.move q
    rw [play_append]
    refine ⟨hmoved, fun i hi hfits => hstep i (hcomplete i hi fun qs' hqs' => ?_) ?_⟩
    · exact hfits qs' (hqs'.trans (List.prefix_append qs [q]))
    · exact hfits qs (List.prefix_append qs [q])

end

/-! ## Delivery -/

/-- Increasing places in a list pick out a part of it, in order. -/
theorem places_sublist {l : List Event} {places : List Nat} (h : places.Pairwise (· < ·))
    (hl : ∀ k ∈ places, k < l.length) : (places.filterMap (l[·]?)).Sublist l := by
  have hrange : ∀ n, (List.range n).filterMap (l[·]?) = l.take n := by
    intro n
    induction n with
    | zero => simp
    | succ n ih =>
      rw [List.range_succ, List.filterMap_append, ih, List.take_add_one]
      cases hn : l[n]? <;> simp [hn]
  have hsubset : places ⊆ List.range l.length := fun k hk => List.mem_range.mpr (hl k hk)
  have hsorted : places.Sublist (List.range l.length) :=
    List.sublist_of_subperm_of_pairwise (List.subperm_of_subset h.nodup hsubset)
      (h.imp Nat.le_of_lt) (List.pairwise_lt_range.imp Nat.le_of_lt)
  have hpart := hsorted.filterMap (l[·]?)
  rwa [hrange, List.take_length] at hpart

/-- **Contexts on one bus hear its events in order and at most once.** Take any broadcast channel
for the bus, and any number of contexts made on it at any time, and let the host publish events and
make calls on them in any order, each call running in stages of any length. The events that a
member hands to its handlers are a part of its news, all that was published since it joined, in the
order of publication and each place at most once. When a call of a member succeeds, it has no unread
event. And if it never had more unread events than the capacity, it has handed over all that it has
read; when a call succeeds, that is all of its news, each once. -/
theorem news_heard_once_in_order (capacity : Nat) (motions : List Motion) :
    let x : Assembly B := (ofCapacity capacity).play motions
    ∀ (i : Nat) (m : Member), x.members[i]? = some m →
      -- the bus
      (∃ f, Broadcast.Shows x.bus f ∧ m.news <:+ f.log) ∧
      -- order
      m.heard.Pairwise (· < ·) ∧ (∀ k ∈ m.heard, k < m.news.length) ∧
      (m.heard.filterMap (m.news[·]?)).Sublist m.news ∧
      -- notes
      (∀ n call, m.call = some call → call.phase = .settling →
        match call.heard? x.bus m.context with
        | some e => m.news[m.read x.bus]? = some e ∧
            ∃ bus, call.stage n x.bus m.context = Call.handle bus m.context call e
        | none => ∀ bus c call', call.stage n x.bus m.context = .next bus c call' →
            c = m.context ∧ call' = call) ∧
      -- success
      (∀ n call bus c, m.call = some call →
        call.stage n x.bus m.context = .rest (.ended bus c (.ok ())) → m.unread bus = 0) ∧
      -- completeness
      ((∀ qs, qs <+: motions → ((ofCapacity capacity : Assembly B).play qs).FitsAt i) →
        (m.call ≠ none ∨ m.context.cancelled = false → m.heard = List.range (m.read x.bus)) ∧
        ∀ n call bus c, m.call = some call →
          call.stage n x.bus m.context = .rest (.ended bus c (.ok ())) →
          m.heard = List.range m.news.length) := by
  intro x i m hm
  obtain ⟨⟨f, hinforms⟩, hcomplete⟩ := (informs_ofCapacity (B := B) capacity).play motions
  obtain ⟨r, next, hlistens⟩ := hinforms.members i m hm
  have hplaces : ∀ k ∈ m.heard, k < m.news.length := by
    intro k hk
    have hread := hlistens.read k hk
    have hnext := hlistens.next_le
    omega
  refine ⟨⟨f, hinforms.shows, hlistens.news⟩, hlistens.heard, hplaces,
    places_sublist hlistens.heard hplaces, ?_, ?_, fun hfits => ?_⟩
  · intro n call hcall hphase
    exact hlistens.hands hinforms.shows hcall hphase n
  · intro n call bus c hcall hok
    exact (hlistens.read_of_ok hinforms.shows hcall hok).1
  · have hall : ¬ m.Frozen → m.heard = List.range (m.read x.bus) :=
      (hcomplete i (by simp [CompleteAt, ofCapacity]) hfits m hm).resolve_left
    refine ⟨fun hgoing => hall ?_, fun n call bus c hcall hok => ?_⟩
    · rintro ⟨hnone, hcancelled⟩
      simp [hnone, hcancelled] at hgoing
    · rw [← (hlistens.read_of_ok hinforms.shows hcall hok).2]
      exact hall fun hm => by cases hcall.symm.trans hm.1

/-- A context that answers each event `a` with an event `b`, and one that waits for `b`. The second
one reads the bus when both have been published. -/
def echo : List Motion :=
  let o : RunOptions := ⟨[], [], 9⟩
  let ping : Block := .mk .start [.on ⟨1, 1⟩ "a" (.mk ⟨1, 6⟩ [.emit ⟨1, 8⟩ "b" none])]
  let pong : Block :=
    .mk .start [.on ⟨1, 1⟩ "b" (.mk ⟨1, 6⟩ [.print ⟨1, 8⟩ (.literal ⟨1, 14⟩ .null)])]
  [.join o ping, .join o pong, .act 0 .start, .act 0 (.run 9), .act 1 .start, .act 1 (.run 9),
    .publish ⟨"a", .null, none⟩, .act 0 (.run 9), .act 0 (.run 9), .act 0 (.run 9),
    .act 1 (.run 9), .act 1 (.run 9), .act 1 (.run 9)]

/-- Two contexts on a bus for two events, after the first of these motions. -/
def echoed (qs : List Motion) : Assembly Bus := (ofCapacity 2).play qs

/-- The bus for two events is full once. -/
theorem unread_echo :
    echo.inits.map (fun qs => (echoed qs).members[1]?.map (·.unread (echoed qs).bus)) =
    [none, none, some 0, some 0, some 0, some 0, some 0, some 1, some 1, some 2, some 2, some 1,
      some 0, some 0] := by
  cbv

/-- The second context has handed over both events when its call succeeds. -/
theorem news_heard_once_in_order_echo :
    let x := echoed echo
    (∀ qs, qs <+: echo → (echoed qs).FitsAt 1) ∧
    ∃ m call c, x.members[1]? = some m ∧ m.call = some call ∧
      call.stage 9 x.bus m.context = .rest (.ended x.bus c (.ok ())) ∧
      m.news = [⟨"a", .null, none⟩, ⟨"b", .null, some 0⟩] ∧ m.unread x.bus = 0 ∧
      m.heard = List.range m.news.length := by
  intro x
  have hfits : ∀ qs, qs <+: echo → (echoed qs).FitsAt 1 := by
    intro qs hqs m hm
    have hcapacity : Channel.capacity (echoed qs).bus = 2 := by
      obtain ⟨⟨f, hinforms⟩, -⟩ := (informs_ofCapacity (B := Bus) 2).play qs
      exact (Broadcast.shows_capacity hinforms.shows).trans hinforms.capacity
    have hmem := List.mem_map_of_mem
      (f := fun qs => (echoed qs).members[1]?.map (·.unread (echoed qs).bus))
      ((List.mem_inits qs echo).mpr hqs)
    rw [unread_echo, hm, Option.map_some] at hmem
    rw [hcapacity]
    simp only [List.mem_cons, Option.some.injEq, reduceCtorEq, false_or, List.not_mem_nil,
      or_false] at hmem
    omega
  obtain ⟨m, call, c, hm, hcall, hok, hnews⟩ : ∃ m call c, x.members[1]? = some m ∧
      m.call = some call ∧ call.stage 9 x.bus m.context = .rest (.ended x.bus c (.ok ())) ∧
      m.news = [⟨"a", .null, none⟩, ⟨"b", .null, some 0⟩] :=
    ⟨_, _, _, rfl, rfl, rfl, rfl⟩
  obtain ⟨-, -, -, -, -, hsuccess, hcomplete⟩ :=
    news_heard_once_in_order (B := Bus) 2 echo 1 m hm
  exact ⟨hfits, m, call, c, hm, hcall, hok, hnews, hsuccess 9 call x.bus c hcall hok,
    (hcomplete hfits).2 9 call x.bus c hcall hok⟩

end Assembly

end DeskScript
