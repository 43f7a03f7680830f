import DeskScript.Proofs.Session.Lasting

/-!
# Handing over an event

The handlers of an event are those registered when it is handed over. They run one after
the other, in the order of their registration, each once and to its end, and each in a
new scope inside the one it was registered in, where `event` is the payload. What one does
or how it ends has no influence on which ones follow:

    Dispatched payload s hs results s'

relates the sessions before and after, with the result of each handler.
-/

namespace DeskScript

/-- The fault that a handler's result counts as: a fault, or a jump out of no loop. -/
def Task.failure? : Except Raised Flow → Option Raised
  | .error r => some r
  | .ok (.broken pos) => some ⟨.strayBreak, pos⟩
  | .ok (.continued pos) => some ⟨.strayContinue, pos⟩
  | .ok .normal | .ok (.returned _) => none

theorem Task.faultOf_eq (r : Except Raised Flow) : faultOf r = (failure? r).toList := by
  rcases r with r | f
  · rfl
  · cases f <;> rfl

/-- A handler is about to run in a scope of its own. -/
structure Handler.Begins (payload : Value) (h : Handler) (s : Session) (inner : ScopeId)
    (s' : Session) : Prop where
  opened : s.openScope h.scope [("event", payload)] = (inner, s')
  /-- The scope it was registered in has been kept. -/
  outer : s.scopes.Pinned h.scope
  fresh : ¬ s.scopes.There inner
  scope : s'.scopes.scope? inner = some ⟨[("event", payload)], some h.scope, true, false, false⟩
  others : ∀ x, x ≠ inner → s'.scopes.scope? x = s.scopes.scope? x

/-- From `s` on handlers have run to their ends, with some results. -/
inductive Dispatched (payload : Value) (s : Session) :
    List Handler → List (Except Raised Flow) → Session → Prop
  | none : Dispatched payload s [] [] s
  | next {hs : List Handler} {results : List (Except Raised Flow)} {s₁ s₂ s₃ : Session}
      {h : Handler} {inner : ScopeId} {m : Machine} {r : Except Raised Flow}
      (hbefore : Dispatched payload s hs results s₁) (hbegins : h.Begins payload s₁ inner s₂)
      (hcourse : Course (fun _ _ => True) [] s₂ (.ofBlock h.body inner) s₃ m)
      (hdone : Machine.step s₃ m = .done s₃ r) :
      Dispatched payload s (hs ++ [h]) (results ++ [r])
        (s₃.closeScope (fun _ => Task.heldBy r) inner)

/-- The handlers `hs` are being run from `s₀` on, or have been. -/
def Progress.Dispatches (payload : Value) (hs : List Handler) (s₀ s : Session) : Progress → Prop
  | .over faults =>
    ∃ results, Dispatched payload s₀ hs results s ∧ faults = results.filterMap Task.failure?
  | .busy t =>
    ∃ done h rest results s₁ inner s₂, hs = done ++ h :: rest ∧
      Dispatched payload s₀ done results s₁ ∧ h.Begins payload s₁ inner s₂ ∧
      Course (fun _ _ => True) [] s₂ (.ofBlock h.body inner) s t.machine ∧
      t.job = .handler inner payload rest (results.filterMap Task.failure?)

/-! ## Tasks -/

theorem Handler.begins {s : Session} (htidy : s.scopes.Tidy) {h : Handler}
    (houter : s.scopes.Pinned h.scope) (payload : Value) :
    h.Begins payload s (s.openScope h.scope [("event", payload)]).1
      (s.openScope h.scope [("event", payload)]).2 where
  opened := rfl
  outer := houter
  fresh := (Session.opens_openScope htidy h.scope _).fresh
  scope := by
    simp [Session.openScope, Arena.define, Arena.scope?_update, Arena.scope?_child htidy,
      Scope.opened, Table.put]
  others x hx := by
    have hne : x ≠ (s.scopes.child h.scope).1 := hx
    simp [Session.openScope, Arena.define, Arena.scope?_update, Arena.scope?_child htidy, hne]

section
variable {payload : Value} {hs : List Handler} {s₀ s : Session}

namespace Task

theorem nextHandler_dispatches {done rest : List Handler} {results : List (Except Raised Flow)}
    (h : Dispatched payload s₀ done results s) (hsplit : hs = done ++ rest)
    (htidy : s.scopes.Tidy) (houter : ∀ x ∈ hs, s.scopes.Pinned x.scope) :
    (nextHandler s payload (results.filterMap failure?) rest).2.Dispatches payload hs s₀
      (nextHandler s payload (results.filterMap failure?) rest).1 := by
  cases rest with
  | nil =>
    rw [List.append_nil] at hsplit
    exact ⟨results, hsplit ▸ h, rfl⟩
  | cons x rest =>
    have hmem : x ∈ hs := by
      rw [hsplit]
      exact List.mem_append_right done List.mem_cons_self
    exact ⟨done, x, rest, results, s, _, _, hsplit, h, x.begins htidy (houter x hmem) payload,
      .start, rfl⟩

theorem filterMap_failure? (results : List (Except Raised Flow)) (r : Except Raised Flow) :
    results.filterMap failure? ++ faultOf r = (results ++ [r]).filterMap failure? := by
  rw [faultOf_eq, List.filterMap_append]
  cases hr : failure? r <;> simp [hr]

end Task

variable {dispatch : Prop} {s' : Session} {x y : Session × Progress} {I : Session → Prop}

/-- What follows when a handler is done depends on the handlers that wait only. -/
theorem Goes.dispatches (hI : Session.Lasting I)
    (houter : ∀ s, I s → ∀ x ∈ hs, s.scopes.Pinned x.scope) (hgoes : Goes x y)
    (hx : Proper dispatch s' x) (hlast : I x.1) (h : x.2.Dispatches payload hs s₀ x.1) :
    y.2.Dispatches payload hs s₀ y.1 := by
  cases hgoes with
  | step hstep =>
    obtain ⟨done, f, rest, results, s₁, inner, s₂, hsplit, hbefore, hbegins, hcourse, hjob⟩ := h
    exact ⟨done, f, rest, results, s₁, inner, s₂, hsplit, hbefore, hbegins, hcourse.next hstep,
      hjob⟩
  | reply r =>
    obtain ⟨done, f, rest, results, s₁, inner, s₂, hsplit, hbefore, hbegins, hcourse, hjob⟩ := h
    exact ⟨done, f, rest, results, s₁, inner, s₂, hsplit, hbefore, hbegins, .reply _ hcourse, hjob⟩
  | @done s₃ t r hdone =>
    obtain ⟨done, f, rest, results, s₁, inner, s₂, hsplit, hbefore, hbegins, hcourse, hjob⟩ := h
    have hframes : Balanced True s' [.flow (.caught inner)] s₃ := by
      have hframes := hx.frames_of_done hdone
      rwa [hjob] at hframes
    have hinner : inner ≠ Arena.root := by
      rintro rfl
      exact hframes.apart _ List.mem_cons_self hframes.root
    have hnext := Task.nextHandler_dispatches (.next hbefore hbegins hcourse hdone)
      (hsplit.trans (List.append_cons done f rest))
      (hframes.close (e := inner) rfl (Task.heldBy r)).tidy
      (houter _ (hI.closes hlast hframes.reclaims hinner (Task.heldBy r) s₃.depth))
    rw [← Task.filterMap_failure?] at hnext
    rw [hjob]
    exact hnext

theorem Goes.dispatches_all (hI : Session.Lasting I)
    (houter : ∀ s, I s → ∀ x ∈ hs, s.scopes.Pinned x.scope)
    (hgoes : Relation.ReflTransGen Goes x y) (hx : Proper dispatch s' x) (hlast : I x.1)
    (h : x.2.Dispatches payload hs s₀ x.1) : y.2.Dispatches payload hs s₀ y.1 := by
  induction hgoes with
  | refl => exact h
  | tail hbefore hnext ih =>
    obtain ⟨hproper, hkept⟩ := hI.going hbefore hx hlast
    exact hnext.dispatches hI houter hproper hkept ih

end

/-! ## Lives -/

namespace Life

theorem dispatches_event {l : Life} {natives : Natives} {maxDepth : Nat} {lost : List Task}
    (ha : l.Accounted natives maxDepth lost) (hpins : l.session.Pins)
    (e : Event) {rest : List Move} (hrest : ∀ m ∈ rest, m.Continues) :
    (l.play (.event e :: rest)).progress.Dispatches e.payload.toValue (l.session.handlersOf e)
      l.session (l.play (.event e :: rest)).session := by
  have hI := Session.pins_lasting.and (Session.handlers_lasting l.session)
  have houter : ∀ s : Session, s.Pins ∧ l.session.handlers.toList <+: s.handlers.toList →
      ∀ x ∈ l.session.handlersOf e, s.scopes.Pinned x.scope := by
    rintro s ⟨hpins, hhandlers⟩ x hx
    exact hpins.handlers x (hhandlers.subset (List.mem_filter.mp hx).1)
  have hlast : l.session.Pins ∧ l.session.handlers.toList <+: l.session.handlers.toList :=
    ⟨hpins, List.prefix_refl _⟩
  obtain ⟨s₀, dispatch, hproper⟩ := (ha.move (.event e)).proper (placed_event ha.orderly e).1
  exact Goes.dispatches_all hI houter ((l.move (.event e)).play_goes hrest) hproper
    (hI.nextHandler ha.orderly.tidy _ _ _ hlast)
    (Task.nextHandler_dispatches .none rfl ha.orderly.tidy (houter _ hlast))

/-- The host lets a task go on whose handler is done. -/
theorem progress_run_done {s : Session} {reports : List Report} {t : Task} {r : Except Raised Flow}
    (h : Machine.step s t.machine = .done s r) :
    (move ⟨s, .busy t, reports⟩ (.run 2)).progress = (Task.afterRun s r t.job).2 := by
  have hrun : Machine.run 1 s t.machine = .done s r := by rw [Machine.run, h]
  simp only [move, Task.run, hrun]
  rcases Task.afterRun s r t.job with ⟨s', t' | faults⟩ <;> rfl

/-- **An event goes to the handlers registered when it is handed over.** Let `l` be any state of
any life, and `l'` any later one while the event is dealt with. The handlers of that name, in the
order of their registration, have run one after the other, each to its end and each in a new scope
inside its own, where `event` is the payload as it was sent; or so far some of them have, and one is
running. When all of them have run, the faults are those of the handlers that failed or jumped out
of no loop, in order. Handlers registered meanwhile come after those there were, and wait for other
events. When a handler is done, the next one begins, whatever the result. -/
theorem dispatch_runs_snapshot (natives : Natives) (id maxDepth : Nat) (moves : List Move)
    (e : Event) (rest : List Move) (hrest : ∀ m ∈ rest, m.Continues) :
    let l := (ofSession (.initial id natives maxDepth)).play moves
    let l' := l.play (.event e :: rest)
    l'.progress.Dispatches e.payload.toValue
      (l.session.handlers.toList.filter (·.event = e.name)) l.session l'.session ∧
    l.session.handlers.toList <+: l'.session.handlers.toList ∧
    ∀ t r inner payload waiting faults, l'.progress = .busy t →
      t.job = .handler inner payload waiting faults →
      Machine.step l'.session t.machine = .done l'.session r →
      match waiting with
      | [] => (l'.move (.run 2)).progress = .over (faults ++ (Task.failure? r).toList)
      | h :: later => ∃ inner', (l'.move (.run 2)).progress = .busy ⟨.ofBlock h.body inner',
          .handler inner' payload later (faults ++ (Task.failure? r).toList)⟩ := by
  intro l l'
  have hstart := accounted_initial natives id maxDepth
  have haccounted := hstart.play moves
  have hplaced : l.progress.Placed := (hstart.play_placed trivial moves).1
  refine ⟨dispatches_event haccounted (pins natives id maxDepth moves) e hrest, ?_, ?_⟩
  · exact (Session.handlers_lasting l.session).play haccounted hplaced (List.prefix_refl _)
      (.event e :: rest)
  · intro t r inner payload waiting faults hbusy hjob hdone
    obtain ⟨s, p, reports⟩ := l'
    subst hbusy
    rw [progress_run_done hdone, hjob, Task.afterRun, Task.faultOf_eq]
    cases waiting with
    | nil => rfl
    | cons h later => exact ⟨_, rfl⟩

/-- A program that registers handlers. The first one changes its payload, registers another handler
and fails; the second one leaves a loop where there is none. -/
def registering : List Move :=
  let null : Expr := .literal .start .null
  [.main (.mk .start
      [.on .start "go" (.mk .start [.set .start "event" [] null, .on .start "go" (.mk .start []),
        .throw .start null]),
      .on .start "go" (.mk .start [.break_ .start]),
      .on .start "stop" (.mk .start []),
      .on .start "go" (.mk .start [.print .start (.var .start "event")])]),
    .run 20]

theorem dispatch_runs_snapshot_registering :
    let l := (ofSession (.initial 7 Native.standard 2)).play registering
    let go : Event := ⟨"go", .string "payload", none⟩
    let l' := l.play [.event go, .run 40]
    (match l'.progress with
      | .over faults => faults.map (·.fault.kind) = [.custom, .breakOutsideLoop]
      | .busy _ => False) ∧
      l.session.handlers.size = 4 ∧ l'.session.handlers.size = 5 ∧
      l'.session.output = #["payload"] ∧
      l'.progress.Dispatches go.payload.toValue
        (l.session.handlers.toList.filter (·.event = "go")) l.session l'.session := by
  have hdispatches := (dispatch_runs_snapshot Native.standard 7 2 registering
    ⟨"go", .string "payload", none⟩ [.run 40] (by simp [Move.Continues])).1
  exact ⟨by cbv, by cbv, by cbv, by cbv, hdispatches⟩

end Life

end DeskScript
