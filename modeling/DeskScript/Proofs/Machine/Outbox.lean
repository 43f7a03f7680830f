import DeskScript.Proofs.Machine.Recast

/-!
# What a script emits

Work on a session with other events waiting does the same, and leaves behind those events
followed by the ones it emitted itself:

    step (s.withOutbox o) m = (step s m).withOutbox (o ++ m.emits s)   (Machine.step_withOutbox)

The same holds of runs and of tasks, with the events of all their steps.
-/

namespace DeskScript

/-- The session with other events waiting. -/
def Session.withOutbox (s : Session) (o : List Event) : Session := { s with outbox := o }

@[simp] theorem Session.withOutbox_outbox (s : Session) : s.withOutbox s.outbox = s := rfl

def Step.withOutbox (o : List Event) : Step → Step
  | next s m => .next (s.withOutbox o) m
  | ask command s m => .ask command (s.withOutbox o) m
  | done s r => .done (s.withOutbox o) r

def Machine.Rest.withOutbox (o : List Event) : Machine.Rest → Machine.Rest
  | asks command s m => .asks command (s.withOutbox o) m
  | done s r => .done (s.withOutbox o) r
  | unfinished s m => .unfinished (s.withOutbox o) m

def Task.Rest.withOutbox (o : List Event) : Task.Rest → Task.Rest
  | .asks command s t => .asks command (s.withOutbox o) t
  | .over s faults => .over (s.withOutbox o) faults
  | .unfinished s t => .unfinished (s.withOutbox o) t

namespace Machine

variable (s : Session) (o : List Event)

/-- **Only `emit` adds to what waits**, and nothing reads it. -/
theorem step_withOutbox (m : Machine) :
    step (s.withOutbox o) m = (step s m).withOutbox (o ++ m.emits s) := by
  have hstep : step (s.withOutbox o) m = (step s m).recast (o ++ m.emits s) s.maxDepth :=
    step_recast s o s.maxDepth (agrees_self s m)
  -- The limit is still that of the session.
  rw [hstep, step_eq_recast]
  cases step s m <;> rfl

/-! ## Runs -/

/-- The events that a run emits, the first one first. -/
def emissions : Nat → Session → Machine → List Event
  | 0, _, _ => []
  | n + 1, s, m =>
    m.emits s ++
      match step s m with
      | .next s m => emissions n s m
      | _ => []

theorem run_withOutbox (n : Nat) (m : Machine) :
    run n (s.withOutbox o) m = (run n s m).withOutbox (o ++ emissions n s m) := by
  induction n generalizing s o m with
  | zero => simp [run, emissions, Rest.withOutbox]
  | succ n ih =>
    simp only [run, emissions, step_withOutbox]
    cases step s m with
    | next s' m' => simp only [Step.withOutbox, ih, List.append_assoc]
    | ask command s' m' => simp [Step.withOutbox, Rest.withOutbox]
    | done s' r => simp [Step.withOutbox, Rest.withOutbox]

end Machine

/-! ## Tasks -/

namespace Task

variable (s : Session) (o : List Event)

/-- Handing over an event emits none. -/
theorem ofEvent_withOutbox (e : Event) :
    ofEvent (s.withOutbox o) e = ((ofEvent s e).1.withOutbox o, (ofEvent s e).2) := by
  have hlimit : (ofEvent s e).1.maxDepth = s.maxDepth :=
    congrArg (·.1.maxDepth) (ofEvent_recast s s.outbox s.maxDepth e)
  calc ofEvent (s.withOutbox o) e
      = ((ofEvent s e).1.recast o s.maxDepth, (ofEvent s e).2) := ofEvent_recast s o s.maxDepth e
    _ = ((ofEvent s e).1.withOutbox o, (ofEvent s e).2) := by rw [← hlimit]; rfl

theorem afterRun_withOutbox (r : Except Raised Flow) (j : Job) :
    afterRun (s.withOutbox o) r j = ((afterRun s r j).1.withOutbox o, (afterRun s r j).2) := by
  have hlimit : (afterRun s r j).1.maxDepth = s.maxDepth :=
    congrArg (·.1.maxDepth) (afterRun_recast s s.outbox s.maxDepth r j)
  calc afterRun (s.withOutbox o) r j
      = ((afterRun s r j).1.recast o s.maxDepth, (afterRun s r j).2) :=
        afterRun_recast s o s.maxDepth r j
    _ = ((afterRun s r j).1.withOutbox o, (afterRun s r j).2) := by rw [← hlimit]; rfl

/-- The events that a task emits until it rests, the first one first. -/
def emissions : Nat → Session → Task → List Event
  | 0, _, _ => []
  | n + 1, s, t =>
    Machine.emissions n s t.machine ++
      match Machine.run n s t.machine with
      | .done s r =>
        match afterRun s r t.job with
        | (s, .busy t) => emissions n s t
        | (_, .over _) => []
      | .asks _ _ _ | .unfinished _ _ => []

/-- **A task leaves behind what it found and what it emitted.** -/
theorem run_withOutbox (n : Nat) (t : Task) :
    run n (s.withOutbox o) t = (run n s t).withOutbox (o ++ emissions n s t) := by
  induction n generalizing s o t with
  | zero => simp [run, emissions, Rest.withOutbox]
  | succ n ih =>
    simp only [run, emissions, Machine.run_withOutbox]
    cases Machine.run n s t.machine with
    | asks command s' m => simp [Machine.Rest.withOutbox, Rest.withOutbox]
    | unfinished s' m => simp [Machine.Rest.withOutbox, Rest.withOutbox]
    | done s' r =>
      simp only [Machine.Rest.withOutbox, afterRun_withOutbox]
      rcases afterRun s' r t.job with ⟨s₂, t₂ | faults⟩
      · simp only [ih, List.append_assoc]
      · simp [Rest.withOutbox]

theorem outbox_ofEvent (e : Event) : (ofEvent s e).1.outbox = s.outbox := by
  have h := ofEvent_withOutbox s s.outbox e
  rw [Session.withOutbox_outbox] at h
  exact congrArg (·.1.outbox) h

/-- The session where a task rests. -/
def Rest.session : Rest → Session
  | .asks _ s _ | .over s _ | .unfinished s _ => s

theorem outbox_run (n : Nat) (t : Task) :
    (run n s t).session.outbox = s.outbox ++ emissions n s t := by
  have h := run_withOutbox s s.outbox n t
  rw [Session.withOutbox_outbox] at h
  rw [h]
  cases run n s t <;> rfl

end Task

end DeskScript
