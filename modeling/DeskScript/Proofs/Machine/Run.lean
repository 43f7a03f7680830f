import DeskScript.Proofs.Machine.Alike

/-!
# Twins run alike

What holds of one step holds of a run: a session and its twin come to rest after
the same number of steps, with the same command for the host or the same faults,
and are twins again.

    Task.Alike lost ρ b s t s' t' → Task.Rest.Alike lost (run n s t) (run n s' t')   (Task.run_alike)
-/

namespace DeskScript

/-! ## Runs of the machine -/

/-- Where a run comes to rest, as what its last step leads to. -/
def Machine.Rest.toStep : Machine.Rest → Step
  | .asks command s m => .ask command s m
  | .done s r => .done s r
  | .unfinished s m => .next s m

theorem Machine.run_alike {base : List ScopeId} {ρ : Renaming} {b : Arena} {s t : Session}
    {m m' : Machine} (n : Nat) (h : Alike base ρ b s m t m') :
    Step.Alike base ρ s.scopes (run n s m).toStep (run n t m').toStep := by
  induction n generalizing ρ b s t m m' with
  | zero => exact ⟨ρ, b, .refl, h⟩
  | succ n ih =>
    have hstep := step_alike h
    unfold run
    cases hs : step s m <;> cases ht : step t m' <;> rw [hs, ht] at hstep
    case next.next =>
      obtain ⟨τ, c, hcarries, halike⟩ := hstep
      exact (ih halike).after hcarries
    case ask.ask => exact hstep
    case done.done => exact hstep
    all_goals exact hstep.elim

/-! ## Tasks -/

/-- The scopes that run while the machine of a job has none of its own; `lost` has those of
dropped tasks, and the root. -/
def Job.base (lost : List ScopeId) : Job → List ScopeId
  | main => lost
  | handler inner _ _ _ => inner :: lost

/-- The handlers to come are kept, and the payload is plain data. -/
def Job.Fits (a : Arena) : Job → Prop
  | main => True
  | handler _ payload rest _ => payload.scopes = [] ∧ ∀ h ∈ rest, a.Pinned h.scope

namespace Task

/-- `s'` with `t'` is the twin of `s` with `t`. -/
structure Alike (lost : List ScopeId) (ρ : Renaming) (b : Arena) (s : Session) (t : Task)
    (s' : Session) (t' : Task) : Prop where
  machine : DeskScript.Alike (t.job.base lost) ρ b s t.machine s' t'.machine
  root_mem : Arena.root ∈ lost
  fits : t.job.Fits s.scopes
  job : t'.job = t.job.rename ρ

end Task

/-- Twins between two tasks. -/
structure Idle (lost : List ScopeId) (ρ : Renaming) (b : Arena) (s s' : Session) : Prop where
  twin : Twin lost ρ s b []
  session : s' = s.twin ρ b

def Progress.Alike (lost : List ScopeId) : Session × Progress → Session × Progress → Prop
  | (s, .busy t), (s', .busy t') => ∃ ρ b, Task.Alike lost ρ b s t s' t'
  | (s, .over faults), (s', .over faults') => faults' = faults ∧ ∃ ρ b, Idle lost ρ b s s'
  | _, _ => False

def Task.Rest.Alike (lost : List ScopeId) : Task.Rest → Task.Rest → Prop
  | .asks command s t, .asks command' s' t' =>
    command' = command ∧ Progress.Alike lost (s, .busy t) (s', .busy t')
  | .over s faults, .over s' faults' => Progress.Alike lost (s, .over faults) (s', .over faults')
  | .unfinished s t, .unfinished s' t' => Progress.Alike lost (s, .busy t) (s', .busy t')
  | _, _ => False

/-- A renaming that goes on from another does the same to a job. -/
theorem Job.rename_carries {lost : List ScopeId} {ρ τ : Renaming} {a c : Arena} {j : Job}
    (hj : j.Fits a) (h : Carries (j.base lost) ρ a τ c) :
    j.rename τ = j.rename ρ ∧ j.Fits c := by
  cases j with
  | main => exact ⟨rfl, trivial⟩
  | handler inner payload rest faults =>
    obtain ⟨hpayload, hrest⟩ := hj
    refine ⟨?_, hpayload, fun x hx => (h.pinned _ (hrest x hx)).1⟩
    rw [Job.rename, Job.rename, h.base inner List.mem_cons_self,
      List.map_congr_left fun x hx => ?_]
    rw [Handler.rename, Handler.rename, (h.pinned _ (hrest x hx)).2]

namespace Task

variable {lost : List ScopeId} {ρ : Renaming} {b : Arena} {s : Session}

theorem nextHandler_alike (h : Twin lost ρ s b []) {payload : Value} (hp : payload.scopes = [])
    (faults : List Raised) {hs : List Handler} (hhs : ∀ x ∈ hs, s.scopes.Pinned x.scope) :
    Progress.Alike lost (nextHandler s payload faults hs)
      (nextHandler (s.twin ρ b) payload faults (hs.map (Handler.rename ρ))) := by
  cases hs with
  | nil => exact ⟨rfl, ρ, b, h, rfl⟩
  | cons x rest =>
    obtain ⟨hx, hrest⟩ := List.forall_mem_cons.mp hhs
    have hplain : Table.mapValues (Value.rename ρ) [("event", payload)] = [("event", payload)] := by
      simp [Table.mapValues, Value.rename_of_fixed, hp]
    obtain ⟨τ, c, hsame, hgrows, heq, htwin⟩ := h.openScope (Or.inl hx.captured)
      (l := [("event", payload)]) (by simp [Arena.Holds, hp]) (f := fun e => .caught e)
      (fun _ => rfl) (by simp [FlowFrame.scope?]) (by simp [FlowFrame.held])
    rw [hplain] at heq
    have hscope : (Handler.rename ρ x).scope = ρ x.scope := rfl
    have hbody : (Handler.rename ρ x).body = x.body := rfl
    simp only [nextHandler, List.map_cons, hscope, hbody, heq]
    -- the frame that the new scope would end with stands for the handler
    refine ⟨τ, c, ⟨htwin.drop, ?_, rfl, rfl⟩, h.root_mem, ⟨hp, fun y hy => ?_⟩, ?_⟩
    · exact List.mem_cons_self
    · exact hgrows.pinned (hrest y hy)
    · show Job.handler _ _ _ _ = Job.handler _ _ _ _
      rw [List.map_congr_left fun y hy => ?_]
      obtain ⟨u, hu, -⟩ := hrest y hy
      rw [Handler.rename, Handler.rename, hsame y.scope u hu]

theorem ofEvent_alike (h : Twin lost ρ s b []) (e : Event) :
    Progress.Alike lost (ofEvent s e) (ofEvent (s.twin ρ b) e) := by
  have hhandlers : (s.twin ρ b).handlersOf e = (s.handlersOf e).map (Handler.rename ρ) := by
    simp only [Session.handlersOf, Session.twin, Array.toList_map, List.filter_map]
    rfl
  simp only [ofEvent, hhandlers]
  refine nextHandler_alike h (Value.scopes_toValue _) [] fun x hx => h.handlers x ?_
  exact Array.mem_toList_iff.mp (List.mem_filter.mp hx).1

theorem faultOf_rename (r : Except Raised Flow) : faultOf (r.map (Flow.rename ρ)) = faultOf r := by
  cases r with
  | error r => rfl
  | ok f =>
    simp only [Except.map, faultOf, Flow.outside_rename]
    cases f.outside <;> rfl

/-- The end of a run: a collection, or the end of the handler's scope. -/
theorem afterRun_alike {j : Job} (h : Twin (j.base lost) ρ s b []) (hroot : Arena.root ∈ lost)
    (hj : j.Fits s.scopes) (r : Except Raised Flow) :
    Progress.Alike lost (afterRun s r j)
      (afterRun (s.twin ρ b) (r.map (Flow.rename ρ)) (j.rename ρ)) := by
  cases j with
  | main =>
    refine ⟨faultOf_rename r, ρ, b, h.collect (heldBy r), ?_⟩
    show ({ s.twin ρ b with scopes := b.collect _ } : Session) = _
    rw [Arena.collect_keeping h.mirror.keeps]
    rfl
  | handler inner payload rest faults =>
    obtain ⟨hpayload, hrest⟩ := hj
    obtain ⟨c, heq, htwin, hcarries, -⟩ := (h.lift hroot).closeScope rfl (fun _ => heldBy r)
      (by simp)
    simp only [afterRun, Job.rename, heq, faultOf_rename]
    exact nextHandler_alike htwin hpayload _ fun x hx => (hcarries.pinned _ (hrest x hx)).1

theorem run_alike {s' : Session} {t t' : Task} (n : Nat) (h : Alike lost ρ b s t s' t') :
    Rest.Alike lost (run n s t) (run n s' t') := by
  induction n generalizing ρ b s t s' t' with
  | zero => exact ⟨ρ, b, h⟩
  | succ n ih =>
    have hrun := Machine.run_alike n h.machine
    unfold run
    cases hs : Machine.run n s t.machine <;> cases ht : Machine.run n s' t'.machine <;>
      rw [hs, ht] at hrun
    case asks.asks =>
      obtain ⟨rfl, τ, c, hcarries, halike⟩ := hrun
      obtain ⟨hjob, hfits⟩ := Job.rename_carries h.fits hcarries
      exact ⟨rfl, τ, c, halike, h.root_mem, hfits, h.job.trans hjob.symm⟩
    case unfinished.unfinished =>
      obtain ⟨τ, c, hcarries, halike⟩ := hrun
      obtain ⟨hjob, hfits⟩ := Job.rename_carries h.fits hcarries
      exact ⟨τ, c, halike, h.root_mem, hfits, h.job.trans hjob.symm⟩
    case done.done s₁ r s₁' r' =>
      obtain ⟨τ, c, hcarries, htwin, rfl, rfl⟩ := hrun
      obtain ⟨hjob, hfits⟩ := Job.rename_carries h.fits hcarries
      have hafter := afterRun_alike htwin h.root_mem hfits r
      rw [hjob, ← h.job] at hafter
      rcases hp : afterRun s₁ r t.job with ⟨s₂, p | p⟩ <;>
        rcases hq : afterRun (s₁.twin τ c) (r.map (Flow.rename τ)) t'.job with ⟨s₂', q | q⟩ <;>
        rw [hp, hq] at hafter
      · obtain ⟨υ, d, halike⟩ := hafter
        simp only [hp, hq]
        exact ih halike
      · exact hafter.elim
      · exact hafter.elim
      · simp only [hp, hq]
        exact hafter
    all_goals exact hrun.elim

end Task

end DeskScript
