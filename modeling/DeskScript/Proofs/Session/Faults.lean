import DeskScript.Proofs.Machine.Origin
import DeskScript.Proofs.Session.Balance

/-!
# Every fault in the life of a session

The code of a life is what its host hands over: the programs, and the bodies of the
functions in variables and replies. A fault may arise anywhere in it. It may be caught,
kept until the other handlers of an event are done, or reported. Whatever becomes of it,
it is met at some moment of the life, and has a place in the code:

    l.Meets r → r.PartOf (codeOf moves)                                (Life.PartOf.meets)
-/

namespace DeskScript

/-! ## Moments -/

/-- From one moment of a task on, steps lead to another, perhaps in a later handler. The host is not
needed in between. -/
inductive Task.Passes (s : Session) (t : Task) : Session → Task → Prop
  | start : Passes s t s t
  | step {s₁ s₂ : Session} {t₁ : Task} {m : Machine} : Passes s t s₁ t₁ →
      Machine.step s₁ t₁.machine = .next s₂ m → Passes s t s₂ { t₁ with machine := m }
  | handler {s₁ s₂ s₃ : Session} {t₁ t₂ : Task} {r : Except Raised Flow} : Passes s t s₁ t₁ →
      Machine.step s₁ t₁.machine = .done s₂ r → Task.afterRun s₂ r t₁.job = (s₃, .busy t₂) →
      Passes s t s₃ t₂

/-- The faults of handlers that are done. -/
def Job.faults : Job → List Raised
  | main => []
  | handler _ _ _ faults => faults

namespace Life

/-- The work going on comes to this moment, if it is let run. -/
def Passes (l : Life) (s : Session) (t : Task) : Prop :=
  ∃ t₀, l.progress = .busy t₀ ∧ t₀.Passes l.session s t

/-- A fault that occurs in a life: in control at some moment, whether something will catch it or
not, or kept, or known to the host. -/
inductive Meets (l : Life) (r : Raised) : Prop
  | raised {s : Session} {t : Task} : l.Passes s t → t.machine.control = .raised r → Meets l r
  | kept {s : Session} {t : Task} : l.Passes s t → r ∈ t.job.faults → Meets l r
  | ended {faults : List Raised} : l.progress = .over faults → r ∈ faults → Meets l r
  | reported {faults : List Raised} : .over faults ∈ l.reports → r ∈ faults → Meets l r

end Life

/-! ## Code -/

/-- The code that the host hands over. -/
def Move.code : Move → List Block
  | main program => [program]
  | reply (.ok v) => v.functions.map (·.body)
  | define _ v => v.functions.map (·.body)
  | _ => []

/-- The code of a life. -/
def codeOf (moves : List Move) : Set Block := {b | ∃ m ∈ moves, b ∈ m.code}

section
variable {code : Set Block}

theorem Value.partOf_of_bodies {v : Value} (h : ∀ b ∈ v.functions.map (·.body), b ∈ code) :
    v.PartOf code :=
  fun f hf => bodyOf_of_mem (h f.body (List.mem_map_of_mem hf))

theorem Task.Passes.partOf {s s' : Session} {t t' : Task} (h : t.Passes s s' t')
    (hs : s.PartOf code) (ht : t.PartOf code) : s'.PartOf code ∧ t'.PartOf code := by
  induction h with
  | start => exact ⟨hs, ht⟩
  | step _ hstep ih =>
    have hnext := Machine.step_partOf ih.1 ih.2.machine
    rw [hstep] at hnext
    exact ⟨hnext.1, hnext.2, ih.2.job⟩
  | handler _ hstep hafter ih =>
    have hdone := Machine.step_partOf ih.1 ih.2.machine
    rw [hstep] at hdone
    have hnext := Task.afterRun_partOf hdone.1 hdone.2 ih.2.job
    rw [hafter] at hnext
    exact hnext

namespace Life

/-- All that a life knows is part of the code. -/
structure PartOf (code : Set Block) (l : Life) : Prop where
  session : l.session.PartOf code
  progress : l.progress.PartOf code
  reports : ∀ faults, .over faults ∈ l.reports → ∀ r ∈ faults, r.PartOf code

theorem PartOf.hear {l : Life} (h : l.PartOf code) {x : Report}
    (hx : ∀ faults, x = .over faults → ∀ r ∈ faults, r.PartOf code) : (l.hear x).PartOf code := by
  refine ⟨h.session, h.progress, fun faults hfaults => ?_⟩
  rcases List.mem_append.mp hfaults with hmem | hmem
  · exact h.reports faults hmem
  · exact hx faults (List.mem_singleton.mp hmem).symm

/-- **A move stays in the code**, if it hands over no other. -/
theorem PartOf.move {l : Life} (h : l.PartOf code) {m : Move} (hm : ∀ b ∈ m.code, b ∈ code) :
    (l.move m).PartOf code := by
  obtain ⟨s, p, reports⟩ := l
  obtain ⟨hs, hp, hreports⟩ := h
  cases m with
  | main program =>
    exact ⟨hs, Task.ofProgram_partOf (hm program List.mem_cons_self), hreports⟩
  | event e => exact ⟨(Task.ofEvent_partOf hs e).1, (Task.ofEvent_partOf hs e).2, hreports⟩
  | run n =>
    cases p with
    | «over» faults => exact ⟨hs, hp, hreports⟩
    | busy t =>
      have hrun := Task.run_partOf n hs hp
      simp only [Life.move]
      cases ht : Task.run n s t <;> rw [ht] at hrun
      case asks command s' t' =>
        apply PartOf.hear
        · exact ⟨hrun.1, hrun.2, hreports⟩
        · intro faults heq
          cases heq
      case «over» s' faults =>
        apply PartOf.hear
        · exact ⟨hrun.1, hrun.2, hreports⟩
        · intro faults' heq
          obtain rfl := Report.over.inj heq
          exact hrun.2
      case unfinished s' t' => exact ⟨hrun.1, hrun.2, hreports⟩
  | reply r =>
    cases p with
    | «over» faults => exact ⟨hs, hp, hreports⟩
    | busy t =>
      refine ⟨hs, Task.answer_partOf hp fun v hv => ?_, hreports⟩
      subst hv
      exact Value.partOf_of_bodies hm
  | take =>
    simp only [Life.move, Session.nextEmitted?]
    split
    · next h =>
      split at h
      · cases h
        apply PartOf.hear
        · exact ⟨⟨hs.bindings, hs.natives, hs.handlers⟩, hp, hreports⟩
        · intro faults heq
          cases heq
      · cases h
    · exact ⟨hs, hp, hreports⟩
  | define x v => exact ⟨hs.defineGlobal x (Value.partOf_of_bodies hm), hp, hreports⟩
  | hold x => exact ⟨⟨hs.bindings, hs.natives, hs.handlers⟩, hp, hreports⟩
  | letGo n => exact ⟨⟨hs.bindings, hs.natives, hs.handlers⟩, hp, hreports⟩

theorem play_partOf {natives : Natives} (hn : natives.Tame) (id maxDepth : Nat)
    {moves : List Move} (hmoves : ∀ m ∈ moves, ∀ b ∈ m.code, b ∈ code) :
    ((ofSession (.initial id natives maxDepth)).play moves).PartOf code := by
  refine play_of_move (Q := fun m => ∀ b ∈ m.code, b ∈ code)
    (fun l m hl hm => hl.move hm) ?_ hmoves
  exact ⟨Session.partOf_initial _ hn id maxDepth, List.forall_mem_nil _, by simp [ofSession]⟩

theorem PartOf.passes {l : Life} (h : l.PartOf code) {s : Session} {t : Task}
    (hpasses : l.Passes s t) : s.PartOf code ∧ t.PartOf code := by
  obtain ⟨t₀, ht₀, hpasses⟩ := hpasses
  have hp := h.progress
  rw [ht₀] at hp
  exact hpasses.partOf h.session hp

/-- **Every fault has a place in the code.** -/
theorem PartOf.meets {l : Life} (h : l.PartOf code) {r : Raised} (hr : l.Meets r) :
    r.PartOf code := by
  cases hr with
  | raised hpasses hc =>
    have hcontrol := (h.passes hpasses).2.machine.control
    rw [hc] at hcontrol
    exact hcontrol
  | @kept s t hpasses hmem =>
    have hjob := (h.passes hpasses).2.job
    cases hj : t.job with
    | main =>
      rw [hj] at hmem
      cases hmem
    | handler inner payload rest faults =>
      rw [hj] at hjob hmem
      exact hjob.2.2 r hmem
  | ended hover hmem =>
    have hp := h.progress
    rw [hover] at hp
    exact hp r hmem
  | reported hreport hmem => exact h.reports _ hreport r hmem

end Life

end

end DeskScript
