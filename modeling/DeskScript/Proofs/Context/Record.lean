import DeskScript.Proofs.Context.Errors
import DeskScript.Proofs.Machine.Outbox

/-!
# What a run reports

The record of a run has what happens in it, one thing after the other: faults that are
raised, caught or not, events that are emitted, commands, handlers that begin, and runs
that end with a fault. The outcome of a run is read off its record. A fault of the main
program is the only report, and then no handler has begun; otherwise the reports are the
faults of the handlers, in order:

    call.Accords log c →
      (stage n bus c call).Accords (log ++ call.stageRecord n bus c)    (Call.stage_accords)

A run succeeds if there is nothing to report, and else its error is the first report.
-/

namespace DeskScript

variable {B : Type}

/-! ## Records -/

/-- What happens in a run. -/
inductive Incident where
  /-- A fault is raised. Something may catch it. -/
  | raised (r : Raised)
  | emitted (e : Event)
  /-- The host executes a command. -/
  | asked (command : Command)
  /-- The main program ends with a fault. -/
  | mainFailed (r : Raised)
  | handlerBegun
  /-- A handler ends with a fault. -/
  | handlerFailed (r : Raised)

namespace Incident

def mainFailed? : Incident → Option Raised
  | mainFailed r => some r
  | _ => none

def handlerFailed? : Incident → Option Raised
  | handlerFailed r => some r
  | _ => none

def isHandlerBegun : Incident → Bool
  | handlerBegun => true
  | _ => false

end Incident

/-- The faults that the main program ended with. -/
def mainFaultsIn (log : List Incident) : List Raised := log.filterMap Incident.mainFailed?

/-- The faults that handlers ended with, the first one first. -/
def handlerFaultsIn (log : List Incident) : List Raised := log.filterMap Incident.handlerFailed?

/-- How many handlers have begun. -/
def handlersIn (log : List Incident) : Nat := log.countP Incident.isHandlerBegun

@[simp] theorem mainFaultsIn_append (log mid : List Incident) :
    mainFaultsIn (log ++ mid) = mainFaultsIn log ++ mainFaultsIn mid := List.filterMap_append

@[simp] theorem handlerFaultsIn_append (log mid : List Incident) :
    handlerFaultsIn (log ++ mid) = handlerFaultsIn log ++ handlerFaultsIn mid :=
  List.filterMap_append

@[simp] theorem handlersIn_append (log mid : List Incident) :
    handlersIn (log ++ mid) = handlersIn log + handlersIn mid := List.countP_append

/-- Nothing begins or ends with a fault. -/
structure Uneventful (log : List Incident) : Prop where
  main : mainFaultsIn log = []
  handlers : handlerFaultsIn log = []
  begun : handlersIn log = 0

theorem Uneventful.nil : Uneventful [] := ⟨rfl, rfl, rfl⟩

theorem Uneventful.append {log mid : List Incident} (h : Uneventful log) (h' : Uneventful mid) :
    Uneventful (log ++ mid) := by
  constructor
  · rw [mainFaultsIn_append, h.main, h'.main, List.append_nil]
  · rw [handlerFaultsIn_append, h.handlers, h'.handlers, List.append_nil]
  · rw [handlersIn_append, h.begun, h'.begun]

/-- The fault in control. -/
def Control.fault? : Control → Option Raised
  | raised r => some r
  | _ => none

/-- The fault in control after a step. -/
def Step.fault? : Step → Option Raised
  | next _ m => m.control.fault?
  | _ => none

namespace Machine

/-- The fault that the next step raises. One that is in control already only goes on. -/
def raises (s : Session) (m : Machine) : List Raised :=
  if m.control.fault?.isSome then [] else (step s m).fault?.toList

/-- What happens in the next step. -/
def incidents (s : Session) (m : Machine) : List Incident :=
  (m.emits s).map .emitted ++ (m.raises s).map .raised

/-- What happens until a machine rests. -/
def record : Nat → Session → Machine → List Incident
  | 0, _, _ => []
  | n + 1, s, m =>
    m.incidents s ++
      match step s m with
      | .next s m => record n s m
      | _ => []

end Machine

namespace Task

/-- The fault that a run ends with, if it does. -/
def failures (r : Except Raised Flow) : Job → List Incident
  | .main => (faultOf r).map .mainFailed
  | .handler _ _ _ _ => (faultOf r).map .handlerFailed

/-- What happens until a task rests. -/
def record : Nat → Session → Task → List Incident
  | 0, _, _ => []
  | n + 1, s, t =>
    Machine.record n s t.machine ++
      match Machine.run n s t.machine with
      | .done s r =>
        failures r t.job ++
          match afterRun s r t.job with
          | (s, .busy t) => .handlerBegun :: record n s t
          | (_, .over _) => []
      | .asks _ _ _ | .unfinished _ _ => []

end Task

namespace Call

/-- A handler begins when an event is handed over that has handlers. -/
def Stage.beginning : Stage B → List Incident
  | .next _ _ ⟨.handling _, _⟩ => [.handlerBegun]
  | _ => []

/-- What happens while a task of a call runs. -/
def workRecord (n : Nat) (c : Context) (t : Task) : List Incident :=
  if c.cancelled then [] else Task.record n c.session t

variable [Channel B]

/-- What happens in a stage of a call. -/
def stageRecord (n : Nat) (bus : B) (c : Context) (call : Call) : List Incident :=
  match call.phase with
  | .main t | .handling t => workRecord n c t
  | .settling => (stage n bus c call).beginning

/-- What happens until a call rests. -/
def record : Nat → B → Context → Call → List Incident
  | 0, _, _, _ => []
  | n + 1, bus, c, call =>
    call.stageRecord n bus c ++
      match stage n bus c call with
      | .next bus c call => record n bus c call
      | .rest _ => []

/-- What happens in a driven call after it has rested. -/
def drivenRecord {σ : Type} (around : Surroundings (StateM σ)) :
    Nat → Nat → Rest B → σ → List Incident
  | n + 1, known, .asks command bus c call, host =>
    .asked command ::
      match (around.execute command).run ((tell around known c).run host).2 with
      | (some reply, host) =>
        record n bus c (call.answer c reply) ++
          drivenRecord around n c.session.output.size (run n bus c (call.answer c reply)) host
      | (none, _) => []
  | _, _, _, _ => []

end Call

/-- The result of a call that was driven to its end. -/
def Call.Ending.result? : Call.Ending B → Option CallResult
  | ended _ _ r => some r
  | cutOff _ _ _ | unfinished _ _ => none

/-- How a program ends in its surroundings. -/
def programEnding [Channel B] {σ : Type} (around : Surroundings (StateM σ)) (n : Nat)
    (o : RunOptions) (bus : Option B) (program : Block) (host : σ) : Call.Ending B :=
  ((Call.drive around n 0 ((startProgram o 0 bus program).run n)).run host).1

/-- All that happens in the run of a program. -/
def programRecord [Channel B] {σ : Type} (around : Surroundings (StateM σ)) (n : Nat)
    (o : RunOptions) (bus : Option B) (program : Block) (host : σ) : List Incident :=
  match startProgram o 0 bus program with
  | .next b c call =>
    Call.record n b c call ++ Call.drivenRecord around n 0 (Call.run n b c call) host
  | .rest _ => []

/-! ## Tasks -/

namespace Machine

theorem uneventful_incidents (s : Session) (m : Machine) : Uneventful (m.incidents s) := by
  constructor <;>
    simp [incidents, mainFaultsIn, handlerFaultsIn, handlersIn, List.filterMap_map,
      Function.comp_def, Incident.mainFailed?, Incident.handlerFailed?, Incident.isHandlerBegun]

/-- Machines know nothing of handlers. -/
theorem uneventful_record (n : Nat) (s : Session) (m : Machine) : Uneventful (record n s m) := by
  induction n generalizing s m with
  | zero => exact .nil
  | succ n ih =>
    refine (uneventful_incidents s m).append ?_
    cases step s m with
    | next s' m' => exact ih s' m'
    | ask command s' m' => exact .nil
    | done s' r => exact .nil

end Machine

namespace Task

/-- The faults that a task has when it rests. -/
def Rest.faults : Rest → List Raised
  | .asks _ _ t | .unfinished _ t => t.job.faults
  | .over _ faults => faults

/-- A task that goes on is not the main program. -/
def Rest.Handles : Rest → Prop
  | .asks _ _ t | .unfinished _ t => t.job ≠ .main
  | .over _ _ => True

/-- The main program notes its own fault. -/
theorem record_of_main (n : Nat) (s : Session) {t : Task} (ht : t.job = .main) :
    mainFaultsIn (record n s t) = (run n s t).faults ∧ handlerFaultsIn (record n s t) = [] ∧
      handlersIn (record n s t) = 0 := by
  have hnone : t.job.faults = [] := by rw [ht]; rfl
  cases n with
  | zero => exact ⟨hnone.symm, rfl, rfl⟩
  | succ n =>
    obtain ⟨hmain, hhandlers, hbegun⟩ := Machine.uneventful_record n s t.machine
    simp only [run, record]
    cases Machine.run n s t.machine with
    | asks command s' m => simpa [Rest.faults, hnone] using ⟨hmain, hhandlers, hbegun⟩
    | unfinished s' m => simpa [Rest.faults, hnone] using ⟨hmain, hhandlers, hbegun⟩
    | done s' r =>
      simp only [ht, afterRun, failures, Rest.faults, List.append_nil, mainFaultsIn_append,
        handlerFaultsIn_append, handlersIn_append, hmain, hhandlers, hbegun, List.nil_append,
        Nat.zero_add]
      simp [mainFaultsIn, handlerFaultsIn, handlersIn, List.filterMap_map, Function.comp_def,
        Incident.mainFailed?, Incident.handlerFailed?, Incident.isHandlerBegun]

theorem failures_of_handler {j : Job} (hj : j ≠ .main) (r : Except Raised Flow) :
    mainFaultsIn (failures r j) = [] ∧ handlerFaultsIn (failures r j) = faultOf r := by
  cases j with
  | main => exact absurd rfl hj
  | handler inner payload rest faults =>
    simp [failures, mainFaultsIn, handlerFaultsIn, List.filterMap_map, Function.comp_def,
      Incident.mainFailed?, Incident.handlerFailed?]

/-- After a handler come the next ones, with one fault more if it had one. -/
theorem afterRun_of_handler {j : Job} (hj : j ≠ .main) (s : Session) (r : Except Raised Flow) :
    (afterRun s r j).2.faults = j.faults ++ faultOf r ∧
      ∀ t, (afterRun s r j).2 = .busy t → t.job ≠ .main := by
  cases j with
  | main => exact absurd rfl hj
  | handler inner payload rest faults =>
    cases rest with
    | nil => exact ⟨rfl, fun t ht => by cases ht⟩
    | cons h rest =>
      refine ⟨rfl, fun t ht => ?_⟩
      obtain rfl := Progress.busy.inj ht
      simp

/-- Handlers note their faults, which come after those of the handlers before. -/
theorem record_of_handler (n : Nat) (s : Session) {t : Task} (ht : t.job ≠ .main) :
    (run n s t).Handles ∧ mainFaultsIn (record n s t) = [] ∧
      (run n s t).faults = t.job.faults ++ handlerFaultsIn (record n s t) := by
  induction n generalizing s t with
  | zero => exact ⟨ht, rfl, (List.append_nil _).symm⟩
  | succ n ih =>
    obtain ⟨hmain, hhandlers, -⟩ := Machine.uneventful_record n s t.machine
    simp only [run, record]
    cases Machine.run n s t.machine with
    | asks command s' m => exact ⟨ht, by simpa using hmain, by simp [Rest.faults, hhandlers]⟩
    | unfinished s' m => exact ⟨ht, by simpa using hmain, by simp [Rest.faults, hhandlers]⟩
    | done s' r =>
      obtain ⟨hfailed, hfaulty⟩ := failures_of_handler ht r
      obtain ⟨hafter, hnext⟩ := afterRun_of_handler ht s' r
      rcases ha : afterRun s' r t.job with ⟨s₂, t₂ | faults⟩ <;> rw [ha] at hafter hnext <;>
        simp only [ha]
      · obtain ⟨hhandles, hmain₂, hfaults₂⟩ := ih s₂ (hnext t₂ rfl)
        have hbegun : mainFaultsIn (.handlerBegun :: record n s₂ t₂) = [] ∧
            handlerFaultsIn (.handlerBegun :: record n s₂ t₂) = handlerFaultsIn (record n s₂ t₂) :=
          ⟨hmain₂, rfl⟩
        refine ⟨hhandles, ?_, ?_⟩
        · simp [hmain, hfailed, hbegun]
        · rw [hfaults₂, show t₂.job.faults = _ from hafter]
          simp [hhandlers, hfaulty, hbegun]
      · refine ⟨trivial, by simp [hmain, hfailed], ?_⟩
        show faults = _
        rw [show faults = _ from hafter]
        simp [hhandlers, hfaulty]

end Task

/-! ## Contexts and calls -/

/-- The context has recorded the faults of the handlers, but for the last `faults`, and reported
what it recorded. Nobody cancelled it, and its main program did not fail. -/
structure Context.Accords (log : List Incident) (faults : List Raised) (c : Context) : Prop where
  going : c.cancelled = false
  main : mainFaultsIn log = []
  handlers : handlerFaultsIn log = c.handlerFaults ++ faults
  reports : c.reports = c.handlerFaults.map .raised

/-- A call that ended well has reported the faults of the handlers; one that failed has reported the
fault of the main program, and no handler has begun. -/
def Context.Answers (log : List Incident) (c : Context) : CallResult → Prop
  | .ok () => c.Accords log []
  | .error e => ∃ r, e = .raised r ∧ mainFaultsIn log = [r] ∧ handlersIn log = 0 ∧
      c.handlerFaults = [] ∧ c.reports = [.raised r]

namespace Call

/-- A call and its context are as the record says. -/
def Accords (log : List Incident) (c : Context) (call : Call) : Prop :=
  match call.phase with
  | .main t => c.Accords log [] ∧ t.job = .main ∧ handlerFaultsIn log = [] ∧ handlersIn log = 0
  | .handling t => c.Accords log t.job.faults ∧ t.job ≠ .main
  | .settling => c.Accords log []

def Rest.Accords (log : List Incident) : Rest B → Prop
  | asks _ _ c call | idle _ c call | unfinished _ c call => call.Accords log c
  | ended _ c r => c.Answers log r

def Stage.Accords (log : List Incident) : Stage B → Prop
  | next _ c call => call.Accords log c
  | rest r => r.Accords log

def Ending.Accords (log : List Incident) : Ending B → Prop
  | ended _ c r => c.Answers log r
  | cutOff _ c _ | unfinished _ c => ∃ faults, c.Accords log faults

end Call

section
variable [Channel B] {log mid : List Incident} {faults : List Raised} {c : Context} {call : Call}

namespace Context

theorem Accords.withSession (h : c.Accords log faults) (s : Session) :
    { c with session := s }.Accords log faults :=
  ⟨h.going, h.main, h.handlers, h.reports⟩

theorem Accords.flush (h : c.Accords log faults) (bus : B) :
    (c.flush bus).2.Accords log faults := by
  unfold Context.flush
  split
  · exact h.withSession _
  · exact h

/-- More happens, but the main program does not fail. -/
theorem Accords.later (h : c.Accords log faults) (hmain : mainFaultsIn mid = []) :
    c.Accords (log ++ mid) (faults ++ handlerFaultsIn mid) where
  going := h.going
  main := by rw [mainFaultsIn_append, h.main, hmain, List.append_nil]
  handlers := by rw [handlerFaultsIn_append, h.handlers, List.append_assoc]
  reports := h.reports

theorem Accords.uneventful (h : c.Accords log faults) (hmid : Uneventful mid) :
    c.Accords (log ++ mid) faults := by
  have hlater := h.later hmid.main
  rw [hmid.handlers, List.append_nil] at hlater
  exact hlater

theorem Accords.record (h : c.Accords log faults) : (c.record faults).Accords log [] where
  going := h.going
  main := h.main
  handlers := by rw [h.handlers, List.append_nil]; rfl
  reports := by
    show c.reports ++ faults.map .raised = (c.handlerFaults ++ faults).map .raised
    rw [h.reports, List.map_append]

end Context

namespace Call

theorem exists_accords (h : call.Accords log c) : ∃ faults, c.Accords log faults := by
  unfold Accords at h
  cases hphase : call.phase <;> rw [hphase] at h
  · exact ⟨_, h.1⟩
  · exact ⟨_, h.1⟩
  · exact ⟨_, h⟩

theorem accords_settling (h : c.Accords log []) (hphase : call.phase = .settling) :
    call.Accords log c := by
  unfold Accords
  rw [hphase]
  exact h

/-- An event is handed over, and its first handler begins if it has one. -/
theorem handle_accords (h : c.Accords log []) (bus : B) (call : Call) (e : Event) :
    (handle bus c call e).Accords (log ++ (handle bus c call e).beginning) := by
  rw [handle, if_neg (by simp [h.going])]
  rcases hevent : Task.ofEvent c.session e with ⟨s, t | faults⟩
  · obtain ⟨hjob, hfaults⟩ : t.job ≠ .main ∧ t.job.faults = [] := by
      unfold Task.ofEvent Task.nextHandler at hevent
      split at hevent <;> cases hevent
      exact ⟨by simp, rfl⟩
    have hbegun : mainFaultsIn [.handlerBegun] = [] := rfl
    have hlater := (h.withSession s).later hbegun
    refine ⟨?_, hjob⟩
    rw [hfaults]
    exact hlater
  · obtain ⟨-, rfl⟩ := Task.ofEvent_over hevent
    have hlog : log ++ [] = log := List.append_nil log
    show (Context.record { c with session := s } []).Accords (log ++ []) []
    rw [hlog]
    exact (h.withSession s).record

theorem Settles.accords {bus : B} {x : Stage B} (hx : Settles bus c call x) (h : c.Accords log [])
    (hphase : call.phase = .settling) : x.Accords (log ++ x.beginning) := by
  have hstill := accords_settling h hphase
  have hlog : log ++ [] = log := List.append_nil log
  cases hx with
  | @emitted e s hnext => exact handle_accords (h.withSession s) bus call e
  | heard bus' e => exact handle_accords h bus' call e
  | missed bus' =>
    have hnone : (Stage.next bus' c call).beginning = [] := by
      obtain ⟨phase, serving⟩ := call
      obtain rfl : phase = .settling := hphase
      rfl
    rw [hnone, hlog]
    exact hstill
  | idle bus' => exact hlog.symm ▸ hstill
  | finished bus' => exact hlog.symm ▸ h
  | cancelled bus' hcancelled => simp [h.going] at hcancelled

/-- The main program ends with one fault at most. -/
theorem afterMain_accords (h : c.Accords log []) (hhandlers : handlerFaultsIn log = [])
    (hbegun : handlersIn log = 0) {r : Except Raised Flow}
    (hmid : mainFaultsIn mid = Task.faultOf r) (hmid' : handlerFaultsIn mid = [])
    (hmidBegun : handlersIn mid = 0) (bus : B) (call : Call) :
    (afterMain bus c call (Task.faultOf r)).Accords (log ++ mid) := by
  have hfaults : c.handlerFaults = [] := by simpa [hhandlers] using h.handlers.symm
  have hone : Task.faultOf r = [] ∨ ∃ x, Task.faultOf r = [x] := by
    unfold Task.faultOf
    split
    · exact .inr ⟨_, rfl⟩
    · split
      · exact .inl rfl
      · exact .inr ⟨_, rfl⟩
  rcases hone with hnone | ⟨x, hx⟩
  · rw [hnone] at hmid ⊢
    exact h.uneventful ⟨hmid, hmid', hmidBegun⟩
  · rw [hx] at hmid ⊢
    refine ⟨x, rfl, ?_, ?_, hfaults, ?_⟩
    · rw [mainFaultsIn_append, h.main, hmid, List.nil_append]
    · rw [handlersIn_append, hbegun, hmidBegun]
    · show c.reports ++ [.raised x] = [.raised x]
      rw [h.reports, hfaults, List.map_nil, List.nil_append]

/-- **A stage does to a context what its record says.** -/
theorem stage_accords (h : call.Accords log c) (n : Nat) (bus : B) :
    (stage n bus c call).Accords (log ++ call.stageRecord n bus c) := by
  obtain ⟨_, hgoing⟩ := exists_accords h
  have hgoing : ¬ c.cancelled = true := by simp [hgoing.going]
  unfold Accords at h
  unfold stage stageRecord
  cases hphase : call.phase with
  | main t =>
    rw [hphase] at h
    obtain ⟨hc, hjob, hhandlers, hbegun⟩ := h
    obtain ⟨hmid, hmid', hmidBegun⟩ := Task.record_of_main n c.session hjob
    have hrest := Task.run_of_main n c.session hjob
    -- As long as the main program is not over, it has no fault.
    have hstill : ∀ t' : Task, t'.job = .main → (Task.run n c.session t).faults = t'.job.faults →
        c.Accords (log ++ Task.record n c.session t) [] ∧
          handlerFaultsIn (log ++ Task.record n c.session t) = [] ∧
          handlersIn (log ++ Task.record n c.session t) = 0 := by
      intro t' hjob' hfaults
      rw [hfaults, hjob'] at hmid
      exact ⟨hc.uneventful ⟨hmid, hmid', hmidBegun⟩, by simp [hhandlers, hmid'],
        by simp [hbegun, hmidBegun]⟩
    simp only [perform, workRecord, if_neg hgoing]
    cases hrun : Task.run n c.session t with
    | asks command s t' =>
      rw [hrun] at hrest hstill
      obtain ⟨hlater, hnone, hbegun⟩ := hstill t' hrest rfl
      exact ⟨(hlater.withSession s).flush bus, hrest, hnone, hbegun⟩
    | «over» s faults =>
      rw [hrun] at hmid hrest
      obtain ⟨r, rfl⟩ := hrest
      exact afterMain_accords ((hc.withSession s).flush bus) hhandlers hbegun hmid hmid' hmidBegun
        _ call
    | unfinished s t' =>
      rw [hrun] at hrest hstill
      obtain ⟨hlater, hnone, hbegun⟩ := hstill t' hrest rfl
      exact ⟨hlater.withSession s, hrest, hnone, hbegun⟩
  | handling t =>
    rw [hphase] at h
    obtain ⟨hc, hjob⟩ := h
    obtain ⟨hhandles, hmid, hfaults⟩ := Task.record_of_handler n c.session hjob
    have hlater := hc.later hmid
    rw [← hfaults] at hlater
    simp only [perform, workRecord, if_neg hgoing]
    cases hrun : Task.run n c.session t with
    | asks command s t' =>
      rw [hrun] at hhandles hlater
      exact ⟨(hlater.withSession s).flush bus, hhandles⟩
    | «over» s faults =>
      rw [hrun] at hlater
      exact ((hlater.withSession s).flush bus).record
    | unfinished s t' =>
      rw [hrun] at hhandles hlater
      exact ⟨hlater.withSession s, hhandles⟩
  | settling =>
    rw [hphase] at h
    have hstage : stage n bus c call = settle bus c call := by simp only [stage, hphase]
    rw [hstage]
    exact (settle_cases bus c call).accords h hphase

theorem run_accords (h : call.Accords log c) (n : Nat) (bus : B) :
    (run n bus c call).Accords (log ++ record n bus c call) := by
  induction n generalizing log bus c call with
  | zero => simpa [run, record, Rest.Accords] using h
  | succ n ih =>
    have hstage := stage_accords h n bus
    simp only [run, record]
    cases hs : stage n bus c call with
    | next bus' c' call' =>
      rw [hs] at hstage
      have hlater := ih hstage bus'
      rw [List.append_assoc] at hlater
      exact hlater
    | rest r =>
      rw [hs] at hstage
      show r.Accords (log ++ (call.stageRecord n bus c ++ []))
      rw [List.append_nil]
      exact hstage

theorem answer_accords (h : call.Accords log c) (reply : Reply) :
    (call.answer c reply).Accords log c := by
  unfold Accords at h
  unfold answer
  cases hphase : call.phase <;> rw [hphase] at h
  · exact h
  · exact h
  · exact accords_settling h hphase

/-- The host is asked for something. -/
theorem asked_accords (h : call.Accords log c) (command : Command) :
    call.Accords (log ++ [.asked command]) c := by
  have hmid : Uneventful [.asked command] := ⟨rfl, rfl, rfl⟩
  unfold Accords at h ⊢
  cases hphase : call.phase <;> rw [hphase] at h
  · obtain ⟨hc, hjob, hhandlers, hbegun⟩ := h
    refine ⟨hc.uneventful hmid, hjob, ?_, ?_⟩
    · rw [handlerFaultsIn_append, hhandlers, hmid.handlers, List.append_nil]
    · rw [handlersIn_append, hbegun, hmid.begun]
  · exact ⟨h.1.uneventful hmid, h.2⟩
  · exact h.uneventful hmid

/-- **A driven call ends as its record says.** -/
theorem drive_accords {σ : Type} (around : Surroundings (StateM σ)) (n known : Nat) {rest : Rest B}
    (h : rest.Accords log) (host : σ) :
    ((drive around n known rest).run host).1.Accords
      (log ++ drivenRecord around n known rest host) := by
  induction n generalizing log known rest host with
  | zero =>
    cases rest with
    | ended bus c r => exact (List.append_nil log).symm ▸ h
    | _ => exact (List.append_nil log).symm ▸ exists_accords h
  | succ n ih =>
    cases rest with
    | asks command bus c call =>
      have hasked := asked_accords h command
      rw [drive_asks]
      simp only [drivenRecord]
      rcases hexecute : (around.execute command).run ((tell around known c).run host).2 with
        ⟨_ | reply, host'⟩
      · exact exists_accords hasked
      · have hrun := run_accords (answer_accords hasked reply) n bus
        have hlater := ih c.session.output.size hrun host'
        simpa using hlater
    | ended bus c r => exact (List.append_nil log).symm ▸ h
    | _ => exact (List.append_nil log).symm ▸ exists_accords h

end Call

end

/-! ## Sources -/

/-- A program ends as its record says. -/
theorem programEnding_accords [Channel B] {σ : Type} (around : Surroundings (StateM σ)) (n : Nat)
    (o : RunOptions) (bus : Option B) (program : Block) (host : σ) :
    (programEnding around n o bus program host).Accords
      (programRecord around n o bus program host) := by
  obtain ⟨b, c, hfirst, hgoing, hfaults, hreports⟩ : ∃ b c,
      startProgram o 0 bus program = .next b c ⟨.main (Task.ofProgram program), none⟩ ∧
        c.cancelled = false ∧ c.handlerFaults = [] ∧ c.reports = [] := by
    cases bus with
    | none => exact ⟨_, _, rfl, rfl, rfl, rfl⟩
    | some b => exact ⟨_, _, rfl, rfl, rfl, rfl⟩
  have hstart : Call.Accords [] c ⟨.main (Task.ofProgram program), none⟩ :=
    ⟨⟨hgoing, rfl, by rw [hfaults]; rfl, by rw [hfaults, hreports]; rfl⟩, rfl, rfl, rfl⟩
  have hrun := Call.run_accords hstart n b
  have hdrive := Call.drive_accords around n 0 hrun host
  rw [programEnding, programRecord, hfirst]
  exact hdrive

namespace Outcome

variable {log : List Incident} {c : Context}

/-- What is reported of a running script are its faults. -/
theorem reports_of_accords {ending : Call.Ending B} (h : ending.Accords log) :
    ∀ e ∈ (ofEnding ending).reports, ∃ r, e = .raised r := by
  have hmap : ∀ (c : Context) faults, c.Accords log faults →
      ∀ e ∈ c.reports, ∃ r, e = .raised r := by
    intro c faults hc e he
    rw [hc.reports] at he
    obtain ⟨r, -, rfl⟩ := List.mem_map.mp he
    exact ⟨r, rfl⟩
  intro e he
  cases ending with
  | ended bus c r =>
    cases r with
    | ok u => exact hmap c [] h e he
    | error x =>
      obtain ⟨r, -, -, -, -, hreports⟩ := h
      rw [show (ofEnding _).reports = c.reports from rfl, hreports] at he
      exact ⟨r, List.mem_singleton.mp he⟩
  | cutOff bus c call =>
    obtain ⟨faults, hc⟩ := h
    exact hmap c faults hc e he
  | unfinished bus c =>
    obtain ⟨faults, hc⟩ := h
    exact hmap c faults hc e he

/-- The error of a call that ended is the first report. -/
theorem error_of_answers {r : CallResult} (h : c.Answers log r) :
    (ofCall c r).error = (ofCall c r).reports.head? := by
  cases r with
  | ok u =>
    show c.handlerFaults.head?.map ScriptError.raised = c.reports.head?
    rw [h.reports, List.head?_map]
  | error e =>
    obtain ⟨x, rfl, -, -, -, hreports⟩ := h
    show some (ScriptError.raised x) = c.reports.head?
    rw [hreports]
    rfl

/-- Either the main program failed, or the reports are the faults of the handlers. -/
theorem reports_of_answers {r : CallResult} (h : c.Answers log r) :
    (mainFaultsIn log = [] ∧ c.reports = (handlerFaultsIn log).map .raised) ∨
      ∃ x, mainFaultsIn log = [x] ∧ c.reports = [.raised x] ∧ handlersIn log = 0 := by
  cases r with
  | ok u =>
    have hhandlers : handlerFaultsIn log = c.handlerFaults := by simpa using h.handlers
    exact .inl ⟨h.main, by rw [h.reports, hhandlers]⟩
  | error e =>
    obtain ⟨x, -, hmain, hbegun, -, hreports⟩ := h
    exact .inr ⟨x, hmain, hreports, hbegun⟩

end Outcome

/-- The error of a source that cannot be read. -/
def ScriptError.OfReading : ScriptError → Prop
  | lex _ | parse _ => True
  | raised _ | cancelled => False

theorem readProgram_error {source : String} {e : ScriptError} (h : readProgram source = .error e) :
    e.OfReading := by
  unfold readProgram at h
  split at h
  · cases h
    exact trivial
  · split at h <;> cases h
    exact trivial

/-- **The outcome of a run agrees with its reports.** A source that cannot be read has the error of
the reader for its outcome, and nothing happens. One that can be read never has such an error. If
its run ends, it succeeds if and only if nothing is reported, and else its error is the first
report. Either the main program failed: then that is the only report, and no handler has begun. Or
the reports are the faults of the handlers, in the order in which they ran. -/
theorem runSource_outcome_agrees [Channel B] {σ : Type} (around : Surroundings (StateM σ)) (n : Nat)
    (o : RunOptions) (bus : Option B) (source : String) (host : σ) :
    let result := (runSource around n o bus source).run host
    let out := result.1
    (∀ e, readProgram source = .error e →
      e.OfReading ∧ result = (⟨o.globals, some e, [], [e]⟩, host)) ∧
    ∀ program, readProgram source = .ok program →
      let log := programRecord around n o bus program host
      (∀ e, out.error = some e ∨ e ∈ out.reports → ¬ e.OfReading) ∧
      ((programEnding around n o bus program host).result?.isSome →
        (out.success = true ↔ out.error = none) ∧ (out.error = none ↔ out.reports = []) ∧
        out.error = out.reports.head? ∧
        ((mainFaultsIn log = [] ∧ out.reports = (handlerFaultsIn log).map .raised) ∨
          ∃ x, mainFaultsIn log = [x] ∧ out.reports = [.raised x] ∧ handlersIn log = 0)) := by
  intro result out
  refine ⟨fun e he => ⟨readProgram_error he, runSource_failed around n o bus he host⟩,
    fun program hprogram => ?_⟩
  intro log
  have haccords := programEnding_accords around n o bus program host
  have hout : out = .ofEnding (programEnding around n o bus program host) :=
    congrArg Prod.fst (runSource_run around n o bus hprogram host)
  have hreports : ∀ e ∈ out.reports, ¬ e.OfReading := by
    intro e he
    rw [hout] at he
    obtain ⟨r, rfl⟩ := Outcome.reports_of_accords haccords e he
    exact id
  rw [hout] at hreports ⊢
  generalize programEnding around n o bus program host = ending at haccords hreports ⊢
  cases ending with
  | ended b c r =>
    have herror := Outcome.error_of_answers haccords
    refine ⟨?_, fun _ => ⟨?_, ?_, herror, Outcome.reports_of_answers haccords⟩⟩
    · rintro e (he | he)
      · rw [show (Outcome.ofEnding (.ended b c r)).error = _ from herror] at he
        exact hreports e (List.mem_of_head? he)
      · exact hreports e he
    · exact Option.isNone_iff_eq_none
    · rw [show (Outcome.ofEnding (.ended b c r)).error = _ from herror, List.head?_eq_none_iff]
      rfl
  | cutOff b c | unfinished b c =>
    refine ⟨?_, fun hended => by cases hended⟩
    rintro e (he | he)
    · cases he
      exact id
    · exact hreports e he

/-- Two handlers of one event that fail. -/
def twoFailures : String :=
  "on a \x7b throw \"x\" \x7d\non a \x7b throw \"y\" \x7d\nemit a"

def twoFailuresProgram : Block :=
  .mk ⟨1, 1⟩ [
    .on ⟨1, 1⟩ "a" (.mk ⟨1, 6⟩ [.throw ⟨1, 8⟩ (.literal ⟨1, 14⟩ (.string "x"))]),
    .on ⟨2, 1⟩ "a" (.mk ⟨2, 6⟩ [.throw ⟨2, 8⟩ (.literal ⟨2, 14⟩ (.string "y"))]),
    .emit ⟨3, 1⟩ "a" none]

theorem runSource_outcome_agrees_twoFailures :
    let o : RunOptions := ⟨[], [], 9⟩
    let bus : Option Bus := none
    let out := ((runSource Surroundings.absent 40 o bus twoFailures).run ()).1
    let log := programRecord Surroundings.absent 40 o bus twoFailuresProgram ()
    readProgram twoFailures = .ok twoFailuresProgram ∧
      (programEnding Surroundings.absent 40 o bus twoFailuresProgram ()).result?.isSome ∧
      out.error = out.reports.head? ∧ out.reports = (handlerFaultsIn log).map .raised ∧
      (handlerFaultsIn log).map (·.text) =
        ["Custom at line 1, column 8: x", "Custom at line 2, column 8: y"] := by
  intro o bus out log
  have hread : readProgram twoFailures = .ok twoFailuresProgram := by cbv
  have hended :
      (programEnding Surroundings.absent 40 o bus twoFailuresProgram ()).result?.isSome := by
    decide +kernel
  obtain ⟨-, hok⟩ := runSource_outcome_agrees Surroundings.absent 40 o bus twoFailures ()
  obtain ⟨-, hfinished⟩ := hok twoFailuresProgram hread
  obtain ⟨-, -, herror, hreports⟩ := hfinished hended
  have hmain : (mainFaultsIn log).length = 0 := by decide +kernel
  have hhandlers : (handlerFaultsIn log).map (·.text) =
      ["Custom at line 1, column 8: x", "Custom at line 2, column 8: y"] := by decide +kernel
  rcases hreports with ⟨-, hreports⟩ | ⟨x, hx, -⟩
  · exact ⟨hread, hended, herror, hreports, hhandlers⟩
  · rw [hx] at hmain
    cases hmain

end DeskScript
