import DeskScript.Proofs.Context.PrivateBus
import DeskScript.Proofs.Context.Record

/-!
# The limit of calls

A limit of calls only matters when it is hit. If no fault of a run says that there are
too many calls, not even one that is caught, then a run with a larger limit keeps in step
with it, and they differ in nothing but the limit:

    Unrefused (call.stageRecord n bus c) →
      stage n bus (c.withLimit d) call = (stage n bus c call).withLimit d    (Call.stage_withLimit)
-/

namespace DeskScript

variable {B : Type}

/-- Nothing complains of too many calls. -/
def Unrefused (log : List Incident) : Prop :=
  ∀ r, .raised r ∈ log → r.fault.kind ≠ .recursionLimit

def Incident.raised? : Incident → Option Raised
  | raised r => some r
  | _ => none

instance (log : List Incident) : Decidable (Unrefused log) :=
  decidable_of_iff (∀ r ∈ log.filterMap Incident.raised?, r.fault.kind ≠ .recursionLimit) <| by
    have hmem : ∀ r, r ∈ log.filterMap Incident.raised? ↔ .raised r ∈ log := by
      intro r
      rw [List.mem_filterMap]
      constructor
      · rintro ⟨i, hi, hr⟩
        cases i <;> cases hr
        exact hi
      · exact fun hr => ⟨_, hr, rfl⟩
    simp only [hmem, Unrefused]

theorem unrefused_append {log mid : List Incident} :
    Unrefused (log ++ mid) ↔ Unrefused log ∧ Unrefused mid := by
  constructor
  · intro h
    exact ⟨fun r hr => h r (List.mem_append_left _ hr),
      fun r hr => h r (List.mem_append_right _ hr)⟩
  · rintro ⟨h, h'⟩ r hr
    rcases List.mem_append.mp hr with hr | hr
    · exact h r hr
    · exact h' r hr

theorem Unrefused.tail {i : Incident} {log : List Incident} (h : Unrefused (i :: log)) :
    Unrefused log :=
  fun r hr => h r (List.mem_cons_of_mem _ hr)

/-! ## Another limit -/

def Session.withLimit (d : Nat) (s : Session) : Session := { s with maxDepth := d }

def Step.withLimit (d : Nat) : Step → Step
  | next s m => .next (s.withLimit d) m
  | ask command s m => .ask command (s.withLimit d) m
  | done s r => .done (s.withLimit d) r

def Machine.Rest.withLimit (d : Nat) : Machine.Rest → Machine.Rest
  | asks command s m => .asks command (s.withLimit d) m
  | done s r => .done (s.withLimit d) r
  | unfinished s m => .unfinished (s.withLimit d) m

def Task.Rest.withLimit (d : Nat) : Task.Rest → Task.Rest
  | .asks command s t => .asks command (s.withLimit d) t
  | .over s faults => .over (s.withLimit d) faults
  | .unfinished s t => .unfinished (s.withLimit d) t

/-- The same context, with another limit for its script. -/
def Context.withLimit (d : Nat) (c : Context) : Context :=
  { c with session := c.session.withLimit d }

namespace Call

def Rest.withLimit (d : Nat) : Rest B → Rest B
  | asks command bus c call => .asks command bus (c.withLimit d) call
  | idle bus c call => .idle bus (c.withLimit d) call
  | ended bus c r => .ended bus (c.withLimit d) r
  | unfinished bus c call => .unfinished bus (c.withLimit d) call

def Stage.withLimit (d : Nat) : Stage B → Stage B
  | next bus c call => .next bus (c.withLimit d) call
  | rest r => .rest (r.withLimit d)

def Ending.withLimit (d : Nat) : Ending B → Ending B
  | ended bus c r => .ended bus (c.withLimit d) r
  | cutOff bus c call => .cutOff bus (c.withLimit d) call
  | unfinished bus c => .unfinished bus (c.withLimit d)

end Call

theorem Outcome.ofEnding_withLimit (d : Nat) (ending : Call.Ending B) :
    Outcome.ofEnding (ending.withLimit d) = Outcome.ofEnding ending := by
  cases ending <;> rfl

variable [Channel B]

/-! ## Machines -/

section
variable {s : Session} {d : Nat}

namespace Machine

variable {m : Machine}

/-- A call that is refused raises a fault. -/
theorem raises_of_complains (h : m.Complains s) :
    ∃ r ∈ m.raises s, r.fault.kind = .recursionLimit := by
  obtain ⟨f, args, hcall, -⟩ := (complains_iff m s).mp h
  obtain ⟨-, s', ⟨c', k'⟩, hstep, r, hr, hkind⟩ := h
  obtain rfl : c' = .raised r := hr
  refine ⟨r, ?_, hkind⟩
  have hbefore : m.control.fault? = none := by
    obtain ⟨c, k⟩ := m
    cases c with
    | raised x => cases hcall
    | _ => rfl
  rw [raises, hbefore, hstep]
  exact List.mem_singleton_self r

/-- Where no call is refused, a larger limit makes no difference. -/
theorem agrees_of_unrefused (hd : s.maxDepth ≤ d) (h : Unrefused (m.incidents s)) :
    m.Agrees s d := by
  intro f args hcall
  cases f with
  | native f => exact trivial
  | function f =>
    by_cases hlimit : s.maxDepth ≤ s.depth
    · obtain ⟨r, hr, hkind⟩ :=
        raises_of_complains ((complains_iff m s).mpr ⟨.function f, args, hcall, hlimit⟩)
      exact absurd hkind (h r (List.mem_append_right _ (List.mem_map_of_mem hr)))
    · have hlt : s.depth < s.maxDepth := Nat.lt_of_not_le hlimit
      exact .inr ⟨hlt, Nat.lt_of_lt_of_le hlt hd⟩

/-- **A step with a larger limit does the same.** -/
theorem step_withLimit (hd : s.maxDepth ≤ d) (h : Unrefused (m.incidents s)) :
    step (s.withLimit d) m = (step s m).withLimit d := by
  have hstep : step (s.withLimit d) m = (step s m).recast (s.outbox ++ m.emits s) d :=
    step_recast s s.outbox d (agrees_of_unrefused hd h)
  -- What waits is what waits after the step with the limit of the session.
  rw [hstep, step_eq_recast]
  cases step s m <;> rfl

theorem incidents_withLimit (hd : s.maxDepth ≤ d) (h : Unrefused (m.incidents s)) :
    m.incidents (s.withLimit d) = m.incidents s := by
  have hemits : m.emits (s.withLimit d) = m.emits s := rfl
  have hraises : m.raises (s.withLimit d) = m.raises s := by
    unfold raises
    rw [step_withLimit hd h]
    cases step s m <;> rfl
  rw [incidents, incidents, hemits, hraises]

theorem maxDepth_step {s' : Session} {m' : Machine} (h : step s m = .next s' m') :
    s'.maxDepth = s.maxDepth := by
  have hself := step_eq_recast s m
  rw [h] at hself
  obtain ⟨hsession, -⟩ := Step.next.inj hself
  rw [hsession]
  rfl

theorem run_withLimit (n : Nat) (hd : s.maxDepth ≤ d) (h : Unrefused (record n s m)) :
    run n (s.withLimit d) m = (run n s m).withLimit d ∧
      record n (s.withLimit d) m = record n s m := by
  induction n generalizing s m with
  | zero => exact ⟨rfl, rfl⟩
  | succ n ih =>
    obtain ⟨hnow, hlater⟩ := unrefused_append.mp h
    simp only [run, record, step_withLimit hd hnow, incidents_withLimit hd hnow]
    cases hs : step s m with
    | next s' m' =>
      rw [hs] at hlater
      obtain ⟨hrun, hrecord⟩ := ih (maxDepth_step hs ▸ hd) hlater
      exact ⟨hrun, by simp only [Step.withLimit, hrecord]⟩
    | ask command s' m' => exact ⟨rfl, rfl⟩
    | done s' r => exact ⟨rfl, rfl⟩

end Machine

/-! ## Tasks -/

namespace Task

theorem ofEvent_withLimit (s : Session) (d : Nat) (e : Event) :
    ofEvent (s.withLimit d) e = ((ofEvent s e).1.withLimit d, (ofEvent s e).2) := by
  have hwaiting : (ofEvent s e).1.outbox = s.outbox := outbox_ofEvent s e
  calc ofEvent (s.withLimit d) e
      = ((ofEvent s e).1.recast s.outbox d, (ofEvent s e).2) := ofEvent_recast s s.outbox d e
    _ = ((ofEvent s e).1.withLimit d, (ofEvent s e).2) := by rw [← hwaiting]; rfl

theorem afterRun_withLimit (s : Session) (d : Nat) (r : Except Raised Flow) (j : Job) :
    afterRun (s.withLimit d) r j = ((afterRun s r j).1.withLimit d, (afterRun s r j).2) := by
  have hwaiting : (afterRun s r j).1.outbox = s.outbox :=
    congrArg (·.1.outbox) (afterRun_recast s s.outbox s.maxDepth r j)
  calc afterRun (s.withLimit d) r j
      = ((afterRun s r j).1.recast s.outbox d, (afterRun s r j).2) :=
        afterRun_recast s s.outbox d r j
    _ = ((afterRun s r j).1.withLimit d, (afterRun s r j).2) := by rw [← hwaiting]; rfl

theorem run_withLimit {t : Task} (n : Nat) (hd : s.maxDepth ≤ d) (h : Unrefused (record n s t)) :
    run n (s.withLimit d) t = (run n s t).withLimit d ∧
      record n (s.withLimit d) t = record n s t := by
  induction n generalizing s t with
  | zero => exact ⟨rfl, rfl⟩
  | succ n ih =>
    obtain ⟨hnow, hlater⟩ := unrefused_append.mp h
    obtain ⟨hrun, hrecord⟩ := Machine.run_withLimit n hd hnow
    simp only [run, record, hrun, hrecord]
    cases hm : Machine.run n s t.machine with
    | asks command s' m => exact ⟨rfl, rfl⟩
    | unfinished s' m => exact ⟨rfl, rfl⟩
    | done s' r =>
      -- With its own limit for the other one, the run shows that it keeps its limit.
      have hlimit : s'.maxDepth = s.maxDepth := by
        have hself := (Machine.run_withLimit n (Nat.le_refl s.maxDepth) hnow).1
        rw [show s.withLimit s.maxDepth = s from rfl, hm] at hself
        rw [(Machine.Rest.done.inj hself).1]
        rfl
      rw [hm] at hlater
      obtain ⟨-, hlater⟩ := unrefused_append.mp hlater
      simp only [Machine.Rest.withLimit, afterRun_withLimit]
      rcases ha : afterRun s' r t.job with ⟨s₂, t₂ | faults⟩
      · simp only [ha] at hlater
        have hkept : s₂.maxDepth = s'.maxDepth := by
          have hself := afterRun_withLimit s' s'.maxDepth r t.job
          rw [show s'.withLimit s'.maxDepth = s' from rfl, ha] at hself
          rw [(Prod.mk.inj hself).1]
          rfl
        obtain ⟨hnext, hrest⟩ := ih (t := t₂) (s := s₂) (by omega) hlater.tail
        exact ⟨hnext, by simp only [hrest]⟩
      · exact ⟨rfl, rfl⟩

end Task

end

/-! ## Calls -/

namespace Call

section
variable (d : Nat) (bus : B) (c : Context) (call : Call)

theorem flush_withLimit :
    (c.withLimit d).flush bus = ((c.flush bus).1, (c.flush bus).2.withLimit d) := by
  unfold Context.flush
  have hsame : (c.withLimit d).onBus = c.onBus := rfl
  rw [hsame]
  split <;> rfl

theorem handle_withLimit (e : Event) :
    handle bus (c.withLimit d) call e = (handle bus c call e).withLimit d := by
  have hevent : Task.ofEvent (c.withLimit d).session e = _ := Task.ofEvent_withLimit c.session d e
  unfold handle
  rw [hevent, show (c.withLimit d).cancelled = c.cancelled from rfl]
  split
  · rfl
  · rcases Task.ofEvent c.session e with ⟨s, t | faults⟩ <;> rfl

theorem hear_withLimit (receiver : Nat) {quiet quiet' : B → Stage B}
    (hquiet : ∀ bus, quiet' bus = (quiet bus).withLimit d) :
    hear bus (c.withLimit d) call receiver quiet' =
      (hear bus c call receiver quiet).withLimit d := by
  unfold hear
  rcases Channel.receive bus receiver with ⟨_ | _ | _, bus'⟩
  · exact handle_withLimit d bus' c call _
  · rfl
  · exact hquiet bus'

theorem settled_withLimit :
    settled bus (c.withLimit d) call = (settled bus c call).withLimit d := by
  unfold settled
  rw [show (c.withLimit d).cancelled = c.cancelled from rfl]
  split
  · rfl
  · split
    · rfl
    · exact hear_withLimit d bus c call _ fun _ => rfl

theorem settle_withLimit : settle bus (c.withLimit d) call = (settle bus c call).withLimit d := by
  unfold settle
  rw [show (c.withLimit d).receiver = c.receiver from rfl]
  have hnext : (c.withLimit d).session.nextEmitted? =
      c.session.nextEmitted?.map fun p => (p.1, p.2.withLimit d) := by
    unfold Session.nextEmitted?
    rw [show (c.withLimit d).session.outbox = c.session.outbox from rfl]
    split <;> rfl
  rw [hnext]
  cases c.session.nextEmitted? with
  | some p => exact handle_withLimit d bus { c with session := p.2 } call p.1
  | none =>
    cases c.receiver with
    | some receiver =>
      exact hear_withLimit d bus c call receiver fun bus => settled_withLimit d bus c call
    | none => exact settled_withLimit d bus c call

end

section
variable {d : Nat} {c : Context} {call : Call}

theorem perform_withLimit {t : Task} (n : Nat) (bus : B) (hd : c.session.maxDepth ≤ d)
    (h : Unrefused (workRecord n c t)) (call : Call) (phase : Task → Phase)
    {after : B → Context → List Raised → Stage B}
    (hafter : ∀ bus c faults, after bus (c.withLimit d) faults = (after bus c faults).withLimit d) :
    perform n bus (c.withLimit d) call t phase after =
        (perform n bus c call t phase after).withLimit d ∧
      workRecord n (c.withLimit d) t = workRecord n c t := by
  have hflush : ∀ s : Session, { c.withLimit d with session := s.withLimit d }.flush bus =
      (({ c with session := s }.flush bus).1, ({ c with session := s }.flush bus).2.withLimit d) :=
    fun s => flush_withLimit d bus { c with session := s }
  unfold workRecord at h ⊢
  by_cases hcancelled : c.cancelled = true
  · have hsame : (c.withLimit d).cancelled = true := hcancelled
    rw [perform, perform, if_pos hcancelled, if_pos hsame, if_pos hcancelled, if_pos hsame]
    exact ⟨rfl, rfl⟩
  have hsame : ¬ (c.withLimit d).cancelled = true := hcancelled
  rw [if_neg hcancelled] at h
  have hrun : Task.run n (c.withLimit d).session t = _ := (Task.run_withLimit n hd h).1
  rw [perform, perform, if_neg hcancelled, if_neg hsame, if_neg hcancelled, if_neg hsame, hrun]
  refine ⟨?_, (Task.run_withLimit n hd h).2⟩
  cases Task.run n c.session t with
  | asks command s t' => simp only [Task.Rest.withLimit, hflush]; rfl
  | «over» s faults => simp only [Task.Rest.withLimit, hflush, hafter]
  | unfinished s t' => rfl

/-- **A stage with a larger limit does the same.** -/
theorem stage_withLimit (n : Nat) (bus : B) (hd : c.session.maxDepth ≤ d)
    (h : Unrefused (call.stageRecord n bus c)) :
    stage n bus (c.withLimit d) call = (stage n bus c call).withLimit d ∧
      call.stageRecord n bus (c.withLimit d) = call.stageRecord n bus c := by
  unfold stageRecord at h ⊢
  cases hphase : call.phase with
  | main t =>
    rw [hphase] at h
    simp only [stage, hphase]
    refine perform_withLimit n bus hd h call .main fun bus c faults => ?_
    cases faults <;> rfl
  | handling t =>
    rw [hphase] at h
    simp only [stage, hphase]
    exact perform_withLimit n bus hd h call .handling fun bus c faults => rfl
  | settling =>
    have hstage : stage n bus (c.withLimit d) call = (stage n bus c call).withLimit d := by
      simp only [stage, hphase]
      exact settle_withLimit d bus c call
    refine ⟨hstage, ?_⟩
    rw [hstage]
    rcases stage n bus c call with ⟨bus', c', ⟨_ | _ | _, serving⟩⟩ | r <;> rfl

theorem run_withLimit (n : Nat) (bus : B) (hd : c.session.maxDepth ≤ d)
    (h : Unrefused (record n bus c call)) :
    run n bus (c.withLimit d) call = (run n bus c call).withLimit d ∧
      record n bus (c.withLimit d) call = record n bus c call := by
  induction n generalizing bus c call with
  | zero => exact ⟨rfl, rfl⟩
  | succ n ih =>
    obtain ⟨hnow, hlater⟩ := unrefused_append.mp h
    obtain ⟨hstage, hrecord⟩ := stage_withLimit n bus hd hnow
    simp only [run, record, hstage, hrecord]
    cases hs : stage n bus c call with
    | next bus' c' call' =>
      have hlimit : c'.session.maxDepth = c.session.maxDepth := by
        have hself := (stage_withLimit n bus (Nat.le_refl c.session.maxDepth) hnow).1
        rw [show c.withLimit c.session.maxDepth = c from rfl, hs] at hself
        rw [(Stage.next.inj hself).2.1]
        rfl
      rw [hs] at hlater
      obtain ⟨hrun, hrest⟩ := ih bus' (hlimit ▸ hd) hlater
      exact ⟨hrun, by simp only [Stage.withLimit, hrest]⟩
    | rest r => exact ⟨rfl, rfl⟩

theorem maxDepth_run (n : Nat) (bus : B) (h : Unrefused (record n bus c call)) :
    (run n bus c call).state.2.session.maxDepth = c.session.maxDepth := by
  have hself := (run_withLimit n bus (Nat.le_refl c.session.maxDepth) h).1
  rw [show c.withLimit c.session.maxDepth = c from rfl] at hself
  rw [hself]
  cases run n bus c call <;> rfl

end

/-- **A driven call with a larger limit does the same**, and so does its host. -/
theorem drive_withLimit {σ : Type} (around : Surroundings (StateM σ)) {d : Nat} (n known : Nat)
    {rest : Rest B} (hd : rest.state.2.session.maxDepth ≤ d) (host : σ)
    (h : Unrefused (drivenRecord around n known rest host)) :
    (drive around n known (rest.withLimit d)).run host =
        (((drive around n known rest).run host).1.withLimit d,
          ((drive around n known rest).run host).2) ∧
      drivenRecord around n known (rest.withLimit d) host =
        drivenRecord around n known rest host := by
  induction n generalizing known rest host with
  | zero => cases rest <;> exact ⟨rfl, rfl⟩
  | succ n ih =>
    cases rest with
    | asks command bus c call =>
      have htell : tell around known (c.withLimit d) = tell around known c := rfl
      replace hd : c.session.maxDepth ≤ d := hd
      simp only [Rest.withLimit, drivenRecord] at h ⊢
      rw [drive_asks, drive_asks, htell]
      rcases hexecute : (around.execute command).run ((tell around known c).run host).2 with
        ⟨_ | reply, host'⟩
      · exact ⟨rfl, rfl⟩
      · rw [hexecute] at h
        obtain ⟨hnow, hlater⟩ := unrefused_append.mp h.tail
        obtain ⟨hrun, hrecord⟩ := run_withLimit n bus hd hnow
        have hlimit : (run n bus c (call.answer c reply)).state.2.session.maxDepth ≤ d :=
          maxDepth_run n bus hnow ▸ hd
        obtain ⟨hdrive, hdriven⟩ := ih c.session.output.size hlimit host' hlater
        have hanswer : call.answer (c.withLimit d) reply = call.answer c reply := rfl
        simp only [hanswer, hrun, hrecord]
        exact ⟨hdrive, by rw [← hdriven]; rfl⟩
    | idle bus c call => exact ⟨rfl, rfl⟩
    | ended bus c r => exact ⟨rfl, rfl⟩
    | unfinished bus c call => exact ⟨rfl, rfl⟩

end Call

/-! ## Sources -/

theorem RunOptions.session_withLimit (o : RunOptions) (d id : Nat) :
    { o with maxDepth := d }.session id = (o.session id).withLimit d := by
  rw [session_eq, session_eq]
  rfl

theorem startProgram_withLimit (o : RunOptions) (d : Nat) (bus : Option B) (program : Block) :
    startProgram { o with maxDepth := d } 0 bus program =
      (startProgram o 0 bus program).withLimit d := by
  cases bus <;> simp only [startProgram, RunOptions.session_withLimit] <;> rfl

/-- A program with a larger limit does the same. -/
theorem drive_program_withLimit {σ : Type} (around : Surroundings (StateM σ)) (n : Nat)
    {o : RunOptions} {d : Nat} (hd : o.maxDepth ≤ d) {bus : Option B} {program : Block} {host : σ}
    (h : Unrefused (programRecord around n o bus program host)) :
    (Call.drive around n 0 ((startProgram { o with maxDepth := d } 0 bus program).run n)).run host =
        ((programEnding around n o bus program host).withLimit d,
          ((Call.drive around n 0 ((startProgram o 0 bus program).run n)).run host).2) ∧
      programRecord around n { o with maxDepth := d } bus program host =
        programRecord around n o bus program host := by
  obtain ⟨b, c, call, hfirst, hlimit⟩ : ∃ b c call,
      startProgram o 0 bus program = .next b c call ∧ c.session.maxDepth = o.maxDepth := by
    have hsession : (o.session 0).maxDepth = o.maxDepth := by rw [RunOptions.session_eq]; rfl
    cases bus with
    | none => exact ⟨_, _, _, rfl, hsession⟩
    | some b => exact ⟨_, _, _, rfl, hsession⟩
  have hlarger : startProgram { o with maxDepth := d } 0 bus program =
      .next b (c.withLimit d) call := by
    rw [startProgram_withLimit, hfirst]
    rfl
  rw [programRecord, hfirst] at h
  obtain ⟨hnow, hlater⟩ := unrefused_append.mp h
  rw [← hlimit] at hd
  obtain ⟨hrun, hrecord⟩ := Call.run_withLimit n b hd hnow
  have hkept : (Call.run n b c call).state.2.session.maxDepth ≤ d :=
    Call.maxDepth_run n b hnow ▸ hd
  obtain ⟨hdrive, hdriven⟩ := Call.drive_withLimit around n 0 hkept host hlater
  rw [programEnding, programRecord, programRecord, hlarger, hfirst]
  simp only [Call.Stage.run, hrun, hrecord]
  exact ⟨hdrive, by rw [hdriven]⟩

/-- **The limit of calls only matters when it is hit.** A run in which nothing complains of too many
calls, not even where it is caught, is the same with a larger limit: it has the same outcome and
reports, and leaves its host in the same state. The same things happen, with the same commands and
emitted events, and the call ends in the same state, but for the limit. -/
theorem runSource_limit_unreached {σ : Type} (around : Surroundings (StateM σ)) (n : Nat)
    (o : RunOptions) {d : Nat} (hd : o.maxDepth ≤ d) (bus : Option B) (source : String) (host : σ)
    (h : ∀ program, readProgram source = .ok program →
      Unrefused (programRecord around n o bus program host)) :
    (runSource around n { o with maxDepth := d } bus source).run host =
        (runSource around n o bus source).run host ∧
      ∀ program, readProgram source = .ok program →
        programRecord around n { o with maxDepth := d } bus program host =
            programRecord around n o bus program host ∧
          programEnding around n { o with maxDepth := d } bus program host =
            (programEnding around n o bus program host).withLimit d := by
  constructor
  · cases hprogram : readProgram source with
    | error e =>
      rw [runSource_failed around n _ bus hprogram, runSource_failed around n _ bus hprogram]
    | ok program =>
      rw [runSource_run around n _ bus hprogram, runSource_run around n _ bus hprogram,
        (drive_program_withLimit around n hd (h program hprogram)).1]
      simp only [Outcome.ofEnding_withLimit]
      rfl
  · intro program hprogram
    obtain ⟨hdrive, hrecord⟩ := drive_program_withLimit around n hd (h program hprogram)
    exact ⟨hrecord, congrArg Prod.fst hdrive⟩

/-- A function that calls another one, after a call of a missing one that is caught. -/
def nestedCalls : String :=
  "func f \x7b print \"f\" \x7d\nfunc g \x7b f() \x7d\ntry \x7b h() \x7d catch $e \x7b \x7d\ng()"

def nestedCallsProgram : Block :=
  .mk ⟨1, 1⟩ [
    .define ⟨1, 1⟩ "f" [] (.mk ⟨1, 8⟩ [.print ⟨1, 10⟩ (.literal ⟨1, 16⟩ (.string "f"))]),
    .define ⟨2, 1⟩ "g" [] (.mk ⟨2, 8⟩ [.call ⟨2, 10⟩ "f" []]),
    .attempt ⟨3, 1⟩ (.mk ⟨3, 5⟩ [.call ⟨3, 7⟩ "h" []]) "e" (.mk ⟨3, 22⟩ []),
    .call ⟨4, 1⟩ "g" []]

theorem readProgram_nestedCalls : readProgram nestedCalls = .ok nestedCallsProgram := by
  cbv

/-- A limit of two is enough, and nothing changes with a limit of nine. -/
theorem runSource_limit_unreached_nestedCalls :
    let o : RunOptions := ⟨[], [], 2⟩
    let bus : Option Bus := none
    Unrefused (programRecord Surroundings.scribe 60 o bus nestedCallsProgram []) ∧
      (runSource Surroundings.scribe 60 { o with maxDepth := 9 } bus nestedCalls).run [] =
        (runSource Surroundings.scribe 60 o bus nestedCalls).run [] ∧
      programEnding Surroundings.scribe 60 { o with maxDepth := 9 } bus nestedCallsProgram [] =
        (programEnding Surroundings.scribe 60 o bus nestedCallsProgram []).withLimit 9 := by
  intro o bus
  have hfree : Unrefused (programRecord Surroundings.scribe 60 o bus nestedCallsProgram []) := by
    decide +kernel
  have h : ∀ program, readProgram nestedCalls = .ok program →
      Unrefused (programRecord Surroundings.scribe 60 o bus program []) := by
    intro program hprogram
    rw [readProgram_nestedCalls] at hprogram
    cases hprogram
    exact hfree
  obtain ⟨hsame, hall⟩ :=
    runSource_limit_unreached Surroundings.scribe 60 o (show 2 ≤ 9 by decide) bus nestedCalls [] h
  exact ⟨hfree, hsame, (hall nestedCallsProgram readProgram_nestedCalls).2⟩

end DeskScript
