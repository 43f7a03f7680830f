import DeskScript.Proofs.Context.Chronicle
import DeskScript.Proofs.Context.PrivateBus

/-!
# Cancelling a context

On the quiet host a call is suspended while it waits. The pauses of a call that nobody
cancels are the moments when it can be cut. When its context is cancelled in one of them
the call goes on, and ends at once (`Call.stage_cancelled`), with what it had said by
then; the script has no part in that. Nothing that was said is ever taken back, so this
is a first part of what the whole call says:

    w ∈ pauses n now rest → w.context.Grows (the context at the end)    (Call.grows_of_pause)

Afterwards the context is frozen: no call changes anything.
-/

namespace DeskScript

variable {B : Type}

/-! ## What was said stays -/

def Step.session : Step → Session
  | next s _ | ask _ s _ | done s _ => s

/-- The session where a machine rests. -/
def Machine.Rest.session : Machine.Rest → Session
  | asks _ s _ | done s _ | unfinished s _ => s

/-- What the script has printed is still there later. -/
def Session.Grows (s s' : Session) : Prop := s.output.toList <+: s'.output.toList

theorem Session.Grows.of_eq {s s' : Session} (h : s'.output = s.output) : s.Grows s' := by
  rw [Session.Grows, h]

namespace Machine

theorem output_ended (m : Machine) (s : Session) : (m.ended s).output = s.output := by
  unfold ended Session.without
  split
  · split <;> rfl
  · rfl

theorem step_grows (s : Session) (m : Machine) : s.Grows (step s m).session := by
  rcases step_cases s m with hfrom | ⟨command, hask⟩ | ⟨-, -, r, hdone⟩
  · cases hstep : step s m with
    | next s' m' =>
      rw [hstep] at hfrom
      obtain ⟨c', k'⟩ := m'
      obtain ⟨s₁, fs, hwrites, hputs, -⟩ := hfrom
      have hput : s'.output = s₁.output := by cases hputs <;> rfl
      have hwrite : (m.ended s).output.toList <+: s₁.output.toList := by
        cases hwrites with
        | said output outbox hgrows => exact hgrows
        | _ => exact List.prefix_refl _
      rw [output_ended, ← hput] at hwrite
      exact hwrite
    | ask command s' m' => rw [hstep] at hfrom; exact hfrom.elim
    | done s' r => rw [hstep] at hfrom; exact hfrom.elim
  · rw [hask]
    exact List.prefix_refl _
  · rw [hdone]
    exact List.prefix_refl _

theorem run_grows (n : Nat) (s : Session) (m : Machine) : s.Grows (run n s m).session := by
  induction n generalizing s m with
  | zero => exact List.prefix_refl _
  | succ n ih =>
    have hstep := step_grows s m
    simp only [run]
    cases hs : step s m with
    | next s' m' =>
      rw [hs] at hstep
      exact hstep.trans (ih s' m')
    | ask command s' m' =>
      rw [hs] at hstep
      exact hstep
    | done s' r =>
      rw [hs] at hstep
      exact hstep

end Machine

namespace Task

theorem nextHandler_grows (s : Session) (payload : Value) (faults : List Raised)
    (hs : List Handler) : s.Grows (nextHandler s payload faults hs).1 := by
  cases hs <;> exact .of_eq rfl

theorem afterRun_grows (s : Session) (r : Except Raised Flow) (j : Job) :
    s.Grows (afterRun s r j).1 := by
  cases j with
  | main => exact .of_eq rfl
  | handler inner payload rest faults =>
    exact nextHandler_grows (s.closeScope (fun _ => heldBy r) inner) payload _ rest

theorem run_grows (n : Nat) (s : Session) (t : Task) : s.Grows (run n s t).session := by
  induction n generalizing s t with
  | zero => exact List.prefix_refl _
  | succ n ih =>
    have hrun := Machine.run_grows n s t.machine
    simp only [run]
    cases hm : Machine.run n s t.machine with
    | asks command s' m =>
      rw [hm] at hrun
      exact hrun
    | unfinished s' m =>
      rw [hm] at hrun
      exact hrun
    | done s' r =>
      rw [hm] at hrun
      have hafter := hrun.trans (afterRun_grows s' r t.job)
      rcases ha : afterRun s' r t.job with ⟨s₂, t₂ | faults⟩
      · rw [ha] at hafter
        simp only [ha]
        exact hafter.trans (ih s₂ t₂)
      · rw [ha] at hafter
        simp only [ha]
        exact hafter

end Task

/-- What a context has said is still there later: its output, and the errors it recorded. -/
structure Context.Grows (c c' : Context) : Prop where
  output : c.session.output.toList <+: c'.session.output.toList
  handlerFaults : c.handlerFaults <+: c'.handlerFaults
  reports : c.reports <+: c'.reports

namespace Context

variable {c c' c'' : Context}

theorem Grows.refl (c : Context) : c.Grows c :=
  ⟨List.prefix_refl _, List.prefix_refl _, List.prefix_refl _⟩

theorem Grows.trans (h : c.Grows c') (h' : c'.Grows c'') : c.Grows c'' :=
  ⟨h.output.trans h'.output, h.handlerFaults.trans h'.handlerFaults, h.reports.trans h'.reports⟩

theorem Grows.withSession (h : c.Grows c') {s : Session} (hs : c'.session.Grows s) :
    c.Grows { c' with session := s } :=
  ⟨h.output.trans hs, h.handlerFaults, h.reports⟩

theorem Grows.record (h : c.Grows c') (faults : List Raised) : c.Grows (c'.record faults) :=
  ⟨h.output, h.handlerFaults.trans (List.prefix_append _ _),
    h.reports.trans (List.prefix_append _ _)⟩

theorem Grows.flush [Channel B] (h : c.Grows c') (bus : B) : c.Grows (c'.flush bus).2 := by
  unfold Context.flush
  split
  · exact ⟨h.output, h.handlerFaults, h.reports⟩
  · exact h

end Context

/-! ## Stages -/

namespace Call

/-- The call that goes on, if one does. -/
def Rest.call? : Rest B → Option Call
  | asks _ _ _ call | idle _ _ call | unfinished _ _ call => some call
  | ended _ _ _ => none

def Stage.call? : Stage B → Option Call
  | next _ _ call => some call
  | rest r => r.call?

/-- Only a call at work asks the host for something. -/
def Rest.AtWork : Rest B → Prop
  | asks _ _ _ call => call.phase ≠ .settling
  | _ => True

/-- What a call on `c` may come to: nothing is taken back, it serves no other receiver, and the host
is asked only by its work. -/
structure Stage.After (c : Context) (call : Call) (x : Stage B) : Prop where
  grows : c.Grows x.state.2
  serving : ∀ k ∈ x.call?, k.serving = call.serving
  atWork : ∀ r, x = .rest r → r.AtWork

section
variable {c c' : Context} {call : Call}

theorem after_next (h : c.Grows c') (bus : B) (call : Call) (phase : Phase) :
    (Stage.next bus c' { call with phase }).After c call :=
  ⟨h, fun k hk => (by rw [← Option.some.inj hk]), fun r hr => by cases hr⟩

variable [Channel B]

theorem after_endWith (h : c.Grows c') (bus : B) (call : Call) (r : CallResult) :
    (endWith bus c' call r).After c call :=
  ⟨h, fun k hk => (by cases hk), by rintro _ ⟨⟩; trivial⟩

theorem handle_after (h : c.Grows c') (bus : B) (call : Call) (e : Event) :
    (handle bus c' call e).After c call := by
  have hgrows : c'.session.Grows (Task.ofEvent c'.session e).1 := Task.nextHandler_grows _ _ _ _
  unfold handle
  split
  · exact after_endWith h bus call _
  · rcases hevent : Task.ofEvent c'.session e with ⟨s, t | faults⟩ <;> rw [hevent] at hgrows
    · exact after_next (h.withSession hgrows) bus call _
    · exact after_next ((h.withSession hgrows).record faults) bus call _

theorem Settles.after {bus : B} {x : Stage B} (h : Settles bus c call x) : x.After c call := by
  cases h with
  | @emitted e s hnext =>
    have hsame : c.session.Grows s := by
      unfold Session.nextEmitted? at hnext
      split at hnext <;> cases hnext
      exact List.prefix_refl _
    exact handle_after ((Context.Grows.refl c).withSession hsame) bus call e
  | heard bus' e => exact handle_after (.refl c) bus' call e
  | missed bus' => exact after_next (.refl c) bus' call call.phase
  | idle bus' =>
    refine ⟨.refl c, fun k hk => ?_, ?_⟩
    · rw [← Option.some.inj hk]
    · rintro _ ⟨⟩
      trivial
  | finished bus' => exact after_endWith (.refl c) bus' call _
  | cancelled bus' hcancelled => exact after_endWith (.refl c) bus' call _

theorem perform_after (n : Nat) (bus : B) (c : Context) (call : Call) (t : Task)
    {phase : Task → Phase} (hphase : ∀ t', phase t' ≠ .settling)
    {after : B → Context → List Raised → Stage B}
    (hafter : ∀ bus c' faults, c.Grows c' → (after bus c' faults).After c call) :
    (perform n bus c call t phase after).After c call := by
  have hgrows : ∀ {s}, (Task.run n c.session t).session = s → c.Grows { c with session := s } := by
    rintro _ rfl
    exact (Context.Grows.refl c).withSession (Task.run_grows n c.session t)
  unfold perform
  split
  · exact after_endWith (.refl c) bus call _
  cases hrun : Task.run n c.session t with
  | asks command s t' =>
    refine ⟨(hgrows (by rw [hrun]; rfl)).flush bus, fun k hk => ?_, ?_⟩
    · rw [← Option.some.inj hk]
    · rintro _ ⟨⟩
      exact hphase t'
  | «over» s faults => exact hafter _ _ faults ((hgrows (by rw [hrun]; rfl)).flush bus)
  | unfinished s t' =>
    refine ⟨hgrows (by rw [hrun]; rfl), fun k hk => ?_, ?_⟩
    · rw [← Option.some.inj hk]
    · rintro _ ⟨⟩
      trivial

/-- **A stage takes nothing back.** -/
theorem stage_after (n : Nat) (bus : B) (c : Context) (call : Call) :
    (stage n bus c call).After c call := by
  unfold stage
  split
  · refine perform_after n bus c call _ (by simp) fun bus c' faults hgrows => ?_
    cases faults with
    | nil => exact after_next hgrows bus call _
    | cons r rest =>
      have hlater : c.Grows { c' with reports := c'.reports ++ [.raised r] } :=
        ⟨hgrows.output, hgrows.handlerFaults, hgrows.reports.trans (List.prefix_append _ _)⟩
      exact after_endWith hlater bus call _
  · exact perform_after n bus c call _ (by simp) fun bus c' faults hgrows =>
      after_next (hgrows.record faults) bus call _
  · exact (settle_cases bus c call).after

theorem Stage.After.run {x : Stage B} (h : x.After c call) (n : Nat) :
    (Stage.rest (x.run n)).After c call := by
  induction n generalizing x with
  | zero =>
    cases x with
    | next bus c' call' => exact ⟨h.grows, h.serving, by rintro _ ⟨⟩; trivial⟩
    | rest r => exact h
  | succ n ih =>
    cases x with
    | next bus c' call' =>
      have hstage := stage_after n bus c' call'
      have hlater : (stage n bus c' call').After c call :=
        ⟨h.grows.trans hstage.grows, fun k hk => by rw [hstage.serving k hk, h.serving call' rfl],
          hstage.atWork⟩
      have hrun : (Stage.next bus c' call').run (n + 1) = (stage n bus c' call').run n := by
        simp only [Stage.run, Call.run]
      rw [hrun]
      exact ih hlater
    | rest r => exact h

theorem run_after (n : Nat) (bus : B) (c : Context) (call : Call) :
    (Stage.rest (run n bus c call)).After c call :=
  (after_next (.refl c) bus call call.phase).run n

/-- A call that begins serves no receiver. -/
theorem after_begun {first : Stage B} {bus : B}
    (h : first = start bus c ∨ ∃ e, first = dispatch bus c e) (n : Nat) :
    ∃ call : Call, call.serving = none ∧ (Stage.rest (first.run n)).After c call := by
  rcases h with rfl | ⟨e, rfl⟩
  · have hstart : (start bus c).After c ⟨.main (Task.ofProgram c.program), none⟩ := by
      unfold start
      split
      · exact after_endWith (.refl c) bus _ _
      · exact after_next (.refl c) bus ⟨.main (Task.ofProgram c.program), none⟩ _
    exact ⟨_, rfl, hstart.run n⟩
  · exact ⟨_, rfl, (handle_after (.refl c) bus ⟨.settling, none⟩ e).run n⟩

/-- **A call at work ends when it goes on in a cancelled context.** -/
theorem stage_cancelled (h : call.phase ≠ .settling) (hc : c.cancelled = true) (n : Nat)
    (bus : B) : stage n bus c call = endWith bus c call (.error .cancelled) := by
  unfold stage
  cases hphase : call.phase with
  | main t => exact if_pos hc
  | handling t => exact if_pos hc
  | settling => exact absurd hphase h

end

theorem serving_answer (c : Context) (call : Call) (reply : Reply) :
    (call.answer c reply).serving = call.serving := by
  unfold answer
  split <;> rfl

/-! ## Driven calls -/

def Ending.context : Ending B → Context
  | ended _ c _ | cutOff _ c _ | unfinished _ c => c

/-- A call that is suspended while the host executes a command. -/
structure Pause (B : Type) where
  /-- When it began. -/
  begun : Millis
  command : Command
  bus : B
  context : Context
  call : Call

/-- When the host is done. -/
def Pause.ends (w : Pause B) : Millis := w.begun + w.command.delay

/-- Only in a `wait` does the quiet host take its time. -/
theorem Pause.wait_of_lt {w : Pause B} (h : w.begun < w.ends) :
    ∃ seconds, w.command = .wait seconds := by
  unfold Pause.ends at h
  cases hcommand : w.command with
  | wait seconds => exact ⟨seconds, rfl⟩
  | _ =>
    rw [hcommand] at h
    exact absurd h (Nat.lt_irrefl _)

variable [Channel B]

/-- **A driven call takes nothing back.** -/
theorem drive_grows {σ : Type} (around : Surroundings (StateM σ)) (n known : Nat) (rest : Rest B)
    (host : σ) : rest.state.2.Grows ((drive around n known rest).run host).1.context := by
  induction n generalizing known rest host with
  | zero => cases rest <;> exact .refl _
  | succ n ih =>
    cases rest with
    | asks command bus c call =>
      rw [drive_asks]
      split
      · next reply host' _ =>
        exact (run_after n bus c (call.answer c reply)).grows.trans (ih _ _ host')
      · exact .refl c
    | idle bus c call => exact .refl c
    | ended bus c r => exact .refl c
    | unfinished bus c call => exact .refl c

/-- The pauses of a call on the quiet host that nobody cuts off, the first one first. -/
def pauses : Nat → Millis → Rest B → List (Pause B)
  | n + 1, now, .asks command bus c call =>
    ⟨now, command, bus, c, call⟩ ::
      pauses n (now + command.delay) (run n bus c (call.answer c (.ok command.defaultAnswer)))
  | _, _, _ => []

section
open Timeline (surroundings)

variable {command : Command} {bus : B} {c : Context} {call : Call} {now moment : Millis}

/-- A command is executed, and the call goes on, unless it is cut off before. -/
theorem drive_quiet (limit : Option Millis) (hlimit : ∀ l ∈ limit, now + command.delay ≤ l)
    (n known : Nat) :
    (drive (surroundings limit) (n + 1) known (.asks command bus c call)).run ⟨.quiet, now⟩ =
      (drive (surroundings limit) n c.session.output.size
        (run n bus c (call.answer c (.ok command.defaultAnswer)))).run
        ⟨.quiet, now + command.delay⟩ := by
  rw [drive_asks]
  cases limit with
  | none => rfl
  | some l =>
    have hdone : ¬ l < now + command.delay := Nat.not_lt.mpr (hlimit l rfl)
    have hexecute : ((surroundings (some l)).execute command).run
        ((tell (surroundings (some l)) known c).run ⟨.quiet, now⟩).2 =
          (some (.ok command.defaultAnswer), ⟨.quiet, now + command.delay⟩) := by
      show (if l < now + command.delay then (none, ⟨.quiet, l⟩)
        else (some (.ok command.defaultAnswer), ⟨.quiet, now + command.delay⟩) :
          Option Reply × Timeline) = _
      rw [if_neg hdone]
    rw [hexecute]

theorem drive_quiet_cut (h : moment < now + command.delay) (n known : Nat) :
    (drive (surroundings (some moment)) (n + 1) known (.asks command bus c call)).run
      ⟨.quiet, now⟩ = (.cutOff bus c call, ⟨.quiet, moment⟩) := by
  rw [drive_asks]
  have hexecute : ((surroundings (some moment)).execute command).run
      ((tell (surroundings (some moment)) known c).run ⟨.quiet, now⟩).2 =
        (none, ⟨.quiet, moment⟩) := by
    show (if moment < now + command.delay then (none, ⟨.quiet, moment⟩)
      else (some (.ok command.defaultAnswer), ⟨.quiet, now + command.delay⟩) :
        Option Reply × Timeline) = _
    rw [if_pos h]
  rw [hexecute]

end

section
open Timeline (surroundings)

variable {n : Nat} {now moment : Millis} {rest : Rest B} {w : Pause B}

theorem begun_of_pause (h : w ∈ pauses n now rest) : now ≤ w.begun := by
  induction n generalizing now rest with
  | zero => cases rest <;> cases h
  | succ n ih =>
    cases rest with
    | asks command bus c call =>
      rcases List.mem_cons.mp h with rfl | h
      · exact Nat.le_refl _
      · exact Nat.le_trans (Nat.le_add_right now command.delay) (ih h)
    | _ => cases h

/-- The call of a pause is at work, and serves what it served. -/
theorem call_of_pause {c : Context} {call : Call} (h : w ∈ pauses n now rest)
    (hrest : (Stage.rest rest).After c call) :
    w.call.serving = call.serving ∧ w.call.phase ≠ .settling := by
  induction n generalizing now rest c call with
  | zero => cases rest <;> cases h
  | succ n ih =>
    cases rest with
    | asks command bus c' call' =>
      have hserving : call'.serving = call.serving := hrest.serving call' rfl
      rcases List.mem_cons.mp h with rfl | h
      · exact ⟨hserving, hrest.atWork _ rfl⟩
      · obtain ⟨hlater, hwork⟩ := ih h (run_after n bus c' _)
        rw [hlater, serving_answer, hserving]
        exact ⟨rfl, hwork⟩
    | _ => cases h

/-- A call that nobody cuts off comes to each of its pauses. -/
theorem drive_to_pause (known : Nat) (h : w ∈ pauses n now rest) :
    ∃ n' known', (drive (surroundings none) n known rest).run ⟨.quiet, now⟩ =
      (drive (surroundings none) n' known' (.asks w.command w.bus w.context w.call)).run
        ⟨.quiet, w.begun⟩ := by
  induction n generalizing now rest known with
  | zero => cases rest <;> cases h
  | succ n ih =>
    cases rest with
    | asks command bus c call =>
      rcases List.mem_cons.mp h with rfl | h
      · exact ⟨n + 1, known, rfl⟩
      · rw [drive_quiet none (by simp)]
        exact ih _ h
    | _ => cases h

theorem grows_of_pause (known : Nat) (h : w ∈ pauses n now rest) :
    w.context.Grows ((drive (surroundings none) n known rest).run ⟨.quiet, now⟩).1.context := by
  obtain ⟨n', known', hdrive⟩ := drive_to_pause known h
  rw [hdrive]
  exact drive_grows _ n' known' (.asks w.command w.bus w.context w.call) _

/-- **In a pause the call is cut off right there.** -/
theorem drive_cut_in_pause (known : Nat) (h : w ∈ pauses n now rest) (hbegun : w.begun ≤ moment)
    (hends : moment < w.ends) :
    (drive (surroundings (some moment)) n known rest).run ⟨.quiet, now⟩ =
      (.cutOff w.bus w.context w.call, ⟨.quiet, moment⟩) := by
  induction n generalizing now rest known with
  | zero => cases rest <;> cases h
  | succ n ih =>
    cases rest with
    | asks command bus c call =>
      rcases List.mem_cons.mp h with rfl | h
      · exact drive_quiet_cut hends n known
      · -- All earlier pauses are over by the moment when this one begins.
        have hover : now + command.delay ≤ moment := (begun_of_pause h).trans hbegun
        rw [drive_quiet (some moment) (by simpa using hover)]
        exact ih _ h
    | _ => cases h

end

end Call

/-! ## Frozen contexts -/

/-- Does a call begin? -/
def Act.begins : Act → Bool
  | start | dispatch _ => true
  | _ => false

namespace Chronicle

variable [Channel B]

/-- **A cancelled context does nothing any more**: every call ends at once. -/
theorem act_cancelled (bus : B) (c : Context) (deeds : List Deed) (a : Act) :
    (⟨bus, c.cancel, none, deeds⟩ : Chronicle B).act a =
      ⟨bus, c.cancel, none,
        deeds ++ if a.begins then [.returned (.error .cancelled)] else []⟩ := by
  cases a <;> simp [act, follow, Call.start, Call.dispatch, Call.handle, Call.endWith, Call.release,
    Context.cancel, Context.handing, Act.begins]

theorem play_cancelled (bus : B) (c : Context) (deeds : List Deed) (acts : List Act) :
    (⟨bus, c.cancel, none, deeds⟩ : Chronicle B).play acts =
      ⟨bus, c.cancel, none,
        deeds ++ (acts.filter Act.begins).map fun _ => .returned (.error .cancelled)⟩ := by
  induction acts generalizing deeds with
  | nil => simp [play]
  | cons a acts ih =>
    have hplay : (⟨bus, c.cancel, none, deeds⟩ : Chronicle B).play (a :: acts) =
        ((⟨bus, c.cancel, none, deeds⟩ : Chronicle B).act a).play acts := rfl
    rw [hplay, act_cancelled, ih]
    cases hbegins : a.begins <;> simp [hbegins]

end Chronicle

/-- **Cancellation cuts a call in a wait and freezes the context.** The context is cancelled at a
moment in one of the pauses that the call has if nobody cancels it. Then the command is a `wait`,
and the call ends there and then as cancelled. In the context nothing is different from when the
pause began, and what it had said by then is a first part of what the whole call says. No later
call does anything. -/
theorem Timeline.cancelled_while_waiting [Channel B] (n : Nat) (now moment : Millis) (bus : B)
    (c : Context) {first : Call.Stage B}
    (hfirst : first = Call.start bus c ∨ ∃ e, first = Call.dispatch bus c e) {w : Call.Pause B}
    (hw : w ∈ Call.pauses n now (first.run n)) (hbegun : w.begun ≤ moment)
    (hends : moment < w.ends) :
    (∃ seconds, w.command = .wait seconds) ∧
    (∃ n' known, drive n none ⟨.quiet, now⟩ first =
      (Call.drive (surroundings none) n' known (.asks w.command w.bus w.context w.call)).run
        ⟨.quiet, w.begun⟩) ∧
    driveCancelled n moment ⟨.quiet, now⟩ first =
      (.ended w.bus w.context.cancel (.error .cancelled), ⟨.quiet, moment⟩) ∧
    w.context.Grows (drive n none ⟨.quiet, now⟩ first).1.context ∧
    ∀ acts, (⟨w.bus, w.context.cancel, none, []⟩ : Chronicle B).play acts =
      ⟨w.bus, w.context.cancel, none,
        (acts.filter Act.begins).map fun _ => .returned (.error .cancelled)⟩ := by
  refine ⟨Call.Pause.wait_of_lt (Nat.lt_of_le_of_lt hbegun hends), Call.drive_to_pause 0 hw, ?_,
    Call.grows_of_pause 0 hw, fun acts => ?_⟩
  · have hcut : drive n (some moment) ⟨.quiet, now⟩ first =
        (.cutOff w.bus w.context w.call, ⟨.quiet, moment⟩) :=
      Call.drive_cut_in_pause 0 hw hbegun hends
    obtain ⟨call, hnone, hafter⟩ := Call.after_begun hfirst n
    obtain ⟨hserving, hwork⟩ := Call.call_of_pause hw hafter
    have hstage : w.call.stage n w.bus w.context.cancel =
        .rest (.ended w.bus w.context.cancel (.error .cancelled)) := by
      rw [Call.stage_cancelled hwork rfl, Call.endWith, Call.release, hserving, hnone]
    simp only [driveCancelled, hcut, hstage, Nat.max_self]
    cases n <;> rfl
  · simpa using Chronicle.play_cancelled w.bus w.context [] acts

/-- A handler that fails, then one that waits in a `try`, twice. -/
def dozing : Block :=
  let p : Position := ⟨1, 1⟩
  let say (x : String) : Stmt := .print p (.literal p (.string x))
  let nap : Stmt := .host p .wait [.literal p (.number 2)] none
  .mk p [
    .on p "oops" (.mk p [.throw p (.literal p (.string "x"))]),
    .on p "go" (.mk p [.loop p (.literal p (.number 2)) (.mk p [
      .attempt p (.mk p [say "a", nap, say "b"]) "e" (.mk p [say "caught"])])]),
    .emit p "oops" none, .emit p "go" none]

theorem pauses_dozing :
    (Call.pauses 200 0 ((Call.start (Bus.ofCapacity 1)
      (.local_ (RunOptions.session ⟨[], [], 9⟩ 0) dozing)).run 200)).map (fun w =>
        (w.begun, w.ends, w.context.session.output.toList, w.context.handlerFaults.length)) =
      [(0, 2000, ["a"], 1), (2000, 4000, ["a", "b", "a"], 1)] := by
  decide +kernel

theorem Timeline.cancelled_while_waiting_dozing :
    let first := Call.start (Bus.ofCapacity 1) (.local_ (RunOptions.session ⟨[], [], 9⟩ 0) dozing)
    ∃ w ∈ Call.pauses 200 0 (first.run 200), w.begun ≤ 2500 ∧ 2500 < w.ends ∧
      w.context.session.output.toList = ["a", "b", "a"] ∧ w.context.handlerFaults.length = 1 ∧
      driveCancelled 200 2500 ⟨.quiet, 0⟩ first =
        (.ended w.bus w.context.cancel (.error .cancelled), ⟨.quiet, 2500⟩) ∧
      w.context.Grows (drive 200 none ⟨.quiet, 0⟩ first).1.context := by
  intro first
  have hmem : (2000, 4000, ["a", "b", "a"], 1) ∈ (Call.pauses 200 0 (first.run 200)).map (fun w =>
      (w.begun, w.ends, w.context.session.output.toList, w.context.handlerFaults.length)) := by
    rw [pauses_dozing]
    decide
  obtain ⟨w, hw, heq⟩ := List.mem_map.mp hmem
  simp only [Prod.mk.injEq] at heq
  obtain ⟨hbegun, hends, houtput, hfaults⟩ := heq
  have hle : w.begun ≤ 2500 := by rw [hbegun]; decide
  have hlt : 2500 < w.ends := by rw [hends]; decide
  obtain ⟨-, -, hcancelled, hgrows, -⟩ :=
    cancelled_while_waiting 200 0 2500 _ _ (.inl rfl) hw hle hlt
  exact ⟨w, hw, hle, hlt, houtput, hfaults, hcancelled, hgrows⟩

end DeskScript
