import DeskScript.Outcome
import DeskScript.Proofs.Session.Faults

/-!
# Calls are lives

A call does with its session what a host may do: it starts the program, lets it run,
hands it events and the replies of the surroundings, and takes what was emitted. So
every state of a call is one of a life, and what holds in all lives holds in calls.

    call.Lived L c,  where L has the lives with the code of the call        (Call.stage_lived)

What a context reports is what its life heard of, and a context that nobody cancels ends
in an error only by a fault of its program.
-/

namespace DeskScript

variable {B : Type}

/-! ## Lives with their code -/

/-- The lives of a session in which the host hands over no other code. -/
def livesOf (code : Set Block) (s : Session) : Set Life :=
  {l | ∃ moves, (∀ m ∈ moves, ∀ b ∈ m.code, b ∈ code) ∧ (Life.ofSession s).play moves = l}

section
variable {code : Set Block} {s₀ : Session} {l : Life}

theorem livesOf.move (hl : l ∈ livesOf code s₀) {m : Move} (hm : ∀ b ∈ m.code, b ∈ code) :
    l.move m ∈ livesOf code s₀ := by
  obtain ⟨moves, hmoves, rfl⟩ := hl
  refine ⟨moves ++ [m], fun m' hm' => ?_, by simp [Life.play, List.foldl_append]⟩
  rcases List.mem_append.mp hm' with h | h
  · exact hmoves m' h
  · exact List.mem_singleton.mp h ▸ hm

/-- A move that hands over nothing. -/
theorem livesOf.plain (hl : l ∈ livesOf code s₀) {m : Move} (hm : m.code = []) :
    l.move m ∈ livesOf code s₀ :=
  livesOf.move hl (by simp [hm])

theorem livesOf.partOf {natives : Natives} (hn : natives.Tame) {id maxDepth : Nat}
    (hl : l ∈ livesOf code (.initial id natives maxDepth)) : l.PartOf code := by
  obtain ⟨moves, hmoves, rfl⟩ := hl
  exact Life.play_partOf hn id maxDepth hmoves

theorem livesOf.orderly {natives : Natives} {id maxDepth : Nat}
    (hl : l ∈ livesOf code (.initial id natives maxDepth)) : l.session.Orderly := by
  obtain ⟨moves, -, rfl⟩ := hl
  exact ((Life.accounted_initial natives id maxDepth).play moves).orderly

/-- A single step is a move. -/
theorem Life.move_step {t : Task} {s : Session} {m : Machine} (hl : l.progress = .busy t)
    (hstep : Machine.step l.session t.machine = .next s m) :
    (l.move (.run 2)).session = s ∧ (l.move (.run 2)).progress = .busy { t with machine := m } := by
  simp [Life.move, hl, Task.run, Machine.run, hstep]

theorem Life.move_handler {t t' : Task} {s s' : Session} {r : Except Raised Flow}
    (hl : l.progress = .busy t) (hstep : Machine.step l.session t.machine = .done s r)
    (hafter : Task.afterRun s r t.job = (s', .busy t')) :
    (l.move (.run 2)).session = s' ∧ (l.move (.run 2)).progress = .busy t' := by
  simp [Life.move, hl, Task.run, Machine.run, hstep, hafter]

/-- What work comes to is itself a state of a life. -/
theorem livesOf.passes (hl : l ∈ livesOf code s₀) {s : Session} {t : Task} (h : l.Passes s t) :
    ∃ l' ∈ livesOf code s₀, l'.session = s ∧ l'.progress = .busy t := by
  obtain ⟨t₀, ht₀, hpasses⟩ := h
  induction hpasses with
  | start => exact ⟨l, hl, rfl, ht₀⟩
  | step _ hstep ih =>
    obtain ⟨l', hl', rfl, hprogress⟩ := ih
    exact ⟨l'.move (.run 2), livesOf.plain hl' rfl, Life.move_step hprogress hstep⟩
  | handler _ hstep hafter ih =>
    obtain ⟨l', hl', rfl, hprogress⟩ := ih
    exact ⟨l'.move (.run 2), livesOf.plain hl' rfl, Life.move_handler hprogress hstep hafter⟩

/-- Taking all that was emitted. -/
theorem livesOf.takeAll (hl : l ∈ livesOf code s₀) :
    ∃ l' ∈ livesOf code s₀, l'.session = { l.session with outbox := [] } ∧
      l'.progress = l.progress ∧ ∀ x ∈ l.reports, x ∈ l'.reports := by
  -- On the events that wait: each move takes the first of them.
  generalize hout : l.session.outbox = out
  induction out generalizing l with
  | nil =>
    refine ⟨l, hl, ?_, rfl, fun _ hx => hx⟩
    rw [← hout]
  | cons e out ih =>
    have htake : l.move .take = { l with session := { l.session with outbox := out } }.hear
        (.emitted e) := by
      simp [Life.move, Session.nextEmitted?, hout]
    have hmem := livesOf.plain (m := .take) hl rfl
    rw [htake] at hmem
    obtain ⟨l', hl', hsession, hprogress, hreports⟩ := ih hmem rfl
    exact ⟨l', hl', hsession, hprogress, fun x hx => hreports x (List.mem_append_left _ hx)⟩

end

/-! ## Contexts and calls -/

/-- `l` is the life of the session of `c`, and what `c` reported was heard in it. Nobody cancelled
the context. -/
structure Context.Follows (c : Context) (l : Life) : Prop where
  session : l.session = c.session
  reports : ∀ e ∈ c.reports, ∃ r faults, e = .raised r ∧ .over faults ∈ l.reports ∧ r ∈ faults
  faults : ∀ r ∈ c.handlerFaults, .raised r ∈ c.reports
  going : c.cancelled = false

/-- What a call works on. -/
def Call.task? (call : Call) : Option Task :=
  match call.phase with
  | .main t | .handling t => some t
  | .settling => none

/-- The call is one of the lives. -/
def Call.Lived (L : Set Life) (c : Context) (call : Call) : Prop :=
  ∃ l ∈ L, c.Follows l ∧ (∀ t ∈ call.task?, l.progress = .busy t) ∧
    ∀ t, call.phase = .main t → t.job = .main

/-- A context after its call. The error of the call is among the reports. -/
def Context.Left (L : Set Life) (c : Context) (r : CallResult) : Prop :=
  (∃ l ∈ L, c.Follows l) ∧ ∀ e, r = .error e → e ∈ c.reports

def Call.Rest.Lived (L : Set Life) : Call.Rest B → Prop
  | asks _ _ c call | idle _ c call | unfinished _ c call => call.Lived L c
  | ended _ c r => c.Left L r

def Call.Stage.Lived (L : Set Life) : Call.Stage B → Prop
  | next _ c call => call.Lived L c
  | rest r => r.Lived L

def Call.Ending.Lived (L : Set Life) : Call.Ending B → Prop
  | ended _ c r => c.Left L r
  | cutOff _ c _ | unfinished _ c => ∃ l ∈ L, c.Follows l

variable [Channel B]

theorem Task.ofEvent_over {s s' : Session} {e : Event} {faults : List Raised}
    (h : ofEvent s e = (s', .over faults)) : s' = s ∧ faults = [] := by
  unfold ofEvent nextHandler at h
  split at h
  · simp_all
  · cases h

/-- The main program stays the main program, and ends with one fault at most. -/
theorem Task.run_of_main (n : Nat) (s : Session) {t : Task} (ht : t.job = .main) :
    match run n s t with
    | .asks _ _ t' | .unfinished _ t' => t'.job = .main
    | .over _ faults => ∃ r, faults = faultOf r := by
  cases n with
  | zero => exact ht
  | succ n =>
    simp only [run]
    cases Machine.run n s t.machine with
    | asks command s' m => exact ht
    | unfinished s' m => exact ht
    | done s' r =>
      simp only [ht, afterRun]
      exact ⟨r, rfl⟩

namespace Context

variable {c : Context} {l l' : Life}

theorem Follows.later (h : c.Follows l) (hsession : l'.session = c.session)
    (hreports : ∀ x ∈ l.reports, x ∈ l'.reports) : c.Follows l' where
  session := hsession
  reports e he := by
    obtain ⟨r, faults, rfl, hfaults, hr⟩ := h.reports e he
    exact ⟨r, faults, rfl, hreports _ hfaults, hr⟩
  faults := h.faults
  going := h.going

theorem Follows.onto (h : c.Follows l) {s : Session} (hsession : l'.session = s)
    (hreports : ∀ x ∈ l.reports, x ∈ l'.reports) : { c with session := s }.Follows l' :=
  Follows.later (c := { c with session := s }) (l := { l with session := s })
    ⟨rfl, h.reports, h.faults, h.going⟩ hsession hreports

theorem Follows.record (h : c.Follows l) {faults : List Raised}
    (hfaults : .over faults ∈ l.reports) : (c.record faults).Follows l where
  session := h.session
  reports e he := by
    rcases List.mem_append.mp he with he | he
    · exact h.reports e he
    · obtain ⟨r, hr, rfl⟩ := List.mem_map.mp he
      exact ⟨r, faults, rfl, hfaults, hr⟩
  faults r hr := by
    rcases List.mem_append.mp hr with hr | hr
    · exact List.mem_append_left _ (h.faults r hr)
    · exact List.mem_append_right _ (List.mem_map_of_mem hr)
  going := h.going

theorem record_nil (c : Context) : c.record [] = c := by
  simp [Context.record]

theorem Follows.settling {L : Set Life} (h : c.Follows l) (hl : l ∈ L) (serving : Option Nat) :
    Call.Lived L c ⟨.settling, serving⟩ :=
  ⟨l, hl, h, by simp [Call.task?], by simp⟩

theorem Follows.handling {L : Set Life} (h : c.Follows l) (hl : l ∈ L) {t : Task}
    (ht : l.progress = .busy t) (serving : Option Nat) :
    Call.Lived L c ⟨.handling t, serving⟩ :=
  ⟨l, hl, h, by simpa [Call.task?] using ht, by simp⟩

theorem Follows.main {L : Set Life} (h : c.Follows l) (hl : l ∈ L) {t : Task}
    (ht : l.progress = .busy t) (hjob : t.job = .main) (serving : Option Nat) :
    Call.Lived L c ⟨.main t, serving⟩ :=
  ⟨l, hl, h, by simpa [Call.task?] using ht, by simpa using hjob⟩

theorem Follows.flush {code : Set Block} {s₀ : Session} (h : c.Follows l)
    (hl : l ∈ livesOf code s₀) (bus : B) :
    ∃ l' ∈ livesOf code s₀, (c.flush bus).2.Follows l' ∧ l'.progress = l.progress ∧
      ∀ x ∈ l.reports, x ∈ l'.reports := by
  unfold Context.flush
  split
  · obtain ⟨l', hl', hsession, hprogress, hreports⟩ := livesOf.takeAll hl
    rw [h.session] at hsession
    exact ⟨l', hl', h.onto hsession hreports, hprogress, hreports⟩
  · exact ⟨l, hl, h, rfl, fun _ hx => hx⟩

end Context

/-! ## Stages -/

namespace Call

/-- What a call that settles comes to. -/
inductive Settles (bus : B) (c : Context) (call : Call) : Stage B → Prop
  /-- An event of the script itself is handed over. -/
  | emitted {e : Event} {s : Session} : c.session.nextEmitted? = some (e, s) →
      Settles bus c call (handle bus { c with session := s } call e)
  /-- An event of the bus is handed over. -/
  | heard (bus' : B) (e : Event) : Settles bus c call (handle bus' c call e)
  /-- The context has fallen behind. -/
  | missed (bus' : B) : Settles bus c call (.next bus' c call)
  | idle (bus' : B) : Settles bus c call (.rest (.idle bus' c call))
  | finished (bus' : B) : Settles bus c call (endWith bus' c call (.ok ()))
  | cancelled (bus' : B) : c.cancelled = true →
      Settles bus c call (endWith bus' c call (.error .cancelled))

theorem hear_cases (bus : B) (c : Context) (call : Call) (receiver : Nat) {quiet : B → Stage B}
    {bus₀ : B} (hquiet : ∀ bus, Settles bus₀ c call (quiet bus)) :
    Settles bus₀ c call (hear bus c call receiver quiet) := by
  unfold hear
  split
  · exact .heard _ _
  · exact .missed _
  · exact hquiet _

theorem settled_cases (bus₀ bus : B) (c : Context) (call : Call) :
    Settles bus₀ c call (settled bus c call) := by
  unfold settled
  split
  · exact .finished bus
  · split
    · next hcancelled => exact .cancelled bus hcancelled
    · exact hear_cases bus c call _ .idle

theorem settle_cases (bus : B) (c : Context) (call : Call) :
    Settles bus c call (settle bus c call) := by
  unfold settle
  split
  · next e s hnext => exact .emitted hnext
  · split
    · exact hear_cases bus c call _ fun bus' => settled_cases bus bus' c call
    · exact settled_cases bus bus c call

section
variable {code : Set Block} {s₀ : Session} {c : Context} {call : Call} {l : Life}

theorem handle_lived (hl : l ∈ livesOf code s₀) (h : c.Follows l) (bus : B) (call : Call)
    (e : Event) : (handle bus c call e).Lived (livesOf code s₀) := by
  have hmem := livesOf.plain (m := .event e) hl rfl
  simp only [Life.move, h.session] at hmem
  rw [handle, if_neg (by simp [h.going])]
  split
  · next s t hof =>
    rw [hof] at hmem
    have hfollows : { c with session := s }.Follows ⟨s, .busy t, l.reports⟩ :=
      h.onto rfl fun _ hx => hx
    exact hfollows.handling hmem rfl _
  · next s faults hof =>
    rw [hof] at hmem
    obtain ⟨-, rfl⟩ := Task.ofEvent_over hof
    rw [Context.record_nil]
    have hfollows : { c with session := s }.Follows ⟨s, .over [], l.reports⟩ :=
      h.onto rfl fun _ hx => hx
    exact hfollows.settling hmem _

/-- While a call settles, its context and its phase stay. -/
theorem Settles.lived {bus : B} {x : Stage B} (hx : Settles bus c call x)
    (h : call.Lived (livesOf code s₀) c) : x.Lived (livesOf code s₀) := by
  obtain ⟨l, hl, hc, -⟩ := id h
  cases hx with
  | @emitted e s hnext =>
    have htake : l.move .take = { l with session := s }.hear (.emitted e) := by
      simp [Life.move, hc.session, hnext]
    have hmem := livesOf.plain (m := .take) hl rfl
    rw [htake] at hmem
    exact handle_lived hmem (hc.onto rfl fun x hx => List.mem_append_left _ hx) _ _ _
  | heard bus' e => exact handle_lived hl hc _ _ _
  | missed bus' => exact h
  | idle bus' => exact h
  | finished bus' => exact ⟨⟨l, hl, hc⟩, by simp⟩
  | cancelled bus' hcancelled => simp [hc.going] at hcancelled

theorem afterMain_lived (hl : l ∈ livesOf code s₀) (h : c.Follows l) {faults : List Raised}
    (hfaults : .over faults ∈ l.reports) (bus : B) (call : Call) :
    (afterMain bus c call faults).Lived (livesOf code s₀) := by
  cases faults with
  | nil => exact h.settling hl _
  | cons r rest =>
    refine ⟨⟨l, hl, h.session, fun e he => ?_, fun x hx => ?_, h.going⟩, ?_⟩
    · rcases List.mem_append.mp he with he | he
      · exact h.reports e he
      · exact ⟨r, _, List.mem_singleton.mp he, hfaults, List.mem_cons_self⟩
    · exact List.mem_append_left _ (h.faults x hx)
    · rintro _ ⟨⟩
      exact List.mem_append_right _ (List.mem_singleton_self _)

/-- A task of the call runs as in its life. -/
theorem perform_lived (hl : l ∈ livesOf code s₀) (h : c.Follows l) {t : Task}
    (ht : l.progress = .busy t) (n : Nat) (bus : B) (call : Call) {phase : Task → Phase}
    (hphase : ∀ c l t', l ∈ livesOf code s₀ → c.Follows l → l.progress = .busy t' →
      (t.job = .main → t'.job = .main) → Lived (livesOf code s₀) c ⟨phase t', call.serving⟩)
    {after : B → Context → List Raised → Stage B}
    (hafter : ∀ bus c l faults, l ∈ livesOf code s₀ → c.Follows l → .over faults ∈ l.reports →
      (after bus c faults).Lived (livesOf code s₀)) :
    (perform n bus c call t phase after).Lived (livesOf code s₀) := by
  have hmem := livesOf.plain (m := .run n) hl rfl
  simp only [Life.move, ht, h.session] at hmem
  have hjob := fun ht : t.job = .main => Task.run_of_main n c.session ht
  rw [perform, if_neg (by simp [h.going])]
  split
  · next command s t' hrun =>
    rw [hrun] at hmem hjob
    have hheard : { c with session := s }.Follows
        ({ l with session := s, progress := .busy t' }.hear (.asks command)) :=
      h.onto rfl fun x hx => List.mem_append_left _ hx
    obtain ⟨l', hl', hc', hprogress, -⟩ := hheard.flush hmem bus
    exact hphase _ l' t' hl' hc' hprogress hjob
  · next s faults hrun =>
    rw [hrun] at hmem
    have hheard : { c with session := s }.Follows
        ({ l with session := s, progress := .over faults }.hear (.over faults)) :=
      h.onto rfl fun x hx => List.mem_append_left _ hx
    obtain ⟨l', hl', hc', -, hreports⟩ := hheard.flush hmem bus
    refine hafter _ _ l' faults hl' hc' (hreports _ ?_)
    exact List.mem_append_right _ (List.mem_singleton_self _)
  · next s t' hrun =>
    rw [hrun] at hmem hjob
    exact hphase _ _ t' hmem (h.onto rfl fun _ hx => hx) rfl hjob

/-- **A stage of a call is part of a life.** -/
theorem stage_lived (h : call.Lived (livesOf code s₀) c) (n : Nat) (bus : B) :
    (stage n bus c call).Lived (livesOf code s₀) := by
  obtain ⟨l, hl, hc, hwork, hmain⟩ := id h
  unfold stage
  cases hphase : call.phase with
  | main t =>
    have ht : l.progress = .busy t := hwork t (by simp [task?, hphase])
    refine perform_lived hl hc ht n bus call ?_ ?_
    · exact fun c l t' hl hc ht' hjob => hc.main hl ht' (hjob (hmain t hphase)) _
    · exact fun bus c l faults hl hc hfaults => afterMain_lived hl hc hfaults bus call
  | handling t =>
    have ht : l.progress = .busy t := hwork t (by simp [task?, hphase])
    refine perform_lived hl hc ht n bus call ?_ ?_
    · exact fun c l t' hl hc ht' _ => hc.handling hl ht' _
    · exact fun bus c l faults hl hc hfaults => (hc.record hfaults).settling hl _
  | settling => exact (settle_cases bus c call).lived h

theorem run_lived (h : call.Lived (livesOf code s₀) c) (n : Nat) (bus : B) :
    (run n bus c call).Lived (livesOf code s₀) := by
  induction n generalizing bus c call with
  | zero => exact h
  | succ n ih =>
    have hstage := stage_lived h n bus
    simp only [run]
    cases hs : stage n bus c call <;> rw [hs] at hstage
    case next bus' c' call' => exact ih hstage bus'
    case rest r => exact hstage

theorem Stage.run_lived {x : Stage B} (h : x.Lived (livesOf code s₀)) (n : Nat) :
    (x.run n).Lived (livesOf code s₀) := by
  cases x with
  | next bus c call => exact Call.run_lived h n bus
  | rest r => exact h

theorem answer_lived (h : call.Lived (livesOf code s₀) c) {reply : Reply}
    (hreply : ∀ b ∈ (Move.reply reply).code, b ∈ code) :
    (call.answer c reply).Lived (livesOf code s₀) c := by
  obtain ⟨l, hl, hc, hwork, hmain⟩ := id h
  have hanswered : ∀ t, l.progress = .busy t →
      c.Follows (l.move (.reply reply)) ∧
        (l.move (.reply reply)).progress = .busy (t.answer c.session reply) := by
    intro t ht
    have hmove : l.move (.reply reply) =
        { l with progress := .busy (t.answer c.session reply) } := by
      simp [Life.move, ht, hc.session]
    rw [hmove]
    exact ⟨hc.later hc.session fun _ hx => hx, rfl⟩
  have hmem := livesOf.move hl hreply
  unfold answer
  cases hphase : call.phase with
  | main t =>
    obtain ⟨hfollows, hprogress⟩ := hanswered t (hwork t (by simp [task?, hphase]))
    exact hfollows.main hmem hprogress (hmain t hphase) _
  | handling t =>
    obtain ⟨hfollows, hprogress⟩ := hanswered t (hwork t (by simp [task?, hphase]))
    exact hfollows.handling hmem hprogress _
  | settling => exact h

end

/-! ## Driven calls -/

/-- What a started call comes to with replies of some kind. -/
inductive Comes (replies : Set Reply) (first : Stage B) : B → Context → Call → Prop
  | start {bus : B} {c : Context} {call : Call} : first = .next bus c call →
      Comes replies first bus c call
  | next {n : Nat} {bus bus' : B} {c c' : Context} {call call' : Call} :
      Comes replies first bus c call → stage n bus c call = .next bus' c' call' →
      Comes replies first bus' c' call'
  | reply {n : Nat} {bus bus' : B} {c c' : Context} {call call' : Call} {command : Command}
      {reply : Reply} : Comes replies first bus c call →
      stage n bus c call = .rest (.asks command bus' c' call') → reply ∈ replies →
      Comes replies first bus' c' (call'.answer c' reply)

variable {code : Set Block} {s₀ : Session} {replies : Set Reply}
  (hreplies : ∀ reply ∈ replies, ∀ b ∈ (Move.reply reply).code, b ∈ code)

include hreplies

theorem Comes.lived {first : Stage B} (hfirst : first.Lived (livesOf code s₀)) {bus : B}
    {c : Context} {call : Call} (h : Comes replies first bus c call) :
    call.Lived (livesOf code s₀) c := by
  induction h with
  | start heq =>
    rw [heq] at hfirst
    exact hfirst
  | @next n bus _ _ _ _ _ _ hstage ih =>
    have hnext := stage_lived ih n bus
    rw [hstage] at hnext
    exact hnext
  | @reply n bus _ _ _ _ _ _ _ _ hstage hreply ih =>
    have hasks := stage_lived ih n bus
    rw [hstage] at hasks
    exact answer_lived hasks (hreplies _ hreply)

end Call

/-- The replies that the surroundings give. -/
def Surroundings.replies {σ : Type} (around : Surroundings (StateM σ)) : Set Reply :=
  {reply | ∃ command host, ((around.execute command).run host).1 = some reply}

theorem Call.drive_asks {σ : Type} (around : Surroundings (StateM σ)) (n known : Nat)
    (command : Command) (bus : B) (c : Context) (call : Call) (host : σ) :
    (Call.drive around (n + 1) known (.asks command bus c call)).run host =
      match (around.execute command).run ((Call.tell around known c).run host).2 with
      | (some reply, host') =>
        (Call.drive around n c.session.output.size
          (Call.run n bus c (call.answer c reply))).run host'
      | (none, host') => (.cutOff bus c call, host') := by
  simp only [Call.drive, StateT.run_bind]
  change StateT.run _ _ = _
  rcases (around.execute command).run ((Call.tell around known c).run host).2 with ⟨_ | reply, host'⟩
  · rfl
  · rfl

theorem runSource_failed {σ : Type} (around : Surroundings (StateM σ)) (n : Nat) (o : RunOptions)
    (bus : Option B) {source : String} {e : ScriptError} (h : readProgram source = .error e)
    (host : σ) : (runSource around n o bus source).run host = (.failed e o.globals, host) := by
  simp only [runSource, h]
  rfl

/-- A source that can be read is driven as its program. -/
theorem runSource_run {σ : Type} (around : Surroundings (StateM σ)) (n : Nat) (o : RunOptions)
    (bus : Option B) {source : String} {program : Block} (h : readProgram source = .ok program)
    (host : σ) :
    (runSource around n o bus source).run host =
      let ending := (Call.drive around n 0 ((startProgram o 0 bus program).run n)).run host
      (.ofEnding ending.1, ending.2) := by
  simp only [runSource, h]
  rfl

/-- **A driven call ends as a life does.** -/
theorem Call.drive_lived {code : Set Block} {s₀ : Session} {σ : Type}
    (around : Surroundings (StateM σ))
    (hreplies : ∀ reply ∈ around.replies, ∀ b ∈ (Move.reply reply).code, b ∈ code) (n known : Nat)
    {rest : Call.Rest B} (h : rest.Lived (livesOf code s₀)) (host : σ) :
    ((Call.drive around n known rest).run host).1.Lived (livesOf code s₀) := by
  induction n generalizing known rest host with
  | zero =>
    cases rest with
    | ended bus c r => exact h
    | _ => exact h.imp fun l hl => ⟨hl.1, hl.2.1⟩
  | succ n ih =>
    cases rest with
    | asks command bus c call =>
      rw [Call.drive_asks]
      split
      · next reply host' hexecute =>
        have hreply := hreplies reply ⟨command, _, congrArg Prod.fst hexecute⟩
        exact ih _ (Call.run_lived (Call.answer_lived h hreply) n bus) host'
      · exact h.imp fun l hl => ⟨hl.1, hl.2.1⟩
    | ended bus c r => exact h
    | _ => exact h.imp fun l hl => ⟨hl.1, hl.2.1⟩

end DeskScript
