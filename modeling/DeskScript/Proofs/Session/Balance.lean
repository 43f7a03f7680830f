import Mathlib
import DeskScript.Proofs.Machine.Balance
import DeskScript.Proofs.Session.Life

/-!
# Lives are balanced

At every moment of every life the depth of calls is the number of functions being
executed, the running scopes are the root and those of the work going on, and all
other scopes there are were captured. Work that a host drops is never taken back:
its functions stay counted, and its scopes stay running.

    l.session.depth = l.progress.calls + callsOf (lost.flatMap Task.frames) ≤ maxDepth

(Life.calls_and_scopes_balanced). Work that is over leaves depth and running scopes
as they were.
-/

namespace DeskScript

/-! ## What goes on -/

/-- The frame that a handler's scope ends with. -/
def Job.frames : Job → List Frame
  | main => []
  | handler inner _ _ _ => [.flow (.caught inner)]

def Task.frames (t : Task) : List Frame := t.machine.stack ++ t.job.frames

/-- The scopes that a task runs in and that end with its work. -/
def Task.running (t : Task) : List ScopeId := openedBy t.frames

def Progress.frames : Progress → List Frame
  | busy t => t.frames
  | .over _ => []

/-- How many functions are being executed. -/
def Progress.calls (p : Progress) : Nat := callsOf p.frames

def Progress.running (p : Progress) : List ScopeId := openedBy p.frames

/-- Does a move start work? -/
def Move.Starts : Move → Prop
  | main _ | event _ => True
  | _ => False

/-- Does a move let work go on? -/
def Move.Continues : Move → Prop
  | run _ | reply _ => True
  | _ => False

namespace Life

/-- The work that a move drops. -/
def dropped (l : Life) : Move → List Task
  | .main _ | .event _ =>
    match l.progress with
    | .busy t => [t]
    | .over _ => []
  | _ => []

/-- All work that is dropped on the way. -/
def abandoned (l : Life) : List Move → List Task
  | [] => []
  | m :: moves => l.dropped m ++ (l.move m).abandoned moves

/-- What moves of a kind preserve, a list of them does. -/
theorem play_of_move {P : Life → Prop} {Q : Move → Prop}
    (hmove : ∀ l m, P l → Q m → P (l.move m)) {l : Life} (h : P l)
    {moves : List Move} (hm : ∀ m ∈ moves, Q m) : P (l.play moves) := by
  induction moves generalizing l with
  | nil => exact h
  | cons m moves ih =>
    obtain ⟨hm, hrest⟩ := List.forall_mem_cons.mp hm
    exact ih (hmove l m h hm) hrest

end Life

/-! ## Tasks -/

/-- The work began in `s₀`, as the `dispatch` of an event or as a program. The dispatch of an event
does not end with a collection. -/
def Progress.Settled (dispatch : Prop) (s₀ s : Session) : Progress → Prop
  | busy t => Balanced True s₀ t.frames s ∧ (dispatch ↔ t.job ≠ .main)
  | .over _ => Balanced dispatch s₀ [] s

def Task.Rest.Settled (dispatch : Prop) (s₀ : Session) : Task.Rest → Prop
  | asks _ s t | unfinished s t => Progress.Settled dispatch s₀ s (.busy t)
  | .over s faults => Progress.Settled dispatch s₀ s (.over faults)

section
variable {dispatch : Prop} {s₀ s s' : Session}

theorem Progress.Settled.balanced {p : Progress} (h : p.Settled dispatch s₀ s) :
    Balanced False s₀ p.frames s := by
  cases p with
  | busy t => exact h.1.weaken False.elim
  | «over» faults => exact h.weaken False.elim

namespace Task

theorem nextHandler_settled (hd : dispatch) (h : Balanced True s₀ [] s) (payload : Value)
    (faults : List Raised) (hs : List Handler) :
    (nextHandler s payload faults hs).2.Settled dispatch s₀ (nextHandler s payload faults hs).1 := by
  cases hs with
  | nil => exact h.weaken fun _ => trivial
  | cons x rest =>
    have hopens := Session.opens_openScope h.tidy x.scope [("event", payload)]
    refine ⟨h.open_ (f := .caught _) rfl hopens rfl h.limit rfl rfl rfl rfl, fun _ hjob => ?_,
      fun _ => hd⟩
    cases hjob

/-- The end of a run: the main program ends with a collection, a handler with its scope. -/
theorem afterRun_settled {j : Job} (h : Balanced True s₀ j.frames s) (hj : dispatch ↔ j ≠ .main)
    (r : Except Raised Flow) :
    (afterRun s r j).2.Settled dispatch s₀ (afterRun s r j).1 := by
  cases j with
  | main => exact (h.collect (s.lent ++ heldBy r)).weaken fun hd => hj.mp hd rfl
  | handler inner payload rest faults =>
    have hd : dispatch := hj.mpr (by simp)
    exact nextHandler_settled hd (h.close rfl (heldBy r)) payload _ rest

/-- What a run of the machine of a task leads to. -/
theorem machine_run {t : Task} (n : Nat) (h : Balanced True s₀ t.frames s) :
    match Machine.run n s t.machine with
    | .unfinished s' m | .asks _ s' m => Balanced True s₀ (m.stack ++ t.job.frames) s'
    | .done s' _ => Balanced True s₀ t.job.frames s' := by
  have hcourse := Machine.run_course n (.start (s := s) (m := t.machine))
  cases hrun : Machine.run n s t.machine <;> rw [hrun] at hcourse
  case done s' r =>
    obtain ⟨m', hcourse, hover⟩ := hcourse
    obtain ⟨j, hj, hb⟩ := hcourse.balanced (List.append_nil _).symm h
    rw [hover.1, List.append_nil] at hj
    rwa [← hj] at hb
  all_goals
    obtain ⟨j, hj, hb⟩ := Course.balanced hcourse (List.append_nil _).symm h
    rw [List.append_nil] at hj
    rwa [← hj] at hb

theorem run_settled {t : Task} (n : Nat) (h : Progress.Settled dispatch s₀ s (.busy t)) :
    (run n s t).Settled dispatch s₀ := by
  induction n generalizing s t with
  | zero => exact h
  | succ n ih =>
    have hrun := machine_run n h.1
    unfold run
    cases hs : Machine.run n s t.machine <;> rw [hs] at hrun
    case asks command s' m => exact ⟨hrun, h.2⟩
    case unfinished s' m => exact ⟨hrun, h.2⟩
    case done s' r =>
      have hafter := afterRun_settled hrun h.2 r
      rcases hp : afterRun s' r t.job with ⟨s'', t' | faults⟩ <;> rw [hp] at hafter
      · simp only [hp]
        exact ih hafter
      · simp only [hp]
        exact hafter

end Task

end

/-! ## Moves -/

namespace Life

/-- The work going on began in `s₀`. -/
def Settled (dispatch : Prop) (s₀ : Session) (l : Life) : Prop :=
  l.progress.Settled dispatch s₀ l.session

variable {dispatch : Prop} {s₀ : Session} {l : Life}

theorem settled_main (h : l.session.Orderly) (program : Block) :
    (l.move (.main program)).Settled False l.session :=
  ⟨.refl h, by simp [Task.ofProgram]⟩

theorem settled_event (h : l.session.Orderly) (e : Event) :
    (l.move (.event e)).Settled True l.session :=
  Task.nextHandler_settled trivial (.refl h) _ _ _

/-- A change in place of the session leaves the work settled. -/
theorem Settled.change (h : l.Settled dispatch s₀) {s : Session}
    (hs : ∀ {whole k}, Balanced whole s₀ k l.session → Balanced whole s₀ k s)
    (reports : List Report) : Settled dispatch s₀ ⟨s, l.progress, reports⟩ := by
  obtain ⟨s', p, reports'⟩ := l
  cases p with
  | busy t => exact ⟨hs h.1, h.2⟩
  | «over» faults => exact hs h

/-- **A move that starts nothing** leaves the work settled. -/
theorem Settled.move (h : l.Settled dispatch s₀) {m : Move} (hm : ¬ m.Starts) :
    (l.move m).Settled dispatch s₀ := by
  cases m with
  | main program => exact absurd trivial hm
  | event e => exact absurd trivial hm
  | run n =>
    obtain ⟨s, p, reports⟩ := l
    cases p with
    | «over» faults => exact h
    | busy t =>
      have hrun := Task.run_settled n h
      simp only [Life.move]
      cases hs : Task.run n s t <;> rw [hs] at hrun <;> exact hrun
  | reply r =>
    obtain ⟨s, p, reports⟩ := l
    cases p with
    | «over» faults => exact h
    | busy t =>
      refine ⟨?_, h.2⟩
      show Balanced True s₀ ((t.machine.answer _).stack ++ t.job.frames) s
      rw [Machine.stack_answer]
      exact h.1
  | take =>
    simp only [Life.move, Session.nextEmitted?]
    cases ho : l.session.outbox with
    | nil => exact h
    | cons e rest =>
      exact h.change (fun hb => hb.writes (g := ⟨[], fun _ => False, False⟩)
        (.said l.session.output rest (List.prefix_refl _))) _
  | define x v => exact h.change (fun hb => hb.rebind (Arena.rebinds_define _ _ x _)) _
  | hold x => exact h.change (fun hb => hb.lends _) _
  | letGo n => exact h.change (fun hb => hb.lends _) _

end Life

/-! ## Programs -/

/-- A program is on the course of its block from `s₀`, or was over when the block was, with a
collection. -/
def Progress.Runs (s₀ : Session) (m₀ : Machine) (s : Session) : Progress → Prop
  | busy t => t.job = .main ∧ Course (fun _ _ => True) [] s₀ m₀ s t.machine
  | .over _ => ∃ s₁ m₁ held, Course (fun _ _ => True) [] s₀ m₀ s₁ m₁ ∧ m₁.Over [] ∧
      s = { s₁ with scopes := s₁.scopes.collect held }

theorem Task.run_main {s₀ s : Session} {m₀ : Machine} {t : Task} (n : Nat)
    (h : Progress.Runs s₀ m₀ s (.busy t)) :
    match run n s t with
    | .asks _ s' t' | .unfinished s' t' => Progress.Runs s₀ m₀ s' (.busy t')
    | .over s' faults => Progress.Runs s₀ m₀ s' (.over faults) := by
  obtain ⟨hjob, hcourse⟩ := h
  cases n with
  | zero => exact ⟨hjob, hcourse⟩
  | succ n =>
    have hrun := Machine.run_course n hcourse
    unfold run
    cases hs : Machine.run n s t.machine <;> rw [hs] at hrun
    case asks command s₁ m => exact ⟨hjob, hrun⟩
    case unfinished s₁ m => exact ⟨hjob, hrun⟩
    case done s₁ r =>
      obtain ⟨m₁, hcourse₁, hover⟩ := hrun
      simp only [hjob, afterRun]
      exact ⟨s₁, m₁, _, hcourse₁, hover, rfl⟩

namespace Life

variable {s₀ : Session} {m₀ : Machine} {l : Life}

theorem runs_move (h : l.progress.Runs s₀ m₀ l.session) {m : Move} (hm : m.Continues) :
    (l.move m).progress.Runs s₀ m₀ (l.move m).session := by
  obtain ⟨s, p, reports⟩ := l
  cases p with
  | «over» faults =>
    cases m with
    | run n => exact h
    | reply r => exact h
    | _ => exact hm.elim
  | busy t =>
    cases m with
    | run n =>
      have hrun := Task.run_main n h
      simp only [move]
      cases hs : Task.run n s t <;> rw [hs] at hrun <;> exact hrun
    | reply r => exact ⟨h.1, .reply _ h.2⟩
    | _ => exact hm.elim

end Life

/-! ## Accounts -/

/-- What runs is the work that was dropped. -/
structure Session.Accounts (lost : List Task) (s : Session) : Prop where
  depth : s.depth = callsOf (lost.flatMap Task.frames)
  active : ∀ x, s.scopes.Active x ↔ x = Arena.root ∨ ∃ t ∈ lost, x ∈ t.running
  loose : ∀ x, s.scopes.Loose x → s.scopes.Active x

namespace Session.Accounts

variable {lost : List Task} {s₀ s : Session} {whole : Prop} {k : List Frame}

theorem depth_eq (h : s₀.Accounts lost) (hb : Balanced whole s₀ k s) :
    s.depth = callsOf k + callsOf (lost.flatMap Task.frames) := by
  rw [hb.depth, h.depth, Nat.add_comm]

theorem active_iff (h : s₀.Accounts lost) (hb : Balanced whole s₀ k s) (x : ScopeId) :
    s.scopes.Active x ↔ x = Arena.root ∨ x ∈ openedBy k ∨ ∃ t ∈ lost, x ∈ t.running := by
  rw [hb.active, h.active, or_left_comm]

theorem active_of_loose (h : s₀.Accounts lost) (hb : Balanced whole s₀ k s) (x : ScopeId)
    (hx : s.scopes.Loose x) : s.scopes.Active x :=
  (hb.active x).mpr ((hb.loose x hx).imp_right (h.loose x))

/-- Work that is dropped stays on the account. -/
theorem drop {t : Task} (h : s₀.Accounts lost) (hb : Balanced whole s₀ t.frames s) :
    s.Accounts (lost ++ [t]) where
  depth := by
    rw [h.depth_eq hb, List.flatMap_append, callsOf_append, List.flatMap_singleton, Nat.add_comm]
  active := fun x => by
    rw [h.active_iff hb]
    simp [Task.running, or_and_right, exists_or, or_comm]
  loose := h.active_of_loose hb

theorem idle (h : s₀.Accounts lost) (hb : Balanced whole s₀ [] s) : s.Accounts lost where
  depth := by rw [h.depth_eq hb, callsOf, Nat.zero_add]
  active := fun x => by
    rw [h.active_iff hb]
    simp [openedBy]
  loose := h.active_of_loose hb

end Session.Accounts

namespace Life

/-- A life with its dropped work on account. -/
def Accounted (natives : Natives) (maxDepth : Nat) (lost : List Task) (l : Life) : Prop :=
  ∃ s₀ dispatch, s₀.Accounts lost ∧ s₀.natives = natives ∧ s₀.maxDepth = maxDepth ∧
    l.Settled dispatch s₀

variable {natives : Natives} {maxDepth : Nat} {lost : List Task} {l : Life}

theorem accounted_initial (natives : Natives) (id maxDepth : Nat) :
    (ofSession (.initial id natives maxDepth)).Accounted natives maxDepth [] := by
  have hinitial : ∀ (P : Scope → Prop) (x : ScopeId),
      (∃ s, Arena.initial.scope? x = some s ∧ P s) ↔
        x = Arena.root ∧ P ⟨[], none, true, true, true⟩ := by
    intro P x
    rw [Arena.scope?_initial]
    split <;> simp [*]
  have hactive : ∀ x, Arena.initial.Active x ↔ x = Arena.root := fun x =>
    (hinitial _ x).trans (by simp)
  have horderly : (Session.initial id natives maxDepth).Orderly :=
    ⟨Arena.tidy_initial, rfl, (hactive _).mpr rfl, Nat.zero_le _⟩
  refine ⟨_, True, ⟨rfl, fun x => (hactive x).trans (by simp), fun x hx => ?_⟩, rfl, rfl,
    .refl horderly⟩
  have hloose := (hinitial _ x).mp hx
  cases hloose.2

theorem Accounted.orderly (h : l.Accounted natives maxDepth lost) : l.session.Orderly := by
  obtain ⟨s₀, dispatch, -, -, -, hs⟩ := h
  exact hs.balanced.orderly

/-- Whatever goes on can be dropped. -/
theorem Accounted.dropped (h : l.Accounted natives maxDepth lost) {m : Move} (hm : m.Starts) :
    l.session.Accounts (lost ++ l.dropped m) := by
  obtain ⟨s, p, reports⟩ := l
  obtain ⟨s₀, dispatch, haccounts, -, -, hs⟩ := h
  cases p with
  | busy t =>
    cases m with
    | main program => exact haccounts.drop hs.1
    | event e => exact haccounts.drop hs.1
    | _ => exact hm.elim
  | «over» faults =>
    cases m with
    | main program => exact (List.append_nil lost).symm ▸ haccounts.idle hs
    | event e => exact (List.append_nil lost).symm ▸ haccounts.idle hs
    | _ => exact hm.elim

theorem Accounted.move (h : l.Accounted natives maxDepth lost) (m : Move) :
    (l.move m).Accounted natives maxDepth (lost ++ l.dropped m) := by
  have horderly := h.orderly
  by_cases hm : m.Starts
  · have hdropped := h.dropped hm
    obtain ⟨s₀, dispatch, -, hnatives, hmax, hs⟩ := h
    have hb := hs.balanced
    refine ⟨l.session, ?_⟩
    cases m with
    | main program =>
      exact ⟨False, hdropped, hb.natives.trans hnatives, hb.maxDepth.trans hmax,
        settled_main horderly program⟩
    | event e =>
      exact ⟨True, hdropped, hb.natives.trans hnatives, hb.maxDepth.trans hmax,
        settled_event horderly e⟩
    | _ => exact hm.elim
  · obtain ⟨s₀, dispatch, haccounts, hnatives, hmax, hs⟩ := h
    have hnone : l.dropped m = [] := by
      cases m <;> first | rfl | exact absurd trivial hm
    rw [hnone, List.append_nil]
    exact ⟨s₀, dispatch, haccounts, hnatives, hmax, hs.move hm⟩

theorem Accounted.play (h : l.Accounted natives maxDepth lost) (moves : List Move) :
    (l.play moves).Accounted natives maxDepth (lost ++ l.abandoned moves) := by
  induction moves generalizing l lost with
  | nil => exact (List.append_nil lost).symm ▸ h
  | cons m moves ih =>
    have hrest := ih (h.move m)
    rw [List.append_assoc] at hrest
    exact hrest

/-- **Scopes and calls are balanced.** Let `l` be any state of any life, and `lost` the work that
was dropped on the way. The depth of calls is the number of functions being executed, together with
those of dropped work, and is within its limit; the running scopes are the root and those of what
goes on or was dropped; a scope that nothing captured is there only while it is running. A call is
refused exactly if it is of a function and the depth is at its limit. Whatever control does above
any frames, however it ends, and whatever event is handed over or program run to its end, the depth
and the running scopes are then what they were, and of the scopes opened meanwhile only captured
ones are left. If no function and no handler was made, as many scopes are there as before; only at
the end of a program a collection follows, which may give up some. -/
theorem calls_and_scopes_balanced (natives : Natives) (id maxDepth : Nat) (moves : List Move) :
    let start := ofSession (.initial id natives maxDepth)
    let l := start.play moves
    let lost := start.abandoned moves
    -- every moment
    l.session.depth = l.progress.calls + callsOf (lost.flatMap Task.frames) ∧
    l.session.depth ≤ maxDepth ∧
    (∀ x, l.session.scopes.Active x ↔
      x = Arena.root ∨ x ∈ l.progress.running ∨ ∃ t ∈ lost, x ∈ t.running) ∧
    (∀ x, l.session.scopes.Loose x → l.session.scopes.Active x) ∧
    -- refused calls
    (natives.Meek → ∀ t, l.progress = .busy t →
      (t.machine.Complains l.session ↔ ∃ f args,
        t.machine.call? l.session = some (.function f, args) ∧ l.session.depth = maxDepth)) ∧
    -- blocks, statements, expressions and calls
    (∀ c k s' m', Course (fun _ _ => True) k l.session ⟨c, k⟩ s' m' → m'.Over k →
      l.session.Settles s' ∧
        (l.session.MadeNothing s' → s'.scopes.live = l.session.scopes.live)) ∧
    -- events
    (∀ e rest faults, (∀ m ∈ rest, ¬ m.Starts) →
      (l.play (.event e :: rest)).progress = .over faults →
      let s' := (l.play (.event e :: rest)).session
      l.session.Settles s' ∧
        (l.session.MadeNothing s' → s'.scopes.live = l.session.scopes.live)) ∧
    -- programs
    (∀ program rest faults, (∀ m ∈ rest, m.Continues) →
      (l.play (.main program :: rest)).progress = .over faults →
      let s' := (l.play (.main program :: rest)).session
      l.session.Settles s' ∧
        ∃ s₁ m held, Course (fun _ _ => True) [] l.session (.ofBlock program Arena.root) s₁ m ∧
          m.Over [] ∧ s' = { s₁ with scopes := s₁.scopes.collect held } ∧
          (l.session.MadeNothing s₁ → s₁.scopes.live = l.session.scopes.live)) := by
  intro start l lost
  have haccounted : l.Accounted natives maxDepth lost :=
    (accounted_initial natives id maxDepth).play moves
  have horderly := haccounted.orderly
  obtain ⟨s₀, dispatch, haccounts, rfl, rfl, hs⟩ := haccounted
  have hb := hs.balanced
  refine ⟨haccounts.depth_eq hb, hb.maxDepth ▸ hb.limit, haccounts.active_iff hb,
    haccounts.active_of_loose hb, ?_, ?_, ?_, ?_⟩
  · intro hn t ht
    rw [← hb.maxDepth]
    rw [ht] at hb
    exact hb.complains_iff hn
  · intro c k s' m' hcourse hover
    exact hcourse.settles hover horderly
  · intro e rest faults hrest hover
    have hend : Settled True l.session (l.play (.event e :: rest)) :=
      play_of_move (fun _ _ h hm => h.move hm) (settled_event horderly e) hrest
    unfold Settled at hend
    rw [hover] at hend
    exact ⟨Balanced.settles hend, Balanced.live_eq hend⟩
  · intro program rest faults hrest hover
    let Runs (l' : Life) := l'.progress.Runs l.session (.ofBlock program Arena.root) l'.session
    have hstart : Runs (l.move (.main program)) := ⟨rfl, .start⟩
    have hruns : Runs (l.play (.main program :: rest)) :=
      play_of_move (P := Runs) (fun _ _ h hm => runs_move h hm) hstart hrest
    simp only [Runs] at hruns
    rw [hover] at hruns
    obtain ⟨s₁, m, held, hcourse, hdone, heq⟩ := hruns
    have hb₁ : Balanced True l.session [] s₁ := hcourse.balanced_of_over hdone horderly
    refine ⟨?_, s₁, m, held, hcourse, hdone, heq, hb₁.live_eq⟩
    rw [heq]
    exact (hb₁.collect held).settles

/-- A program whose call waits for the host, with a handler that makes the same call. -/
def waiting : List Move :=
  let call : Stmt := .call .start "f" []
  let f : Block := .mk .start [.host .start .read [.literal .start (.string "path")] none]
  let g : Block := .mk .start [.set .start "x" [] (.literal .start .null)]
  [.main (.mk .start [.define .start "f" [] f, .define .start "g" [] g,
      .on .start "go" (.mk .start [call]), call]),
    .run 20]

theorem calls_and_scopes_balanced_waiting :
    let l := (ofSession (.initial 7 Native.standard 2)).play waiting
    let l' := l.play [.event ⟨"go", .null, none⟩, .run 20, .reply (.ok .null), .run 20]
    Natives.Meek Native.standard ∧ (∃ faults, l'.progress = .over faults) ∧
      l.session.depth = 1 ∧ l.session.Settles l'.session := by
  obtain ⟨-, -, -, -, -, -, hevent, -⟩ := calls_and_scopes_balanced Native.standard 7 2 waiting
  have hsettles := hevent ⟨"go", .null, none⟩ [.run 20, .reply (.ok .null), .run 20] _
    (by simp [Move.Starts]) rfl
  exact ⟨Native.standard_meek, ⟨_, rfl⟩, rfl, hsettles.1⟩

/-- A program that makes nothing, and forgets it. -/
def forgets : List Move :=
  [.main (.mk .start [.set .start "c" [] (.literal .start .null)]), .run 20]

/-- The functions of dropped work are counted, although none is being executed: the next call is
refused. And a program that makes no function and no handler may leave fewer scopes, since it ends
with a collection. -/
theorem dropped_call_refused :
    (let l := (ofSession (.initial 7 Native.standard 1)).play (waiting ++ [.event ⟨"go", .null, none⟩])
      ∃ t, l.progress = .busy t ∧ l.progress.calls = 0 ∧ l.session.depth = 1 ∧
        t.machine.Complains l.session) ∧
    (let l := (ofSession (.initial 7 Native.standard 1)).play keepsake
      let l' := l.play forgets
      l.session.MadeNothing l'.session ∧ l.session.scopes.live = 2 ∧
        l'.session.scopes.live = 1) := by
  constructor
  · refine ⟨_, rfl, rfl, rfl, ?_⟩
    rw [Machine.complains_iff]
    exact ⟨_, _, rfl, Nat.le_refl 1⟩
  · exact ⟨⟨by cbv, by cbv⟩, by cbv, by cbv⟩

end Life

end DeskScript
