import DeskScript.Proofs.Machine.Run

/-!
# The life of a session

A session lives through moves: its host starts programs, hands it events, lets it
run for some steps, replies to its commands, takes what it emitted, defines
variables, holds functions of the script and lets go of them, in any order. Work
that goes on is dropped when other work starts. In every state of every life the
arena is well formed, and all that the script or its host refers to is there:

    life.session.scopes.WellFormed ∧ ∀ e ∈ life.mentions, e is there         (Life.wellFormed)

Giving up scopes is not observable. The life of the same session that keeps every
scope, through the same moves, is the same up to the numbers of scopes:

    ∃ ρ, Life.Matches ρ life kept                           (Life.reclaiming_unobservable)
-/

namespace DeskScript

/-- The same session, from now on with every scope kept. -/
def Session.keeping (s : Session) : Session := { s with scopes := s.scopes.keeping }

/-! ## Lives -/

/-- What the host of a session does. In the values that it hands over, functions have its own
numbers for their scopes (`Session.handles`). -/
inductive Move where
  /-- Starts a program. -/
  | main (program : Block)
  /-- Hands an event to its handlers. -/
  | event (e : Event)
  /-- Runs what is going on, until it needs the host, is over, or has used up the steps given. -/
  | run (n : Nat)
  | reply (r : Reply)
  /-- Takes the oldest emitted event. -/
  | take
  | define (x : String) (v : Value)
  /-- Reads a variable at top level, and from now on holds the functions in it. -/
  | hold (x : String)
  /-- Lets go of a function. -/
  | letGo (n : Nat)

/-- What the host hears of a session. -/
inductive Report where
  | asks (command : Command)
  | over (faults : List Raised)
  | emitted (e : Event)

structure Life where
  session : Session
  progress : Progress
  /-- What the host heard, the oldest first. -/
  reports : List Report

namespace Life

/-- The start of a life. -/
def ofSession (s : Session) : Life := ⟨s, .over [], []⟩

def hear (l : Life) (r : Report) : Life := { l with reports := l.reports ++ [r] }

def move (l : Life) : Move → Life
  | .main program => { l with progress := .busy (.ofProgram program) }
  | .event e => { l with session := (Task.ofEvent l.session e).1
                         progress := (Task.ofEvent l.session e).2 }
  | .run n =>
    match l.progress with
    | .over _ => l
    | .busy t =>
      match Task.run n l.session t with
      | .asks command s t => { l with session := s, progress := .busy t }.hear (.asks command)
      | .over s faults => { l with session := s, progress := .over faults }.hear (.over faults)
      | .unfinished s t => { l with session := s, progress := .busy t }
  | .reply r =>
    match l.progress with
    | .over _ => l
    | .busy t => { l with progress := .busy (t.answer l.session r) }
  | .take =>
    match l.session.nextEmitted? with
    | some (e, s) => { l with session := s }.hear (.emitted e)
    | none => l
  | .define x v => { l with session := l.session.defineGlobal x v }
  | .hold x => { l with session := l.session.lend x }
  | .letGo n => { l with session := l.session.takeBack n }

def play (l : Life) (moves : List Move) : Life := moves.foldl move l

end Life

/-! ## What a script refers to -/

def Control.mentions : Control → List ScopeId
  | block _ e | eval _ e | asking _ _ _ e => [e]
  | value v => v.scopes
  | flow f => f.held
  | raised _ => []
  | replied _ _ (.ok v) _ e => e :: v.scopes
  | replied _ _ (.error _) _ e => [e]

def Job.mentions : Job → List ScopeId
  | main => []
  | handler inner payload rest _ => inner :: (payload.scopes ++ rest.map (·.scope))

/-- The scopes that a task runs in, and those of the functions it holds. -/
def Task.mentions (t : Task) : List ScopeId :=
  t.machine.control.mentions ++ t.machine.stack.flatMap Frame.mentions ++ t.job.mentions

/-- All scopes referred to from outside of the arena: by what is going on, by handlers and by the
host. -/
def Life.mentions (l : Life) : List ScopeId :=
  (match l.progress with
    | .busy t => t.mentions
    | .over _ => []) ++ l.session.handlers.toList.map (·.scope) ++ l.session.lent

/-! ## Starting -/

namespace Arena

theorem scope?_initial (e : ScopeId) :
    initial.scope? e = if e = root then some ⟨[], none, true, true, true⟩ else none := by
  cases e with
  | zero => rfl
  | succ e => simp [initial, scope?, root]

theorem tidy_initial : initial.Tidy := by
  refine ⟨List.nodup_nil, fun e => ?_⟩
  cases e <;> simp [initial]

theorem sound_initial : initial.Sound [root] := by
  have hroot : ∀ {e s}, initial.scope? e = some s →
      e = root ∧ s = ⟨[], none, true, true, true⟩ := by
    intro e s hs
    rw [scope?_initial] at hs
    split at hs
    · exact ⟨‹_›, (Option.some.inj hs).symm⟩
    · cases hs
  refine
    { tidy := tidy_initial
      root := ⟨_, rfl, rfl, rfl⟩
      root_mem := List.mem_singleton_self _
      top := fun e s hs => by simp [hroot hs]
      around := fun e s hs => ⟨_, .last hs (by rw [(hroot hs).2])⟩
      outward := fun e s p hs _ hp => by
        rw [(hroot hs).2] at hp
        cases hp
      running := fun e s hs _ => by rw [(hroot hs).2]
      functions := fun e s hs b hb => by
        rw [(hroot hs).2] at hb
        cases hb
      active := fun e => ?_
      nodup := by simp
      rungs := ⟨fun s p hs hp => ?_, trivial⟩ }
  · constructor
    · rintro ⟨s, hs, -⟩
      exact List.mem_singleton.mpr (hroot hs).1
    · intro he
      exact ⟨_, by rw [scope?_initial, if_pos (List.mem_singleton.mp he)], rfl⟩
  · rw [(hroot hs).2] at hp
    cases hp

theorem mirror_initial : initial.Mirror .same initial.keeping := by
  refine ⟨⟨List.nodup_nil, tidy_initial.mem_free⟩, rfl, rfl, fun e s hs => ⟨s, hs, ?_, ?_⟩,
    fun e e' s s' _ _ heq => heq⟩
  · rw [scope?_initial] at hs
    split at hs
    · rw [← Option.some.inj hs]
      rfl
    · cases hs
  · cases s.parent <;> rfl

end Arena

theorem idle_initial {natives : Natives} (hn : natives.Blind) (id maxDepth : Nat) :
    Idle [Arena.root] .same Arena.initial.keeping (.initial id natives maxDepth)
      (Session.initial id natives maxDepth).keeping where
  twin :=
    { sound := Arena.sound_initial
      reclaims := rfl
      root_mem := List.mem_singleton_self _
      nested := trivial
      held := by simp
      blind := by simp
      natives := hn
      handlers := by simp [Session.initial]
      lent := by simp [Session.initial]
      mirror := Arena.mirror_initial }
  session := by simp [Session.keeping, Session.twin, Session.initial]

/-! ## Moving -/

/-- Two lives that are twins. -/
def Life.Alike (l l' : Life) : Prop :=
  l'.reports = l.reports ∧
    ∃ lost, Progress.Alike lost (l.session, l.progress) (l'.session, l'.progress)

theorem Control.Fits.grows {a a' : Arena} (h : a.Grows a') {ladder : List ScopeId} {c : Control}
    (hc : c.Fits a ladder) : c.Fits a' ladder := by
  cases c with
  | value v => exact fun e he => h.captured (hc e he)
  | flow f => exact fun e he => h.captured (hc e he)
  | replied pos verb reply into e =>
    exact ⟨hc.1, fun v hv e he => h.captured (hc.2 v hv e he)⟩
  | _ => exact hc

theorem Job.Fits.grows {a a' : Arena} (h : a.Grows a') {j : Job} (hj : j.Fits a) : j.Fits a' := by
  cases j with
  | main => trivial
  | handler inner payload rest faults => exact ⟨hj.1, fun x hx => h.pinned (hj.2 x hx)⟩

/-- Dropping what goes on. -/
theorem Progress.Alike.idle {lost : List ScopeId} {s s' : Session} {p p' : Progress}
    (h : Progress.Alike lost (s, p) (s', p')) : ∃ lost ρ b, Idle lost ρ b s s' := by
  cases p <;> cases p'
  case busy.busy t t' =>
    obtain ⟨ρ, b, h⟩ := h
    exact ⟨_, ρ, b, h.machine.twin.drop, h.machine.session⟩
  case over.over => exact ⟨lost, h.2⟩
  all_goals exact h.elim

theorem Task.ofProgram_alike {lost : List ScopeId} {ρ : Renaming} {b : Arena} {s s' : Session}
    (h : Idle lost ρ b s s') (program : Block) :
    Task.Alike lost ρ b s (.ofProgram program) s' (.ofProgram program) where
  machine :=
    { twin := h.twin
      fits := h.twin.root_mem
      session := h.session
      machine := by
        simp [Machine.rename, ofProgram, Machine.ofBlock, Control.rename, renameStack] }
  root_mem := h.twin.root_mem
  fits := trivial
  job := rfl

section
variable {lost : List ScopeId} {ρ : Renaming} {b : Arena} {s s' : Session} {k : List Frame}

namespace Twin

/-- The functions that the host hands over are there, and twins get the same ones. -/
theorem received (h : Twin lost ρ s b k) (v : Value) :
    v.rename (s.twin ρ b).handles = (v.rename s.handles).rename ρ ∧
      s.scopes.Holds (v.rename s.handles) := by
  refine ⟨(Value.rename_rename (s.handles_twin ρ b) v).symm, fun e he => ?_⟩
  rw [Value.scopes_rename] at he
  obtain ⟨n, -, rfl⟩ := List.mem_map.mp he
  rcases s.mem_handles n with hroot | hlent
  · rw [hroot]
    exact h.captured_root
  · exact h.lent _ hlent

theorem defineGlobal (h : Twin lost ρ s b k) (x : String) (v : Value) :
    ∃ c, (s.twin ρ b).defineGlobal x v = (s.defineGlobal x v).twin ρ c ∧
      Twin lost ρ (s.defineGlobal x v) c k := by
  obtain ⟨r, hr, -⟩ := h.sound.root
  obtain ⟨hsame, hholds⟩ := h.received v
  have hdefine := h.define hr x hholds
  rw [ρ.apply_root, ← hsame] at hdefine
  exact ⟨_, rfl, hdefine⟩

theorem lend (h : Twin lost ρ s b k) (x : String) :
    (s.twin ρ b).lend x = (s.lend x).twin ρ b ∧ Twin lost ρ (s.lend x) b k := by
  have hget := h.get? (List.mem_append_right _ h.root_mem) x
  rw [ρ.apply_root] at hget
  refine ⟨?_, h.quiet rfl rfl rfl fun e he => ?_⟩
  · simp only [Session.lend, Session.global?, Session.twin, hget]
    cases s.scopes.get? Arena.root x <;> simp [Value.scopes_rename]
  · rcases List.mem_append.mp he with he | he
    · exact h.lent e he
    · obtain ⟨v, hv, he⟩ := List.mem_flatMap.mp he
      exact h.get?_some (Option.mem_toList.mp hv) e he

theorem takeBack (h : Twin lost ρ s b k) (n : Nat) :
    (s.twin ρ b).takeBack n = (s.takeBack n).twin ρ b ∧ Twin lost ρ (s.takeBack n) b k := by
  refine ⟨?_, h.quiet rfl rfl rfl fun e he => ?_⟩
  · simp [Session.takeBack, Session.twin, List.map_set, List.map_tail]
  · rcases List.mem_or_eq_of_mem_set (List.mem_of_mem_tail he) with he | rfl
    · rcases List.mem_cons.mp he with rfl | he
      · exact h.captured_root
      · exact h.lent e he
    · exact h.captured_root

end Twin

theorem Machine.answer_alike {t : Session} {m n : Machine}
    (h : DeskScript.Alike lost ρ b s m t n) (r : Reply) :
    DeskScript.Alike lost ρ b s (m.answer (r.map (Value.rename s.handles))) t
      (n.answer (r.map (Value.rename t.handles))) := by
  obtain ⟨htwin, hfits, rfl, rfl⟩ := h
  obtain ⟨c, k⟩ := m
  cases c with
  | asking pos command into scope =>
    cases r with
    | error reason => exact ⟨htwin, ⟨hfits, nofun⟩, rfl, rfl⟩
    | ok v =>
      obtain ⟨hsame, hholds⟩ := htwin.received v
      refine ⟨htwin, ⟨hfits, fun w hw => Except.ok.inj hw ▸ hholds⟩, rfl, ?_⟩
      simp only [Except.map, hsame]
      rfl
  | _ => exact ⟨htwin, hfits, rfl, rfl⟩

/-- A change to the session that leaves its scopes in place can be made while work goes on. -/
theorem Progress.Alike.change {p p' : Progress} (h : Progress.Alike lost (s, p) (s', p'))
    (f : Session → Session) (hgrows : s.scopes.Grows (f s).scopes)
    (hf : ∀ base ρ b k, Twin base ρ s b k → ∃ c, f (s.twin ρ b) = (f s).twin ρ c ∧
      Twin base ρ (f s) c k) : Progress.Alike lost (f s, p) (f s', p') := by
  cases p <;> cases p'
  case busy.busy t t' =>
    obtain ⟨ρ, b, ⟨htwin, hfits, rfl, hmachine⟩, hroot, hjob, hrename⟩ := h
    obtain ⟨c, heq, htwin'⟩ := hf _ _ _ _ htwin
    exact ⟨ρ, c, ⟨htwin', hfits.grows hgrows, heq, hmachine⟩, hroot, hjob.grows hgrows, hrename⟩
  case over.over =>
    obtain ⟨rfl, ρ, b, htwin, rfl⟩ := h
    obtain ⟨c, heq, htwin'⟩ := hf _ _ _ _ htwin
    exact ⟨rfl, ρ, c, htwin', heq⟩
  all_goals exact h.elim

end

namespace Life

/-- **One move of twins** leads to twins. -/
theorem move_alike {l l' : Life} (h : l.Alike l') (m : Move) :
    (l.move m).Alike (l'.move m) := by
  obtain ⟨s, p, reports⟩ := l
  obtain ⟨s', p', reports'⟩ := l'
  obtain ⟨hreports, lost, h⟩ := h
  obtain rfl : reports' = reports := hreports
  cases m with
  | main program =>
    obtain ⟨lost', ρ, b, hidle⟩ := h.idle
    exact ⟨rfl, lost', ρ, b, Task.ofProgram_alike hidle program⟩
  | event e =>
    obtain ⟨lost', ρ, b, htwin, rfl⟩ := h.idle
    exact ⟨rfl, lost', Task.ofEvent_alike htwin e⟩
  | run n =>
    cases p <;> cases p'
    case busy.busy t t' =>
      obtain ⟨ρ, b, h⟩ := h
      have hrun := Task.run_alike n h
      simp only [move]
      cases hs : Task.run n s t <;> cases ht : Task.run n s' t' <;> rw [hs, ht] at hrun
      case asks.asks =>
        obtain ⟨rfl, hrun⟩ := hrun
        exact ⟨rfl, lost, hrun⟩
      case over.over =>
        obtain rfl := hrun.1
        exact ⟨rfl, lost, hrun⟩
      case unfinished.unfinished => exact ⟨rfl, lost, hrun⟩
      all_goals exact hrun.elim
    case over.over => exact ⟨rfl, lost, h⟩
    all_goals exact h.elim
  | reply r =>
    cases p <;> cases p'
    case busy.busy t t' =>
      obtain ⟨ρ, b, hmachine, hroot, hfits, hjob⟩ := h
      exact ⟨rfl, lost, ρ, b, Machine.answer_alike hmachine r, hroot, hfits, hjob⟩
    case over.over => exact ⟨rfl, lost, h⟩
    all_goals exact h.elim
  | take =>
    have houtbox : s'.outbox = s.outbox := by
      obtain ⟨-, ρ, b, -, rfl⟩ := h.idle
      rfl
    simp only [move, Session.nextEmitted?, houtbox]
    cases s.outbox with
    | nil => exact ⟨rfl, lost, h⟩
    | cons e rest =>
      exact ⟨rfl, lost, h.change (fun s => { s with outbox := rest }) (.refl _)
        fun base ρ b k htwin => ⟨b, rfl, htwin.quiet rfl rfl rfl htwin.lent⟩⟩
  | define x v =>
    exact ⟨rfl, lost, h.change (fun s => s.defineGlobal x v) (Arena.grows_define _ _ _ _)
      fun base ρ b k htwin => htwin.defineGlobal x v⟩
  | hold x =>
    exact ⟨rfl, lost, h.change (fun s => s.lend x) (.refl _)
      fun base ρ b k htwin => ⟨b, htwin.lend x⟩⟩
  | letGo n =>
    exact ⟨rfl, lost, h.change (fun s => s.takeBack n) (.refl _)
      fun base ρ b k htwin => ⟨b, htwin.takeBack n⟩⟩

theorem play_alike {l l' : Life} (h : l.Alike l') (moves : List Move) :
    (l.play moves).Alike (l'.play moves) := by
  induction moves generalizing l l' with
  | nil => exact h
  | cons m moves ih => exact ih (move_alike h m)

/-- Any life that starts with an empty session has a twin that keeps every scope. -/
theorem play_initial_alike {natives : Natives} (hn : natives.Blind) (id maxDepth : Nat)
    (moves : List Move) : ((ofSession (.initial id natives maxDepth)).play moves).Alike
      ((ofSession (Session.initial id natives maxDepth).keeping).play moves) := by
  have hstart : (ofSession (.initial id natives maxDepth)).Alike
      (ofSession (Session.initial id natives maxDepth).keeping) :=
    ⟨rfl, [Arena.root], rfl, .same, _, idle_initial hn id maxDepth⟩
  exact play_alike hstart moves

end Life

/-! ## References -/

section
variable {lost : List ScopeId} {ρ : Renaming} {b : Arena} {s s' : Session}

theorem Control.Fits.mentions {base : List ScopeId} {k : List Frame} (h : Steady base s k)
    {c : Control} (hc : c.Fits s.scopes (openedBy k ++ base)) :
    ∀ e ∈ c.mentions, ∃ u, s.scopes.scope? e = some u := by
  have hin : ∀ {x}, x ∈ openedBy k ++ base → ∀ e ∈ [x], ∃ u, s.scopes.scope? e = some u := by
    intro x hx e he
    rw [List.mem_singleton.mp he]
    exact h.scope hx
  cases c with
  | block body x => exact hin hc
  | eval e x => exact hin hc
  | asking pos command into x => exact hin hc
  | value v => exact fun e he => (hc e he).imp fun _ hu => hu.1
  | flow f => exact fun e he => (hc e he).imp fun _ hu => hu.1
  | raised r => exact fun e he => by cases he
  | replied pos verb reply into x =>
    cases reply with
    | error reason => exact hin hc.1
    | ok v =>
      exact List.forall_mem_cons.mpr ⟨h.scope hc.1, fun e he => (hc.2 v rfl e he).imp
        fun _ hu => hu.1⟩

theorem Job.Fits.mentions {j : Job} {k : List Frame} (h : Steady (j.base lost) s k)
    (hj : j.Fits s.scopes) : ∀ e ∈ j.mentions, ∃ u, s.scopes.scope? e = some u := by
  cases j with
  | main => exact fun e he => by cases he
  | handler inner payload rest faults =>
    have hinner := h.scope (List.mem_append_right _ List.mem_cons_self)
    refine List.forall_mem_cons.mpr ⟨hinner, fun e he => ?_⟩
    rw [hj.1, List.nil_append] at he
    obtain ⟨x, hx, rfl⟩ := List.mem_map.mp he
    exact (hj.2 x hx).imp fun _ hu => hu.1

theorem Task.Alike.mentions {t t' : Task} (h : Task.Alike lost ρ b s t s' t') :
    ∀ e ∈ t.mentions, ∃ u, s.scopes.scope? e = some u := by
  have hsteady := h.machine.twin.toSteady
  intro e he
  rcases List.mem_append.mp he with he | he
  · rcases List.mem_append.mp he with he | he
    · exact Control.Fits.mentions hsteady h.machine.fits e he
    · exact hsteady.mentions he
  · exact Job.Fits.mentions hsteady h.fits e he

theorem Life.Alike.mentions {l l' : Life} (h : l.Alike l') :
    ∀ e ∈ l.mentions, ∃ u, l.session.scopes.scope? e = some u := by
  obtain ⟨s, p, reports⟩ := l
  obtain ⟨s', p', reports'⟩ := l'
  obtain ⟨-, lost, h⟩ := h
  obtain ⟨lost', ρ, b, htwin, -⟩ := h.idle
  intro e he
  rcases List.mem_append.mp he with he | he
  · rcases List.mem_append.mp he with he | he
    · cases p <;> cases p'
      case busy.busy t t' =>
        obtain ⟨ρ, b, h⟩ := h
        exact h.mentions e he
      case over.over => cases he
      all_goals exact h.elim
    · obtain ⟨x, hx, rfl⟩ := List.mem_map.mp he
      exact (htwin.handlers x (Array.mem_toList_iff.mp hx)).imp fun _ hu => hu.1
  · exact (htwin.lent e he).imp fun _ hu => hu.1

end

/-! ## Every life -/

namespace Arena

/-- What the operations on an arena rely on. -/
structure WellFormed (a : Arena) : Prop where
  /-- Slot 0 has the root. -/
  root : ∃ s, a.scope? root = some s ∧ s.parent = none
  parent : ∀ e s, a.scope? e = some s → e ≠ Arena.root →
    ∃ p t, s.parent = some p ∧ a.scope? p = some t
  /-- The way outwards has no cycle and ends in the root. -/
  outwards : ∀ e s, a.scope? e = some s →
    ∃ l, a.Around e l ∧ l.Nodup ∧ l.getLast? = some Arena.root
  free_nodup : a.free.Nodup
  /-- The free slots are the empty ones. -/
  mem_free : ∀ e : ScopeId, e ∈ a.free ↔ a.slots[e]? = some none
  captured : ∀ e l, a.Captured e → a.Around e l → ∀ x ∈ l, a.Captured x
  functions : ∀ e s, a.scope? e = some s → ∀ b ∈ s.bindings, ∀ f ∈ b.2.scopes,
    ∃ t, a.scope? f = some t

theorem Sound.toWellFormed {a : Arena} {ladder : List ScopeId} (h : a.Sound ladder) :
    a.WellFormed where
  root := by
    obtain ⟨r, hr, -⟩ := h.root
    exact ⟨r, hr, (h.top _ r hr).mpr rfl⟩
  parent := by
    intro e s hs hne
    cases hp : s.parent with
    | none => exact absurd ((h.top e s hs).mp hp) hne
    | some p =>
      obtain ⟨t, ht⟩ := h.parent_scope hs hp
      exact ⟨p, t, rfl, ht⟩
  outwards := by
    intro e s hs
    obtain ⟨l, hl⟩ := h.around e s hs
    obtain ⟨r, t, hlast, ht, hp⟩ := hl.getLast?
    exact ⟨l, hl, hl.nodup, by rw [hlast, (h.top r t ht).mp hp]⟩
  free_nodup := h.tidy.nodup
  mem_free := h.tidy.mem_free
  captured := fun e l hc hl => (hl.pairwise_captured h.outward).2 hc
  functions := by
    intro e s hs b hb f hf
    exact (h.functions e s hs b hb f hf).imp fun _ ht => ht.1

end Arena

namespace Life

/-- What the host can see is the same in both lives, and all that the scripts refer to is the same
up to the numbers that `ρ` gives to scopes. -/
structure Matches (ρ : Renaming) (life kept : Life) : Prop where
  reports : kept.reports = life.reports
  output : kept.session.output = life.session.output
  outbox : kept.session.outbox = life.session.outbox
  depth : kept.session.depth = life.session.depth
  made : kept.session.made = life.session.made
  globals : kept.session.globals = Table.mapValues (Value.rename ρ) life.session.globals
  handlers : kept.session.handlers = life.session.handlers.map (Handler.rename ρ)
  lent : kept.session.lent = life.session.lent.map ρ
  progress : kept.progress = life.progress.rename ρ
  /-- Scopes stay apart and have the same content; `kept` has never emptied a slot. -/
  scopes : life.session.scopes.Mirror ρ kept.session.scopes
  /-- No reference leads to an empty slot. -/
  there : ∀ e ∈ life.mentions, ∃ s, life.session.scopes.scope? e = some s

theorem Alike.twin {l l' : Life} (h : l.Alike l') :
    ∃ lost ρ b, Idle lost ρ b l.session l'.session ∧ l'.progress = l.progress.rename ρ := by
  obtain ⟨s, p, reports⟩ := l
  obtain ⟨s', p', reports'⟩ := l'
  obtain ⟨-, lost, h⟩ := h
  cases p <;> cases p'
  case busy.busy t t' =>
    obtain ⟨ρ, b, h⟩ := h
    refine ⟨_, ρ, b, ⟨h.machine.twin.drop, h.machine.session⟩, ?_⟩
    show Progress.busy ⟨t'.machine, t'.job⟩ = .busy ⟨t.machine.rename ρ, t.job.rename ρ⟩
    rw [h.machine.machine, h.job]
  case over.over =>
    obtain ⟨rfl, ρ, b, hidle⟩ := h
    exact ⟨lost, ρ, b, hidle, rfl⟩
  all_goals exact h.elim

theorem Alike.arena {l l' : Life} (h : l.Alike l') : l.session.scopes.WellFormed := by
  obtain ⟨lost, ρ, b, hidle, -⟩ := h.twin
  exact hidle.twin.sound.toWellFormed

/-- **In every state of every life the arena is well formed**, and every scope is there that
something going on, a handler, or a function held by what goes on or by the host refers to. -/
theorem wellFormed {natives : Natives} (hn : natives.Blind) (id maxDepth : Nat)
    (moves : List Move) :
    let life := (ofSession (.initial id natives maxDepth)).play moves
    life.session.scopes.WellFormed ∧
      ∀ e ∈ life.mentions, ∃ s, life.session.scopes.scope? e = some s := by
  have h := play_initial_alike hn id maxDepth moves
  exact ⟨h.arena, h.mentions⟩

/-- A program that keeps a function made in a call. -/
def keepsake : List Move :=
  let make : Block := .mk .start
    [.define .start "g" [] (.mk .start []), .return_ .start (some (.var .start "g"))]
  [.main (.mk .start [.define .start "f" [] make, .set .start "c" [] (.call .start "f" [])]),
    .run 20]

/-- The host takes hold of the function, and the script has it no more. -/
def entrusted : List Move := keepsake ++ [.hold "c", .define "c" .null]

/-- Its scope stays through collections as long as the host holds it. -/
example :
    let live (moves : List Move) :=
      ((ofSession (.initial 7 Native.standard 2)).play moves).session.scopes.live
    let collection : List Move := [.main (.mk .start []), .run 9]
    live (entrusted ++ collection) = 2 ∧ live (entrusted ++ .letGo 1 :: collection) = 1 := by
  constructor <;> cbv

/-- A life with all kinds of moves: a loop whose rounds make functions, a handler in a round, and an
answer of the host that is a function which only the host holds. -/
def workday : List Move :=
  let body : Block := .mk .start
    [.define .start "f" [] (.mk .start [.return_ .start (some (.var .start "i"))]),
      .on .start "tick" (.mk .start [.call .start "f" []]),
      .host .start .read [.literal .start (.string "path")] (some "g")]
  entrusted ++
    [.main (.mk .start [.loop .start (.literal .start (.number 3)) body]), .run 40,
      .reply (.ok (.function ⟨.supplied "g", "g", [], .mk .start [], 1⟩)), .run 9, .letGo 1,
      .event ⟨"tick", .null, none⟩, .run 40, .take]

theorem wellFormed_workday :
    let life := (ofSession (.initial 7 Native.standard 256)).play workday
    Natives.Blind Native.standard ∧ life.session.scopes.WellFormed ∧
      ∀ e ∈ life.mentions, ∃ s, life.session.scopes.scope? e = some s :=
  ⟨Native.standard_blind, wellFormed Native.standard_blind 7 256 workday⟩

/-- **Giving up scopes is not observable.** The same life with every scope kept gives the host the
same reports, output and events, and does the same at every step, up to the numbers of scopes. -/
theorem reclaiming_unobservable {natives : Natives} (hn : natives.Blind) (id maxDepth : Nat)
    (moves : List Move) :
    ∃ ρ, Matches ρ ((ofSession (.initial id natives maxDepth)).play moves)
      ((ofSession (Session.initial id natives maxDepth).keeping).play moves) := by
  have h := play_initial_alike hn id maxDepth moves
  obtain ⟨lost, ρ, b, ⟨htwin, hsession⟩, hprogress⟩ := h.twin
  obtain ⟨r, hr, -⟩ := htwin.sound.root
  exact ⟨ρ,
    { reports := h.1
      output := by rw [hsession]; rfl
      outbox := by rw [hsession]; rfl
      depth := by rw [hsession]; rfl
      made := by rw [hsession]; rfl
      globals := by
        rw [hsession]
        exact htwin.mirror.bindings_root hr
      handlers := by rw [hsession]; rfl
      lent := by rw [hsession]; rfl
      progress := hprogress
      scopes := by
        rw [hsession]
        exact htwin.mirror
      there := h.mentions }⟩

theorem reclaiming_unobservable_workday :
    Natives.Blind Native.standard ∧
      ∃ ρ, Matches ρ ((ofSession (.initial 7 Native.standard 2)).play workday)
        ((ofSession (Session.initial 7 Native.standard 2).keeping).play workday) :=
  ⟨Native.standard_blind, reclaiming_unobservable Native.standard_blind 7 2 workday⟩

end Life

end DeskScript
