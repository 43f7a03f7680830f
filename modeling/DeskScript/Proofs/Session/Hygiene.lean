import DeskScript.Proofs.Machine.Hygiene
import DeskScript.Proofs.Session.Balance

/-!
# Names in a life

A block binds new names in its own scope only, whatever it calls and however it ends
(`Life.names_bound_in_place`). So the handlers of an event bind no variable at top
level, and over a whole life the list of variables at top level only grows at its
end:

    l.session.scopes.names root <+: (l.play moves).session.scopes.names root
-/

namespace DeskScript

/-! ## Tasks -/

/-- The scope of the block that a job runs. -/
def Job.scope : Job → ScopeId
  | main => Arena.root
  | handler inner _ _ _ => inner

/-- All that a task does is in the scope of its block or in scopes that it opened. -/
def Task.Placed (t : Task) : Prop := Within t.job.scope t.machine.stack t.machine.control

def Progress.Placed : Progress → Prop
  | busy t => t.Placed
  | .over _ => True

namespace Task

theorem ofBlock_placed (b : Block) (j : Job) : Placed ⟨.ofBlock b j.scope, j⟩ := by
  refine ⟨trivial, fun y hy => ?_⟩
  rw [← Option.some.inj hy]
  exact List.mem_singleton_self _

section
variable {W : List ScopeId} {dispatch : Prop} {s₀ s : Session}

/-- The machine of a task names something at top level only for the main program. -/
theorem course_placed {t : Task} {s' : Session} {m' : Machine} (h : Balanced True s₀ t.frames s)
    (hp : t.Placed) (hW : t.job = .main → Arena.root ∈ W)
    (hcourse : Course (fun _ _ => True) [] s t.machine s' m') :
    Placed ⟨m', t.job⟩ ∧ Arena.Gains W Arena.root s.scopes s'.scopes := by
  have happart : ∀ x ∈ openedBy t.frames, x ≠ Arena.root := by
    rintro x hx rfl
    exact h.apart _ hx h.root
  have hnot : Arena.root ∉ openedBy t.machine.stack := fun hmem =>
    happart _ (by rw [frames, openedBy_append]; exact List.mem_append_left _ hmem) rfl
  have hjob : Arena.root ∈ [t.job.scope] → Arena.root ∈ W := by
    intro hmem
    cases hj : t.job with
    | main => exact hW hj
    | handler inner payload rest faults =>
      rw [hj] at hmem
      refine absurd (List.mem_singleton.mp hmem).symm (happart inner ?_)
      rw [frames, openedBy_append, hj]
      exact List.mem_append_right _ List.mem_cons_self
  have hkept := hcourse.keeps (List.append_nil _).symm h h.root
  obtain ⟨j, hj, hw, -, hgains⟩ := hkept.within (List.append_nil _).symm h hp hnot
  rw [List.append_nil] at hj
  refine ⟨?_, hgains.mono hjob⟩
  show Within t.job.scope m'.stack m'.control
  rwa [hj]

theorem machine_placed {t : Task} (n : Nat) (h : Balanced True s₀ t.frames s) (hp : t.Placed)
    (hW : t.job = .main → Arena.root ∈ W) :
    match Machine.run n s t.machine with
    | .unfinished s' m | .asks _ s' m =>
      Placed ⟨m, t.job⟩ ∧ Arena.Gains W Arena.root s.scopes s'.scopes
    | .done s' _ => Arena.Gains W Arena.root s.scopes s'.scopes := by
  have hcourse := Machine.run_course n (.start (s := s) (m := t.machine))
  cases hrun : Machine.run n s t.machine <;> rw [hrun] at hcourse
  case asks command s' m => exact course_placed h hp hW hcourse
  case unfinished s' m => exact course_placed h hp hW hcourse
  case done s' r =>
    obtain ⟨m', hcourse, -⟩ := hcourse
    exact (course_placed h hp hW hcourse).2

theorem nextHandler_placed (h : Balanced True s₀ [] s) (payload : Value) (faults : List Raised)
    (hs : List Handler) :
    (nextHandler s payload faults hs).2.Placed ∧
      (nextHandler s payload faults hs).1.scopes.names Arena.root = s.scopes.names Arena.root := by
  cases hs with
  | nil => exact ⟨trivial, rfl⟩
  | cons x rest =>
    exact ⟨ofBlock_placed x.body (.handler _ payload rest faults),
      Session.names_openScope h.tidy x.scope _ h.orderly.root.there⟩

theorem afterRun_placed {j : Job} (h : Balanced True s₀ j.frames s) (r : Except Raised Flow) :
    (afterRun s r j).2.Placed ∧
      (afterRun s r j).1.scopes.names Arena.root = s.scopes.names Arena.root := by
  cases j with
  | main =>
    have hroot := (Arena.active_collect h.reclaims (s.lent ++ heldBy r)).mpr h.orderly.root
    exact ⟨trivial, (Arena.shrinks_collect h.reclaims _).names hroot.there⟩
  | handler inner payload rest faults =>
    have hclosed := h.close (e := inner) rfl (heldBy r)
    obtain ⟨hplaced, hnames⟩ := nextHandler_placed hclosed payload (faults ++ faultOf r) rest
    refine ⟨hplaced, hnames.trans ?_⟩
    exact (Arena.shrinks_release h.reclaims _ inner).names hclosed.orderly.root.there

/-- Where a task comes to rest, the variables at top level that it had at `s` have others at their
end, if the root is in `W`. -/
def Rest.Placed (W : List ScopeId) (s : Session) : Task.Rest → Prop
  | asks _ s' t | unfinished s' t =>
    t.Placed ∧ Arena.Gains W Arena.root s.scopes s'.scopes
  | .over s' _ => Arena.Gains W Arena.root s.scopes s'.scopes

theorem run_placed {t : Task} (n : Nat) (h : Progress.Settled dispatch s₀ s (.busy t))
    (hp : t.Placed) (hW : ¬ dispatch → Arena.root ∈ W) : (run n s t).Placed W s := by
  induction n generalizing s t with
  | zero => exact ⟨hp, .of_eq rfl⟩
  | succ n ih =>
    have hmain : t.job = .main → Arena.root ∈ W := fun hjob => hW fun hd => h.2.mp hd hjob
    have hsettled := machine_run n h.1
    have hplaced := machine_placed n h.1 hp hmain
    unfold run
    cases hs : Machine.run n s t.machine <;> rw [hs] at hsettled hplaced
    case asks command s' m => exact hplaced
    case unfinished s' m => exact hplaced
    case done s' r =>
      have hafter := afterRun_settled hsettled h.2 r
      obtain ⟨hnext, hnames⟩ := afterRun_placed hsettled r
      rcases ho : afterRun s' r t.job with ⟨s'', t' | faults⟩ <;> rw [ho] at hafter hnext hnames
      · simp only [ho]
        have hrest := ih hafter hnext
        have hgains := hplaced.trans (.of_eq hnames)
        cases hrun : run n s'' t' <;> rw [hrun] at hrest
        case asks => exact ⟨hrest.1, hgains.trans hrest.2⟩
        case unfinished => exact ⟨hrest.1, hgains.trans hrest.2⟩
        case «over» => exact hgains.trans hrest
      · simp only [ho]
        exact hplaced.trans (.of_eq hnames)

end

end Task

/-! ## Moves -/

/-- Does the host bind a variable at top level? -/
def Move.Defines : Move → Prop
  | define _ _ => True
  | _ => False

namespace Life

variable {W : List ScopeId} {dispatch : Prop} {s₀ : Session} {l : Life}

/-- A move that starts nothing names something at top level only for the main program, or if the
host does. -/
theorem Settled.move_placed (h : l.Settled dispatch s₀) (hp : l.progress.Placed) {m : Move}
    (hm : ¬ m.Starts) (hW : ¬ dispatch ∨ m.Defines → Arena.root ∈ W) :
    (l.move m).progress.Placed ∧
      Arena.Gains W Arena.root l.session.scopes (l.move m).session.scopes := by
  obtain ⟨s, p, reports⟩ := l
  cases m with
  | main program => exact absurd trivial hm
  | event e => exact absurd trivial hm
  | run n =>
    cases p with
    | «over» faults => exact ⟨hp, .of_eq rfl⟩
    | busy t =>
      have hrun := Task.run_placed n h hp fun hd => hW (Or.inl hd)
      simp only [Life.move]
      cases hs : Task.run n s t <;> rw [hs] at hrun
      case «over» => exact ⟨trivial, hrun⟩
      all_goals exact hrun
  | reply r =>
    cases p with
    | «over» faults => exact ⟨hp, .of_eq rfl⟩
    | busy t =>
      refine ⟨?_, .of_eq rfl⟩
      show Within t.job.scope (t.machine.answer _).stack (t.machine.answer _).control
      rw [Machine.stack_answer]
      refine ⟨hp.nested, fun y hy => hp.control y ?_⟩
      rwa [Machine.scope?_answer] at hy
  | take =>
    simp only [Life.move, Session.nextEmitted?]
    cases s.outbox <;> exact ⟨hp, .of_eq rfl⟩
  | define x v => exact ⟨hp, Arena.gains_define (hW (Or.inr trivial)) x _⟩
  | hold x => exact ⟨hp, .of_eq rfl⟩
  | letGo n => exact ⟨hp, .of_eq rfl⟩

theorem placed_main (program : Block) : (l.move (.main program)).progress.Placed :=
  Task.ofBlock_placed program .main

theorem placed_event (h : l.session.Orderly) (e : Event) :
    (l.move (.event e)).progress.Placed ∧
      (l.move (.event e)).session.scopes.names Arena.root = l.session.scopes.names Arena.root :=
  Task.nextHandler_placed (.refl h) _ _ _

/-- The work of an event names nothing at top level. -/
theorem Settled.play_names (h : l.Settled True s₀) (hp : l.progress.Placed) {moves : List Move}
    (hm : ∀ m ∈ moves, ¬ m.Starts ∧ ¬ m.Defines) :
    (l.play moves).session.scopes.names Arena.root = l.session.scopes.names Arena.root := by
  let P (l' : Life) := l'.Settled True s₀ ∧ l'.progress.Placed ∧
    l'.session.scopes.names Arena.root = l.session.scopes.names Arena.root
  have hmove (l' : Life) (m : Move) (h : P l') (hm : ¬ m.Starts ∧ ¬ m.Defines) : P (l'.move m) := by
    obtain ⟨hs, hp, hnames⟩ := h
    obtain ⟨hp', hgains⟩ := hs.move_placed (W := []) hp hm.1 (by simp [hm.2])
    exact ⟨hs.move hm.1, hp', (hgains.same List.not_mem_nil).trans hnames⟩
  exact (play_of_move hmove ⟨h, hp, rfl⟩ hm).2.2

variable {natives : Natives} {maxDepth : Nat} {lost : List Task}

theorem Accounted.move_placed (h : l.Accounted natives maxDepth lost) (hp : l.progress.Placed)
    (m : Move) :
    (l.move m).progress.Placed ∧
      l.session.scopes.names Arena.root <+: (l.move m).session.scopes.names Arena.root := by
  by_cases hm : m.Starts
  · cases m with
    | main program => exact ⟨placed_main program, List.prefix_refl _⟩
    | event e =>
      obtain ⟨hplaced, hnames⟩ := placed_event h.orderly e
      exact ⟨hplaced, hnames ▸ List.prefix_refl _⟩
    | _ => exact hm.elim
  · obtain ⟨s₀, dispatch, -, -, -, hs⟩ := h
    obtain ⟨hplaced, hgains⟩ := hs.move_placed (W := [Arena.root]) hp hm fun _ => List.mem_cons_self
    exact ⟨hplaced, hgains.grown⟩

theorem Accounted.play_placed (h : l.Accounted natives maxDepth lost) (hp : l.progress.Placed)
    (moves : List Move) :
    (l.play moves).progress.Placed ∧
      l.session.scopes.names Arena.root <+: (l.play moves).session.scopes.names Arena.root := by
  induction moves generalizing l lost with
  | nil => exact ⟨hp, List.prefix_refl _⟩
  | cons m moves ih =>
    obtain ⟨hplaced, hgrown⟩ := h.move_placed hp m
    obtain ⟨hlast, hrest⟩ := ih (h.move m) hplaced
    exact ⟨hlast, hgrown.trans hrest⟩

/-- **Names are bound in place.** Let `l` be any state of any life. Of the scopes that are there
all the time while a block runs in `e`, above any frames, only `e` gets names, at its end; and
running scopes are there all the time. The handlers of an event bind no variable at top level, and
whatever happens, the variables at top level only get others at their end. -/
theorem names_bound_in_place (natives : Natives) (id maxDepth : Nat) (moves : List Move) :
    let l := (ofSession (.initial id natives maxDepth)).play moves
    (∀ body e k s' m x, Course (Machine.Keeps x) k l.session ⟨.block body e, k⟩ s' m →
      (x ≠ e → s'.scopes.names x = l.session.scopes.names x) ∧
        l.session.scopes.names x <+: s'.scopes.names x) ∧
    (∀ c k s' m x, l.session.scopes.Active x →
      Course (fun _ _ => True) k l.session ⟨c, k⟩ s' m →
      Course (Machine.Keeps x) k l.session ⟨c, k⟩ s' m) ∧
    (∀ e rest, (∀ m ∈ rest, ¬ m.Starts ∧ ¬ m.Defines) →
      Table.names (l.play (.event e :: rest)).session.globals = Table.names l.session.globals) ∧
    (∀ rest, Table.names l.session.globals <+: Table.names (l.play rest).session.globals) := by
  intro l
  have hstart := accounted_initial natives id maxDepth
  have haccounted := hstart.play moves
  have hplaced : l.progress.Placed := (hstart.play_placed trivial moves).1
  have horderly : l.session.Orderly := haccounted.orderly
  refine ⟨?_, ?_, ?_, ?_⟩
  · intro body e k s' m x hcourse
    exact hcourse.names_block horderly
  · intro c k s' m x hx hcourse
    have hbalanced : Balanced True l.session [] l.session := .refl horderly
    exact hcourse.keeps (j := []) (r := []) rfl hbalanced hx
  · intro e rest hrest
    obtain ⟨hplaced', hnames⟩ := placed_event horderly e
    exact ((settled_event horderly e).play_names hplaced' hrest).trans hnames
  · intro rest
    exact (haccounted.play_placed hplaced rest).2

/-- A block in the scope of a call that waits: it calls a function that names something, and names
something itself. -/
def noting : Machine :=
  ⟨.block [.call .start "g" [], .set .start "y" [] (.literal .start .null)] 1, []⟩

theorem names_bound_in_place_waiting :
    ∃ s' m, Course (fun _ _ => True) []
        ((ofSession (.initial 7 Native.standard 2)).play waiting).session noting s' m ∧ m.Over [] ∧
      s'.scopes.names 1 = ["y"] ∧ Table.names s'.globals = ["f", "g"] := by
  have hnames : (match Machine.run 20
        ((ofSession (.initial 7 Native.standard 2)).play waiting).session noting with
      | .done s' _ => s'.scopes.names 1
      | _ => []) = ["y"] := by decide +kernel
  have hglobals : ((ofSession (.initial 7 Native.standard 2)).play waiting).session.scopes.names
      Arena.root = ["f", "g"] := by decide +kernel
  have hroot := ((accounted_initial Native.standard 7 2).play waiting).orderly.root
  obtain ⟨hblock, hkeeps, -⟩ := names_bound_in_place Native.standard 7 2 waiting
  rw [← hglobals]
  cases hrun : Machine.run 20
    ((ofSession (.initial 7 Native.standard 2)).play waiting).session noting <;>
    rw [hrun] at hnames
  case done s' r =>
    obtain ⟨m, hcourse, hover⟩ := Machine.course_of_done hrun
    have hkept := hkeeps _ _ _ _ Arena.root hroot hcourse
    exact ⟨s', m, hcourse, hover, hnames, (hblock _ _ _ _ _ _ hkept).1 (by decide)⟩
  all_goals cases hnames

end Life

end DeskScript
