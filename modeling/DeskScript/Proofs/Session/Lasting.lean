import DeskScript.Proofs.Machine.Outbox
import DeskScript.Proofs.Scope.Pins
import DeskScript.Proofs.Session.Hygiene
import Mathlib.Logic.Relation

/-!
# What lasts

What goes on in a session goes on step by step: `Goes` relates a session and its progress
to the next ones, and all that a host does to let work go on is such steps
(`Life.play_goes`). So what one step keeps holds until the work is over.

A property of sessions lasts if each change that can be made to a session keeps it: what
a step writes, the opening and the end of a scope, a collection, and a variable that the
host defines. Such a property holds in all of every life:

    Session.Lasting I → I l.session → I (l.play moves).session    (Session.Lasting.play)

What changes may rely on is shown here once: a step writes in scopes that are there, and
ends a scope that is not the root. The handlers last, and so does that exactly their scopes
and the root are kept for good (`Session.pins_lasting`).
-/

namespace DeskScript

/-! ## Steps of what goes on -/

/-- One step of what goes on, or a reply of the host. -/
inductive Goes : Session × Progress → Session × Progress → Prop
  | step {s s' : Session} {t : Task} {m' : Machine} (h : Machine.step s t.machine = .next s' m') :
      Goes (s, .busy t) (s', .busy ⟨m', t.job⟩)
  | done {s : Session} {t : Task} {r : Except Raised Flow}
      (h : Machine.step s t.machine = .done s r) : Goes (s, .busy t) (Task.afterRun s r t.job)
  | reply {s : Session} {t : Task} (r : Reply) : Goes (s, .busy t) (s, .busy (t.answer s r))

open Relation (ReflTransGen)

theorem Machine.over_of_done {s s' : Session} {m : Machine} {r : Except Raised Flow}
    (h : step s m = .done s' r) : m.Over [] ∧ s' = s := by
  rcases step_cases s m with hfrom | ⟨command, hask⟩ | ⟨hstack, hscope, r', hdone⟩
  · rw [h] at hfrom
    exact hfrom.elim
  · rw [h] at hask
    cases hask
  · rw [h] at hdone
    cases hdone
    exact ⟨⟨hstack, hscope⟩, rfl⟩

theorem Machine.not_over_of_next {s s' : Session} {m m' : Machine} (h : step s m = .next s' m') :
    ¬ m.Over [] := by
  intro hover
  obtain ⟨r, hdone⟩ := step_of_over (s := s) hover
  rw [h] at hdone
  cases hdone

theorem Course.next {s₀ s s' : Session} {m₀ m m' : Machine}
    (hcourse : Course (fun _ _ => True) [] s₀ m₀ s m) (h : Machine.step s m = .next s' m') :
    Course (fun _ _ => True) [] s₀ m₀ s' m' :=
  .step hcourse (Machine.not_over_of_next h) trivial h

/-- Where a machine of a job rests: when it is done, the next handler follows. -/
def Machine.Rest.state (j : Job) : Machine.Rest → Session × Progress
  | .unfinished s m | .asks _ s m => (s, .busy ⟨m, j⟩)
  | .done s r => Task.afterRun s r j

theorem Machine.run_goes (n : Nat) (s : Session) (m : Machine) (j : Job) :
    ReflTransGen Goes (s, .busy ⟨m, j⟩) ((run n s m).state j) := by
  induction n generalizing s m with
  | zero => exact .refl
  | succ n ih =>
    unfold run
    rcases step_cases s m with hfrom | ⟨command, hask⟩ | ⟨-, -, r, hdone⟩
    · cases hstep : step s m with
      | next s₁ m₁ => exact .head (.step hstep) (ih s₁ m₁)
      | ask | done =>
        rw [hstep] at hfrom
        exact hfrom.elim
    · rw [hask]
      exact .refl
    · rw [hdone]
      exact .single (.done (t := ⟨m, j⟩) hdone)

def Task.Rest.state : Task.Rest → Session × Progress
  | asks _ s t | unfinished s t => (s, .busy t)
  | .over s faults => (s, .over faults)

theorem Task.run_goes (n : Nat) (s : Session) (t : Task) :
    ReflTransGen Goes (s, .busy t) (run n s t).state := by
  induction n generalizing s t with
  | zero => exact .refl
  | succ n ih =>
    have hmachine := Machine.run_goes n s t.machine t.job
    unfold run
    cases hrun : Machine.run n s t.machine <;> rw [hrun] at hmachine
    case asks command s' m => exact hmachine
    case unfinished s' m => exact hmachine
    case done s' r =>
      rw [Machine.Rest.state] at hmachine
      rcases ho : afterRun s' r t.job with ⟨s'', t' | faults⟩ <;> rw [ho] at hmachine <;>
        simp only [ho]
      · exact hmachine.trans (ih s'' t')
      · exact hmachine

theorem Life.move_goes (l : Life) {m : Move} (hm : m.Continues) :
    ReflTransGen Goes (l.session, l.progress) ((l.move m).session, (l.move m).progress) := by
  obtain ⟨s, p, reports⟩ := l
  cases p with
  | «over» faults =>
    cases m with
    | run n => exact .refl
    | reply r => exact .refl
    | _ => exact hm.elim
  | busy t =>
    cases m with
    | run n =>
      have hrun := Task.run_goes n s t
      simp only [move]
      cases hrest : Task.run n s t <;> rw [hrest] at hrun <;> exact hrun
    | reply r => exact .single (.reply r)
    | _ => exact hm.elim

theorem Life.play_goes (l : Life) {moves : List Move} (hm : ∀ m ∈ moves, m.Continues) :
    ReflTransGen Goes (l.session, l.progress)
      ((l.play moves).session, (l.play moves).progress) := by
  induction moves generalizing l with
  | nil => exact .refl
  | cons m moves ih =>
    obtain ⟨hm, hrest⟩ := List.forall_mem_cons.mp hm
    exact (l.move_goes hm).trans (ih (l.move m) hrest)

/-- What each step can rely on: scopes and calls are balanced since the work began in `s₀`, and the
work is in scopes of its own. -/
structure Proper (dispatch : Prop) (s₀ : Session) (x : Session × Progress) : Prop where
  settled : x.2.Settled dispatch s₀ x.1
  placed : x.2.Placed

section
variable {dispatch : Prop} {s₀ s s' : Session} {t : Task} {x y : Session × Progress}

theorem Proper.course {m' : Machine} (h : Proper dispatch s₀ (s, .busy t))
    (hcourse : Course (fun _ _ => True) [] s t.machine s' m') :
    Proper dispatch s₀ (s', .busy ⟨m', t.job⟩) := by
  obtain ⟨⟨hb, hdispatch⟩, hplaced⟩ := h
  obtain ⟨j, hj, hb'⟩ := hcourse.balanced (List.append_nil _).symm hb
  rw [List.append_nil] at hj
  rw [← hj] at hb'
  exact ⟨⟨hb', hdispatch⟩, (Task.course_placed (W := [Arena.root]) hb hplaced
    (fun _ => List.mem_cons_self) hcourse).1⟩

theorem Proper.frames_of_done {r : Except Raised Flow} (h : Proper dispatch s₀ (s, .busy t))
    (hdone : Machine.step s t.machine = .done s r) : Balanced True s₀ t.job.frames s := by
  have hb : Balanced True s₀ (t.machine.stack ++ t.job.frames) s := h.settled.1
  rwa [(Machine.over_of_done hdone).1.1] at hb

theorem Goes.proper (h : Goes x y) (hx : Proper dispatch s₀ x) : Proper dispatch s₀ y := by
  cases h with
  | step hstep => exact hx.course (Course.next .start hstep)
  | done hdone =>
    have hframes := hx.frames_of_done hdone
    exact ⟨Task.afterRun_settled hframes hx.settled.2 _, (Task.afterRun_placed hframes _).1⟩
  | reply r => exact hx.course (.reply _ .start)

theorem Life.Accounted.proper {natives : Natives} {maxDepth : Nat} {lost : List Task} {l : Life}
    (h : l.Accounted natives maxDepth lost) (hp : l.progress.Placed) :
    ∃ s₀ dispatch, Proper dispatch s₀ (l.session, l.progress) := by
  obtain ⟨s₀, dispatch, -, -, -, hs⟩ := h
  exact ⟨s₀, dispatch, hs, hp⟩

end

/-! ## Properties that last -/

structure Session.Lasting (I : Session → Prop) : Prop where
  writes {g : Grounds} {s s' : Session} (h : I s) (hg : ∀ e ∈ g.scopes, s.scopes.There e)
    (hwrites : Writes g s s') : I s'
  opens {s : Session} (h : I s) (htidy : s.scopes.Tidy) (p : ScopeId)
    (bs : List (String × Value)) (depth : Nat) : I { (s.openScope p bs).2 with depth }
  closes {s : Session} {e : ScopeId} (h : I s) (hk : s.scopes.keepsAll = false)
    (he : e ≠ Arena.root) (held : List ScopeId) (depth : Nat) :
    I ({ s with depth }.closeScope (fun _ => held) e)
  collects {s : Session} (h : I s) (hk : s.scopes.keepsAll = false) (held : List ScopeId) :
    I { s with scopes := s.scopes.collect held }
  defines {s : Session} (h : I s) (x : String) (v : Value) : I (s.defineGlobal x v)
  lends {s : Session} (h : I s) (lent : List ScopeId) : I { s with lent }

namespace Session.Lasting

variable {I J : Session → Prop}

theorem and (hI : Lasting I) (hJ : Lasting J) : Lasting fun s => I s ∧ J s where
  writes h hg hwrites := ⟨hI.writes h.1 hg hwrites, hJ.writes h.2 hg hwrites⟩
  opens h htidy p bs depth := ⟨hI.opens h.1 htidy p bs depth, hJ.opens h.2 htidy p bs depth⟩
  closes h hk he held depth := ⟨hI.closes h.1 hk he held depth, hJ.closes h.2 hk he held depth⟩
  collects h hk held := ⟨hI.collects h.1 hk held, hJ.collects h.2 hk held⟩
  defines h x v := ⟨hI.defines h.1 x v, hJ.defines h.2 x v⟩
  lends h lent := ⟨hI.lends h.1 lent, hJ.lends h.2 lent⟩

variable (hI : Lasting I)
include hI

section
variable {whole : Prop} {s₀ s s' : Session} {m m' : Machine} {r : List Frame} {e : ScopeId}

theorem ended (hb : Balanced whole s₀ (m.stack ++ r) s) (h : I s) : I (m.ended s) := by
  unfold Machine.ended
  split
  · next f hf =>
    have hmem : ∀ x ∈ f.inner?, x ∈ openedBy (m.stack ++ r) := by
      intro x hx
      rw [m.stack_eq, hf]
      exact List.mem_filterMap.mpr ⟨f, by simp, hx⟩
    unfold without
    split
    · next x hx =>
      refine hI.closes h hb.reclaims ?_ m.held _
      rintro rfl
      exact hb.apart _ (hmem _ hx) hb.root
    · exact h
  · exact h

/-- A step of a machine that is in `e` and in the scopes of its frames. -/
theorem step (hb : Balanced whole s₀ (m.stack ++ r) s) (hw : Within e m.stack m.control)
    (he : e ∈ openedBy r ∨ s₀.scopes.Active e) (hover : ¬ m.Over [])
    (hstep : Machine.step s m = .next s' m') (h : I s) : I s' := by
  obtain ⟨i, hi, -⟩ := m.rest_of_not_over (List.append_nil _).symm hover
  obtain ⟨-, hgrounds⟩ := hw.grounds (s := s) hi
  have hended : Balanced whole s₀ (i ++ r) (m.ended s) := by
    rw [hi, List.append_assoc] at hb
    exact hb.ended
  have hthere : ∀ y ∈ (m.grounds s).scopes, (m.ended s).scopes.There y := by
    intro y hy
    refine ((hended.active y).mpr ?_).there
    rw [openedBy_append, List.mem_append]
    rcases List.mem_append.mp (hgrounds y hy) with hmem | hmem
    · exact Or.inl (Or.inl hmem)
    · rw [List.mem_singleton.mp hmem]
      exact he.imp_left Or.inr
  obtain ⟨s₁, fs, hwrites, hputs, -⟩ := Machine.step_from hstep
  have hwritten := hI.writes (hI.ended hb h) hthere hwrites
  have htidy := hwrites.tightens.tidy hended.tidy
  obtain ⟨c, k⟩ := m'
  cases hputs with
  | goes hfs hc => exact hwritten
  | opens p bs body hfs hinner hframe hlimit => exact hI.opens hwritten htidy p bs _

end

section
variable {dispatch : Prop} {s₀ s : Session} {x y : Session × Progress}

theorem nextHandler (htidy : s.scopes.Tidy) (payload : Value) (faults : List Raised)
    (hs : List Handler) (h : I s) : I (Task.nextHandler s payload faults hs).1 := by
  cases hs with
  | nil => exact h
  | cons x rest => exact hI.opens h htidy x.scope [("event", payload)] s.depth

theorem afterRun {j : Job} (hb : Balanced True s₀ j.frames s) (r : Except Raised Flow) (h : I s) :
    I (Task.afterRun s r j).1 := by
  cases j with
  | main => exact hI.collects h hb.reclaims _
  | handler inner payload rest faults =>
    have hne : inner ≠ Arena.root := by
      rintro rfl
      exact hb.apart _ List.mem_cons_self hb.root
    have hclosed := hI.closes h hb.reclaims hne (Task.heldBy r) s.depth
    exact hI.nextHandler (hb.close (e := inner) rfl (Task.heldBy r)).tidy payload _ rest hclosed

theorem goes (hgoes : Goes x y) (hx : Proper dispatch s₀ x) (h : I x.1) : I y.1 := by
  cases hgoes with
  | @step s s' t m' hstep =>
    have hb : Balanced True s₀ (t.machine.stack ++ t.job.frames) s := hx.settled.1
    refine hI.step hb hx.placed ?_ (Machine.not_over_of_next hstep) hstep h
    cases t.job with
    | main => exact Or.inr hb.root
    | handler inner payload rest faults => exact Or.inl List.mem_cons_self
  | done hdone => exact hI.afterRun (hx.frames_of_done hdone) _ h
  | reply r => exact h

theorem going (hgoes : ReflTransGen Goes x y) (hx : Proper dispatch s₀ x) (h : I x.1) :
    Proper dispatch s₀ y ∧ I y.1 := by
  induction hgoes with
  | refl => exact ⟨hx, h⟩
  | tail _ hlast ih => exact ⟨hlast.proper ih.1, hI.goes hlast ih.1 ih.2⟩

end

/-! ## Lives -/

variable {natives : Natives} {maxDepth : Nat} {lost : List Task} {l : Life}

theorem move (ha : l.Accounted natives maxDepth lost) (hp : l.progress.Placed) (h : I l.session)
    (m : Move) : I (l.move m).session := by
  obtain ⟨s₀, dispatch, hproper⟩ := ha.proper hp
  cases m with
  | main program => exact h
  | event e => exact hI.nextHandler ha.orderly.tidy _ _ _ h
  | run n => exact (hI.going (l.move_goes (m := .run n) trivial) hproper h).2
  | reply r => exact (hI.going (l.move_goes (m := .reply r) trivial) hproper h).2
  | take =>
    simp only [Life.move, Session.nextEmitted?]
    cases ho : l.session.outbox with
    | nil => exact h
    | cons e rest =>
      exact hI.writes (g := ⟨[], fun _ => False, False⟩) h (by simp)
        (.said l.session.output rest (List.prefix_refl _))
  | define x v => exact hI.defines h x v
  | hold x => exact hI.lends h _
  | letGo n => exact hI.lends h _

theorem play (ha : l.Accounted natives maxDepth lost) (hp : l.progress.Placed) (h : I l.session)
    (moves : List Move) : I (l.play moves).session := by
  induction moves generalizing l lost with
  | nil => exact h
  | cons m moves ih => exact ih (ha.move m) (ha.move_placed hp m).1 (hI.move ha hp h m)

end Session.Lasting

/-! ## Handlers -/

namespace Session

/-- The handlers of `s` come first. -/
theorem handlers_lasting (s : Session) :
    Lasting fun s' => s.handlers.toList <+: s'.handlers.toList where
  writes h _ hwrites := by
    cases hwrites with
    | registered event body he =>
      refine h.trans ?_
      simp [addHandler]
    | _ => exact h
  opens h _ p bs depth := h
  closes h _ _ held depth := h
  collects h _ held := h
  defines h x v := h
  lends h lent := h

/-- Exactly the root and the scopes of handlers are kept for good. -/
structure Pins (s : Session) : Prop where
  pinned : ∀ x t, s.scopes.scope? x = some t → t.pinned = true →
    x = Arena.root ∨ ∃ h ∈ s.handlers.toList, h.scope = x
  root : s.scopes.Pinned Arena.root
  handlers : ∀ h ∈ s.handlers.toList, s.scopes.Pinned h.scope

theorem Pins.change {s s' : Session} (h : s.Pins) (hscopes : s.scopes.SamePins s'.scopes)
    (hhandlers : s'.handlers = s.handlers) : s'.Pins where
  pinned x t ht hp := by
    obtain ⟨u, hu, hpu⟩ := hscopes.old x t ht hp
    rw [hhandlers]
    exact h.pinned x u hu hpu
  root := hscopes.kept _ h.root
  handlers x hx := hscopes.kept _ (h.handlers x (hhandlers ▸ hx))

theorem Pins.addHandler {s : Session} (h : s.Pins) {e : ScopeId} (he : s.scopes.There e)
    (event : String) (body : Block) : (s.addHandler e event body).Pins := by
  have hmem : ∀ x, x ∈ (s.addHandler e event body).handlers.toList ↔
      x ∈ s.handlers.toList ∨ x = ⟨event, body, e⟩ := by
    intro x
    simp [Session.addHandler]
  refine ⟨fun x t ht hp => ?_, h.root.pin e, fun x hx => ?_⟩
  · rcases Arena.pinned_of_pin ht hp with rfl | ⟨u, hu, hpu⟩
    · exact Or.inr ⟨⟨event, body, x⟩, (hmem _).mpr (Or.inr rfl), rfl⟩
    · refine (h.pinned x u hu hpu).imp_right ?_
      rintro ⟨y, hy, rfl⟩
      exact ⟨y, (hmem y).mpr (Or.inl hy), rfl⟩
  · rcases (hmem x).mp hx with hx | rfl
    · exact (h.handlers x hx).pin e
    · exact Arena.pinned_pin_self he

theorem pins_lasting : Lasting Pins where
  writes h hg hwrites := by
    cases hwrites with
    | nothing => exact h
    | said output outbox => exact h.change (.refl _) rfl
    | bound x v he => exact h.change (Arena.samePins_define _ _ x v) rfl
    | changed v hfind => exact h.change (Arena.samePins_define _ _ _ v) rfl
    | made name params body he =>
      exact h.change
        ((Arena.samePins_captureFrom _ _ _).trans (Arena.samePins_define _ _ name _)) rfl
    | registered event body he => exact h.addHandler (hg _ he) event body
  opens h htidy p bs depth :=
    h.change ((Arena.samePins_child htidy p).trans (Arena.samePins_defineAll _ _ bs)) rfl
  closes {s} e h hk he held depth :=
    h.change (Arena.samePins_release hk he fun _ => s.lent ++ held) rfl
  collects h hk held := h.change (Arena.samePins_collect hk held) rfl
  defines h x v := h.change (Arena.samePins_define _ _ x _) rfl
  lends h lent := h.change (.refl _) rfl

theorem pins_initial (id : Nat) (natives : Natives) (maxDepth : Nat) :
    (Session.initial id natives maxDepth).Pins where
  pinned x t ht _ := by
    have hscope : Arena.initial.scope? x = some t := ht
    rw [Arena.scope?_initial] at hscope
    split at hscope
    · exact Or.inl ‹_›
    · cases hscope
  root := ⟨_, rfl, rfl, rfl⟩
  handlers h hh := by cases hh

end Session

theorem Life.pins (natives : Natives) (id maxDepth : Nat) (moves : List Move) :
    ((ofSession (.initial id natives maxDepth)).play moves).session.Pins :=
  Session.pins_lasting.play (accounted_initial natives id maxDepth) trivial
    (Session.pins_initial id natives maxDepth) moves

end DeskScript
