import DeskScript.Proofs.Machine.Twin
import DeskScript.Proofs.Value.Mild

/-!
# What a step can do

Whatever is in control, a step has three parts. It may take the frame on top of the
stack, and then the scope of that frame ends. It may write to the session. At last
it puts frames on the stack; a scope is opened only for a frame that ends with it.
What it writes and puts is in scopes that control or the taken frame was in:

    step s m = .next s' m' → Step.From (m.grounds s) (m.ended s) m.rest (.next s' m')   (Machine.step_from)

There is one lemma for each function that a step is made of.
-/

namespace DeskScript

/-! ## Taking a frame -/

/-- How many functions are left when a frame is. -/
def Frame.calls : Frame → Nat
  | flow (.called _ _ _) => 1
  | _ => 0

/-- The native function that a frame is about to call. -/
def Frame.native? : Frame → Option Native
  | value (.argument _ _ (.native f) _ _ _) => some f
  | _ => none

/-- The scope that control is in. -/
def Control.scope? : Control → Option ScopeId
  | block _ e | eval _ e | asking _ _ _ e | replied _ _ _ _ e => some e
  | value _ | flow _ | raised _ => none

/-- The session after a frame with a scope was left. -/
def Session.without (s : Session) (held : List ScopeId) (f : Frame) : Session :=
  match f.inner? with
  | some e => { s with depth := s.depth - f.calls }.closeScope (fun _ => held) e
  | none => s

namespace Machine

/-- The frame that the next step takes from the stack. -/
def taken? (m : Machine) : Option Frame :=
  match m.control, m.stack with
  | .value _, .value f :: _ => some (.value f)
  | .flow _, .flow f :: _ => some (.flow f)
  | .raised _, f :: _ => some f
  | _, _ => none

/-- The frames that the next step leaves alone. -/
def rest (m : Machine) : List Frame :=
  match m.taken? with
  | some _ => m.stack.tail
  | none => m.stack

/-- The session once the next step has taken its frame. -/
def ended (m : Machine) (s : Session) : Session :=
  match m.taken? with
  | some f => s.without m.held f
  | none => s

theorem stack_eq (m : Machine) : m.stack = m.taken?.toList ++ m.rest := by
  obtain ⟨c, k⟩ := m
  cases c <;> rcases k with _ | ⟨f | f, k⟩ <;> rfl

/-- A frame is taken only by a result. -/
theorem scope?_of_taken {m : Machine} {f : Frame} (h : m.taken? = some f) :
    m.control.scope? = none := by
  obtain ⟨c, k⟩ := m
  cases c <;> first | rfl | cases h

/-! ## Calls -/

/-- The call that the next step makes, with all arguments known. -/
def call? (s : Session) (m : Machine) : Option (Callee × List Value) :=
  match m.control, m.stack with
  | .eval (.call _ name []) scope, _ | .block (.call _ name [] :: _) scope, _ =>
    (callee s scope name).toOption.map fun f => (f, [])
  | .value v, .value (.argument _ _ f read [] _) :: _ => some (f, (v :: read).reverse)
  | _, _ => none

end Machine

/-- Does a call end in the complaint that there are too many? -/
def Callee.Refuses (s : Session) (args : List Value) : Callee → Prop
  | function _ => s.maxDepth ≤ s.depth
  | native f => ∃ x, f args = some (.error x) ∧ x.kind = .recursionLimit

/-- Control has the complaint that there are too many calls. -/
def Control.Refused (c : Control) : Prop := ∃ r, c = .raised r ∧ r.fault.kind = .recursionLimit

/-! ## The parts of a step -/

/-- What a step goes by. -/
structure Grounds where
  /-- The scopes that it may go on in. -/
  scopes : List ScopeId
  /-- The native functions that it may call later. -/
  natives : Native → Prop
  /-- May it complain of too many calls? -/
  refuses : Prop

namespace Grounds

structure Frame (g : Grounds) (f : DeskScript.Frame) : Prop where
  scope : ∀ e ∈ f.scope?, e ∈ g.scopes
  native : ∀ n ∈ f.native?, g.natives n

structure Control (g : Grounds) (c : DeskScript.Control) : Prop where
  scope : ∀ e ∈ c.scope?, e ∈ g.scopes
  refused : c.Refused → g.refuses

/-- A frame that goes on in a scope at hand, and calls nothing. -/
theorem Frame.plain {g : Grounds} {f : DeskScript.Frame} {scope : ScopeId}
    (hscope : scope ∈ g.scopes) (hf : f.scope? = some scope ∨ f.scope? = none)
    (hnative : f.native? = none) : g.Frame f := by
  refine ⟨fun e he => ?_, fun n hn => ?_⟩
  · rcases hf with hf | hf <;> rw [hf] at he <;> cases he
    exact hscope
  · rw [hnative] at hn
    cases hn

/-- Control that is in a scope at hand. -/
theorem Control.within {g : Grounds} {c : DeskScript.Control} {scope : ScopeId}
    (hc : c.scope? = some scope) (hscope : scope ∈ g.scopes) : g.Control c := by
  refine ⟨fun e he => ?_, ?_⟩
  · rw [hc] at he
    cases he
    exact hscope
  · rintro ⟨r, rfl, -⟩
    cases hc

end Grounds

/-- What a step may write. -/
inductive Writes (g : Grounds) (s : Session) : Session → Prop
  | nothing : Writes g s s
  | said (output : Array String) (outbox : List Event) :
      s.output.toList <+: output.toList → Writes g s { s with output, outbox }
  | bound {e : ScopeId} (x : String) (v : Value) :
      e ∈ g.scopes → Writes g s { s with scopes := s.scopes.set e x v }
  | changed {e owner : ScopeId} {x : String} {old : Value} (v : Value) :
      s.scopes.find? e x = some (owner, old) →
      Writes g s { s with scopes := s.scopes.define owner x v }
  | made {e : ScopeId} (name : String) (params : List String) (body : Block) :
      e ∈ g.scopes → Writes g s (s.defineFunction e name params body)
  | registered {e : ScopeId} (event : String) (body : Block) :
      e ∈ g.scopes → Writes g s (s.addHandler e event body)

/-- What a step may put on the stack, and in control. -/
inductive Puts (g : Grounds) (s : Session) : List Frame → Session → Control → Prop
  | goes {fs : List Frame} {c : Control} :
      (∀ f ∈ fs, f.inner? = none ∧ g.Frame f) → g.Control c → Puts g s fs s c
  | opens {fs : List Frame} {f : FlowFrame} (p : ScopeId) (bs : List (String × Value))
      (body : List Stmt) :
      (∀ f ∈ fs, f.inner? = none ∧ g.Frame f) →
      f.inner? = some (s.openScope p bs).1 → g.Frame (.flow f) →
      (0 < (Frame.flow f).calls → s.depth < s.maxDepth) →
      Puts g s (.flow f :: fs)
        { (s.openScope p bs).2 with depth := s.depth + (Frame.flow f).calls }
        (.block body (s.openScope p bs).1)

/-- The step writes to `s` and puts frames on `k`. -/
def Step.From (g : Grounds) (s : Session) (k : List Frame) : Step → Prop
  | .next s' m => ∃ s₁ fs, Writes g s s₁ ∧ Puts g s₁ fs s' m.control ∧ m.stack = fs ++ k
  | _ => False

/-- What the next step goes by. -/
def Machine.grounds (m : Machine) (s : Session) : Grounds where
  scopes := m.control.scope?.toList ++ m.taken?.toList.filterMap Frame.scope?
  natives f := (∃ name, Table.get? s.natives name = some f) ∨ ∃ g ∈ m.taken?, f ∈ g.native?
  refuses := m.control.Refused ∨ ∃ f args, m.call? s = some (f, args) ∧ f.Refuses s args

namespace Machine

open Step (From)

variable {g : Grounds} {s s₁ : Session} {k : List Frame}

/-- A frame that was put first is one of those put. -/
theorem From.push {f : Frame} {x : Step} (h : From g s (f :: k) x) (hinner : f.inner? = none)
    (hf : g.Frame f) : From g s k x := by
  cases x with
  | next s' m =>
    obtain ⟨c, k'⟩ := m
    obtain ⟨s₁, fs, hwrites, hputs, hstack⟩ := h
    refine ⟨s₁, fs ++ [f], hwrites, ?_, by simpa using hstack⟩
    have hall : ∀ {gs : List Frame}, (∀ f ∈ gs, f.inner? = none ∧ g.Frame f) →
        ∀ h ∈ gs ++ [f], h.inner? = none ∧ g.Frame h := by
      intro gs hgs h hh
      rcases List.mem_append.mp hh with hh | hh
      · exact hgs h hh
      · rw [List.mem_singleton.mp hh]
        exact ⟨hinner, hf⟩
    cases hputs with
    | goes hfs hc => exact .goes (hall hfs) hc
    | opens p bs body hfs hnew hframe hlimit => exact .opens p bs body (hall hfs) hnew hframe hlimit
  | ask command s' m => exact h
  | done s' r => exact h

/-! ## Results -/

theorem next_from (hwrites : Writes g s s₁) {c : Control} (hc : g.Control c) :
    From g s k (.next s₁ ⟨c, k⟩) :=
  ⟨s₁, [], hwrites, .goes (by simp) hc, rfl⟩

theorem give_from (v : Value) : From g s k (give s k v) :=
  next_from .nothing ⟨by simp [Control.scope?], by simp [Control.Refused]⟩

theorem leave_from (hwrites : Writes g s s₁) (f : Flow) : From g s k (leave s₁ k f) :=
  next_from hwrites ⟨by simp [Control.scope?], by simp [Control.Refused]⟩

theorem raised_from {r : Raised} (hr : r.fault.kind = .recursionLimit → g.refuses) :
    From g s k (.next s ⟨.raised r, k⟩) :=
  next_from .nothing ⟨by simp [Control.scope?], by simpa [Control.Refused] using hr⟩

theorem raise_from (pos : Position) {x : Fault} (hx : x.kind = .recursionLimit → g.refuses) :
    From g s k (raise s k pos x) :=
  raised_from hx

theorem settle_from (pos : Position) {r : Except Fault Value}
    (hr : ∀ {x}, r = .error x → x.kind = .recursionLimit → g.refuses) :
    From g s k (settle s k pos r) := by
  cases r with
  | ok v => exact give_from v
  | error x => exact raise_from pos (hr rfl)

/-- Going on with a block. -/
theorem block_from {scope : ScopeId} (hscope : scope ∈ g.scopes) (body : List Stmt) :
    From g s k (.next s ⟨.block body scope, k⟩) :=
  next_from .nothing (.within rfl hscope)

theorem eval_next_from {scope : ScopeId} (hscope : scope ∈ g.scopes) (e : Expr) :
    From g s k (.next s ⟨.eval e scope, k⟩) :=
  next_from .nothing (.within rfl hscope)

theorem compute_from {scope : ScopeId} (hscope : scope ∈ g.scopes) (e : Expr) {f : ValueFrame}
    (hf : g.Frame (.value f)) : From g s k (compute s k scope e f) :=
  From.push (eval_next_from hscope e) rfl hf

/-- Entering a block in the present scope. -/
theorem enter_from {scope : ScopeId} (hscope : scope ∈ g.scopes) (body : Block) {f : FlowFrame}
    (hinner : f.inner? = none) (hf : g.Frame (.flow f)) : From g s k (enter s k scope body f) :=
  From.push (block_from hscope body.body) hinner hf

/-- Entering a block in a scope of its own. -/
theorem enter_open_from (p : ScopeId) (bs : List (String × Value)) (body : Block)
    {f : ScopeId → FlowFrame} (hinner : ∀ e, (f e).inner? = some e)
    (hf : ∀ e, g.Frame (.flow (f e))) (hcalls : ∀ e, (Frame.flow (f e)).calls = 0) :
    From g s k (enter (s.openScope p bs).2 k (s.openScope p bs).1 body (f (s.openScope p bs).1)) := by
  have hputs := Puts.opens (g := g) (s := s) p bs body.body (List.forall_mem_nil _)
    (hinner (s.openScope p bs).1) (hf _) (by simp [hcalls])
  rw [hcalls] at hputs
  exact ⟨s, _, .nothing, hputs, rfl⟩

/-! ## Calls -/

theorem callee_native {scope : ScopeId} {name : String} {f : Native}
    (h : callee s scope name = .ok (.native f)) : Table.get? s.natives name = some f := by
  unfold callee at h
  split at h
  · cases h
  · split at h
    · next f' hf =>
      cases h
      exact hf
    · cases h
    · cases h

theorem apply_from {again : Machine} (hagain : From g s k (.next s again)) (pos : Position)
    (name : String) {f : Callee} {args : List Value} (hrefuses : f.Refuses s args → g.refuses) :
    From g s k (apply s k again pos name f args) := by
  cases f with
  | native f =>
    unfold apply
    cases hf : f args with
    | none => simpa only [hf] using hagain
    | some r =>
      simp only [hf]
      exact settle_from pos fun hx hk => hrefuses ⟨_, hx ▸ hf, hk⟩
  | function f =>
    unfold apply
    by_cases hlimit : s.maxDepth ≤ s.depth
    · simp only [if_pos hlimit]
      exact raise_from pos fun _ => hrefuses hlimit
    · simp only [if_neg hlimit]
      refine ⟨s, [.flow (.called _ f _)], .nothing, .opens f.scope (parameters f.params args) f.body.body
        (List.forall_mem_nil _) rfl ⟨?_, ?_⟩ fun _ => Nat.lt_of_not_le hlimit, rfl⟩
      · simp [Frame.scope?, FlowFrame.scope?]
      · simp [Frame.native?]

/-- The native function of a callee may be called later. -/
def Callee.Known (g : Grounds) (f : Callee) : Prop := ∀ n, f = .native n → g.natives n

theorem nextArgument_from {again : Machine} (hagain : From g s k (.next s again)) {scope : ScopeId}
    (hscope : scope ∈ g.scopes) (pos : Position) (name : String) {f : Callee}
    (hf : Callee.Known g f) {read : List Value} {args : List Expr}
    (hrefuses : args = [] → f.Refuses s read.reverse → g.refuses) :
    From g s k (nextArgument s k again scope pos name f read args) := by
  cases args with
  | nil => exact apply_from hagain pos name (hrefuses rfl)
  | cons e rest =>
    refine compute_from hscope e ⟨by simpa [Frame.scope?, ValueFrame.scope?] using hscope, ?_⟩
    intro n hn
    cases f with
    | native f => exact hf n (by simpa [Frame.native?] using hn)
    | function f => cases hn

theorem call_from {again : Machine} (hagain : From g s k (.next s again)) {scope : ScopeId}
    (hscope : scope ∈ g.scopes) (pos : Position) {name : String}
    (hnatives : ∀ name n, Table.get? s.natives name = some n → g.natives n) {args : List Expr}
    (hrefuses : ∀ f, args = [] → callee s scope name = .ok f → f.Refuses s [] → g.refuses) :
    From g s k (call s k again scope pos name args) := by
  unfold call
  cases hf : callee s scope name with
  | error x => exact raise_from pos ((callee_mild s scope name).elim hf)
  | ok f =>
    refine nextArgument_from hagain hscope pos name ?_ fun hargs => hrefuses f hargs hf
    rintro n rfl
    exact hnatives name n (callee_native hf)

/-! ## Expressions -/

section
variable {scope : ScopeId} (hscope : scope ∈ g.scopes)

include hscope

theorem nextItem_from (read : List Value) (items : List Expr) :
    From g s k (nextItem s k scope read items) := by
  cases items with
  | nil => exact give_from _
  | cons e rest => exact compute_from hscope e (.plain hscope (Or.inl rfl) rfl)

theorem nextField_from (read : Table Value) (fields : List (String × Expr)) :
    From g s k (nextField s k scope read fields) := by
  cases fields with
  | nil => exact give_from _
  | cons p rest => exact compute_from hscope p.2 (.plain hscope (Or.inl rfl) rfl)

theorem eval_from (hnatives : ∀ name n, Table.get? s.natives name = some n → g.natives n)
    (e : Expr)
    (hrefuses : ∀ pos name f, e = .call pos name [] → callee s scope name = .ok f →
      f.Refuses s [] → g.refuses) : From g s k (eval s k scope e) := by
  cases e with
  | literal pos l => exact give_from _
  | var pos x => exact settle_from pos (lookup_mild s scope x).elim
  | binary pos op l r => exact compute_from hscope l (.plain hscope (Or.inl rfl) rfl)
  | unary pos op e => exact compute_from hscope e (.plain hscope (Or.inr rfl) rfl)
  | call pos name args =>
    refine call_from (eval_next_from hscope _) hscope pos hnatives fun f hargs => ?_
    subst hargs
    exact hrefuses pos name f rfl
  | array pos items => exact nextItem_from hscope [] items
  | object pos fields => exact nextField_from hscope [] fields
  | member pos e p => exact compute_from hscope e (.plain hscope (Or.inr rfl) rfl)
  | index pos e i => exact compute_from hscope e (.plain hscope (Or.inl rfl) rfl)
  | group pos e => exact eval_next_from hscope e
  | template pos parts => exact settle_from pos (templateText_mild s scope "" parts).elim

/-! ## Loops -/

theorem nextRound_from (body : Block) (next count : Nat) :
    From g s k (nextRound s k scope body next count) := by
  unfold nextRound
  split
  · exact enter_open_from scope _ body (f := fun e => .round e (next + 1) count body scope)
      (fun _ => rfl) (fun _ => .plain hscope (Or.inl rfl) rfl) fun _ => rfl
  · exact leave_from .nothing _

theorem nextTest_from (condition : Expr) (body : Block) :
    From g s k (nextTest s k scope condition body) :=
  compute_from hscope condition (.plain hscope (Or.inl rfl) rfl)

theorem nextEach_from (name : String) (body : Block) (next : Nat) (items : List Value) :
    From g s k (nextEach s k scope name body next items) := by
  cases items with
  | nil => exact leave_from .nothing _
  | cons v items =>
    exact enter_open_from scope _ body (f := fun e => .each e name items (next + 1) body scope)
      (fun _ => rfl) (fun _ => .plain hscope (Or.inl rfl) rfl) fun _ => rfl

/-! ## Statements -/

theorem nextKey_from (pos : Position) (name : String) (value : Value) (read : List Value.Key)
    (path : List Accessor) : From g s k (nextKey s k scope pos name value read path) := by
  induction path generalizing read with
  | nil =>
    unfold nextKey assign
    split
    · exact raise_from pos (by simp [Fault.kind])
    · next owner old hold =>
      split
      · next v hv => exact leave_from (.changed v hold) _
      · next x hx => exact raise_from pos ((Value.assign_mild _ _ _).elim hx)
  | cons a rest ih =>
    cases a with
    | member x => exact ih _
    | index e => exact compute_from hscope e (.plain hscope (Or.inl rfl) rfl)

theorem nextHostArgument_from (pos : Position) (verb : Verb) (into : Option String)
    (read : List Value) (args : List Expr) :
    From g s k (nextHostArgument s k scope pos verb into read args) := by
  cases args with
  | nil =>
    simp only [nextHostArgument]
    split
    · exact next_from .nothing (.within rfl hscope)
    · next x hx => exact raise_from pos ((Command.ofArgs_mild _ _).elim hx)
  | cons e rest => exact compute_from hscope e (.plain hscope (Or.inl rfl) rfl)

theorem exec_from (hnatives : ∀ name n, Table.get? s.natives name = some n → g.natives n)
    (stmt : Stmt)
    (hrefuses : ∀ pos name f, stmt = .call pos name [] → callee s scope name = .ok f →
      f.Refuses s [] → g.refuses) : From g s k (exec s k scope stmt) := by
  cases stmt with
  | block pos b => exact block_from hscope b.body
  | set pos x path e => exact compute_from hscope e (.plain hscope (Or.inl rfl) rfl)
  | print pos e => exact compute_from hscope e (.plain hscope (Or.inr rfl) rfl)
  | branch pos e yes no => exact compute_from hscope e (.plain hscope (Or.inl rfl) rfl)
  | loop pos e body => exact compute_from hscope e (.plain hscope (Or.inl rfl) rfl)
  | while_ pos e body => exact nextTest_from hscope e body
  | foreach pos x e body => exact compute_from hscope e (.plain hscope (Or.inl rfl) rfl)
  | break_ pos => exact leave_from .nothing _
  | continue_ pos => exact leave_from .nothing _
  | return_ pos e =>
    cases e with
    | none => exact leave_from .nothing _
    | some e => exact compute_from hscope e (.plain hscope (Or.inr rfl) rfl)
  | define pos f params body => exact leave_from (.made f params body hscope) _
  | call pos f args =>
    refine call_from (eval_next_from hscope _) hscope pos hnatives fun f hargs => ?_
    subst hargs
    exact hrefuses pos _ f rfl
  | attempt pos body x handler =>
    exact enter_from hscope body rfl (.plain hscope (Or.inl rfl) rfl)
  | throw pos e => exact compute_from hscope e (.plain hscope (Or.inr rfl) rfl)
  | on pos event body => exact leave_from (.registered event body hscope) _
  | emit pos event e =>
    cases e with
    | none => exact leave_from (.said s.output _ (List.prefix_refl _)) _
    | some e => exact compute_from hscope e (.plain hscope (Or.inr rfl) rfl)
  | host pos verb args into => exact nextHostArgument_from hscope pos verb into [] args

end

/-! ## Frames -/

theorem takeValue_from (v : Value) {f : ValueFrame} (hf : g.Frame (.value f))
    (hrefuses : ∀ pos name callee read scope, f = .argument pos name callee read [] scope →
      callee.Refuses s (v :: read).reverse → g.refuses) : From g s k (takeValue s k v f) := by
  have hscope : ∀ scope, f.scope? = some scope → scope ∈ g.scopes := hf.scope
  cases f with
  | left pos op r scope =>
    have hscope := hscope scope rfl
    have hdecided := compute_from (s := s) (k := k) hscope r (f := .decided v)
      (.plain hscope (Or.inr rfl) rfl)
    have hright := compute_from (s := s) (k := k) hscope r (f := .right pos op v)
      (.plain hscope (Or.inr rfl) rfl)
    simp only [takeValue]
    cases op <;> cases v.truthy <;> first | exact give_from v | exact hdecided | exact hright
  | right pos op l => exact settle_from pos (Value.binary_mild op l v).elim
  | decided l => exact give_from v
  | operand pos op => exact settle_from pos (Value.unary_mild op v).elim
  | argument pos name callee read rest scope =>
    refine nextArgument_from (From.push (give_from v) rfl hf) (hscope scope rfl) pos name ?_
      fun hrest => ?_
    · rintro n rfl
      exact hf.native n rfl
    · subst hrest
      exact hrefuses pos name callee read scope rfl
  | item read rest scope => exact nextItem_from (hscope scope rfl) _ rest
  | field read key rest scope => exact nextField_from (hscope scope rfl) _ rest
  | memberOf pos p => exact settle_from pos (v.member_mild p).elim
  | indexed pos i scope =>
    exact compute_from (hscope scope rfl) i (.plain (hscope scope rfl) (Or.inr rfl) rfl)
  | index pos object => exact settle_from pos (object.at_mild v).elim
  | assigned pos x path scope =>
    cases path with
    | nil => exact leave_from (.bound x v (hscope scope rfl)) _
    | cons a path => exact nextKey_from (hscope scope rfl) pos x v [] (a :: path)
  | key pos x value read rest scope => exact nextKey_from (hscope scope rfl) pos x value _ rest
  | printed =>
    have hgrows : s.output.toList <+: (s.output.push v.text).toList := by simp
    exact leave_from (.said _ s.outbox hgrows) _
  | condition yes no scope =>
    simp only [takeValue]
    split
    · exact block_from (hscope scope rfl) yes.body
    · cases no with
      | some b => exact block_from (hscope scope rfl) b.body
      | none => exact leave_from .nothing _
  | count body scope => exact nextRound_from (hscope scope rfl) body 0 _
  | test condition body scope =>
    have hscope := hscope scope rfl
    simp only [takeValue]
    split
    · exact enter_open_from scope [] body (f := fun e => .again e condition body scope)
        (fun _ => rfl) (fun _ => .plain hscope (Or.inl rfl) rfl) fun _ => rfl
    · exact leave_from .nothing _
  | collection pos x body scope =>
    simp only [takeValue]
    split
    · next items _ => exact nextEach_from (hscope scope rfl) x body 0 items
    · next y hy => exact raise_from pos ((iterated_mild v).elim hy)
  | result => exact leave_from .nothing _
  | thrown pos => exact raise_from pos (by simp [Fault.kind])
  | payload event => exact leave_from (.said s.output _ (List.prefix_refl _)) _
  | hostArgument pos verb into read rest scope =>
    exact nextHostArgument_from (hscope scope rfl) pos verb into _ rest

theorem afterRound_from (f : Flow) {p : Session → Step} (hp : From g s k (p s)) :
    From g s k (afterRound s k f p) := by
  cases f with
  | broken pos => exact leave_from .nothing _
  | normal => exact hp
  | continued pos => exact hp
  | returned v => exact leave_from .nothing _

/-- A flow that is a result outside of all loops. -/
theorem outside_from (flow : Flow) :
    From g s k (match flow.outside with
      | .ok v => give s k v
      | .error r => .next s ⟨.raised r, k⟩) := by
  cases h : flow.outside with
  | ok v => exact give_from v
  | error r => exact raised_from fun hr => absurd hr (Flow.outside_mild h)

theorem takeFlow_from (flow : Flow) {f : FlowFrame} (hf : g.Frame (.flow f)) :
    From g (s.without (held ⟨.flow flow, .flow f :: k⟩) (.flow f)) k (takeFlow s k flow f) := by
  have hscope : ∀ scope, f.scope? = some scope → scope ∈ g.scopes := hf.scope
  cases f with
  | rest body scope =>
    cases flow with
    | normal => exact block_from (hscope scope rfl) body
    | _ => exact leave_from .nothing _
  | round inner next count body scope =>
    exact afterRound_from flow (p := fun s => nextRound s k scope body next count)
      (nextRound_from (hscope scope rfl) body next count)
  | again inner condition body scope =>
    exact afterRound_from flow (p := fun s => nextTest s k scope condition body)
      (nextTest_from (hscope scope rfl) condition body)
  | each inner x items next body scope =>
    exact afterRound_from flow (p := fun s => nextEach s k scope x body next items)
      (nextEach_from (hscope scope rfl) x body next items)
  | called inner f extra => exact outside_from flow
  | attempt x handler scope => exact leave_from .nothing _
  | caught inner => exact leave_from .nothing _

theorem unwind_from {r : Raised} (hr : r.fault.kind = .recursionLimit → g.refuses) {f : FlowFrame}
    (hf : g.Frame (.flow f)) :
    From g (s.without (held ⟨.raised r, .flow f :: k⟩) (.flow f)) k (unwind s k r f) := by
  cases f with
  | attempt x handler scope =>
    exact enter_open_from scope _ handler (f := fun e => .caught e) (fun _ => rfl)
      (fun _ => .plain (hf.scope scope rfl) (Or.inr rfl) rfl) fun _ => rfl
  | _ => exact raised_from hr

/-! ## Steps -/

/-- The frame that is taken goes on where the step may. -/
theorem grounds_taken {m : Machine} {f : Frame} (h : m.taken? = some f) (s : Session) :
    (m.grounds s).Frame f := by
  refine ⟨fun e he => ?_, fun n hn => Or.inr ⟨f, h, hn⟩⟩
  refine List.mem_append_right _ ?_
  rw [h, Option.toList_some, List.filterMap_cons_some he]
  exact List.mem_cons_self

/-- A step takes a frame, whose scope ends, writes and puts frames; or it asks the host; or all is
done. -/
theorem step_cases (s : Session) (m : Machine) :
    From (m.grounds s) (m.ended s) m.rest (step s m) ∨ (∃ command, step s m = .ask command s m) ∨
      (m.stack = [] ∧ m.control.scope? = none ∧ ∃ r, step s m = .done s r) := by
  have hnatives : ∀ name n, Table.get? s.natives name = some n → (m.grounds s).natives n :=
    fun name n hn => Or.inl ⟨name, hn⟩
  have hscope : ∀ {e}, m.control.scope? = some e → e ∈ (m.grounds s).scopes := by
    intro e he
    refine List.mem_append_left _ ?_
    rw [he]
    exact List.mem_cons_self
  obtain ⟨c, k⟩ := m
  cases c with
  | block body scope =>
    refine Or.inl ?_
    cases body with
    | nil => exact leave_from .nothing _
    | cons stmt rest =>
      refine From.push (exec_from (hscope rfl) hnatives stmt ?_) rfl
        (.plain (hscope rfl) (Or.inl rfl) rfl)
      rintro pos name f rfl hf hrefuses
      exact Or.inr ⟨f, [], by simp [call?, hf, Except.toOption], hrefuses⟩
  | eval e scope =>
    refine Or.inl (eval_from (hscope rfl) hnatives e ?_)
    rintro pos name f rfl hf hrefuses
    exact Or.inr ⟨f, [], by simp [call?, hf, Except.toOption], hrefuses⟩
  | asking pos command into scope => exact Or.inr (Or.inl ⟨command, rfl⟩)
  | replied pos verb reply into scope =>
    refine Or.inl ?_
    cases reply with
    | error reason => exact raise_from pos (by simp [Fault.kind])
    | ok v =>
      cases into with
      | none => exact leave_from .nothing _
      | some x => exact leave_from (.bound x v (hscope rfl)) _
  | value v =>
    rcases k with _ | ⟨f | f, k⟩
    · exact Or.inr (Or.inr ⟨rfl, rfl, _, rfl⟩)
    · refine Or.inl (takeValue_from v (grounds_taken rfl s) ?_)
      rintro pos name f read scope rfl hrefuses
      exact Or.inr ⟨f, _, rfl, hrefuses⟩
    · exact Or.inl (leave_from .nothing _)
  | flow flow =>
    rcases k with _ | ⟨f | f, k⟩
    · exact Or.inr (Or.inr ⟨rfl, rfl, _, rfl⟩)
    · exact Or.inl (outside_from flow)
    · exact Or.inl (takeFlow_from flow (grounds_taken rfl s))
  | raised r =>
    have hr : r.fault.kind = .recursionLimit → (Machine.grounds ⟨.raised r, k⟩ s).refuses :=
      fun hk => Or.inl ⟨r, rfl, hk⟩
    rcases k with _ | ⟨f | f, k⟩
    · exact Or.inr (Or.inr ⟨rfl, rfl, _, rfl⟩)
    · exact Or.inl (raised_from hr)
    · exact Or.inl (unwind_from hr (grounds_taken rfl s))

/-- **What a step can do.** -/
theorem step_from {m m' : Machine} {s' : Session} (h : step s m = .next s' m') :
    From (m.grounds s) (m.ended s) m.rest (.next s' m') := by
  rcases step_cases s m with hfrom | ⟨command, hask⟩ | ⟨-, -, r, hdone⟩
  · rwa [h] at hfrom
  · rw [h] at hask
    cases hask
  · rw [h] at hdone
    cases hdone

/-! ## Refused calls -/

/-- What a call without arguments goes to. -/
theorem callee_of_call {scope : ScopeId} {name : String} {f : Callee} {args : List Value}
    (h : (callee s scope name).toOption.map (fun f => (f, [])) = some (f, args)) :
    callee s scope name = .ok f ∧ args = [] := by
  cases hf : callee s scope name with
  | error x =>
    rw [hf] at h
    cases h
  | ok f' =>
    rw [hf] at h
    cases h
    exact ⟨rfl, rfl⟩

/-- With all arguments known, the next step makes the call. -/
theorem step_call {m : Machine} {f : Callee} {args : List Value}
    (h : m.call? s = some (f, args)) :
    ∃ k again pos name, step s m = apply s k again pos name f args := by
  obtain ⟨c, k⟩ := m
  unfold call? at h
  split at h
  · next pos name scope hc =>
    obtain ⟨hf, rfl⟩ := callee_of_call h
    obtain rfl : c = .eval (.call pos name []) scope := hc
    exact ⟨_, _, pos, name, by simp only [step, eval, call, hf]; rfl⟩
  · next pos name rest scope hc =>
    obtain ⟨hf, rfl⟩ := callee_of_call h
    obtain rfl : c = .block (.call pos name [] :: rest) scope := hc
    exact ⟨_, _, pos, name, by simp only [step, exec, call, hf]; rfl⟩
  · next v pos name f' read scope k' hc hk =>
    obtain ⟨rfl, rfl⟩ := Prod.mk.inj (Option.some.inj h)
    obtain rfl : c = .value v := hc
    obtain rfl : k = .value (.argument pos name f' read [] scope) :: k' := hk
    exact ⟨_, _, pos, name, rfl⟩
  · cases h

/-- A native function is called by its name, or by a frame. -/
theorem call?_native {m : Machine} {f : Native} {args : List Value}
    (h : m.call? s = some (.native f, args)) :
    (∃ name, Table.get? s.natives name = some f) ∨ ∃ g ∈ m.stack, f ∈ g.native? := by
  obtain ⟨c, k⟩ := m
  unfold call? at h
  split at h
  · next pos name scope hc => exact Or.inl ⟨name, callee_native (callee_of_call h).1⟩
  · next pos name rest scope hc => exact Or.inl ⟨name, callee_native (callee_of_call h).1⟩
  · next v pos name f' read scope k' hc hk =>
    obtain ⟨rfl, -⟩ := Prod.mk.inj (Option.some.inj h)
    obtain rfl : k = .value (.argument pos name (.native f) read [] scope) :: k' := hk
    exact Or.inr ⟨_, List.mem_cons_self, rfl⟩
  · cases h

/-- The next step complains of too many calls, and none before it did. -/
def Complains (m : Machine) (s : Session) : Prop :=
  ¬ m.control.Refused ∧ ∃ s' m', step s m = .next s' m' ∧ m'.control.Refused

/-- **Only refused calls complain** of too many calls, and all of them do. -/
theorem complains_iff (m : Machine) (s : Session) :
    m.Complains s ↔ ∃ f args, m.call? s = some (f, args) ∧ f.Refuses s args := by
  constructor
  · rintro ⟨hbefore, s', m', hstep, hafter⟩
    obtain ⟨s₁, fs, -, hputs, -⟩ := step_from hstep
    obtain ⟨c', k'⟩ := m'
    cases hputs with
    | goes hfs hc => exact (hc.refused hafter).resolve_left hbefore
    | opens p bs body hfs hinner hframe hlimit =>
      obtain ⟨r, hr, -⟩ := hafter
      cases hr
  · rintro ⟨f, args, hcall, hrefuses⟩
    constructor
    · rintro ⟨r, hr, -⟩
      obtain ⟨c, k⟩ := m
      obtain rfl : c = .raised r := hr
      cases hcall
    · obtain ⟨k, again, pos, name, hstep⟩ := step_call hcall
      rw [hstep]
      cases f with
      | function f =>
        have hlimit : s.maxDepth ≤ s.depth := hrefuses
        exact ⟨s, _, by simp only [apply, if_pos hlimit]; rfl, _, rfl, rfl⟩
      | native f =>
        obtain ⟨x, hx, hk⟩ := hrefuses
        exact ⟨s, _, by simp only [apply, hx]; rfl, _, rfl, hk⟩

end Machine

end DeskScript
