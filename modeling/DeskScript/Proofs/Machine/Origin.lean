import DeskScript.Proofs.Program.Sites
import DeskScript.Proofs.Scope.Bindings
import DeskScript.Proofs.Value.Functions

/-!
# All that runs is part of the code

Whatever a machine executes was once written down: the blocks and expressions in
control and on the stack, and the bodies of the functions and handlers that the
session knows, are parts of the code it was given. The stack agrees with the code
about loops. Where a block runs, there is a loop for its jumps on the stack before
the end of the function exactly if its statements stand in one:

    Machine.PartOf code m → m.control = .block (s :: rest) e → (inLoop m.stack, s) ∈ sitesOf code

So a fault has a place in the code, and the complaint about a stray jump comes from a
stray one. There is one lemma for each function that a step is made of, and then one
for steps (`Machine.step_partOf`) and for runs (`Machine.run_partOf`).
-/

namespace DeskScript

/-! ## Parts of code -/

/-- A function whose body stands in the code on its own. -/
def Closure.PartOf (code : Set Block) (f : Closure) : Prop := BodyOf code false f.body.body

/-- A value whose functions all come from the code. -/
abbrev Value.PartOf (code : Set Block) (v : Value) : Prop := v.Only (Closure.PartOf code)

/-- A fault that arose at a place of the code. A complaint about a stray jump arose at one. -/
structure Raised.PartOf (code : Set Block) (r : Raised) : Prop where
  place : r.pos ∈ placesOf code
  strayBreak : r.fault.kind = .breakOutsideLoop → (false, .break_ r.pos) ∈ sitesOf code
  strayContinue : r.fault.kind = .continueOutsideLoop → (false, .continue_ r.pos) ∈ sitesOf code

/-- A jump stands at a site, `looped` saying whether there is a loop for it. -/
def Flow.PartOf (code : Set Block) (looped : Bool) : Flow → Prop
  | normal => True
  | broken pos => (looped, .break_ pos) ∈ sitesOf code
  | continued pos => (looped, .continue_ pos) ∈ sitesOf code
  | returned v => v.PartOf code

def Callee.PartOf (code : Set Block) : Callee → Prop
  | function f => f.PartOf code
  | native f => f.Tame

/-- The keys of a path are parts of the code. -/
def PathOf (code : Set Block) (path : List Accessor) : Prop :=
  ∀ e ∈ path.filterMap Accessor.key?, e.PartOf code

/-- Has a jump a loop to go to before the function ends that it is in? -/
def inLoop : List Frame → Bool
  | .flow (.rest _ _) :: k | .flow (.attempt _ _ _) :: k | .flow (.caught _) :: k => inLoop k
  | .flow (.round _ _ _ _ _) :: _ | .flow (.again _ _ _ _) :: _
  | .flow (.each _ _ _ _ _ _) :: _ => true
  | _ => false

/-- What a frame goes on with is part of the code, `looped` saying whether the frames below have a
loop for it. -/
def Frame.PartOf (code : Set Block) (looped : Bool) : Frame → Prop
  | value (.left pos _ e _) | value (.indexed pos e _) => pos ∈ placesOf code ∧ e.PartOf code
  | value (.right pos _ v) | value (.index pos v) => pos ∈ placesOf code ∧ v.PartOf code
  | value (.operand pos _) | value (.memberOf pos _) | value (.thrown pos) => pos ∈ placesOf code
  | value (.argument pos _ callee read rest _) =>
    pos ∈ placesOf code ∧ callee.PartOf code ∧ (∀ v ∈ read, v.PartOf code) ∧
      ∀ e ∈ rest, e.PartOf code
  | value (.item read rest _) => (∀ v ∈ read, v.PartOf code) ∧ ∀ e ∈ rest, e.PartOf code
  | value (.field read _ rest _) =>
    (∀ p ∈ read, p.2.PartOf code) ∧ ∀ p ∈ rest, p.2.PartOf code
  | value (.assigned pos _ path _) => pos ∈ placesOf code ∧ PathOf code path
  | value (.key pos _ v _ rest _) => pos ∈ placesOf code ∧ v.PartOf code ∧ PathOf code rest
  | value (.condition yes no _) =>
    BodyOf code looped yes.body ∧ ∀ b, no = some b → BodyOf code looped b.body
  | value (.count body _) => BodyOf code true body.body
  | value (.test condition body _) => condition.PartOf code ∧ BodyOf code true body.body
  | value (.collection pos _ body _) => pos ∈ placesOf code ∧ BodyOf code true body.body
  | value (.hostArgument pos _ _ _ rest _) => pos ∈ placesOf code ∧ ∀ e ∈ rest, e.PartOf code
  | value (.decided _) | value .printed | value .result | value (.payload _) => True
  | flow (.rest body _) => BodyOf code looped body
  | flow (.round _ _ _ body _) => BodyOf code true body.body
  | flow (.again _ condition body _) => condition.PartOf code ∧ BodyOf code true body.body
  | flow (.each _ _ items _ body _) =>
    (∀ v ∈ items, v.PartOf code) ∧ BodyOf code true body.body
  | flow (.attempt _ handler _) => BodyOf code looped handler.body
  | flow (.called _ _ _) | flow (.caught _) => True

def StackOf (code : Set Block) : List Frame → Prop
  | [] => True
  | f :: k => f.PartOf code (inLoop k) ∧ StackOf code k

def Control.PartOf (code : Set Block) (looped : Bool) : Control → Prop
  | block body _ => BodyOf code looped body
  | eval e _ => e.PartOf code
  | value v => v.PartOf code
  | flow f => f.PartOf code looped
  | raised r => r.PartOf code
  | asking pos _ _ _ => pos ∈ placesOf code
  | replied pos _ reply _ _ => pos ∈ placesOf code ∧ ∀ v, reply = .ok v → v.PartOf code

structure Machine.PartOf (code : Set Block) (m : Machine) : Prop where
  control : m.control.PartOf code (inLoop m.stack)
  stack : StackOf code m.stack

structure Session.PartOf (code : Set Block) (s : Session) : Prop where
  bindings : s.scopes.BindsOnly (Value.PartOf code)
  natives : s.natives.Tame
  handlers : ∀ h ∈ s.handlers, BodyOf code false h.body.body

/-- The result of a run outside of all loops. -/
def ResultOf (code : Set Block) : Except Raised Flow → Prop
  | .ok f => f.PartOf code false
  | .error r => r.PartOf code

def Step.PartOf (code : Set Block) : Step → Prop
  | .next s m | .ask _ s m => s.PartOf code ∧ m.PartOf code
  | .done s r => s.PartOf code ∧ ResultOf code r

section
variable {code : Set Block}

/-! ## Faults and flows -/

theorem Raised.partOf_of_not_stray {x : Fault} {pos : Position} (hpos : pos ∈ placesOf code)
    (hx : ¬ x.Stray) : Raised.PartOf code ⟨x, pos⟩ :=
  ⟨hpos, fun h => absurd (Or.inl h) hx, fun h => absurd (Or.inr h) hx⟩

/-- Outside of all loops a jump is a stray one. -/
theorem Flow.PartOf.outside {f : Flow} (h : f.PartOf code false) :
    match f.outside with
    | .ok v => v.PartOf code
    | .error r => r.PartOf code := by
  cases f with
  | normal => exact Value.only_null
  | returned v => exact h
  | broken pos => exact ⟨pos_mem_places h, fun _ => h, nofun⟩
  | continued pos => exact ⟨pos_mem_places h, nofun, fun _ => h⟩

/-! ## Sessions -/

namespace Session.PartOf

variable {s : Session}

theorem openScope (h : s.PartOf code) (parent : ScopeId) {bs : List (String × Value)}
    (hbs : ∀ p ∈ bs, p.2.PartOf code) : (s.openScope parent bs).2.PartOf code :=
  ⟨(h.bindings.child parent).defineAll _ hbs, h.natives, h.handlers⟩

theorem closeScope (h : s.PartOf code) (held : Unit → List ScopeId) (e : ScopeId) :
    (s.closeScope held e).PartOf code :=
  ⟨h.bindings.release _ e, h.natives, h.handlers⟩

theorem withScopes (h : s.PartOf code) {a : Arena} (ha : a.BindsOnly (Value.PartOf code)) :
    Session.PartOf code { s with scopes := a } :=
  ⟨ha, h.natives, h.handlers⟩

theorem defineGlobal (h : s.PartOf code) (x : String) {v : Value} (hv : v.PartOf code) :
    (s.defineGlobal x v).PartOf code :=
  h.withScopes (h.bindings.define _ x (hv.rename fun _ _ hf => hf))

theorem defineFunction (h : s.PartOf code) (e : ScopeId) (name : String) (params : List String)
    {body : Block} (hbody : BodyOf code false body.body) :
    (s.defineFunction e name params body).PartOf code := by
  refine ⟨?_, h.natives, h.handlers⟩
  refine (h.bindings.shrinks (Arena.relabels_capture s.scopes e).shrinks).define e name ?_
  exact Value.only_function.mpr hbody

theorem addHandler (h : s.PartOf code) (e : ScopeId) (event : String) {body : Block}
    (hbody : BodyOf code false body.body) : (s.addHandler e event body).PartOf code := by
  refine ⟨h.bindings.shrinks (Arena.relabels_pin s.scopes e).shrinks, h.natives, fun x hx => ?_⟩
  rcases Array.mem_push.mp hx with hx | rfl
  · exact h.handlers x hx
  · exact hbody

end Session.PartOf

/-- A session at its start, before any code. -/
theorem Session.partOf_initial (code : Set Block) {natives : Natives} (hn : natives.Tame)
    (id maxDepth : Nat) : (Session.initial id natives maxDepth).PartOf code :=
  ⟨Arena.bindsOnly_initial _, hn, by simp [initial]⟩

/-! ## Results of steps -/

namespace Machine

variable {s : Session} {k : List Frame} (hs : s.PartOf code) (hk : StackOf code k)

include hs hk

theorem give_partOf {v : Value} (hv : v.PartOf code) : (give s k v).PartOf code :=
  ⟨hs, hv, hk⟩

theorem leave_partOf {f : Flow} (hf : f.PartOf code (inLoop k)) : (leave s k f).PartOf code :=
  ⟨hs, hf, hk⟩

theorem leave_normal_partOf : (leave s k .normal).PartOf code := leave_partOf hs hk trivial

theorem raise_partOf {pos : Position} (hpos : pos ∈ placesOf code) {x : Fault} (hx : ¬ x.Stray) :
    (raise s k pos x).PartOf code :=
  ⟨hs, Raised.partOf_of_not_stray hpos hx, hk⟩

theorem settle_partOf {pos : Position} (hpos : pos ∈ placesOf code) {r : Except Fault Value}
    (hr : Yields (Value.PartOf code) r) : (settle s k pos r).PartOf code := by
  cases r with
  | ok v => exact give_partOf hs hk hr
  | error x => exact raise_partOf hs hk hpos hr

theorem compute_partOf (scope : ScopeId) {e : Expr} (he : e.PartOf code) {f : ValueFrame}
    (hf : (Frame.value f).PartOf code (inLoop k)) : (compute s k scope e f).PartOf code :=
  ⟨hs, he, hf, hk⟩

theorem enter_partOf (scope : ScopeId) {b : Block} {f : FlowFrame}
    (hb : BodyOf code (inLoop (.flow f :: k)) b.body)
    (hf : (Frame.flow f).PartOf code (inLoop k)) : (enter s k scope b f).PartOf code :=
  ⟨hs, hb, hf, hk⟩

/-- A flow that is a result outside of all loops. -/
theorem outside_partOf {flow : Flow} (hflow : flow.PartOf code false) :
    (match flow.outside with
      | .ok v => give s k v
      | .error r => .next s ⟨.raised r, k⟩ : Step).PartOf code := by
  have hout := hflow.outside
  cases h : flow.outside <;> rw [h] at hout
  · exact ⟨hs, hout, hk⟩
  · exact give_partOf hs hk hout

/-! ## Calls -/

omit hk in
theorem callee_partOf (scope : ScopeId) (name : String) :
    Yields (Callee.PartOf code) (callee s scope name) := by
  unfold callee
  split
  · next f hf => exact Value.only_function.mp (hs.bindings.get? hf)
  · split
    · next f hf => exact hs.natives _ (Table.mem_of_get? hf)
    · exact yields_mismatch _
    · simp [Yields, Fault.Stray, Fault.kind]

omit hs hk in
theorem parameters_partOf (ps : List String) {args : List Value}
    (h : ∀ v ∈ args, v.PartOf code) : ∀ p ∈ parameters ps args, p.2.PartOf code := by
  induction ps generalizing args with
  | nil => exact List.forall_mem_nil _
  | cons p ps ih =>
    cases args with
    | nil => exact List.forall_mem_cons.mpr ⟨Value.only_null, ih h⟩
    | cons v args =>
      obtain ⟨hv, hargs⟩ := List.forall_mem_cons.mp h
      exact List.forall_mem_cons.mpr ⟨hv, ih hargs⟩

theorem apply_partOf {again : Machine} (hagain : again.PartOf code) {pos : Position}
    (hpos : pos ∈ placesOf code) (name : String) {f : Callee} (hf : f.PartOf code)
    {args : List Value} (hargs : ∀ v ∈ args, v.PartOf code) :
    (apply s k again pos name f args).PartOf code := by
  cases f with
  | native f =>
    unfold apply
    cases hr : f args with
    | none =>
      simp only [hr]
      exact ⟨hs, hagain⟩
    | some r =>
      simp only [hr]
      exact settle_partOf hs hk hpos (hf _ args r hr hargs)
  | function f =>
    have hopen := hs.openScope f.scope (parameters_partOf f.params hargs)
    unfold apply
    by_cases hlimit : s.maxDepth ≤ s.depth
    · simp only [if_pos hlimit]
      exact raise_partOf hs hk hpos (by simp [Fault.Stray, Fault.kind])
    · simp only [if_neg hlimit]
      have hdeeper : Session.PartOf code
          { (s.openScope f.scope (parameters f.params args)).2 with depth := s.depth + 1 } :=
        ⟨hopen.bindings, hopen.natives, hopen.handlers⟩
      exact enter_partOf (f := .called _ f _) hdeeper hk _ hf trivial

theorem nextArgument_partOf {again : Machine} (hagain : again.PartOf code) (scope : ScopeId)
    {pos : Position} (hpos : pos ∈ placesOf code) (name : String) {f : Callee}
    (hf : f.PartOf code) {read : List Value} (hread : ∀ v ∈ read, v.PartOf code)
    {args : List Expr} (hargs : ∀ e ∈ args, e.PartOf code) :
    (nextArgument s k again scope pos name f read args).PartOf code := by
  cases args with
  | nil => exact apply_partOf hs hk hagain hpos name hf fun v hv => hread v (List.mem_reverse.mp hv)
  | cons e rest =>
    obtain ⟨he, hrest⟩ := List.forall_mem_cons.mp hargs
    exact compute_partOf hs hk scope he ⟨hpos, hf, hread, hrest⟩

theorem call_partOf {again : Machine} (hagain : again.PartOf code) (scope : ScopeId)
    {pos : Position} (hpos : pos ∈ placesOf code) (name : String) {args : List Expr}
    (hargs : ∀ e ∈ args, e.PartOf code) : (call s k again scope pos name args).PartOf code := by
  have hcallee := callee_partOf hs scope name
  unfold call
  cases hf : callee s scope name <;> rw [hf] at hcallee
  · exact raise_partOf hs hk hpos hcallee
  · exact nextArgument_partOf hs hk hagain scope hpos name hcallee (List.forall_mem_nil _) hargs

/-! ## Expressions -/

theorem nextItem_partOf (scope : ScopeId) {read : List Value} (hread : ∀ v ∈ read, v.PartOf code)
    {items : List Expr} (hitems : ∀ e ∈ items, e.PartOf code) :
    (nextItem s k scope read items).PartOf code := by
  cases items with
  | nil =>
    refine give_partOf hs hk (Value.only_array.mpr fun v hv => ?_)
    exact hread v (List.mem_reverse.mp hv)
  | cons e rest =>
    obtain ⟨he, hrest⟩ := List.forall_mem_cons.mp hitems
    exact compute_partOf hs hk scope he ⟨hread, hrest⟩

theorem nextField_partOf (scope : ScopeId) {read : Table Value}
    (hread : ∀ p ∈ read, p.2.PartOf code) {fields : List (String × Expr)}
    (hfields : ∀ p ∈ fields, p.2.PartOf code) : (nextField s k scope read fields).PartOf code := by
  cases fields with
  | nil => exact give_partOf hs hk (Value.only_object.mpr hread)
  | cons p rest =>
    obtain ⟨hp, hrest⟩ := List.forall_mem_cons.mp hfields
    exact compute_partOf hs hk scope hp ⟨hread, hrest⟩

omit hk in
theorem lookup_partOf (scope : ScopeId) (x : String) :
    Yields (Value.PartOf code) (lookup s scope x) := by
  unfold lookup
  split
  · next v hv => exact hs.bindings.get? hv
  · simp [Yields, Fault.Stray, Fault.kind]

omit hk in
theorem templateText_partOf (scope : ScopeId) (text : String) (parts : List TextPart) :
    Yields (Value.PartOf code) (templateText s scope text parts) := by
  induction parts generalizing text with
  | nil => exact Value.only_string text
  | cons p parts ih =>
    cases p with
    | text t => exact ih _
    | var x => exact (lookup_partOf hs scope x).bind fun _ _ => ih _

theorem eval_partOf (scope : ScopeId) {e : Expr} (he : e.PartOf code) :
    (eval s k scope e).PartOf code := by
  have hpos := he.pos
  have hchild : ∀ x ∈ e.children, x.PartOf code := fun x hx => he.child hx
  cases e with
  | literal pos l => exact give_partOf hs hk (Value.only_ofLiteral l)
  | var pos x => exact settle_partOf hs hk hpos (lookup_partOf hs scope x)
  | binary pos op l r =>
    exact compute_partOf hs hk scope (hchild l (by simp [Expr.children]))
      ⟨hpos, hchild r (by simp [Expr.children])⟩
  | unary pos op e => exact compute_partOf hs hk scope (hchild e (by simp [Expr.children])) hpos
  | call pos name args =>
    have hagain : Machine.PartOf code ⟨.eval (.call pos name args) scope, k⟩ := ⟨he, hk⟩
    exact call_partOf hs hk hagain scope hpos name hchild
  | array pos items => exact nextItem_partOf hs hk scope (List.forall_mem_nil _) hchild
  | object pos fields =>
    exact nextField_partOf hs hk scope (List.forall_mem_nil _) (List.forall_mem_map.mp hchild)
  | member pos e p => exact compute_partOf hs hk scope (hchild e (by simp [Expr.children])) hpos
  | index pos e i =>
    exact compute_partOf hs hk scope (hchild e (by simp [Expr.children]))
      ⟨hpos, hchild i (by simp [Expr.children])⟩
  | group pos e => exact ⟨hs, hchild e (by simp [Expr.children]), hk⟩
  | template pos parts => exact settle_partOf hs hk hpos (templateText_partOf hs scope "" parts)

/-! ## Loops -/

theorem nextRound_partOf (scope : ScopeId) {body : Block} (hbody : BodyOf code true body.body)
    (next count : Nat) : (nextRound s k scope body next count).PartOf code := by
  unfold nextRound
  split
  · exact enter_partOf (hs.openScope scope (by simp)) hk _ hbody hbody
  · exact leave_normal_partOf hs hk

theorem nextTest_partOf (scope : ScopeId) {condition : Expr} (hc : condition.PartOf code)
    {body : Block} (hbody : BodyOf code true body.body) :
    (nextTest s k scope condition body).PartOf code :=
  compute_partOf hs hk scope hc ⟨hc, hbody⟩

theorem nextEach_partOf (scope : ScopeId) (name : String) {body : Block}
    (hbody : BodyOf code true body.body) (next : Nat) {items : List Value}
    (hitems : ∀ v ∈ items, v.PartOf code) :
    (nextEach s k scope name body next items).PartOf code := by
  cases items with
  | nil => exact leave_normal_partOf hs hk
  | cons v items =>
    obtain ⟨hv, hrest⟩ := List.forall_mem_cons.mp hitems
    exact enter_partOf (hs.openScope scope (by simpa using hv)) hk _ hbody ⟨hrest, hbody⟩

/-! ## Statements -/

theorem assign_partOf (scope : ScopeId) {pos : Position} (hpos : pos ∈ placesOf code)
    (name : String) {value : Value} (hvalue : value.PartOf code) (keys : List Value.Key) :
    (assign s k scope pos name value keys).PartOf code := by
  unfold assign
  split
  · exact raise_partOf hs hk hpos (by simp [Fault.Stray, Fault.kind])
  · next owner old hold =>
    have hassign := Value.assign_yields hvalue keys (hs.bindings.find? hold)
    split <;> rename_i hv <;> rw [hv] at hassign
    · exact leave_normal_partOf (hs.withScopes (hs.bindings.define owner name hassign)) hk
    · exact raise_partOf hs hk hpos hassign

theorem nextKey_partOf (scope : ScopeId) {pos : Position} (hpos : pos ∈ placesOf code)
    (name : String) {value : Value} (hvalue : value.PartOf code) (read : List Value.Key)
    {path : List Accessor} (hpath : PathOf code path) :
    (nextKey s k scope pos name value read path).PartOf code := by
  induction path generalizing read with
  | nil => exact assign_partOf hs hk scope hpos name hvalue _
  | cons a rest ih =>
    cases a with
    | member x => exact ih _ hpath
    | index e =>
      obtain ⟨he, hrest⟩ := List.forall_mem_cons.mp hpath
      exact compute_partOf hs hk scope he ⟨hpos, hvalue, hrest⟩

theorem nextHostArgument_partOf (scope : ScopeId) {pos : Position} (hpos : pos ∈ placesOf code)
    (verb : Verb) (into : Option String) (read : List Value) {args : List Expr}
    (hargs : ∀ e ∈ args, e.PartOf code) :
    (nextHostArgument s k scope pos verb into read args).PartOf code := by
  cases args with
  | nil =>
    have hcommand := Command.ofArgs_yields verb read.reverse
    simp only [nextHostArgument]
    split <;> rename_i h <;> rw [h] at hcommand
    · exact ⟨hs, hpos, hk⟩
    · exact raise_partOf hs hk hpos hcommand
  | cons e rest =>
    obtain ⟨he, hrest⟩ := List.forall_mem_cons.mp hargs
    exact compute_partOf hs hk scope he ⟨hpos, hrest⟩

theorem exec_partOf (scope : ScopeId) {stmt : Stmt} (h : (inLoop k, stmt) ∈ sitesOf code) :
    (exec s k scope stmt).PartOf code := by
  have hpos := pos_mem_places h
  have hexpr : ∀ e ∈ stmt.exprs, e.PartOf code := fun e he => Expr.partOf_site h he
  have hbody : ∀ q ∈ stmt.bodies (inLoop k), BodyOf code q.1 q.2.body :=
    fun q hq => bodyOf_inside h hq
  cases stmt with
  | block pos b => exact ⟨hs, hbody (_, b) (by simp [Stmt.bodies]), hk⟩
  | set pos x path e =>
    obtain ⟨he, hpath⟩ := List.forall_mem_cons.mp hexpr
    exact compute_partOf hs hk scope he ⟨hpos, hpath⟩
  | print pos e => exact compute_partOf hs hk scope (hexpr e (by simp [Stmt.exprs])) trivial
  | branch pos e yes no =>
    refine compute_partOf hs hk scope (hexpr e (by simp [Stmt.exprs])) ⟨?_, fun b hb => ?_⟩
    · exact hbody (_, yes) (by simp [Stmt.bodies])
    · exact hbody (_, b) (by simp [Stmt.bodies, hb])
  | loop pos e body =>
    exact compute_partOf hs hk scope (hexpr e (by simp [Stmt.exprs]))
      (hbody (true, body) (by simp [Stmt.bodies]))
  | while_ pos e body =>
    exact nextTest_partOf hs hk scope (hexpr e (by simp [Stmt.exprs]))
      (hbody (true, body) (by simp [Stmt.bodies]))
  | foreach pos x e body =>
    have he := hexpr e (by simp [Stmt.exprs])
    exact compute_partOf hs hk scope he ⟨he.pos, hbody (true, body) (by simp [Stmt.bodies])⟩
  | break_ pos => exact leave_partOf hs hk h
  | continue_ pos => exact leave_partOf hs hk h
  | return_ pos e =>
    cases e with
    | none => exact leave_partOf hs hk (f := .returned .null) Value.only_null
    | some e => exact compute_partOf hs hk scope (hexpr e (by simp [Stmt.exprs])) trivial
  | define pos f params body =>
    have hf := hbody (false, body) (by simp [Stmt.bodies])
    exact leave_normal_partOf (hs.defineFunction scope f params hf) hk
  | call pos f args =>
    have hagain : Machine.PartOf code ⟨.eval (.call pos f args) scope, k⟩ :=
      ⟨Expr.startsIn_iff.mpr ⟨hpos, hexpr⟩, hk⟩
    exact call_partOf hs hk hagain scope hpos f hexpr
  | attempt pos body x handler =>
    exact enter_partOf hs hk scope (hbody (_, body) (by simp [Stmt.bodies]))
      (hbody (_, handler) (by simp [Stmt.bodies]))
  | throw pos e => exact compute_partOf hs hk scope (hexpr e (by simp [Stmt.exprs])) hpos
  | on pos event body =>
    have hhandler := hbody (false, body) (by simp [Stmt.bodies])
    exact leave_normal_partOf (hs.addHandler scope event hhandler) hk
  | emit pos event e =>
    cases e with
    | none => exact leave_normal_partOf ⟨hs.bindings, hs.natives, hs.handlers⟩ hk
    | some e => exact compute_partOf hs hk scope (hexpr e (by simp [Stmt.exprs])) trivial
  | host pos verb args into => exact nextHostArgument_partOf hs hk scope hpos verb into [] hexpr

/-! ## Frames -/

theorem takeValue_partOf {v : Value} (hv : v.PartOf code) {f : ValueFrame}
    (hf : (Frame.value f).PartOf code (inLoop k)) : (takeValue s k v f).PartOf code := by
  cases f with
  | left pos op r scope =>
    have hgive := give_partOf hs hk hv
    have hdecided := compute_partOf hs hk scope hf.2 (f := .decided v) trivial
    have hright := compute_partOf hs hk scope hf.2 (f := .right pos op v) ⟨hf.1, hv⟩
    simp only [takeValue]
    cases op <;> cases v.truthy <;> first | exact hgive | exact hdecided | exact hright
  | right pos op l => exact settle_partOf hs hk hf.1 (Value.binary_yields op hf.2 hv)
  | decided l => exact give_partOf hs hk hv
  | operand pos op => exact settle_partOf hs hk hf (Value.unary_yields op v)
  | argument pos name callee read rest scope =>
    have hagain : Machine.PartOf code
        ⟨.value v, .value (.argument pos name callee read rest scope) :: k⟩ := ⟨hv, hf, hk⟩
    obtain ⟨hpos, hcallee, hread, hrest⟩ := hf
    exact nextArgument_partOf hs hk hagain scope hpos name hcallee
      (List.forall_mem_cons.mpr ⟨hv, hread⟩) hrest
  | item read rest scope =>
    exact nextItem_partOf hs hk scope (List.forall_mem_cons.mpr ⟨hv, hf.1⟩) hf.2
  | field read key rest scope =>
    exact nextField_partOf hs hk scope (Table.put_only hf.1 hv key) hf.2
  | memberOf pos p => exact settle_partOf hs hk hf (Value.member_yields hv p)
  | indexed pos i scope => exact compute_partOf hs hk scope hf.2 ⟨hf.1, hv⟩
  | index pos object => exact settle_partOf hs hk hf.1 (Value.at_yields hf.2 v)
  | assigned pos x path scope =>
    cases path with
    | nil => exact leave_normal_partOf (hs.withScopes (hs.bindings.set scope x hv)) hk
    | cons a path => exact nextKey_partOf hs hk scope hf.1 x hv [] hf.2
  | key pos x value read rest scope => exact nextKey_partOf hs hk scope hf.1 x hf.2.1 _ hf.2.2
  | printed => exact leave_normal_partOf ⟨hs.bindings, hs.natives, hs.handlers⟩ hk
  | condition yes no scope =>
    simp only [takeValue]
    split
    · exact ⟨hs, hf.1, hk⟩
    · cases no with
      | some b => exact ⟨hs, hf.2 b rfl, hk⟩
      | none => exact leave_normal_partOf hs hk
  | count body scope => exact nextRound_partOf hs hk scope hf 0 _
  | test condition body scope =>
    simp only [takeValue]
    split
    · exact enter_partOf (hs.openScope scope (List.forall_mem_nil _)) hk _ hf.2 hf
    · exact leave_normal_partOf hs hk
  | collection pos x body scope =>
    have hitems := Machine.iterated_yields hv
    simp only [takeValue]
    split <;> rename_i h <;> rw [h] at hitems
    · exact nextEach_partOf hs hk scope x hf.2 0 hitems
    · exact raise_partOf hs hk hf.1 hitems
  | result => exact leave_partOf hs hk (f := .returned v) hv
  | thrown pos => exact raise_partOf hs hk hf (by simp [Fault.Stray, Fault.kind])
  | payload event => exact leave_normal_partOf ⟨hs.bindings, hs.natives, hs.handlers⟩ hk
  | hostArgument pos verb into read rest scope =>
    exact nextHostArgument_partOf hs hk scope hf.1 verb into _ hf.2

/-- A loop takes all jumps to it. -/
theorem afterRound_partOf {flow : Flow} (hflow : flow.PartOf code true) {p : Session → Step}
    (hp : (p s).PartOf code) : (afterRound s k flow p).PartOf code := by
  cases flow with
  | broken pos => exact leave_normal_partOf hs hk
  | normal => exact hp
  | continued pos => exact hp
  | returned v => exact leave_partOf hs hk (f := .returned v) hflow

theorem takeFlow_partOf {flow : Flow} {f : FlowFrame}
    (hflow : flow.PartOf code (inLoop (.flow f :: k)))
    (hf : (Frame.flow f).PartOf code (inLoop k)) : (takeFlow s k flow f).PartOf code := by
  cases f with
  | rest body scope =>
    cases flow with
    | normal => exact ⟨hs, hf, hk⟩
    | broken pos => exact leave_partOf hs hk hflow
    | continued pos => exact leave_partOf hs hk hflow
    | returned v => exact leave_partOf hs hk hflow
  | round inner next count body scope =>
    exact afterRound_partOf (p := fun s => nextRound s k scope body next count)
      (hs.closeScope _ inner) hk hflow
      (nextRound_partOf (hs.closeScope _ inner) hk scope hf next count)
  | again inner condition body scope =>
    exact afterRound_partOf (p := fun s => nextTest s k scope condition body)
      (hs.closeScope _ inner) hk hflow
      (nextTest_partOf (hs.closeScope _ inner) hk scope hf.1 hf.2)
  | each inner x items next body scope =>
    exact afterRound_partOf (p := fun s => nextEach s k scope x body next items)
      (hs.closeScope _ inner) hk hflow
      (nextEach_partOf (hs.closeScope _ inner) hk scope x hf.2 next hf.1)
  | called inner f extra =>
    have hdone : Session.PartOf code { s with depth := s.depth - 1 } :=
      ⟨hs.bindings, hs.natives, hs.handlers⟩
    exact outside_partOf (hdone.closeScope _ inner) hk hflow
  | attempt x handler scope => exact leave_partOf hs hk hflow
  | caught inner => exact leave_partOf (hs.closeScope _ inner) hk hflow

theorem unwind_partOf {r : Raised} (hr : r.PartOf code) {f : FlowFrame}
    (hf : (Frame.flow f).PartOf code (inLoop k)) : (unwind s k r f).PartOf code := by
  cases f with
  | rest body scope => exact ⟨hs, hr, hk⟩
  | round inner next count body scope => exact ⟨hs.closeScope _ inner, hr, hk⟩
  | again inner condition body scope => exact ⟨hs.closeScope _ inner, hr, hk⟩
  | each inner x items next body scope => exact ⟨hs.closeScope _ inner, hr, hk⟩
  | called inner f extra =>
    have hdone : Session.PartOf code { s with depth := s.depth - 1 } :=
      ⟨hs.bindings, hs.natives, hs.handlers⟩
    exact ⟨hdone.closeScope _ inner, hr, hk⟩
  | caught inner => exact ⟨hs.closeScope _ inner, hr, hk⟩
  | attempt x handler scope =>
    exact enter_partOf (hs.openScope scope (by simpa using Raised.toValue_only _ r)) hk _ hf trivial

/-! ## Steps and runs -/

omit hk in
/-- **A step stays in the code.** -/
theorem step_partOf {m : Machine} (hm : m.PartOf code) : (step s m).PartOf code := by
  obtain ⟨c, k⟩ := m
  obtain ⟨hc, hk⟩ := hm
  cases c with
  | block body scope =>
    cases body with
    | nil => exact leave_normal_partOf hs hk
    | cons stmt rest =>
      have hrest : StackOf code (.flow (.rest rest scope) :: k) := ⟨hc.tail, hk⟩
      exact exec_partOf hs hrest scope hc.site
  | eval e scope => exact eval_partOf hs hk scope hc
  | asking pos command into scope => exact ⟨hs, hc, hk⟩
  | replied pos verb reply into scope =>
    cases reply with
    | error reason => exact raise_partOf hs hk hc.1 (by simp [Fault.Stray, Fault.kind])
    | ok v =>
      cases into with
      | none => exact leave_normal_partOf hs hk
      | some x =>
        exact leave_normal_partOf (hs.withScopes (hs.bindings.set scope x (hc.2 v rfl))) hk
  | value v =>
    rcases k with _ | ⟨f | f, k⟩
    · exact ⟨hs, trivial⟩
    · exact takeValue_partOf hs hk.2 hc hk.1
    · exact leave_normal_partOf hs hk
  | flow flow =>
    rcases k with _ | ⟨f | f, k⟩
    · exact ⟨hs, hc⟩
    · exact outside_partOf hs hk hc
    · exact takeFlow_partOf hs hk.2 hc hk.1
  | raised r =>
    rcases k with _ | ⟨f | f, k⟩
    · exact ⟨hs, hc⟩
    · exact ⟨hs, hc, hk.2⟩
    · exact unwind_partOf hs hk.2 hc hk.1

end Machine

def Machine.Rest.PartOf (code : Set Block) : Machine.Rest → Prop
  | asks _ s m | unfinished s m => s.PartOf code ∧ m.PartOf code
  | done s r => s.PartOf code ∧ ResultOf code r

/-- **A run stays in the code.** -/
theorem Machine.run_partOf {s : Session} {m : Machine} (n : Nat) (hs : s.PartOf code)
    (hm : m.PartOf code) : (run n s m).PartOf code := by
  induction n generalizing s m with
  | zero => exact ⟨hs, hm⟩
  | succ n ih =>
    have hstep := step_partOf hs hm
    unfold run
    cases h : step s m <;> rw [h] at hstep
    · exact ih hstep.1 hstep.2
    · exact hstep
    · exact hstep

theorem Machine.answer_partOf {m : Machine} (hm : m.PartOf code) {r : Reply}
    (hr : ∀ v, r = .ok v → v.PartOf code) : (m.answer r).PartOf code := by
  obtain ⟨c, k⟩ := m
  cases c with
  | asking pos command into scope => exact ⟨⟨hm.control, hr⟩, hm.stack⟩
  | _ => exact hm

/-! ## Tasks -/

def Job.PartOf (code : Set Block) : Job → Prop
  | main => True
  | handler _ payload rest faults =>
    payload.PartOf code ∧ (∀ h ∈ rest, BodyOf code false h.body.body) ∧
      ∀ r ∈ faults, r.PartOf code

structure Task.PartOf (code : Set Block) (t : Task) : Prop where
  machine : t.machine.PartOf code
  job : t.job.PartOf code

def Progress.PartOf (code : Set Block) : Progress → Prop
  | busy t => t.PartOf code
  | .over faults => ∀ r ∈ faults, r.PartOf code

def Task.Rest.PartOf (code : Set Block) : Task.Rest → Prop
  | asks _ s t | unfinished s t => s.PartOf code ∧ t.PartOf code
  | .over s faults => s.PartOf code ∧ ∀ r ∈ faults, r.PartOf code

theorem Machine.ofBlock_partOf {b : Block} (hb : BodyOf code false b.body) (scope : ScopeId) :
    (Machine.ofBlock b scope).PartOf code :=
  ⟨hb, trivial⟩

namespace Task

variable {s : Session}

theorem ofProgram_partOf {program : Block} (h : program ∈ code) :
    (Task.ofProgram program).PartOf code :=
  ⟨Machine.ofBlock_partOf (bodyOf_of_mem h) _, trivial⟩

theorem nextHandler_partOf (hs : s.PartOf code) {payload : Value} (hp : payload.PartOf code)
    {faults : List Raised} (hfaults : ∀ r ∈ faults, r.PartOf code) {handlers : List Handler}
    (hh : ∀ h ∈ handlers, BodyOf code false h.body.body) :
    (nextHandler s payload faults handlers).1.PartOf code ∧
      (nextHandler s payload faults handlers).2.PartOf code := by
  cases handlers with
  | nil => exact ⟨hs, hfaults⟩
  | cons h rest =>
    obtain ⟨hbody, hrest⟩ := List.forall_mem_cons.mp hh
    exact ⟨hs.openScope h.scope (by simpa using hp), Machine.ofBlock_partOf hbody _, hp, hrest,
      hfaults⟩

theorem ofEvent_partOf (hs : s.PartOf code) (e : Event) :
    (ofEvent s e).1.PartOf code ∧ (ofEvent s e).2.PartOf code := by
  refine nextHandler_partOf hs (Json.toValue_only _ _) (List.forall_mem_nil _) fun h hh => ?_
  exact hs.handlers h (Array.mem_toList_iff.mp (List.mem_of_mem_filter hh))

theorem faultOf_partOf {r : Except Raised Flow} (hr : ResultOf code r) :
    ∀ x ∈ faultOf r, x.PartOf code := by
  cases r with
  | error x => exact List.forall_mem_singleton.mpr hr
  | ok f =>
    have hout := Flow.PartOf.outside hr
    simp only [faultOf]
    cases h : f.outside <;> rw [h] at hout
    · simpa using hout
    · simp

theorem afterRun_partOf (hs : s.PartOf code) {r : Except Raised Flow} (hr : ResultOf code r)
    {j : Job} (hj : j.PartOf code) :
    (afterRun s r j).1.PartOf code ∧ (afterRun s r j).2.PartOf code := by
  have hfault := faultOf_partOf hr
  cases j with
  | main => exact ⟨hs.withScopes (hs.bindings.collect _), hfault⟩
  | handler inner payload rest faults =>
    obtain ⟨hp, hrest, hfaults⟩ := hj
    refine nextHandler_partOf (hs.closeScope _ inner) hp (fun x hx => ?_) hrest
    rcases List.mem_append.mp hx with hx | hx
    · exact hfaults x hx
    · exact hfault x hx

/-- **A task stays in the code**, and so do its faults. -/
theorem run_partOf {t : Task} (n : Nat) (hs : s.PartOf code) (ht : t.PartOf code) :
    (run n s t).PartOf code := by
  induction n generalizing s t with
  | zero => exact ⟨hs, ht⟩
  | succ n ih =>
    have hrun := Machine.run_partOf n hs ht.machine
    unfold run
    cases h : Machine.run n s t.machine <;> rw [h] at hrun
    case asks command s' m => exact ⟨hrun.1, hrun.2, ht.job⟩
    case unfinished s' m => exact ⟨hrun.1, hrun.2, ht.job⟩
    case done s' r =>
      have hafter := afterRun_partOf hrun.1 hrun.2 ht.job
      rcases hp : afterRun s' r t.job with ⟨s'', t' | faults⟩ <;> rw [hp] at hafter
      · simp only [hp]
        exact ih hafter.1 hafter.2
      · simp only [hp]
        exact hafter

theorem answer_partOf {t : Task} (ht : t.PartOf code) {r : Reply}
    (hr : ∀ v, r = .ok v → v.PartOf code) : (t.answer s r).PartOf code := by
  refine ⟨Machine.answer_partOf ht.machine fun v hv => ?_, ht.job⟩
  cases r with
  | error reason => cases hv
  | ok w =>
    obtain rfl := Except.ok.inj hv
    exact (hr w rfl).rename fun _ _ hf => hf

end Task

end

end DeskScript
