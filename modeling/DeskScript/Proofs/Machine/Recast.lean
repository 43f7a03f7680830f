import DeskScript.Proofs.Machine.Effect

/-!
# What a step does not read

No step reads the events that wait, and only `emit` adds one, at the end. Only a call of
a function reads the limit of calls, to see whether it is reached. So a step does the
same in a session with other events waiting and with another limit, as long as a function
that it calls may be called under both:

    m.Agrees s d →
      step (s.recast o d) m = (step s m).recast (o ++ m.emits s) d    (Machine.step_recast)
-/

namespace DeskScript

/-- The session with other events waiting and another limit of calls. -/
def Session.recast (s : Session) (o : List Event) (d : Nat) : Session :=
  { s with outbox := o, maxDepth := d }

theorem Session.closeScope_recast (s : Session) (o : List Event) (d : Nat)
    (held : Unit → List ScopeId) (e : ScopeId) :
    (s.recast o d).closeScope held e = (s.closeScope held e).recast o d := rfl

def Step.recast (o : List Event) (d : Nat) : Step → Step
  | next s m => .next (s.recast o d) m
  | ask command s m => .ask command (s.recast o d) m
  | done s r => .done (s.recast o d) r

/-- A call of a function is allowed by the limit of the session and by another one, if there is
another one. -/
def Callee.Agrees (s : Session) (d : Nat) : Callee → Prop
  | function _ => d = s.maxDepth ∨ s.depth < s.maxDepth ∧ s.depth < d
  | native _ => True

namespace Machine

/-- Another limit makes no difference to the call that the next step makes, if it makes one. -/
def Agrees (m : Machine) (s : Session) (d : Nat) : Prop :=
  ∀ f args, m.call? s = some (f, args) → f.Agrees s d

/-! ## Steps -/

/-- The event of an `emit` without a payload. -/
def emitted (s : Session) : Stmt → List Event
  | .emit _ event none => [⟨event, .null, some s.id⟩]
  | _ => []

/-- The event of an `emit` whose payload has been computed. -/
def emittedWith (s : Session) (v : Value) : ValueFrame → List Event
  | .payload event => [⟨event, v.toJson, some s.id⟩]
  | _ => []

/-- The event that the next step emits, if it is that of an `emit`. -/
def emits (s : Session) (m : Machine) : List Event :=
  match m.control, m.stack with
  | .block (stmt :: _) _, _ => emitted s stmt
  | .value v, .value f :: _ => emittedWith s v f
  | _, _ => []

section
variable (s : Session) (o : List Event) (d : Nat) (k : List Frame)

theorem settle_recast (pos : Position) (r : Except Fault Value) :
    settle (s.recast o d) k pos r = (settle s k pos r).recast o d := by
  cases r <;> rfl

theorem apply_recast (again : Machine) (pos : Position) (name : String) {callee : Callee}
    (args : List Value) (h : callee.Agrees s d) :
    apply (s.recast o d) k again pos name callee args =
      (apply s k again pos name callee args).recast o d := by
  cases callee with
  | native f =>
    simp only [apply]
    split
    · exact settle_recast s o d k pos _
    · rfl
  | function f =>
    rcases h with rfl | ⟨hlimit, hlimit'⟩
    · have hsame : (s.recast o s.maxDepth).maxDepth ≤ (s.recast o s.maxDepth).depth ↔
          s.maxDepth ≤ s.depth := .rfl
      simp only [apply, hsame]
      split <;> rfl
    · have hallowed : ¬ (s.recast o d).maxDepth ≤ (s.recast o d).depth := Nat.not_le.mpr hlimit'
      simp only [apply, if_neg hallowed, if_neg (Nat.not_le.mpr hlimit)]
      rfl

theorem nextArgument_recast (again : Machine) (scope : ScopeId) (pos : Position)
    (name : String) {callee : Callee} (read : List Value) {args : List Expr}
    (h : args = [] → callee.Agrees s d) :
    nextArgument (s.recast o d) k again scope pos name callee read args =
      (nextArgument s k again scope pos name callee read args).recast o d := by
  cases args with
  | nil => exact apply_recast s o d k again pos name _ (h rfl)
  | cons e rest => rfl

theorem call_recast (again : Machine) {scope : ScopeId} (pos : Position) {name : String}
    {args : List Expr} (h : ∀ f, args = [] → callee s scope name = .ok f → f.Agrees s d) :
    call (s.recast o d) k again scope pos name args =
      (call s k again scope pos name args).recast o d := by
  unfold call
  have hcallee : callee (s.recast o d) scope name = callee s scope name := rfl
  rw [hcallee]
  cases hf : callee s scope name with
  | ok f => exact nextArgument_recast s o d k again scope pos name [] fun hargs => h f hargs hf
  | error x => rfl

theorem templateText_recast (scope : ScopeId) (text : String) (parts : List TextPart) :
    templateText (s.recast o d) scope text parts = templateText s scope text parts := by
  induction parts generalizing text with
  | nil => rfl
  | cons p parts ih =>
    cases p with
    | text t => exact ih _
    | var x =>
      simp only [templateText, ih]
      rfl

theorem nextItem_recast (scope : ScopeId) (read : List Value) (items : List Expr) :
    nextItem (s.recast o d) k scope read items = (nextItem s k scope read items).recast o d := by
  cases items <;> rfl

theorem nextField_recast (scope : ScopeId) (read : Table Value)
    (fields : List (String × Expr)) :
    nextField (s.recast o d) k scope read fields =
      (nextField s k scope read fields).recast o d := by
  cases fields <;> rfl

theorem eval_recast {scope : ScopeId} {e : Expr}
    (h : ∀ pos name f, e = .call pos name [] → callee s scope name = .ok f → f.Agrees s d) :
    eval (s.recast o d) k scope e = (eval s k scope e).recast o d := by
  cases e with
  | var pos x => exact settle_recast s o d k pos _
  | call pos name args =>
    refine call_recast s o d k _ pos fun f hargs => ?_
    subst hargs
    exact h pos name f rfl
  | array pos items => exact nextItem_recast s o d k scope [] items
  | object pos fields => exact nextField_recast s o d k scope [] fields
  | template pos parts =>
    simp only [eval, templateText_recast]
    exact settle_recast s o d k pos _
  | _ => rfl

theorem nextRound_recast (scope : ScopeId) (body : Block) (next count : Nat) :
    nextRound (s.recast o d) k scope body next count =
      (nextRound s k scope body next count).recast o d := by
  unfold nextRound
  split <;> rfl

theorem nextEach_recast (scope : ScopeId) (name : String) (body : Block) (next : Nat)
    (items : List Value) :
    nextEach (s.recast o d) k scope name body next items =
      (nextEach s k scope name body next items).recast o d := by
  cases items <;> rfl

theorem assign_recast (scope : ScopeId) (pos : Position) (name : String) (value : Value)
    (keys : List Value.Key) :
    assign (s.recast o d) k scope pos name value keys =
      (assign s k scope pos name value keys).recast o d := by
  unfold assign
  have hfind : (s.recast o d).scopes.find? scope name = s.scopes.find? scope name := rfl
  rw [hfind]
  split
  · rfl
  · split <;> rfl

theorem nextKey_recast (scope : ScopeId) (pos : Position) (name : String) (value : Value)
    (read : List Value.Key) (path : List Accessor) :
    nextKey (s.recast o d) k scope pos name value read path =
      (nextKey s k scope pos name value read path).recast o d := by
  induction path generalizing read with
  | nil => exact assign_recast s o d k scope pos name value _
  | cons a rest ih =>
    cases a with
    | member x => exact ih _
    | index e => rfl

theorem nextHostArgument_recast (scope : ScopeId) (pos : Position) (verb : Verb)
    (into : Option String) (read : List Value) (args : List Expr) :
    nextHostArgument (s.recast o d) k scope pos verb into read args =
      (nextHostArgument s k scope pos verb into read args).recast o d := by
  cases args with
  | nil =>
    simp only [nextHostArgument]
    split <;> rfl
  | cons e rest => rfl

theorem exec_recast {scope : ScopeId} {stmt : Stmt}
    (h : ∀ pos name f, stmt = .call pos name [] → callee s scope name = .ok f → f.Agrees s d) :
    exec (s.recast o d) k scope stmt =
      (exec s k scope stmt).recast (o ++ emitted s stmt) d := by
  cases stmt with
  | emit pos event payload =>
    cases payload with
    | none => rfl
    | some e => exact (List.append_nil o).symm ▸ rfl
  | call pos name args =>
    refine (List.append_nil o).symm ▸ call_recast s o d k _ pos fun f hargs => ?_
    subst hargs
    exact h pos name f rfl
  | host pos verb args into =>
    exact (List.append_nil o).symm ▸ nextHostArgument_recast s o d k scope pos verb into [] args
  | return_ pos e => cases e <;> exact (List.append_nil o).symm ▸ rfl
  | _ => exact (List.append_nil o).symm ▸ rfl

theorem takeValue_recast (v : Value) {f : ValueFrame}
    (h : ∀ pos name callee read scope, f = .argument pos name callee read [] scope →
      callee.Agrees s d) :
    takeValue (s.recast o d) k v f =
      (takeValue s k v f).recast (o ++ emittedWith s v f) d := by
  by_cases hf : ∃ event, f = .payload event
  · obtain ⟨event, rfl⟩ := hf
    rfl
  have hnone : emittedWith s v f = [] := by
    cases f with
    | payload event => exact absurd ⟨event, rfl⟩ hf
    | _ => rfl
  rw [hnone, List.append_nil]
  cases f with
  | left pos op r scope =>
    simp only [takeValue]
    split <;> rfl
  | right pos op l => exact settle_recast s o d k pos _
  | operand pos op => exact settle_recast s o d k pos _
  | argument pos name callee read rest scope =>
    refine nextArgument_recast s o d k _ scope pos name _ fun hrest => ?_
    subst hrest
    exact h pos name callee read scope rfl
  | item read rest scope => exact nextItem_recast s o d k scope _ rest
  | field read key rest scope => exact nextField_recast s o d k scope _ rest
  | memberOf pos p => exact settle_recast s o d k pos _
  | index pos object => exact settle_recast s o d k pos _
  | assigned pos x path scope =>
    cases path with
    | nil => rfl
    | cons a path => exact nextKey_recast s o d k scope pos x v [] (a :: path)
  | key pos x value read rest scope =>
    exact nextKey_recast s o d k scope pos x value (.index v :: read) rest
  | condition yes no scope =>
    simp only [takeValue]
    split
    · rfl
    · cases no <;> rfl
  | count body scope => exact nextRound_recast s o d k scope body 0 _
  | test condition body scope =>
    simp only [takeValue]
    split <;> rfl
  | collection pos x body scope =>
    simp only [takeValue]
    split
    · exact nextEach_recast s o d k scope x body 0 _
    · rfl
  | payload event => exact absurd ⟨event, rfl⟩ hf
  | hostArgument pos verb into read rest scope =>
    exact nextHostArgument_recast s o d k scope pos verb into (v :: read) rest
  | _ => rfl

theorem afterRound_recast (f : Flow) {more : Session → Step}
    (hmore : ∀ s : Session, more (s.recast o d) = (more s).recast o d) :
    afterRound (s.recast o d) k f more = (afterRound s k f more).recast o d := by
  cases f with
  | normal => exact hmore s
  | continued pos => exact hmore s
  | broken pos => rfl
  | returned v => rfl

theorem takeFlow_recast (flow : Flow) (f : FlowFrame) :
    takeFlow (s.recast o d) k flow f = (takeFlow s k flow f).recast o d := by
  cases f with
  | rest body scope => cases flow <;> rfl
  | round inner next count body scope =>
    simp only [takeFlow, Session.closeScope_recast]
    exact afterRound_recast _ o d k flow fun s =>
      nextRound_recast s o d k scope body next count
  | again inner condition body scope =>
    simp only [takeFlow, Session.closeScope_recast]
    exact afterRound_recast _ o d k flow fun _ => rfl
  | each inner x items next body scope =>
    simp only [takeFlow, Session.closeScope_recast]
    exact afterRound_recast _ o d k flow fun s =>
      nextEach_recast s o d k scope x body next items
  | called inner f extra => cases flow <;> rfl
  | attempt x handler scope => rfl
  | caught inner => rfl

theorem unwind_recast (r : Raised) (f : FlowFrame) :
    unwind (s.recast o d) k r f = (unwind s k r f).recast o d := by
  cases f <;> rfl

/-- **Only `emit` adds to what waits**, and nothing reads it; only calls read the limit. -/
theorem step_recast {m : Machine} (h : m.Agrees s d) :
    step (s.recast o d) m = (step s m).recast (o ++ m.emits s) d := by
  -- Most steps emit nothing and only pass the waiting events on.
  have hplain : ∀ m : Machine, m.emits s = [] → step (s.recast o d) m = (step s m).recast o d →
      step (s.recast o d) m = (step s m).recast (o ++ m.emits s) d := by
    intro m hm h
    rw [hm, List.append_nil, h]
  obtain ⟨c, k⟩ := m
  cases c with
  | block body scope =>
    cases body with
    | nil => exact hplain _ rfl rfl
    | cons stmt rest =>
      refine exec_recast s o d _ ?_
      rintro pos name f rfl hf
      exact h f [] (by simp [call?, hf, Except.toOption])
  | eval e scope =>
    refine hplain _ rfl (eval_recast s o d k ?_)
    rintro pos name f rfl hf
    exact h f [] (by simp [call?, hf, Except.toOption])
  | asking pos command into scope => exact hplain _ rfl rfl
  | replied pos verb reply into scope =>
    rcases reply with reason | v
    · exact hplain _ rfl rfl
    · cases into <;> exact hplain _ rfl rfl
  | value v =>
    rcases k with _ | ⟨f | f, k⟩
    · exact hplain _ rfl rfl
    · refine takeValue_recast s o d k v ?_
      rintro pos name f read scope rfl
      exact h f _ rfl
    · exact hplain _ rfl rfl
  | flow flow =>
    rcases k with _ | ⟨f | f, k⟩
    · exact hplain _ rfl rfl
    · cases flow <;> exact hplain _ rfl rfl
    · exact hplain _ rfl (takeFlow_recast s o d k flow f)
  | raised r =>
    rcases k with _ | ⟨f | f, k⟩
    · exact hplain _ rfl rfl
    · exact hplain _ rfl rfl
    · exact hplain _ rfl (unwind_recast s o d k r f)

/-- The session itself agrees with its limit. -/
theorem agrees_self (m : Machine) : m.Agrees s s.maxDepth := by
  intro f args _
  cases f with
  | function f => exact .inl rfl
  | native f => exact trivial

/-- A step keeps the limit, and leaves what waited and what it emits. -/
theorem step_eq_recast (m : Machine) :
    step s m = (step s m).recast (s.outbox ++ m.emits s) s.maxDepth :=
  step_recast s s.outbox s.maxDepth (agrees_self s m)

end

end Machine

/-! ## Between the runs of a task -/

namespace Task

variable (s : Session) (o : List Event) (d : Nat)

theorem nextHandler_recast (payload : Value) (faults : List Raised) (hs : List Handler) :
    nextHandler (s.recast o d) payload faults hs =
      ((nextHandler s payload faults hs).1.recast o d, (nextHandler s payload faults hs).2) := by
  cases hs <;> rfl

/-- Handing over an event emits none. -/
theorem ofEvent_recast (e : Event) :
    ofEvent (s.recast o d) e = ((ofEvent s e).1.recast o d, (ofEvent s e).2) :=
  nextHandler_recast s o d e.payload.toValue [] (s.handlersOf e)

theorem afterRun_recast (r : Except Raised Flow) (j : Job) :
    afterRun (s.recast o d) r j = ((afterRun s r j).1.recast o d, (afterRun s r j).2) := by
  cases j with
  | main => rfl
  | handler inner payload rest faults =>
    exact nextHandler_recast (s.closeScope (fun _ => heldBy r) inner) o d payload _ rest

end Task

end DeskScript
