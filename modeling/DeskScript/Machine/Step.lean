import DeskScript.Machine
import DeskScript.Value.Data
import DeskScript.Value.Operator

/-!
One step of the machine.

A step looks at what is in control and at the frame on top of the stack. Every
scope that a step opens belongs to a frame, and the step that removes the frame
ends the scope, whatever the reason:

    s.depth = the number of function bodies on the stack, from a start at rest
-/

namespace DeskScript

/-- What a step leads to. -/
inductive Step where
  | next (s : Session) (m : Machine)
  | ask (command : Command) (s : Session) (m : Machine)
  | done (s : Session) (r : Except Raised Flow)

namespace Machine

/-! ## Results -/

def give (s : Session) (k : List Frame) (v : Value) : Step := .next s ⟨.value v, k⟩

def leave (s : Session) (k : List Frame) (f : Flow) : Step := .next s ⟨.flow f, k⟩

def raise (s : Session) (k : List Frame) (pos : Position) (f : Fault) : Step :=
  .next s ⟨.raised ⟨f, pos⟩, k⟩

/-- Goes on with a value, or raises the fault at `pos`. -/
def settle (s : Session) (k : List Frame) (pos : Position) : Except Fault Value → Step
  | .ok v => give s k v
  | .error f => raise s k pos f

/-- Computes an expression for a frame. -/
def compute (s : Session) (k : List Frame) (scope : ScopeId) (e : Expr) (f : ValueFrame) : Step :=
  .next s ⟨.eval e scope, .value f :: k⟩

/-- Runs a block for a frame. -/
def enter (s : Session) (k : List Frame) (scope : ScopeId) (b : Block) (f : FlowFrame) : Step :=
  .next s ⟨.block b.body scope, .flow f :: k⟩

/-! ## Calls -/

/-- What a name in a call means: a function in scope, else a native function. -/
def callee (s : Session) (scope : ScopeId) (name : String) : Except Fault Callee :=
  match s.scopes.get? scope name with
  | some (.function f) => .ok (.function f)
  | bound =>
    match Table.get? s.natives name, bound with
    | some f, _ => .ok (.native f)
    | none, some v => .error (.mismatch (.called name v.type))
    | none, none => .error (.undefinedFunction name)

/-- Parameters with their arguments; one without an argument is null. -/
def parameters : List String → List Value → List (String × Value)
  | [], _ => []
  | p :: ps, [] => (p, .null) :: parameters ps []
  | p :: ps, v :: vs => (p, v) :: parameters ps vs

/-- Calls with all arguments known. A native call that never ends goes back to `again`. -/
def apply (s : Session) (k : List Frame) (again : Machine) (pos : Position) (name : String)
    (callee : Callee) (args : List Value) : Step :=
  match callee with
  | .native f =>
    match f args with
    | some answer => settle s k pos answer
    | none => .next s again
  | .function f =>
    if s.maxDepth ≤ s.depth then raise s k pos (.tooManyCalls s.maxDepth name)
    else
      let (inner, s) := s.openScope f.scope (parameters f.params args)
      enter { s with depth := s.depth + 1 } k inner f.body
        (.called inner f (args.drop f.params.length))

/-- The next argument of a call, or the call; `read` holds those so far, the last one first. -/
def nextArgument (s : Session) (k : List Frame) (again : Machine) (scope : ScopeId)
    (pos : Position) (name : String) (callee : Callee) (read : List Value) : List Expr → Step
  | [] => apply s k again pos name callee read.reverse
  | e :: rest => compute s k scope e (.argument pos name callee read rest scope)

/-- Starts a call: what it goes to is settled before its arguments. -/
def call (s : Session) (k : List Frame) (again : Machine) (scope : ScopeId) (pos : Position)
    (name : String) (args : List Expr) : Step :=
  match callee s scope name with
  | .ok f => nextArgument s k again scope pos name f [] args
  | .error f => raise s k pos f

/-! ## Expressions -/

def nextItem (s : Session) (k : List Frame) (scope : ScopeId) (read : List Value) :
    List Expr → Step
  | [] => give s k (.array read.reverse)
  | e :: rest => compute s k scope e (.item read rest scope)

def nextField (s : Session) (k : List Frame) (scope : ScopeId) (read : Table Value) :
    List (String × Expr) → Step
  | [] => give s k (.object read)
  | (key, e) :: rest => compute s k scope e (.field read key rest scope)

def lookup (s : Session) (scope : ScopeId) (x : String) : Except Fault Value :=
  match s.scopes.get? scope x with
  | some v => .ok v
  | none => .error (.undefinedVariable x)

/-- A text with variables put in. -/
def templateText (s : Session) (scope : ScopeId) (text : String) :
    List TextPart → Except Fault Value
  | [] => .ok (.string text)
  | .text t :: parts => templateText s scope (text ++ t) parts
  | .var x :: parts => do
    let v ← lookup s scope x
    templateText s scope (text ++ v.text) parts

/-- Starts an expression. -/
def eval (s : Session) (k : List Frame) (scope : ScopeId) (e : Expr) : Step :=
  match e with
  | .literal _ l => give s k (.ofLiteral l)
  | .var pos x => settle s k pos (lookup s scope x)
  | .binary pos op l r => compute s k scope l (.left pos op r scope)
  | .unary pos op e => compute s k scope e (.operand pos op)
  | .call pos name args => call s k ⟨.eval e scope, k⟩ scope pos name args
  | .array _ items => nextItem s k scope [] items
  | .object _ fields => nextField s k scope [] fields
  | .member pos e p => compute s k scope e (.memberOf pos p)
  | .index pos e i => compute s k scope e (.indexed pos i scope)
  | .group _ e => .next s ⟨.eval e scope, k⟩
  | .template pos parts => settle s k pos (templateText s scope "" parts)

/-! ## Loops -/

/-- How often a loop with a count goes round: not at all for what is not a number. -/
def loopCount (v : Value) : Nat :=
  match v.number? with
  | some n => if n.isFinite && 1 ≤ n then Number.wholePart n else 0
  | none => 0

def nextRound (s : Session) (k : List Frame) (scope : ScopeId) (body : Block) (next count : Nat) :
    Step :=
  if next < count then
    let (inner, s) := s.openScope scope [("i", .ofNat next)]
    enter s k inner body (.round inner (next + 1) count body scope)
  else leave s k .normal

def nextTest (s : Session) (k : List Frame) (scope : ScopeId) (condition : Expr) (body : Block) :
    Step :=
  compute s k scope condition (.test condition body scope)

def nextEach (s : Session) (k : List Frame) (scope : ScopeId) (name : String) (body : Block)
    (next : Nat) : List Value → Step
  | [] => leave s k .normal
  | v :: items =>
    let (inner, s) := s.openScope scope [(name, v), ("index", .ofNat next)]
    enter s k inner body (.each inner name items (next + 1) body scope)

/-- What a loop goes over: the items of an array, the keys of an object, the characters of a
string. -/
def iterated : Value → Except Fault (List Value)
  | .array items => .ok items
  | .object fields => .ok ((Table.names fields).map .string)
  | .string s => .ok (Value.characters s)
  | v => .error (.mismatch (.iterated v.type))

/-! ## Statements -/

/-- Assigns along a path whose keys are all known. -/
def assign (s : Session) (k : List Frame) (scope : ScopeId) (pos : Position) (name : String)
    (value : Value) (keys : List Value.Key) : Step :=
  match s.scopes.find? scope name with
  | none => raise s k pos (.undefinedVariable name)
  | some (owner, old) =>
    match Value.assign value keys old with
    | .ok v => leave { s with scopes := s.scopes.define owner name v } k .normal
    | .error f => raise s k pos f

/-- The next key of a path, or the assignment; `read` holds those so far, the last one first. -/
def nextKey (s : Session) (k : List Frame) (scope : ScopeId) (pos : Position) (name : String)
    (value : Value) (read : List Value.Key) : List Accessor → Step
  | [] => assign s k scope pos name value read.reverse
  | .member x :: rest => nextKey s k scope pos name value (.member x :: read) rest
  | .index e :: rest => compute s k scope e (.key pos name value read rest scope)

/-- The next argument of a host statement, or its command. -/
def nextHostArgument (s : Session) (k : List Frame) (scope : ScopeId) (pos : Position)
    (verb : Verb) (into : Option String) (read : List Value) : List Expr → Step
  | [] =>
    match Command.ofArgs verb read.reverse with
    | .ok command => .next s ⟨.asking pos command into scope, k⟩
    | .error f => raise s k pos f
  | e :: rest => compute s k scope e (.hostArgument pos verb into read rest scope)

/-- The message of a thrown value. -/
def thrownMessage : Value → String
  | .object fields =>
    match Table.get? fields "message" with
    | some v => v.text
    | none => (Value.object fields).display
  | v => v.text

/-- Starts a statement. -/
def exec (s : Session) (k : List Frame) (scope : ScopeId) (stmt : Stmt) : Step :=
  match stmt with
  | .block _ b => .next s ⟨.block b.body scope, k⟩
  | .set pos x path e => compute s k scope e (.assigned pos x path scope)
  | .print _ e => compute s k scope e .printed
  | .branch _ e yes no => compute s k scope e (.condition yes no scope)
  | .loop _ e body => compute s k scope e (.count body scope)
  | .while_ _ e body => nextTest s k scope e body
  | .foreach _ x e body => compute s k scope e (.collection e.pos x body scope)
  | .break_ pos => leave s k (.broken pos)
  | .continue_ pos => leave s k (.continued pos)
  | .return_ _ none => leave s k (.returned .null)
  | .return_ _ (some e) => compute s k scope e .result
  | .define _ f params body => leave (s.defineFunction scope f params body) k .normal
  | .call pos f args => call s k ⟨.eval (.call pos f args) scope, k⟩ scope pos f args
  | .attempt _ body x handler => enter s k scope body (.attempt x handler scope)
  | .throw pos e => compute s k scope e (.thrown pos)
  | .on _ event body => leave (s.addHandler scope event body) k .normal
  | .emit _ event none => leave (s.emit event .null) k .normal
  | .emit _ event (some e) => compute s k scope e (.payload event)
  | .host pos verb args into => nextHostArgument s k scope pos verb into [] args

/-! ## Frames -/

/-- A value comes to the frame that waits for it. -/
def takeValue (s : Session) (k : List Frame) (v : Value) (f : ValueFrame) : Step :=
  match f with
  | .left pos op r scope =>
    match op, v.truthy with
    | .and, false | .or, true => give s k v
    | .and, true | .or, false => compute s k scope r (.decided v)
    | op, _ => compute s k scope r (.right pos op v)
  | .right pos op l => settle s k pos (Value.binary op l v)
  | .decided _ => give s k v
  | .operand pos op => settle s k pos (Value.unary op v)
  | .argument pos name callee read rest scope =>
    nextArgument s k ⟨.value v, .value f :: k⟩ scope pos name callee (v :: read) rest
  | .item read rest scope => nextItem s k scope (v :: read) rest
  | .field read key rest scope => nextField s k scope (Table.put read key v) rest
  | .memberOf pos p => settle s k pos (v.member p)
  | .indexed pos i scope => compute s k scope i (.index pos v)
  | .index pos object => settle s k pos (object.at_ v)
  | .assigned _ x [] scope => leave { s with scopes := s.scopes.set scope x v } k .normal
  | .assigned pos x path scope => nextKey s k scope pos x v [] path
  | .key pos x value read rest scope => nextKey s k scope pos x value (.index v :: read) rest
  | .printed => leave (s.print v.text) k .normal
  | .condition yes no scope =>
    if v.truthy then .next s ⟨.block yes.body scope, k⟩
    else
      match no with
      | some b => .next s ⟨.block b.body scope, k⟩
      | none => leave s k .normal
  | .count body scope => nextRound s k scope body 0 (loopCount v)
  | .test condition body scope =>
    if v.truthy then
      let (inner, s) := s.openScope scope []
      enter s k inner body (.again inner condition body scope)
    else leave s k .normal
  | .collection pos x body scope =>
    match iterated v with
    | .ok items => nextEach s k scope x body 0 items
    | .error f => raise s k pos f
  | .result => leave s k (.returned v)
  | .thrown pos => raise s k pos (.custom (thrownMessage v))
  | .payload event => leave (s.emit event v.toJson) k .normal
  | .hostArgument pos verb into read rest scope =>
    nextHostArgument s k scope pos verb into (v :: read) rest

/-- After one round of a loop: `more` goes on with it. -/
def afterRound (s : Session) (k : List Frame) (f : Flow) (more : Session → Step) : Step :=
  match f with
  | .broken _ => leave s k .normal
  | .normal | .continued _ => more s
  | .returned v => leave s k (.returned v)

/-- A flow comes to the frame that waits for it. -/
def takeFlow (s : Session) (k : List Frame) (flow : Flow) (f : FlowFrame) : Step :=
  let held (_ : Unit) := held ⟨.flow flow, .flow f :: k⟩
  match f with
  | .rest body scope =>
    match flow with
    | .normal => .next s ⟨.block body scope, k⟩
    | flow => leave s k flow
  | .round inner next count body scope =>
    afterRound (s.closeScope held inner) k flow fun s => nextRound s k scope body next count
  | .again inner condition body scope =>
    afterRound (s.closeScope held inner) k flow fun s => nextTest s k scope condition body
  | .each inner x items next body scope =>
    afterRound (s.closeScope held inner) k flow fun s => nextEach s k scope x body next items
  | .called inner _ _ =>
    let s := { s with depth := s.depth - 1 }.closeScope held inner
    match flow.outside with
    | .ok v => give s k v
    | .error r => .next s ⟨.raised r, k⟩
  | .attempt _ _ _ => leave s k flow
  | .caught inner => leave (s.closeScope held inner) k flow

/-- A raised fault comes to a frame that waits for a flow. -/
def unwind (s : Session) (k : List Frame) (r : Raised) (f : FlowFrame) : Step :=
  let held (_ : Unit) := held ⟨.raised r, .flow f :: k⟩
  match f with
  | .rest _ _ => .next s ⟨.raised r, k⟩
  | .round inner _ _ _ _ | .again inner _ _ _ | .each inner _ _ _ _ _ | .caught inner =>
    .next (s.closeScope held inner) ⟨.raised r, k⟩
  | .called inner _ _ =>
    .next ({ s with depth := s.depth - 1 }.closeScope held inner) ⟨.raised r, k⟩
  | .attempt x handler scope =>
    let (inner, s) := s.openScope scope [(x, r.toValue)]
    enter s k inner handler (.caught inner)

/-! ## Steps -/

def step (s : Session) (m : Machine) : Step :=
  match m.control, m.stack with
  | .block [] _, k => leave s k .normal
  | .block (stmt :: rest) scope, k => exec s (.flow (.rest rest scope) :: k) scope stmt
  | .eval e scope, k => eval s k scope e
  | .asking _ command _ _, _ => .ask command s m
  | .replied pos verb (.error reason) _ _, k => raise s k pos (.hostFailed verb reason)
  | .replied _ _ (.ok v) (some x) scope, k =>
    leave { s with scopes := s.scopes.set scope x v } k .normal
  | .replied _ _ (.ok _) none _, k => leave s k .normal
  | .value v, .value f :: k => takeValue s k v f
  | .value _, k@(.flow _ :: _) => leave s k .normal
  | .value _, [] => .done s (.ok .normal)
  | .flow flow, .flow f :: k => takeFlow s k flow f
  | .flow flow, k@(.value _ :: _) =>
    match flow.outside with
    | .ok v => give s k v
    | .error r => .next s ⟨.raised r, k⟩
  | .flow flow, [] => .done s (.ok flow)
  | .raised r, .value _ :: k => .next s ⟨.raised r, k⟩
  | .raised r, .flow f :: k => unwind s k r f
  | .raised r, [] => .done s (.error r)

/-- Where a run comes to rest. -/
inductive Rest where
  | asks (command : Command) (s : Session) (m : Machine)
  | done (s : Session) (r : Except Raised Flow)
  | unfinished (s : Session) (m : Machine)

/-- Steps until the host is needed or the script is done, or for as many steps as given. -/
def run : Nat → Session → Machine → Rest
  | 0, s, m => .unfinished s m
  | n + 1, s, m =>
    match step s m with
    | .next s m => run n s m
    | .ask command s m => .asks command s m
    | .done s r => .done s r

end Machine

end DeskScript
