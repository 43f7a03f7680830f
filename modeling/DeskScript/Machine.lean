import DeskScript.Command
import DeskScript.Host
import DeskScript.Session
import DeskScript.Value.Path

/-!
The machine that runs a script. It has something in control and a stack of
frames that say what happens with it: some frames wait for a value, the others
for the way a block was left. Nothing but the stack remembers what is going on,
so a run can rest while the host works, and can be dropped at any time.
-/

namespace DeskScript

/-- How control leaves a block. -/
inductive Flow where
  | normal
  | broken (pos : Position)
  | continued (pos : Position)
  | returned (v : Value)

namespace Flow

def held : Flow → List ScopeId
  | returned v => v.scopes
  | _ => []

/-- What a flow means outside of all loops: nothing may break out there. -/
def outside : Flow → Except Raised Value
  | normal => .ok .null
  | returned v => .ok v
  | broken pos => .error ⟨.strayBreak, pos⟩
  | continued pos => .error ⟨.strayContinue, pos⟩

end Flow

/-- What a call goes to. -/
inductive Callee where
  | function (f : Closure)
  | native (f : Native)

def Callee.held : Callee → List ScopeId
  | function f => [f.scope]
  | native _ => []

/-! ## Frames -/

/-- Frames that wait for a value. -/
inductive ValueFrame where
  /-- The left operand. -/
  | left (pos : Position) (op : BinaryOp) (right : Expr) (scope : ScopeId)
  /-- The right operand. -/
  | right (pos : Position) (op : BinaryOp) (left : Value)
  /-- The right operand, which is the result; the left one is still held. -/
  | decided (left : Value)
  | operand (pos : Position) (op : UnaryOp)
  /-- An argument; those before it stand in reverse. -/
  | argument (pos : Position) (name : String) (callee : Callee) (read : List Value)
      (rest : List Expr) (scope : ScopeId)
  | item (read : List Value) (rest : List Expr) (scope : ScopeId)
  | field (read : Table Value) (key : String) (rest : List (String × Expr)) (scope : ScopeId)
  | memberOf (pos : Position) (property : String)
  | indexed (pos : Position) (index : Expr) (scope : ScopeId)
  | index (pos : Position) (object : Value)
  /-- The value to assign. -/
  | assigned (pos : Position) (name : String) (path : List Accessor) (scope : ScopeId)
  /-- A key of the path to assign along; those before it stand in reverse. -/
  | key (pos : Position) (name : String) (value : Value) (read : List Value.Key)
      (rest : List Accessor) (scope : ScopeId)
  | printed
  | condition (yes : Block) (no : Option Block) (scope : ScopeId)
  | count (body : Block) (scope : ScopeId)
  | test (condition : Expr) (body : Block) (scope : ScopeId)
  | collection (pos : Position) (name : String) (body : Block) (scope : ScopeId)
  | result
  | thrown (pos : Position)
  | payload (event : String)
  | hostArgument (pos : Position) (verb : Verb) (into : Option String) (read : List Value)
      (rest : List Expr) (scope : ScopeId)

/-- Frames that wait for a flow. `inner` is the scope that the block runs in and that ends with it. -/
inductive FlowFrame where
  /-- The statements after this one. -/
  | rest (body : List Stmt) (scope : ScopeId)
  /-- One round of a loop with a count. -/
  | round (inner : ScopeId) (next count : Nat) (body : Block) (scope : ScopeId)
  /-- One round of a loop with a condition. -/
  | again (inner : ScopeId) (condition : Expr) (body : Block) (scope : ScopeId)
  /-- One round of a loop over items. -/
  | each (inner : ScopeId) (name : String) (items : List Value) (next : Nat) (body : Block)
      (scope : ScopeId)
  /-- The body of a function, with the arguments it has no parameters for. -/
  | called (inner : ScopeId) (f : Closure) (extra : List Value)
  | attempt (name : String) (handler : Block) (scope : ScopeId)
  | caught (inner : ScopeId)

inductive Frame where
  | value (f : ValueFrame)
  | flow (f : FlowFrame)

def Value.Key.held : Value.Key → List ScopeId
  | .member _ => []
  | .index v => v.scopes

/-- The scopes of the functions that a list of values holds. -/
def heldBy (vs : List Value) : List ScopeId := vs.flatMap Value.scopes

def ValueFrame.held : ValueFrame → List ScopeId
  | right _ _ v | decided v | index _ v => v.scopes
  | argument _ _ callee read _ _ => callee.held ++ heldBy read
  | item read _ _ | hostArgument _ _ _ read _ _ => heldBy read
  | field read _ _ _ => heldBy (read.map (·.2))
  | key _ _ v read _ _ => v.scopes ++ read.flatMap Value.Key.held
  | _ => []

def FlowFrame.held : FlowFrame → List ScopeId
  | each _ _ items _ _ _ => heldBy items
  | called _ f extra => f.scope :: heldBy extra
  | _ => []

def Frame.held : Frame → List ScopeId
  | value f => f.held
  | flow f => f.held

/-! ## Machines -/

/-- What a script is doing. -/
inductive Control where
  | block (body : List Stmt) (scope : ScopeId)
  | eval (e : Expr) (scope : ScopeId)
  | value (v : Value)
  | flow (f : Flow)
  | raised (r : Raised)
  /-- Waiting for the host. -/
  | asking (pos : Position) (command : Command) (into : Option String) (scope : ScopeId)
  /-- The host has replied. -/
  | replied (pos : Position) (verb : Verb) (reply : Reply) (into : Option String) (scope : ScopeId)

def Control.held : Control → List ScopeId
  | value v => v.scopes
  | flow f => f.held
  | _ => []

structure Machine where
  control : Control
  stack : List Frame

namespace Machine

/-- The machine that runs a block in a scope. -/
def ofBlock (b : Block) (scope : ScopeId) : Machine := ⟨.block b.body scope, []⟩

/-- The scopes of the functions that the running script holds outside of all scopes. -/
def held (m : Machine) : List ScopeId := m.control.held ++ m.stack.flatMap Frame.held

/-- Hands a waiting machine the reply of the host. -/
def answer (m : Machine) (reply : Reply) : Machine :=
  match m.control with
  | .asking pos command into scope => { m with control := .replied pos command.verb reply into scope }
  | _ => m

end Machine

end DeskScript
