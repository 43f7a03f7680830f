import DeskScript.Event
import DeskScript.Native
import DeskScript.Scope.Collect
import DeskScript.Scope.Renaming

/-!
The state of a script between and during its runs: its scopes, the native
functions it may call, its event handlers, what it printed and emitted, how
deep its calls are, and which of its functions the host holds.

The host does not see the numbers of scopes. In a value that it hands over, the
scope of a function is a number of the host's own, which `handles` translates.
-/

namespace DeskScript

/-- What to run, and where, when an event has its name. -/
structure Handler where
  event : String
  body : Block
  scope : ScopeId

structure Session where
  /-- The number of the script. -/
  id : Nat
  scopes : Arena
  natives : Natives
  handlers : Array Handler
  /-- Events emitted and not yet taken, the oldest first. -/
  outbox : List Event
  output : Array String
  /-- How many functions are being executed. -/
  depth : Nat
  maxDepth : Nat
  /-- How many functions were made. -/
  made : Nat
  /-- The scopes of the functions that the host holds, in the order that it got them. -/
  lent : List ScopeId

namespace Session

def defaultMaxDepth : Nat := 256

def initial (id : Nat) (natives : Natives) (maxDepth : Nat) : Session :=
  ⟨id, .initial, natives, #[], [], #[], 0, maxDepth, 0, []⟩

/-- What the host's numbers stand for: 0 for the root, the others for the functions it holds. -/
def handles (s : Session) : Renaming := ⟨fun n => (Arena.root :: s.lent).getD n Arena.root, rfl⟩

/-- Binds a variable at top level to a value of the host. -/
def defineGlobal (s : Session) (x : String) (v : Value) : Session :=
  { s with scopes := s.scopes.define Arena.root x (v.rename s.handles) }

def global? (s : Session) (x : String) : Option Value := s.scopes.get? Arena.root x

/-- Lets the host hold the functions in a variable at top level. -/
def lend (s : Session) (x : String) : Session :=
  { s with lent := s.lent ++ (s.global? x).toList.flatMap Value.scopes }

/-- The host no longer holds its function `n`. The others keep their numbers. -/
def takeBack (s : Session) (n : Nat) : Session :=
  { s with lent := ((Arena.root :: s.lent).set n Arena.root).tail }

/-- The variables at top level. -/
def globals (s : Session) : Table Value := s.scopes.bindings Arena.root

def print (s : Session) (line : String) : Session := { s with output := s.output.push line }

def emit (s : Session) (name : String) (payload : Json) : Session :=
  { s with outbox := s.outbox ++ [⟨name, payload, some s.id⟩] }

/-- Takes the oldest emitted event. -/
def nextEmitted? (s : Session) : Option (Event × Session) :=
  match s.outbox with
  | e :: rest => some (e, { s with outbox := rest })
  | [] => none

/-- The handlers of an event, in the order of their registration. -/
def handlersOf (s : Session) (e : Event) : List Handler :=
  s.handlers.toList.filter (·.event == e.name)

/-- Makes a function in a scope and binds it there. -/
def defineFunction (s : Session) (e : ScopeId) (name : String) (params : List String)
    (body : Block) : Session :=
  let f : Closure := ⟨.made s.made, name, params, body, e⟩
  { s with scopes := (s.scopes.capture e).define e name (.function f), made := s.made + 1 }

/-- Registers a handler, which keeps its scope. -/
def addHandler (s : Session) (e : ScopeId) (event : String) (body : Block) : Session :=
  { s with scopes := s.scopes.pin e, handlers := s.handlers.push ⟨event, body, e⟩ }

/-- Opens a scope with some bindings. -/
def openScope (s : Session) (parent : ScopeId) (bindings : List (String × Value)) :
    ScopeId × Session :=
  let (e, scopes) := s.scopes.child parent
  (e, { s with scopes := bindings.foldl (fun a (x, v) => a.define e x v) scopes })

/-- Ends a scope while the functions of some scopes are held, besides those that the host holds. -/
def closeScope (s : Session) (held : Unit → List ScopeId) (e : ScopeId) : Session :=
  { s with scopes := s.scopes.release (fun _ => s.lent ++ held ()) e }

/-- Gives up the scopes that nothing leads to. -/
def collect (s : Session) (held : List ScopeId) : Session :=
  { s with scopes := s.scopes.collect (s.lent ++ held) }

end Session

end DeskScript
