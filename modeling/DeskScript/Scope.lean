import DeskScript.Value

/-!
Scopes and the arena that holds them.

A scope binds names and knows the scope around it. Scopes live in numbered
slots; slot 0 is the root and is never given up, and an empty slot is used again,
the one emptied last first. A name is looked up from a scope outwards:

    get? a e x = the binding of x in the nearest scope around e that has one
-/

namespace DeskScript

structure Scope where
  bindings : Table Value
  parent : Option ScopeId
  /-- What opened the scope is still running. -/
  active : Bool
  /-- A function was made in the scope or in one inside it. -/
  captured : Bool
  /-- An event handler runs inside the scope. -/
  pinned : Bool

structure Arena where
  slots : Array (Option Scope)
  /-- The empty slots, the one emptied last first. -/
  free : List ScopeId
  /-- Is every scope kept for good, so that no slot is ever emptied? -/
  keepsAll : Bool

namespace Arena

/-- The slot of the outermost scope. -/
def root : ScopeId := 0

/-- An arena with nothing but an empty root. -/
def initial : Arena := ⟨#[some ⟨[], none, true, true, true⟩], [], false⟩

/-- The same arena, from now on with every scope kept. -/
def keeping (a : Arena) : Arena := { a with keepsAll := true }

def scope? (a : Arena) (e : ScopeId) : Option Scope := (a.slots[e]?).join

/-- How many scopes there are. -/
def live (a : Arena) : Nat := a.slots.countP Option.isSome

def update (a : Arena) (e : ScopeId) (f : Scope → Scope) : Arena :=
  { a with slots := a.slots.modify e (Option.map f) }

/-- Opens a scope inside `parent`. -/
def child (a : Arena) (parent : ScopeId) : ScopeId × Arena :=
  let scope : Scope := ⟨[], some parent, true, false, false⟩
  match a.free with
  | e :: free => (e, { a with slots := a.slots.setIfInBounds e (some scope), free })
  | [] => (a.slots.size, { a with slots := a.slots.push (some scope) })

/-- Empties a slot, unless every scope is kept. -/
def vacate (a : Arena) (e : ScopeId) : Arena :=
  if (a.scope? e).isSome && !a.keepsAll then
    { a with slots := a.slots.setIfInBounds e none, free := e :: a.free }
  else a

/-! ## Names -/

/-- The nearest scope around `e` that binds `x`, with the value. The first argument bounds the
scopes on the way. -/
def findFrom (a : Arena) (x : String) : Nat → ScopeId → Option (ScopeId × Value)
  | 0, _ => none
  | n + 1, e =>
    match a.scope? e with
    | none => none
    | some s =>
      match Table.get? s.bindings x with
      | some v => some (e, v)
      | none => s.parent.bind (findFrom a x n)

def find? (a : Arena) (e : ScopeId) (x : String) : Option (ScopeId × Value) :=
  findFrom a x a.slots.size e

def resolve? (a : Arena) (e : ScopeId) (x : String) : Option ScopeId := (a.find? e x).map (·.1)

def get? (a : Arena) (e : ScopeId) (x : String) : Option Value := (a.find? e x).map (·.2)

/-- Binds a name in exactly this scope. -/
def define (a : Arena) (e : ScopeId) (x : String) (v : Value) : Arena :=
  a.update e fun s => { s with bindings := Table.put s.bindings x v }

/-- Changes the nearest binding of a name, or makes one in this scope. -/
def set (a : Arena) (e : ScopeId) (x : String) (v : Value) : Arena :=
  a.define ((a.resolve? e x).getD e) x v

/-- Changes the nearest binding of a name; `none` if there is no binding. -/
def assign? (a : Arena) (e : ScopeId) (x : String) (v : Value) : Option Arena :=
  (a.resolve? e x).map fun owner => a.define owner x v

/-- The bindings of one scope. -/
def bindings (a : Arena) (e : ScopeId) : Table Value := ((a.scope? e).map (·.bindings)).getD []

/-! ## Keeping scopes -/

/-- Marks a scope and those around it as captured, up to one that is so already. The first argument
bounds the scopes on the way. -/
def captureFrom : Nat → ScopeId → Arena → Arena
  | 0, _, a => a
  | n + 1, e, a =>
    match a.scope? e with
    | none => a
    | some s =>
      if s.captured then a
      else
        let a := a.update e fun s => { s with captured := true }
        match s.parent with
        | some p => captureFrom n p a
        | none => a

def capture (a : Arena) (e : ScopeId) : Arena := captureFrom a.slots.size e a

/-- Keeps a scope, and with it those around it, for good. -/
def pin (a : Arena) (e : ScopeId) : Arena :=
  (a.capture e).update e fun s => { s with pinned := true }

end Arena

end DeskScript
