import DeskScript.Scope

/-!
Giving up scopes.

A scope nobody captured is given up as soon as it ends. A captured one stays
until a collection finds that nothing leads to it: no running or pinned scope,
and no function held outside the arena. One scope leads to another if it is
inside it, or binds a value with a function made in it.

    collect keeps exactly the scopes that something leads to
-/

namespace DeskScript

/-- The scopes that a scope leads to. -/
def Scope.links (s : Scope) : List ScopeId :=
  s.parent.toList ++ s.bindings.flatMap fun p => p.2.scopes

namespace Arena

/-- The scopes that are needed by themselves. -/
def needed (a : Arena) : List ScopeId :=
  (List.range a.slots.size).filter fun e => (a.scope? e).any fun s => s.active || s.pinned

/-- Marks all that `pending` leads to. The number bounds the scopes not yet marked. -/
def mark (a : Arena) (left : Nat) (pending : List ScopeId) (marks : Array Bool) : Array Bool :=
  match left, pending with
  | 0, _ | _, [] => marks
  | left + 1, e :: pending =>
    if marks.getD e true then mark a (left + 1) pending marks
    else
      match a.scope? e with
      | none => mark a (left + 1) pending marks
      | some s => mark a left (s.links ++ pending) (marks.setIfInBounds e true)
termination_by (left, pending.length)

/-- The marks of the scopes that something leads to, `held` being the scopes of functions held
outside. -/
def reached (a : Arena) (held : List ScopeId) : Array Bool :=
  a.mark a.slots.size (held ++ a.needed) (Array.replicate a.slots.size false)

/-- Empties the slots of all scopes that nothing leads to, the lowest first. -/
def collect (a : Arena) (held : List ScopeId) : Arena :=
  let marks := a.reached held
  (List.range a.slots.size).foldl (fun a e => if marks.getD e false then a else a.vacate e) a

/-- Ends a scope. What is held outside is asked for only when there is a collection. -/
def release (a : Arena) (held : Unit → List ScopeId) (e : ScopeId) : Arena :=
  if e = root then a
  else
    match a.scope? e with
    | none => a
    | some s =>
      let a := a.update e fun s => { s with active := false }
      if s.captured then a.collect (held ()) else a.vacate e

end Arena

end DeskScript
