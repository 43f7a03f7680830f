import DeskScript.Scope

/-!
Other numbers for scopes.

A renaming gives scopes other numbers and leaves the root alone. To rename a value
is to rename the scopes of the functions inside it.
-/

namespace DeskScript

/-- New numbers for scopes. The root keeps its own. -/
structure Renaming where
  map : ScopeId → ScopeId
  map_root : map Arena.root = Arena.root

instance : CoeFun Renaming fun _ => ScopeId → ScopeId := ⟨Renaming.map⟩

/-- The value with the scopes of its functions renamed. -/
def Value.rename (ρ : Renaming) : Value → Value
  | array items => .array (items.map fun v => rename ρ v)
  | object fields => .object (fields.map fun p => (p.1, rename ρ p.2))
  | function f => .function { f with scope := ρ f.scope }
  | v => v
termination_by v => sizeOf v
decreasing_by
  · have := List.sizeOf_lt_of_mem ‹_ ∈ items›
    simp_wf
    omega
  · have := List.sizeOf_lt_of_mem ‹_ ∈ fields›
    have : sizeOf p = 1 + sizeOf p.1 + sizeOf p.2 := rfl
    simp_wf
    omega

end DeskScript
