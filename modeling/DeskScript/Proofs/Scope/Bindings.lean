import DeskScript.Proofs.Scope.Mirror

/-!
# What an arena binds

Scopes are opened empty, and all operations but `define` leave bindings alone or
drop them with their scope. So a property of all values bound needs to be known of
those that are defined, and of no others:

    a.BindsOnly P → P v → (a.define e x v).BindsOnly P                  (BindsOnly.define)
-/

namespace DeskScript

namespace Arena

/-- All values bound in an arena have a property. -/
def BindsOnly (P : Value → Prop) (a : Arena) : Prop :=
  ∀ e s, a.scope? e = some s → ∀ b ∈ s.bindings, P b.2

namespace BindsOnly

variable {P : Value → Prop} {a b : Arena}

theorem shrinks (h : a.BindsOnly P) (hb : a.Shrinks b) : b.BindsOnly P := by
  intro e t ht p hp
  obtain ⟨s, hs, -, hbindings⟩ := hb e t ht
  exact h e s hs p (hbindings ▸ hp)

/-! ## Looking up -/

theorem findFrom (h : a.BindsOnly P) {x : String} {n : Nat} {e o : ScopeId} {v : Value}
    (hv : a.findFrom x n e = some (o, v)) : P v := by
  induction n generalizing e with
  | zero => cases hv
  | succ n ih =>
    unfold Arena.findFrom at hv
    split at hv
    · cases hv
    · next s hs =>
      split at hv
      · next w hw =>
        obtain ⟨-, rfl⟩ := Prod.mk.inj (Option.some.inj hv)
        exact h e s hs _ (Table.mem_of_get? hw)
      · obtain ⟨p, -, hp⟩ := Option.bind_eq_some_iff.mp hv
        exact ih hp

theorem find? (h : a.BindsOnly P) {e o : ScopeId} {x : String} {v : Value}
    (hv : a.find? e x = some (o, v)) : P v :=
  h.findFrom hv

theorem get? (h : a.BindsOnly P) {e : ScopeId} {x : String} {v : Value}
    (hv : a.get? e x = some v) : P v := by
  obtain ⟨p, hp, rfl⟩ := Option.map_eq_some_iff.mp hv
  exact h.find? hp

/-! ## Binding -/

theorem define (h : a.BindsOnly P) (e : ScopeId) (x : String) {v : Value} (hv : P v) :
    (a.define e x v).BindsOnly P := by
  intro y t ht p hp
  unfold Arena.define at ht
  rw [scope?_update] at ht
  split at ht
  · obtain ⟨s, hs, rfl⟩ := Option.map_eq_some_iff.mp ht
    rcases Table.mem_put hp with rfl | hp
    · exact hv
    · exact h y s hs p hp
  · exact h y t ht p hp

theorem set (h : a.BindsOnly P) (e : ScopeId) (x : String) {v : Value} (hv : P v) :
    (a.set e x v).BindsOnly P :=
  h.define _ x hv

theorem defineAll (h : a.BindsOnly P) (e : ScopeId) {bs : List (String × Value)}
    (hbs : ∀ p ∈ bs, P p.2) : (bs.foldl (fun a (x, v) => a.define e x v) a).BindsOnly P := by
  induction bs generalizing a with
  | nil => exact h
  | cons p bs ih =>
    obtain ⟨hp, hbs⟩ := List.forall_mem_cons.mp hbs
    exact ih (h.define e p.1 hp) hbs

/-! ## Opening and ending -/

theorem child (h : a.BindsOnly P) (p : ScopeId) : (a.child p).2.BindsOnly P := by
  intro e s hs b hb
  unfold Arena.child at hs
  split at hs
  · next e' free _ =>
    simp only [scope?, Array.getElem?_setIfInBounds] at hs
    split at hs
    · split at hs
      · rw [← Option.some.inj hs] at hb
        cases hb
      · cases hs
    · exact h e s hs b hb
  · simp only [scope?, Array.getElem?_push] at hs
    split at hs
    · rw [← Option.some.inj hs] at hb
      cases hb
    · exact h e s hs b hb

theorem vacate (h : a.BindsOnly P) (e : ScopeId) : (a.vacate e).BindsOnly P := by
  unfold Arena.vacate
  split
  · intro x s hs b hb
    simp only [scope?, Array.getElem?_setIfInBounds] at hs
    split at hs
    · split at hs <;> cases hs
    · exact h x s hs b hb
  · exact h

theorem collect (h : a.BindsOnly P) (held : List ScopeId) : (a.collect held).BindsOnly P := by
  have hfold : ∀ (es : List ScopeId) (a : Arena) (marks : Array Bool), a.BindsOnly P →
      (es.foldl (fun a e => if marks.getD e false then a else a.vacate e) a).BindsOnly P := by
    intro es
    induction es with
    | nil => exact fun a marks h => h
    | cons e es ih =>
      intro a marks h
      rw [List.foldl_cons]
      split
      · exact ih a marks h
      · exact ih _ marks (h.vacate e)
  exact hfold _ a _ h

theorem release (h : a.BindsOnly P) (held : Unit → List ScopeId) (e : ScopeId) :
    (a.release held e).BindsOnly P := by
  have hstop := h.shrinks (relabels_update a e (fun s => { s with active := false })
    fun _ => rfl).shrinks
  unfold Arena.release
  split
  · exact h
  · split
    · exact h
    · extract_lets
      split
      · exact hstop.collect _
      · exact hstop.vacate e

end BindsOnly

theorem bindsOnly_initial (P : Value → Prop) : initial.BindsOnly P := by
  intro e s hs b hb
  rcases e with _ | e
  · obtain rfl := Option.some.inj hs
    cases hb
  · cases hs

end Arena

end DeskScript
