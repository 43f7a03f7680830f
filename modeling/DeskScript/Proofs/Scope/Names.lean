import DeskScript.Proofs.Scope.Mirror
import DeskScript.Proofs.Scope.Running

/-!
# The names of a scope

The names bound in a scope stand in the order in which they were bound first. No
operation takes one away or moves it, and only binding a new name in a scope adds
one, at the end:

    e ∈ W → a.Gains W x (a.set e y v)                                  (Arena.gains_set)
-/

namespace DeskScript

theorem Table.names_put {α : Type} (t : Table α) (k : String) (v : α) :
    names (put t k v) = if k ∈ names t then names t else names t ++ [k] := by
  have hcons : ∀ (p : String × α) (t : Table α), names (p :: t) = p.1 :: names t := fun _ _ => rfl
  induction t with
  | nil => rfl
  | cons p t ih =>
    unfold put
    by_cases h : p.1 = k
    · rw [if_pos h, hcons, hcons, if_pos (h ▸ List.mem_cons_self), h]
    · rw [if_neg h, hcons, hcons, ih]
      have hmem : k ∈ p.1 :: names t ↔ k ∈ names t := by
        rw [List.mem_cons, or_iff_right (Ne.symm h)]
      simp only [hmem]
      split <;> rfl

namespace Arena

/-- The names bound in a scope, the oldest first. -/
def names (a : Arena) (e : ScopeId) : List String := Table.names (a.bindings e)

/-- Between `a` and `b`, `x` may have got new names, if it is in `W`. -/
structure Gains (W : List ScopeId) (x : ScopeId) (a b : Arena) : Prop where
  same : x ∉ W → b.names x = a.names x
  grown : a.names x <+: b.names x

section
variable {W V : List ScopeId} {a b c : Arena} {e x : ScopeId}

theorem Gains.of_eq (h : b.names x = a.names x) : Gains W x a b :=
  ⟨fun _ => h, h ▸ List.prefix_refl _⟩

theorem Gains.trans (h : Gains W x a b) (h' : Gains W x b c) : Gains W x a c :=
  ⟨fun hx => (h'.same hx).trans (h.same hx), h.grown.trans h'.grown⟩

theorem Gains.mono (h : Gains W x a b) (hW : x ∈ W → x ∈ V) : Gains V x a b :=
  ⟨fun hx => h.same fun hmem => hx (hW hmem), h.grown⟩

/-! ## Binding -/

theorem names_define_ne (hx : x ≠ e) (y : String) (v : Value) :
    (a.define e y v).names x = a.names x := by
  unfold names bindings define
  rw [scope?_update, if_neg hx]

theorem names_define_self (y : String) (v : Value) :
    (a.define e y v).names e = a.names e ∨
      y ∉ a.names e ∧ (a.define e y v).names e = a.names e ++ [y] := by
  unfold names bindings define
  rw [scope?_update, if_pos rfl]
  cases a.scope? e with
  | none => exact Or.inl rfl
  | some s =>
    simp only [Option.map_some, Option.getD_some, Table.names_put]
    split
    · exact Or.inl rfl
    · next hmem => exact Or.inr ⟨hmem, rfl⟩

theorem gains_define (he : e ∈ W) (y : String) (v : Value) : Gains W x a (a.define e y v) := by
  by_cases hx : x = e
  · subst hx
    refine ⟨fun hnot => absurd he hnot, ?_⟩
    rcases names_define_self (a := a) (e := x) y v with heq | ⟨-, heq⟩
    · exact heq.symm ▸ List.prefix_refl _
    · exact heq.symm ▸ List.prefix_append _ _
  · exact .of_eq (names_define_ne hx y v)

/-- Giving a bound name another value. -/
theorem names_change {o : ScopeId} {y : String} {old : Value} (h : a.find? e y = some (o, old))
    (v : Value) (x : ScopeId) : (a.define o y v).names x = a.names x := by
  by_cases hx : x = o
  · subst hx
    refine (names_define_self y v).resolve_right fun hnew => hnew.1 ?_
    obtain ⟨s, hs, hmem⟩ := findFrom_some h
    unfold names bindings
    rw [hs, Option.map_some, Option.getD_some]
    exact List.mem_map_of_mem hmem
  · exact names_define_ne hx y v

theorem gains_set (he : e ∈ W) (y : String) (v : Value) : Gains W x a (a.set e y v) := by
  unfold set resolve?
  cases hfind : a.find? e y with
  | none => exact gains_define he y v
  | some p =>
    obtain ⟨o, old⟩ := p
    exact .of_eq (names_change hfind v x)

theorem Relabels.names (h : a.Relabels b) (x : ScopeId) : b.names x = a.names x := by
  have hx := congrArg (Option.map Prod.fst) (h.scope? x)
  simp only [Option.map_map] at hx
  exact congrArg (fun o => Table.names (Option.getD o [])) hx

/-! ## Opening and ending -/

theorem names_child (h : a.Tidy) (p : ScopeId) (hx : a.There x) :
    (a.child p).2.names x = a.names x := by
  have hne : x ≠ (a.child p).1 := by
    rintro rfl
    exact (opens_child h p).fresh hx
  unfold names bindings
  rw [scope?_child h, if_neg hne]

theorem names_defineAll (hx : x ≠ e) (bs : List (String × Value)) (a : Arena) :
    (bs.foldl (fun a (y, v) => a.define e y v) a).names x = a.names x := by
  induction bs generalizing a with
  | nil => rfl
  | cons q bs ih => exact (ih _).trans (names_define_ne hx q.1 q.2)

theorem Shrinks.names (h : a.Shrinks b) (hx : b.There x) : b.names x = a.names x := by
  obtain ⟨t, ht⟩ := hx
  obtain ⟨s, hs, -, hbindings⟩ := h x t ht
  unfold Arena.names bindings
  rw [ht, hs, Option.map_some, Option.map_some, hbindings]

end

end Arena

end DeskScript
