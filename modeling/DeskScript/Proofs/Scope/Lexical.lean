import DeskScript.Proofs.Scope.Running

/-!
# An assignment changes one binding

Names are looked up from a scope outwards, so an assignment can be seen from many scopes. It
changes one binding: that of the name in the nearest scope that has one, or a new one, at the end
of the scope that the assignment is made in. With `o` for the scope of that binding, it is seen from
`f` exactly if the way outwards from `f` comes to `o` before any other scope that binds the name:

    a.Meets x f o → (a.set e x v).get? f x = some v
    ¬ a.Meets x f o → (a.set e x v).get? f x = a.get? f x

Two ways outwards may come together anywhere. Both are compared as lists of scopes (`Around`).
-/

namespace DeskScript

/-! ## Tables -/

namespace Table

variable {α : Type}

theorem get?_eq_none {t : Table α} {k : String} : get? t k = none ↔ k ∉ names t := by
  induction t with
  | nil => simp [get?, names]
  | cons p t ih =>
    by_cases hp : p.1 = k
    · simp [get?, names, hp]
    · simpa [get?, names, hp, Ne.symm hp] using ih

/-- One entry is another: the first one of the name, in its place, or a new one at the end. -/
inductive Rebinds (k : String) (v : α) : Table α → Table α → Prop
  | changed (before after : Table α) (old : α) :
      k ∉ names before → Rebinds k v (before ++ (k, old) :: after) (before ++ (k, v) :: after)
  | added {t : Table α} : k ∉ names t → Rebinds k v t (t ++ [(k, v)])

theorem put_rebinds (t : Table α) (k : String) (v : α) : Rebinds k v t (put t k v) := by
  induction t with
  | nil => exact .added (by simp [names])
  | cons p t ih =>
    obtain ⟨k', w⟩ := p
    by_cases hp : k' = k
    · subst hp
      rw [put, if_pos rfl]
      exact .changed [] t w (by simp [names])
    · rw [put, if_neg hp]
      have hcons {us : Table α} (h : k ∉ names us) : k ∉ names ((k', w) :: us) := by
        simpa [names, Ne.symm hp] using h
      generalize put t k v = t' at ih
      cases ih with
      | changed before after old hbefore =>
        exact .changed ((k', w) :: before) after old (hcons hbefore)
      | added ht => exact .added (hcons ht)

end Table

namespace Arena

/-! ## Ways outwards -/

/-- From every scope there is a way outwards that ends. -/
def Chained (a : Arena) : Prop := ∀ e, a.There e → ∃ l, a.Around e l

def Binds (a : Arena) (x : String) (e : ScopeId) : Prop :=
  ∃ s, a.scope? e = some s ∧ x ∈ Table.names s.bindings

/-- The way outwards from `f` comes to `o`, and no scope before `o` binds `x`. -/
def Meets (a : Arena) (x : String) (f o : ScopeId) : Prop :=
  ∃ before after, a.Around f (before ++ o :: after) ∧ ∀ p ∈ before, ¬ a.Binds x p

section
variable {a : Arena} {x : String} {e f o : ScopeId} {l : List ScopeId}

theorem binding?_eq_none : a.binding? x f = none ↔ ¬ a.Binds x f := by
  unfold binding? Binds
  cases a.scope? f with
  | none => simp
  | some s => simp [Table.get?_eq_none]

theorem binding?_fst {p : ScopeId × Value} (h : a.binding? x f = some p) : p.1 = f := by
  obtain ⟨s, -, hp⟩ := Option.bind_eq_some_iff.mp h
  obtain ⟨v, -, rfl⟩ := Option.map_eq_some_iff.mp hp
  rfl

theorem not_meets_of_aside (hl : a.Around f l) (ho : o ∉ l) : ¬ a.Meets x f o := by
  rintro ⟨before, after, hway, -⟩
  rw [hl.unique hway] at ho
  simp at ho

/-- Another binding comes first. -/
theorem not_meets_of_other {before after : List ScopeId} {p : ScopeId}
    (hl : a.Around f (before ++ p :: after)) (hp : a.Binds x p) (ho : o ∉ before ++ [p]) :
    ¬ a.Meets x f o := by
  rintro ⟨before', after', hway, hfree⟩
  have heq : (before ++ [p]) ++ after = before' ++ o :: after' := by
    simpa using hl.unique hway
  rcases List.append_eq_append_iff.mp heq with ⟨m, hm, -⟩ | ⟨m, hm, hafter⟩
  · exact hfree p (by simp [hm]) hp
  · cases m with
    | nil => exact hfree p (by simpa using congrArg (p ∈ ·) hm) hp
    | cons q m =>
      obtain ⟨rfl, -⟩ := List.cons.inj hafter
      exact ho (by simp [hm])

/-! ## Looking up after a definition -/

theorem around_define (v : Value) (hl : a.Around f l) : (a.define o x v).Around f l := by
  refine hl.transport fun p _ s hs => ?_
  by_cases hp : p = o
  · exact ⟨{ s with bindings := Table.put s.bindings x v },
      by rw [define, scope?_update, if_pos hp, hs]; rfl, rfl⟩
  · exact ⟨s, by rw [define, scope?_update, if_neg hp, hs], rfl⟩

theorem binding?_define_self (ho : a.There o) (v : Value) :
    (a.define o x v).binding? x o = some (o, v) := by
  obtain ⟨s, hs⟩ := ho
  simp [binding?, define, scope?_update, hs]

theorem binding?_define_of_ne {y : String} (h : f ≠ o ∨ y ≠ x) (v : Value) :
    (a.define o x v).binding? y f = a.binding? y f := by
  unfold binding? define
  rw [scope?_update]
  by_cases hf : f = o
  · have hy : y ≠ x := h.resolve_left (absurd hf)
    cases a.scope? f with
    | none => simp
    | some s => simp [hf, Table.get?_put_ne _ hy]
  · rw [if_neg hf]

theorem findSome?_define {y : String} (h : o ∉ l ∨ y ≠ x) (v : Value) :
    l.findSome? ((a.define o x v).binding? y) = l.findSome? (a.binding? y) := by
  induction l with
  | nil => rfl
  | cons p l ih =>
    have hp : p ≠ o ∨ y ≠ x := h.imp_left fun ho => Ne.symm (List.ne_of_not_mem_cons ho)
    rw [List.findSome?_cons, List.findSome?_cons, binding?_define_of_ne hp,
      ih (h.imp_left List.not_mem_of_not_mem_cons)]

theorem get?_define_of_meets (ho : a.There o) (h : a.Meets x f o) (v : Value) :
    (a.define o x v).get? f x = some v := by
  obtain ⟨before, after, hway, hfree⟩ := h
  have hbefore : before.findSome? ((a.define o x v).binding? x) = none := by
    have hnot : o ∉ before := by
      have hnodup := hway.nodup
      rw [List.nodup_append] at hnodup
      exact fun hmem => hnodup.2.2 o hmem o List.mem_cons_self rfl
    rw [findSome?_define (Or.inl hnot)]
    exact List.findSome?_eq_none_iff.mpr fun p hp => binding?_eq_none.mpr (hfree p hp)
  rw [get?, find?_eq (around_define v hway), List.findSome?_append, hbefore, Option.none_or,
    List.findSome?_cons, binding?_define_self ho]
  rfl

theorem get?_define_of_not_meets {y : String} (hl : a.Around f l) (h : y ≠ x ∨ ¬ a.Meets x f o)
    (v : Value) : (a.define o x v).get? f y = a.get? f y := by
  rw [get?, get?, find?_eq (around_define v hl), find?_eq hl]
  by_cases hy : y ≠ x
  · rw [findSome?_define (Or.inr hy)]
  by_cases ho : o ∈ l
  · obtain rfl : y = x := Classical.not_not.mp hy
    obtain ⟨before, after, rfl, hnot⟩ := List.eq_append_cons_of_mem ho
    -- some scope before `o` binds the name, and the search ends there
    obtain ⟨p, hp, hbinds⟩ : ∃ p ∈ before, a.Binds y p := by
      by_contra hfree
      exact h.resolve_left hy ⟨before, after, hl, fun p hp hb => hfree ⟨p, hp, hb⟩⟩
    have hfound : (before.findSome? (a.binding? y)).isSome := by
      rw [List.findSome?_isSome_iff]
      refine ⟨p, hp, Option.isSome_iff_ne_none.mpr fun hnone => ?_⟩
      exact binding?_eq_none.mp hnone hbinds
    rw [List.findSome?_append, List.findSome?_append, findSome?_define (Or.inl hnot),
      Option.or_of_isSome hfound, Option.or_of_isSome hfound]
  · rw [findSome?_define (Or.inl ho)]

end

/-! ## Assigning -/

/-- In `b` the binding of `x` in `o` is another one than in `a`, or a new one, with the value `v`, as
an assignment made in `e` asks for. -/
structure Assigned (a : Arena) (e : ScopeId) (x : String) (v : Value) (o : ScopeId) (b : Arena) :
    Prop where
  /-- It is the nearest scope around `e` that binds `x`, and `e` itself if none does. -/
  owner : a.Meets x e o ∧ a.Binds x o ∨ o = e ∧ ∀ l, a.Around e l → ∀ p ∈ l, ¬ a.Binds x p
  binding : ∃ s bs, a.scope? o = some s ∧ Table.Rebinds x v s.bindings bs ∧
    b.scope? o = some { s with bindings := bs }
  others : ∀ f, f ≠ o → b.scope? f = a.scope? f
  slots : b.slots.size = a.slots.size ∧ b.free = a.free ∧ b.keepsAll = a.keepsAll
  seen : ∀ f, a.Meets x f o → b.get? f x = some v
  unseen : ∀ f y, a.There f → y ≠ x ∨ ¬ a.Meets x f o → b.get? f y = a.get? f y
  /-- From `f` another binding of `x` comes first. -/
  shadowed : ∀ f before p after, a.Around f (before ++ p :: after) → a.Binds x p →
    o ∉ before ++ [p] → b.get? f x = a.get? f x
  /-- The way outwards from `f` does not pass `o`. -/
  aside : ∀ f l y, a.Around f l → o ∉ l → b.get? f y = a.get? f y

theorem assigned_define {a : Arena} (ha : a.Chained) {e o : ScopeId} (ho : a.There o) {x : String}
    (howner : a.Meets x e o ∧ a.Binds x o ∨ o = e ∧ ∀ l, a.Around e l → ∀ p ∈ l, ¬ a.Binds x p)
    (v : Value) : a.Assigned e x v o (a.define o x v) where
  owner := howner
  binding := by
    obtain ⟨s, hs⟩ := ho
    exact ⟨s, _, hs, Table.put_rebinds _ _ _, by rw [define, scope?_update, if_pos rfl, hs]; rfl⟩
  others f hf := by rw [define, scope?_update, if_neg hf]
  slots := ⟨by simp [define, update], rfl, rfl⟩
  seen f hf := get?_define_of_meets ho hf v
  unseen f y hf h := by
    obtain ⟨l, hl⟩ := ha f hf
    exact get?_define_of_not_meets hl h v
  shadowed f before p after hl hp hnot :=
    get?_define_of_not_meets hl (Or.inr (not_meets_of_other hl hp hnot)) v
  aside f l y hl hnot := get?_define_of_not_meets hl (Or.inr (not_meets_of_aside hl hnot)) v

/-- **An assignment changes one binding**, and is seen from where that is the nearest one. -/
theorem set_changes_one_binding {a : Arena} (ha : a.Chained) {e : ScopeId} (he : a.There e)
    (x : String) (v : Value) : ∃ o, a.Assigned e x v o (a.set e x v) := by
  obtain ⟨l, hl⟩ := ha e he
  unfold set resolve?
  cases hfind : a.find? e x with
  | none =>
    refine ⟨e, assigned_define ha he (Or.inr ⟨rfl, fun l' hl' p hp => ?_⟩) v⟩
    rw [find?_eq hl'] at hfind
    exact binding?_eq_none.mp (List.findSome?_eq_none_iff.mp hfind p hp)
  | some q =>
    rw [find?_eq hl] at hfind
    obtain ⟨before, o, after, rfl, hbinding, hbefore⟩ := List.findSome?_eq_some_iff.mp hfind
    obtain rfl : q.1 = o := binding?_fst hbinding
    have hbinds : a.Binds x q.1 := by
      by_contra hnot
      rw [binding?_eq_none.mpr hnot] at hbinding
      cases hbinding
    refine ⟨q.1, assigned_define ha (hl.scope_of_mem _ (by simp)) (Or.inl ⟨?_, hbinds⟩) v⟩
    exact ⟨before, after, hl, fun p hp => binding?_eq_none.mp (hbefore p hp)⟩

/-- A root that binds `x`, and in it a scope with two others inside, one of which binds `x` too. -/
def shadowing : Arena :=
  let scope (bs : Table Value) (parent : Option ScopeId) : Option Scope :=
    some ⟨bs, parent, true, true, false⟩
  ⟨#[scope [("x", .null)] none, scope [("y", .null)] (some 0), scope [("x", .null)] (some 1),
    scope [] (some 1)], [], false⟩

theorem around_shadowing : shadowing.Around 0 [0] ∧ shadowing.Around 1 [1, 0] ∧
    shadowing.Around 2 [2, 1, 0] ∧ shadowing.Around 3 [3, 1, 0] := by
  have h0 : shadowing.Around 0 [0] := .last rfl rfl
  have h1 : shadowing.Around 1 [1, 0] := .inside rfl rfl h0
  exact ⟨h0, h1, .inside rfl rfl h1, .inside rfl rfl h1⟩

theorem chained_shadowing : shadowing.Chained := by
  rintro e ⟨s, hs⟩
  obtain ⟨h0, h1, h2, h3⟩ := around_shadowing
  rcases e with _ | _ | _ | _ | e
  · exact ⟨_, h0⟩
  · exact ⟨_, h1⟩
  · exact ⟨_, h2⟩
  · exact ⟨_, h3⟩
  · simp [shadowing, scope?] at hs

/-- Assigned in the innermost scope without an `x` of its own, the `x` of the root is another one;
the scope beside it goes on seeing its own. -/
theorem set_changes_one_binding_shadowing :
    let b := shadowing.set 3 "x" (.bool true)
    (shadowing.Chained ∧ shadowing.There 3) ∧
      (∃ o, shadowing.Assigned 3 "x" (.bool true) o b) ∧
      b.get? 0 "x" = some (.bool true) ∧ b.get? 3 "x" = some (.bool true) ∧
      b.get? 2 "x" = some .null ∧ b.get? 3 "y" = some .null :=
  ⟨⟨chained_shadowing, _, rfl⟩, set_changes_one_binding chained_shadowing ⟨_, rfl⟩ _ _, rfl, rfl,
    rfl, rfl⟩

end Arena

end DeskScript
