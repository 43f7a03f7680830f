import DeskScript.Scope.Collect
import Mathlib.Data.List.Perm.Subperm

/-!
# What each operation does to the slots of an arena

An arena is known by its scopes (`scope?`) and its list of empty slots. An arena
is tidy if that list has every empty slot exactly once, and then a new scope
takes a slot that was empty and leaves all others as they are:

    (a.child p).2.scope? x = if x = (a.child p).1 then some (.opened p) else a.scope? x
-/

namespace DeskScript

/-- The scope that `child` opens inside `p`. -/
def Scope.opened (p : ScopeId) : Scope := ⟨[], some p, true, false, false⟩

namespace Arena

/-! ## Changing one scope -/

theorem scope?_update (a : Arena) (e : ScopeId) (f : Scope → Scope) (x : ScopeId) :
    (a.update e f).scope? x = if x = e then (a.scope? x).map f else a.scope? x := by
  simp only [scope?, update, Array.getElem?_modify]
  by_cases h : x = e
  · subst h
    cases a.slots[x]? with
    | none => simp
    | some s => cases s <;> simp
  · simp [h, Ne.symm h]

@[simp] theorem free_update (a : Arena) (e : ScopeId) (f : Scope → Scope) :
    (a.update e f).free = a.free := rfl

@[simp] theorem keepsAll_update (a : Arena) (e : ScopeId) (f : Scope → Scope) :
    (a.update e f).keepsAll = a.keepsAll := rfl

theorem lt_size_of_scope? {a : Arena} {e : ScopeId} {s : Scope} (h : a.scope? e = some s) :
    e < a.slots.size := by
  apply Classical.byContradiction
  intro hlt
  simp [scope?, Array.getElem?_eq_none (Nat.le_of_not_lt hlt)] at h

/-! ## Tidy arenas -/

/-- The list of empty slots has each of them once, and nothing else. -/
structure Tidy (a : Arena) : Prop where
  nodup : a.free.Nodup
  mem_free : ∀ e, e ∈ a.free ↔ a.slots[e]? = some none

theorem Tidy.update {a : Arena} (h : a.Tidy) (e : ScopeId) (f : Scope → Scope) :
    (a.update e f).Tidy := by
  refine ⟨h.nodup, fun x => ?_⟩
  rw [free_update, h.mem_free]
  simp only [Arena.update, Array.getElem?_modify]
  split
  · cases a.slots[x]? with
    | none => simp
    | some s => cases s <;> simp
  · rfl

theorem Tidy.scope?_free {a : Arena} (h : a.Tidy) {e : ScopeId} (he : e ∈ a.free) :
    a.scope? e = none := by
  simp [scope?, (h.mem_free e).mp he]

/-! ## Opening a scope -/

theorem child_empty {a : Arena} (h : a.Tidy) (p : ScopeId) : a.scope? (a.child p).1 = none := by
  unfold child
  split
  · next e free hfree => exact h.scope?_free (hfree ▸ List.mem_cons_self)
  · simp [scope?]

theorem scope?_child {a : Arena} (h : a.Tidy) (p x : ScopeId) :
    (a.child p).2.scope? x = if x = (a.child p).1 then some (.opened p) else a.scope? x := by
  unfold child
  split
  · next e free hfree =>
    have he : a.slots[e]? = some none := (h.mem_free e).mp (hfree ▸ List.mem_cons_self)
    have hlt : e < a.slots.size := (Array.getElem?_eq_some_iff.mp he).1
    simp only [scope?, Array.getElem?_setIfInBounds]
    by_cases hx : x = e
    · subst hx
      simp [hlt, Scope.opened]
    · simp [hx, Ne.symm hx]
  · simp only [scope?, Array.getElem?_push]
    by_cases hx : x = a.slots.size
    · simp [hx, Scope.opened]
    · simp [hx]

theorem Tidy.child {a : Arena} (h : a.Tidy) (p : ScopeId) : (a.child p).2.Tidy := by
  unfold Arena.child
  split
  · next e free hfree =>
    have hnd := h.nodup
    rw [hfree, List.nodup_cons] at hnd
    have he : a.slots[e]? = some none := (h.mem_free e).mp (hfree ▸ List.mem_cons_self)
    have hlt : e < a.slots.size := (Array.getElem?_eq_some_iff.mp he).1
    refine ⟨hnd.2, fun x => ?_⟩
    simp only [Array.getElem?_setIfInBounds]
    by_cases hx : x = e
    · subst hx
      simp [hlt, hnd.1]
    · simp only [Ne.symm hx, if_false]
      rw [← h.mem_free, hfree]
      simp [hx]
  · next hfree =>
    refine ⟨by simp [hfree], fun x => ?_⟩
    have hmem := h.mem_free x
    simp only [hfree, Array.getElem?_push] at hmem ⊢
    split
    · simp
    · exact hmem

@[simp] theorem keepsAll_child (a : Arena) (p : ScopeId) :
    (a.child p).2.keepsAll = a.keepsAll := by
  unfold child
  split <;> rfl

/-! ## Emptying a slot -/

theorem scope?_vacate {a : Arena} (h : a.keepsAll = false) (e x : ScopeId) :
    (a.vacate e).scope? x = if x = e then none else a.scope? x := by
  unfold vacate
  by_cases he : (a.scope? e).isSome
  · rw [if_pos (by simp [he, h])]
    simp only [scope?, Array.getElem?_setIfInBounds]
    by_cases hx : x = e
    · subst hx
      simp only [if_true]
      split <;> simp
    · simp [hx, Ne.symm hx]
  · simp only [he, Bool.false_and, Bool.false_eq_true, if_false]
    split
    · next hx =>
      subst hx
      simpa using he
    · rfl

@[simp] theorem keepsAll_vacate (a : Arena) (e : ScopeId) : (a.vacate e).keepsAll = a.keepsAll := by
  unfold vacate
  split <;> rfl

theorem Tidy.vacate {a : Arena} (h : a.Tidy) (e : ScopeId) : (a.vacate e).Tidy := by
  unfold Arena.vacate
  split
  · next he =>
    simp only [Bool.and_eq_true] at he
    obtain ⟨s, hs⟩ := Option.isSome_iff_exists.mp he.1
    have hlt := lt_size_of_scope? hs
    have hnot : e ∉ a.free := fun hmem => by simp [h.scope?_free hmem] at hs
    refine ⟨List.nodup_cons.mpr ⟨hnot, h.nodup⟩, fun x => ?_⟩
    simp only [List.mem_cons, Array.getElem?_setIfInBounds]
    by_cases hx : x = e
    · subst hx
      simp [hlt]
    · simp [hx, Ne.symm hx, h.mem_free]
  · exact h

theorem vacate_keeping {a : Arena} (h : a.keepsAll = true) (e : ScopeId) : a.vacate e = a := by
  simp [vacate, h]

/-! ## Scopes around a scope -/

/-- The scopes from one outwards, up to one that has none around it. -/
inductive Around (a : Arena) : ScopeId → List ScopeId → Prop
  | last {e : ScopeId} {s : Scope} : a.scope? e = some s → s.parent = none → Around a e [e]
  | inside {e p : ScopeId} {s : Scope} {l : List ScopeId} :
      a.scope? e = some s → s.parent = some p → Around a p l → Around a e (e :: l)

namespace Around

variable {a : Arena} {e : ScopeId} {l : List ScopeId}

theorem scope (h : a.Around e l) : ∃ s, a.scope? e = some s := by
  cases h with
  | last hs _ => exact ⟨_, hs⟩
  | inside hs _ _ => exact ⟨_, hs⟩

theorem scope_of_mem (h : a.Around e l) : ∀ x ∈ l, ∃ s, a.scope? x = some s := by
  induction h with
  | last hs _ =>
    intro x hx
    rw [List.mem_singleton.mp hx]
    exact ⟨_, hs⟩
  | inside hs _ _ ih =>
    intro x hx
    rcases List.mem_cons.mp hx with rfl | hx
    · exact ⟨_, hs⟩
    · exact ih x hx

theorem self_mem (h : a.Around e l) : e ∈ l := by
  cases h <;> simp

theorem unique {l' : List ScopeId} (h : a.Around e l) (h' : a.Around e l') : l = l' := by
  induction h generalizing l' with
  | last hs hp =>
    cases h' with
    | last _ _ => rfl
    | inside hs' hp' _ =>
      obtain rfl := Option.some.inj (hs.symm.trans hs')
      rw [hp] at hp'
      cases hp'
  | inside hs hp _ ih =>
    cases h' with
    | last hs' hp' =>
      obtain rfl := Option.some.inj (hs.symm.trans hs')
      rw [hp] at hp'
      cases hp'
    | inside hs' hp' h' =>
      obtain rfl := Option.some.inj (hs.symm.trans hs')
      rw [hp] at hp'
      obtain rfl := Option.some.inj hp'
      rw [ih h']

/-- From a scope on the way, the rest of the way is no longer. -/
theorem of_mem (h : a.Around e l) : ∀ x ∈ l, ∃ l', a.Around x l' ∧ l'.length ≤ l.length := by
  induction h with
  | last hs hp =>
    intro x hx
    rw [List.mem_singleton.mp hx]
    exact ⟨_, .last hs hp, Nat.le_refl _⟩
  | inside hs hp hl ih =>
    intro x hx
    rcases List.mem_cons.mp hx with rfl | hx
    · exact ⟨_, .inside hs hp hl, Nat.le_refl _⟩
    · obtain ⟨l', h1, h2⟩ := ih x hx
      exact ⟨l', h1, Nat.le_succ_of_le h2⟩

/-- No scope comes twice on the way outwards. -/
theorem nodup (h : a.Around e l) : l.Nodup := by
  induction h with
  | last _ _ => simp
  | inside hs hp hl ih =>
    refine List.nodup_cons.mpr ⟨fun hmem => ?_, ih⟩
    obtain ⟨l', h1, h2⟩ := hl.of_mem _ hmem
    have h3 := h1.unique (.inside hs hp hl)
    rw [h3, List.length_cons] at h2
    omega

/-- The way outwards ends in a scope with none around it. -/
theorem getLast? (h : a.Around e l) :
    ∃ r s, l.getLast? = some r ∧ a.scope? r = some s ∧ s.parent = none := by
  induction h with
  | last hs hp => exact ⟨_, _, rfl, hs, hp⟩
  | inside _ _ hl ih =>
    obtain ⟨r, s, hr, hs, hp⟩ := ih
    exact ⟨r, s, by rw [List.getLast?_cons, hr]; rfl, hs, hp⟩

theorem length_le (h : a.Around e l) : l.length ≤ a.slots.size := by
  have hsub : l ⊆ List.range a.slots.size := fun x hx => by
    obtain ⟨s, hs⟩ := h.scope_of_mem x hx
    exact List.mem_range.mpr (lt_size_of_scope? hs)
  simpa using (List.subperm_of_subset h.nodup hsub).length_le

/-- The way outwards stays the same where the scopes on it keep the scopes around them. -/
theorem transport {b : Arena} (h : a.Around e l)
    (hb : ∀ x ∈ l, ∀ s, a.scope? x = some s → ∃ t, b.scope? x = some t ∧ t.parent = s.parent) :
    b.Around e l := by
  induction h with
  | last hs hp =>
    obtain ⟨t, ht, hpt⟩ := hb _ List.mem_cons_self _ hs
    exact .last ht (hpt.trans hp)
  | inside hs hp _ ih =>
    obtain ⟨t, ht, hpt⟩ := hb _ List.mem_cons_self _ hs
    exact .inside ht (hpt.trans hp) (ih fun x hx => hb x (List.mem_cons_of_mem _ hx))

end Around

/-! ## Looking up names -/

/-- A scope and its binding of a name. -/
def binding? (a : Arena) (x : String) (e : ScopeId) : Option (ScopeId × Value) :=
  (a.scope? e).bind fun s => (Table.get? s.bindings x).map fun v => (e, v)

theorem findFrom_eq {a : Arena} {e : ScopeId} {l : List ScopeId} (h : a.Around e l) (x : String)
    (n : Nat) (hn : l.length ≤ n) : findFrom a x n e = l.findSome? (a.binding? x) := by
  induction h generalizing n with
  | @last e s hs hp =>
    cases n with
    | zero => simp at hn
    | succ n =>
      simp only [findFrom, hs, List.findSome?, binding?, Option.bind_some, hp]
      cases Table.get? s.bindings x <;> rfl
  | @inside e p s l hs hp _ ih =>
    cases n with
    | zero => simp at hn
    | succ n =>
      have ih := ih n (by simpa using hn)
      simp only [findFrom, hs, List.findSome?, binding?, Option.bind_some, hp]
      cases Table.get? s.bindings x with
      | none => exact ih
      | some v => rfl

/-- A name is looked up in the scopes around one, from the inside out. -/
theorem find?_eq {a : Arena} {e : ScopeId} {l : List ScopeId} (h : a.Around e l) (x : String) :
    a.find? e x = l.findSome? (a.binding? x) :=
  findFrom_eq h x _ h.length_le

end Arena

end DeskScript
