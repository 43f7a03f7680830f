import DeskScript.Machine.Task
import Mathlib.Data.List.Basic

/-!
# Values up to the numbers of their scopes

A renaming gives scopes other numbers and leaves the root alone. No operation on
values looks at these numbers, so each one commutes with every renaming:

    binary op (v.rename ρ) (w.rename ρ) = (binary op v w).map (rename ρ)      (binary_rename)

From that it follows which functions a result can hold. A result that every
renaming fixing `S` also fixes has no function of a scope outside `S`:

    (∀ ρ fixing S, v.rename ρ = v) → ∀ e ∈ v.scopes, e = root ∨ e ∈ S        (scopes_of_fixed)
-/

namespace DeskScript

/-! ## Renamings -/

namespace Renaming

@[simp] theorem apply_root (ρ : Renaming) : ρ Arena.root = Arena.root := ρ.map_root

/-- The renaming that changes nothing. -/
def same : Renaming := ⟨fun e => e, rfl⟩

@[simp] theorem same_apply (e : ScopeId) : same e = e := rfl

/-- The renaming that sends `e` to `e'`, and every other scope where `ρ` sends it. -/
def extend (ρ : Renaming) (e e' : ScopeId) : Renaming where
  map x := if x = Arena.root then Arena.root else if x = e then e' else ρ x
  map_root := by simp

theorem extend_new (ρ : Renaming) (e e' : ScopeId) (h : e ≠ Arena.root) :
    ρ.extend e e' e = e' := by
  simp [extend, h]

theorem extend_old (ρ : Renaming) (e e' : ScopeId) {x : ScopeId} (h : x ≠ e) :
    ρ.extend e e' x = ρ x := by
  by_cases hx : x = Arena.root
  · subst hx
    simp
  · simp [extend, h, hx]

end Renaming

/-! ## Tables -/

namespace Table

variable {α β : Type}

/-- A table with other values under the same names. -/
def mapValues (f : α → β) (t : Table α) : Table β := t.map fun p => (p.1, f p.2)

theorem get?_mapValues (f : α → β) (t : Table α) (k : String) :
    get? (mapValues f t) k = (get? t k).map f := by
  induction t with
  | nil => rfl
  | cons p t ih =>
    by_cases h : p.1 = k
    · simp [mapValues, get?, h]
    · simpa [mapValues, get?, h] using ih

theorem put_mapValues (f : α → β) (t : Table α) (k : String) (v : α) :
    put (mapValues f t) k (f v) = mapValues f (put t k v) := by
  induction t with
  | nil => rfl
  | cons p t ih =>
    by_cases h : p.1 = k
    · simp [mapValues, put, h]
    · simpa [mapValues, put, h] using ih

theorem names_mapValues (f : α → β) (t : Table α) : names (mapValues f t) = names t := by
  simp [names, mapValues]

theorem mem_of_get? {t : Table α} {k : String} {v : α} (h : get? t k = some v) : (k, v) ∈ t := by
  induction t with
  | nil => simp [get?] at h
  | cons p t ih =>
    obtain ⟨k', v'⟩ := p
    by_cases hk : k' = k
    · simp only [get?, hk, if_true, Option.some.injEq] at h
      simp [hk, h]
    · simp only [get?, hk, if_false] at h
      exact List.mem_cons_of_mem _ (ih h)

/-- What is in a table after a put was put or was there before. -/
theorem mem_put {t : Table α} {k : String} {v : α} {p : String × α} (h : p ∈ put t k v) :
    p = (k, v) ∨ p ∈ t := by
  induction t with
  | nil => simpa [put] using h
  | cons q t ih =>
    by_cases hq : q.1 = k
    · simp only [put, hq, if_true, List.mem_cons] at h
      rcases h with h | h
      · exact Or.inl h
      · exact Or.inr (List.mem_cons_of_mem _ h)
    · simp only [put, hq, if_false, List.mem_cons] at h
      rcases h with h | h
      · exact Or.inr (by simp [h])
      · rcases ih h with h | h
        · exact Or.inl h
        · exact Or.inr (List.mem_cons_of_mem _ h)

end Table

namespace Value

/-! ## Renamed values -/

/-- Induction on a value along its items and fields. -/
theorem induction {P : Value → Prop} (null : P .null) (bool : ∀ b, P (.bool b))
    (number : ∀ n, P (.number n)) (string : ∀ s, P (.string s))
    (array : ∀ items, (∀ v ∈ items, P v) → P (.array items))
    (object : ∀ fields, (∀ p ∈ fields, P p.2) → P (.object fields))
    (function : ∀ f, P (.function f)) (v : Value) : P v := by
  refine @Value.rec P (fun vs => ∀ v ∈ vs, P v) (fun fs => ∀ p ∈ fs, P p.2) (fun p => P p.2)
    null bool number string array object function ?_ ?_ ?_ ?_ ?_ v
  all_goals simp_all

section
variable (ρ : Renaming)

@[simp] theorem rename_null : rename ρ null = null := by simp [rename]

@[simp] theorem rename_bool (b : Bool) : rename ρ (bool b) = bool b := by simp [rename]

@[simp] theorem rename_number (n : Float) : rename ρ (number n) = number n := by simp [rename]

@[simp] theorem rename_string (s : String) : rename ρ (string s) = string s := by simp [rename]

@[simp] theorem rename_array (items : List Value) :
    rename ρ (array items) = array (items.map (rename ρ)) := by
  rw [rename]

@[simp] theorem rename_object (fields : Table Value) :
    rename ρ (object fields) = object (Table.mapValues (rename ρ) fields) := by
  rw [rename, Table.mapValues]

@[simp] theorem rename_function (f : Closure) :
    rename ρ (function f) = function { f with scope := ρ f.scope } := by
  rw [rename]

end

@[simp] theorem scopes_null : scopes null = [] := by simp [scopes]

@[simp] theorem scopes_bool (b : Bool) : scopes (bool b) = [] := by simp [scopes]

@[simp] theorem scopes_number (n : Float) : scopes (number n) = [] := by simp [scopes]

@[simp] theorem scopes_string (s : String) : scopes (string s) = [] := by simp [scopes]

@[simp] theorem scopes_array (items : List Value) :
    scopes (array items) = items.flatMap scopes := by
  rw [scopes]

@[simp] theorem scopes_object (fields : Table Value) :
    scopes (object fields) = fields.flatMap fun p => scopes p.2 := by
  rw [scopes]

@[simp] theorem scopes_function (f : Closure) : scopes (function f) = [f.scope] := by
  rw [scopes]

/-- Only what a renaming does to the scopes of a value matters. -/
theorem rename_congr {ρ τ : Renaming} (v : Value) :
    (∀ e ∈ v.scopes, ρ e = τ e) → v.rename ρ = v.rename τ := by
  induction v using induction with
  | null => simp
  | bool b => simp
  | number n => simp
  | string s => simp
  | function f =>
    intro h
    simp [h f.scope (by simp)]
  | array items ih =>
    intro h
    simp only [rename_array, array.injEq, List.map_inj_left]
    intro v hv
    exact ih v hv fun e he => h e (by simpa using ⟨v, hv, he⟩)
  | object fields ih =>
    intro h
    simp only [rename_object, object.injEq, Table.mapValues, List.map_inj_left, Prod.mk.injEq,
      true_and]
    intro p hp
    exact ih p hp fun e he => h e (by simpa using ⟨p.1, p.2, hp, he⟩)

theorem rename_same (v : Value) : v.rename .same = v := by
  induction v using induction with
  | null => simp
  | bool b => simp
  | number n => simp
  | string s => simp
  | function f => simp
  | array items ih =>
    rw [rename_array, List.map_congr_left (g := id) fun v hv => ih v hv, List.map_id]
  | object fields ih =>
    simp only [rename_object, object.injEq, Table.mapValues]
    calc fields.map (fun p => (p.1, p.2.rename .same)) = fields.map id :=
          List.map_congr_left fun p hp => by rw [ih p hp]; rfl
      _ = fields := List.map_id _

theorem rename_of_fixed {ρ : Renaming} {v : Value} (h : ∀ e ∈ v.scopes, ρ e = e) :
    v.rename ρ = v := by
  rw [rename_congr v (τ := .same) h, rename_same]

theorem rename_rename {ρ τ υ : Renaming} (h : ∀ e, υ e = τ (ρ e)) (v : Value) :
    (v.rename ρ).rename τ = v.rename υ := by
  induction v using induction with
  | null => simp
  | bool b => simp
  | number n => simp
  | string s => simp
  | function f => simp [h]
  | array items ih => simpa using ih
  | object fields ih =>
    simp only [rename_object, object.injEq, Table.mapValues, List.map_map]
    exact List.map_congr_left fun p hp => by rw [Function.comp_apply, ih p hp]

theorem scopes_rename (ρ : Renaming) (v : Value) : (v.rename ρ).scopes = v.scopes.map ρ := by
  induction v using induction with
  | null => simp
  | bool b => simp
  | number n => simp
  | string s => simp
  | function f => simp
  | array items ih =>
    simp only [rename_array, scopes_array, List.flatMap_map, List.map_flatMap]
    exact List.flatMap_congr ih
  | object fields ih =>
    simp only [rename_object, scopes_object, Table.mapValues, List.flatMap_map, List.map_flatMap]
    exact List.flatMap_congr ih

/-- A value that is fixed whenever the scopes in `S` are has functions of no other scopes. -/
theorem scopes_of_fixed {S : List ScopeId} {v : Value}
    (h : ∀ ρ : Renaming, (∀ e ∈ S, ρ e = e) → v.rename ρ = v) :
    ∀ e ∈ v.scopes, e = Arena.root ∨ e ∈ S := by
  intro e he
  apply Classical.byContradiction
  intro hne
  rw [not_or] at hne
  -- moving `e` alone fixes `S`, but not the function of `e`
  have hfix : v.rename (Renaming.same.extend e (e + 1)) = v := by
    apply h
    intro x hx
    exact Renaming.extend_old _ _ _ fun hxe => hne.2 (hxe ▸ hx)
  have hmap := scopes_rename (Renaming.same.extend e (e + 1)) v
  rw [hfix] at hmap
  have hmem : e ∈ v.scopes.map (Renaming.same.extend e (e + 1)) := hmap ▸ he
  obtain ⟨x, -, hx⟩ := List.mem_map.mp hmem
  by_cases hxe : x = e
  · subst hxe
    rw [Renaming.extend_new _ _ _ hne.1] at hx
    exact Nat.succ_ne_self x hx
  · rw [Renaming.extend_old _ _ _ hxe] at hx
    exact hxe hx

end Value

end DeskScript
