import DeskScript.Proofs.Value.Rename

/-!
# Which functions a value holds

Functions are made by statements only. An operation on values that has a result has
no function in it but those of its operands, and one that has a fault never complains
of a stray jump:

    v.Only Q → w.Only Q → Yields (Value.Only Q) (Value.binary op v w)    (Value.binary_yields)

Native functions that are like this are `Tame`, and the standard ones all are
(`Native.standard_tame`).
-/

namespace DeskScript

/-! ## Functions in values -/

namespace Value

/-- The functions at any depth inside a value. -/
def functions : Value → List Closure
  | array items => items.flatMap fun v => functions v
  | object fields => fields.flatMap fun p => functions p.2
  | function f => [f]
  | _ => []
termination_by v => sizeOf v
decreasing_by
  · have := List.sizeOf_lt_of_mem ‹_ ∈ items›
    simp_wf
    omega
  · have := List.sizeOf_lt_of_mem ‹_ ∈ fields›
    have : sizeOf p = 1 + sizeOf p.1 + sizeOf p.2 := rfl
    simp_wf
    omega

/-- All functions inside a value are of a kind. -/
def Only (Q : Closure → Prop) (v : Value) : Prop := ∀ f ∈ v.functions, Q f

section
variable {Q : Closure → Prop}

@[simp] theorem only_null : Only Q null := by simp [Only, functions]

@[simp] theorem only_bool (b : Bool) : Only Q (bool b) := by simp [Only, functions]

@[simp] theorem only_number (n : Float) : Only Q (number n) := by simp [Only, functions]

@[simp] theorem only_ofNat (n : Nat) : Only Q (ofNat n) := only_number _

@[simp] theorem only_string (s : String) : Only Q (string s) := by simp [Only, functions]

@[simp] theorem only_array {items : List Value} :
    Only Q (array items) ↔ ∀ v ∈ items, Only Q v := by
  simp only [Only, functions, List.mem_flatMap]
  exact ⟨fun h v hv f hf => h f ⟨v, hv, hf⟩, fun h f ⟨v, hv, hf⟩ => h v hv f hf⟩

@[simp] theorem only_object {fields : Table Value} :
    Only Q (object fields) ↔ ∀ p ∈ fields, Only Q p.2 := by
  simp only [Only, functions, List.mem_flatMap]
  exact ⟨fun h v hv f hf => h f ⟨v, hv, hf⟩, fun h f ⟨v, hv, hf⟩ => h v hv f hf⟩

@[simp] theorem only_function {f : Closure} : Only Q (function f) ↔ Q f := by
  simp [Only, functions]

@[simp] theorem only_ofLiteral (l : Literal) : Only Q (ofLiteral l) := by
  cases l <;> simp [ofLiteral]

theorem only_characters (s : String) : ∀ v ∈ characters s, Only Q v := by
  simp [characters]

/-- Renaming scopes does not matter to a kind of functions that scopes do not matter to. -/
theorem Only.rename (hQ : ∀ (f : Closure) (e : ScopeId), Q f → Q { f with scope := e })
    {ρ : Renaming} {v : Value} (h : v.Only Q) : (v.rename ρ).Only Q := by
  induction v using induction with
  | null => simp
  | bool b => simp
  | number n => simp
  | string s => simp
  | function f =>
    rw [rename_function, only_function]
    exact hQ f _ (only_function.mp h)
  | array items ih =>
    rw [rename_array, only_array]
    refine List.forall_mem_map.mpr fun v hv => ih v hv (only_array.mp h v hv)
  | object fields ih =>
    rw [rename_object, only_object]
    refine List.forall_mem_map.mpr fun p hp => ih p hp (only_object.mp h p hp)

end

end Value

/-- A table has values of a kind only. -/
theorem Table.put_only {P : Value → Prop} {t : Table Value} (ht : ∀ p ∈ t, P p.2) {v : Value}
    (hv : P v) (k : String) : ∀ p ∈ Table.put t k v, P p.2 := by
  intro p hp
  rcases Table.mem_put hp with rfl | hp
  · exact hv
  · exact ht p hp

theorem Table.get?_only {P : Value → Prop} {t : Table Value} (ht : ∀ p ∈ t, P p.2) {k : String}
    {v : Value} (h : Table.get? t k = some v) : P v :=
  ht _ (Table.mem_of_get? h)

theorem Table.getD_only {Q : Closure → Prop} {t : Table Value} (ht : ∀ p ∈ t, p.2.Only Q)
    (k : String) : ((Table.get? t k).getD .null).Only Q := by
  cases h : Table.get? t k with
  | none => exact Value.only_null
  | some v => exact get?_only ht h

/-- Data has no functions. -/
theorem Json.toValue_only (Q : Closure → Prop) (j : Json) : j.toValue.Only Q := by
  match j with
  | null => simp [toValue]
  | bool b => simp [toValue]
  | int n => simp [toValue]
  | float x => simp [toValue]
  | string s => simp [toValue]
  | array items =>
    rw [toValue, Value.only_array, List.forall_mem_map]
    exact fun j _ => toValue_only Q j
  | object fields =>
    rw [toValue, Value.only_object, List.forall_mem_map]
    exact fun p _ => toValue_only Q p.2
termination_by sizeOf j
decreasing_by
  · have := List.sizeOf_lt_of_mem ‹_ ∈ items›
    simp_wf
    omega
  · have := List.sizeOf_lt_of_mem ‹_ ∈ fields›
    have : sizeOf p = 1 + sizeOf p.1 + sizeOf p.2 := rfl
    simp_wf
    omega

theorem Raised.toValue_only (Q : Closure → Prop) (r : Raised) : r.toValue.Only Q := by
  simp [toValue]

/-! ## Results -/

/-- The complaint about a jump that no loop is there for. -/
def Fault.Stray (x : Fault) : Prop :=
  x.kind = .breakOutsideLoop ∨ x.kind = .continueOutsideLoop

/-- A result of a kind, or a fault that is no stray jump. -/
def Yields {α : Type} (P : α → Prop) : Except Fault α → Prop
  | .ok a => P a
  | .error x => ¬ x.Stray

section
variable {α β : Type} {P : α → Prop}

theorem Yields.bind {P' : β → Prop} {r : Except Fault α} {f : α → Except Fault β}
    (h : Yields P r) (hf : ∀ a, P a → Yields P' (f a)) : Yields P' (r >>= f) := by
  cases r with
  | error x => exact h
  | ok a => exact hf a h

theorem yields_mismatch (m : Mismatch) : Yields P (.error (.mismatch m)) := by
  simp [Yields, Fault.Stray, Fault.kind]

theorem not_stray_divisionByZero : ¬ Fault.divisionByZero.Stray := by
  simp [Fault.Stray, Fault.kind]

end

section
variable {Q : Closure → Prop}

/-! ## Operations -/

namespace Value

theorem binary_yields (op : BinaryOp) {v w : Value} (hv : v.Only Q) (hw : w.Only Q) :
    Yields (Only Q) (binary op v w) := by
  have hadd : Yields (Only Q) (add v w) := by
    unfold add
    split <;> first | exact only_number _ | exact only_string _ | exact yields_mismatch _
  have harithmetic : Yields (Only Q) (arithmetic op v w) := by
    unfold arithmetic
    repeat' split
    all_goals
      first | exact only_number _ | exact yields_mismatch _ | exact not_stray_divisionByZero
  have hcompare : Yields (Only Q) (compare op v w) := by
    unfold compare
    split <;> first | exact only_bool _ | exact yields_mismatch _
  have hor : Only Q (if v.truthy then v else w) := by
    split
    · exact hv
    · exact hw
  have hand : Only Q (if v.truthy then w else v) := by
    split
    · exact hw
    · exact hv
  cases op <;> first
    | exact hor
    | exact hand
    | exact only_bool _
    | exact hadd
    | exact harithmetic
    | exact hcompare

theorem unary_yields (op : UnaryOp) (v : Value) : Yields (Only Q) (unary op v) := by
  unfold unary
  split <;> first | exact only_bool _ | exact only_number _ | exact yields_mismatch _

theorem member_yields {v : Value} (hv : v.Only Q) (property : String) :
    Yields (Only Q) (v.member property) := by
  unfold member
  split
  · exact Table.getD_only (only_object.mp hv) property
  all_goals
    repeat' split
    all_goals first | exact only_ofNat _ | exact yields_mismatch _

theorem position_yields (n : Float) (length : Nat) :
    Yields (fun _ => True) (position n length) := by
  unfold position
  split
  · simp [Yields, Fault.Stray, Fault.kind]
  · trivial

theorem getD_only {items : List Value} (h : ∀ v ∈ items, Only Q v) (i : Nat) :
    Only Q (items.getD i null) := by
  rw [List.getD_eq_getElem?_getD]
  cases hi : items[i]? with
  | none => exact only_null
  | some v => exact h v (List.mem_of_getElem? hi)

theorem at_yields {v : Value} (hv : v.Only Q) (index : Value) :
    Yields (Only Q) (v.at_ index) := by
  unfold at_
  split
  · exact (position_yields _ _).bind fun i _ => getD_only (only_array.mp hv) i
  · exact (position_yields _ _).bind fun i _ => only_string _
  · exact Table.getD_only (only_object.mp hv) _
  all_goals exact yields_mismatch _

theorem assign_yields {x : Value} (hx : x.Only Q) (path : List Key) {v : Value} (hv : v.Only Q) :
    Yields (Only Q) (assign x path v) := by
  induction path generalizing v with
  | nil => exact hx
  | cons key path ih =>
    unfold assign
    split
    · next fields _ =>
      have hfields := only_object.mp hv
      split
      · exact yields_mismatch _
      · split
        · exact only_object.mpr (Table.put_only hfields hx _)
        · exact yields_mismatch _
        · next hget =>
          refine (ih (Table.get?_only hfields hget)).bind fun u hu => ?_
          exact only_object.mpr (Table.put_only hfields hu _)
    · next items n _ =>
      have hitems := only_array.mp hv
      refine (position_yields _ _).bind fun i _ => (ih (getD_only hitems i)).bind fun u hu => ?_
      refine only_array.mpr fun w hw => ?_
      rcases List.mem_or_eq_of_mem_set hw with hw | rfl
      · exact hitems w hw
      · exact hu
    all_goals exact yields_mismatch _

end Value

/-! ## What steps compute -/

theorem Command.ofArgs_yields (verb : Verb) (args : List Value) :
    Yields (fun _ => True) (ofArgs verb args) := by
  cases verb
  case wait =>
    show Yields _ ((seconds _).map wait)
    unfold seconds
    split
    · trivial
    · exact yields_mismatch (P := fun _ => True) _
  all_goals trivial

namespace Machine

theorem iterated_yields {v : Value} (hv : v.Only Q) :
    Yields (fun items => ∀ u ∈ items, u.Only Q) (iterated v) := by
  unfold iterated
  split
  · exact Value.only_array.mp hv
  · simp [Yields]
  · exact Value.only_characters _
  · exact yields_mismatch _

end Machine

/-! ## Native functions -/

namespace Native

theorem numberArg_yields (function : String) (arg : Option Value) :
    Yields (fun _ => True) (numberArg function arg) := by
  unfold numberArg
  split
  · trivial
  · exact yields_mismatch _

theorem stringArg_yields (function : String) (arg : Option Value) :
    Yields (fun _ => True) (stringArg function arg) := by
  unfold stringArg
  split
  · trivial
  · exact yields_mismatch _

theorem arrayArg_yields (function : String) {args : List Value} (h : ∀ v ∈ args, v.Only Q) :
    Yields (fun items => ∀ v ∈ items, v.Only Q) (arrayArg function args.head?) := by
  unfold arrayArg
  split
  · next items hitems => exact Value.only_array.mp (h _ (List.mem_of_head? hitems))
  · exact yields_mismatch _

theorem objectArg_yields (function : String) {args : List Value} (h : ∀ v ∈ args, v.Only Q) :
    Yields (fun fields => ∀ p ∈ fields, p.2.Only Q) (objectArg function args.head?) := by
  unfold objectArg
  split
  · next fields hfields => exact Value.only_object.mp (h _ (List.mem_of_head? hfields))
  · exact yields_mismatch _

/-- A function that gives back no function but those of its arguments, and never complains of a
stray jump. -/
def Tame (f : Native) : Prop :=
  ∀ (Q : Closure → Prop) (args : List Value) (r : Except Fault Value), f args = some r →
    (∀ v ∈ args, v.Only Q) → Yields (Value.Only Q) r

theorem total_tame {f : List Value → Except Fault Value}
    (h : ∀ (Q : Closure → Prop) (args : List Value), (∀ v ∈ args, v.Only Q) →
      Yields (Value.Only Q) (f args)) : (total f).Tame := by
  intro Q args r hr hargs
  rw [← Option.some.inj hr]
  exact h Q args hargs

theorem ofNumber_tame (function : String) (f : Float → Float) :
    (total (ofNumber function f)).Tame :=
  total_tame fun _ _ _ => (numberArg_yields _ _).bind fun _ _ => Value.only_number _

theorem ofString_tame (function : String) (f : String → String) :
    (total (ofString function f)).Tame :=
  total_tame fun _ _ _ => (stringArg_yields _ _).bind fun _ _ => Value.only_string _

theorem num_tame : (total num).Tame := by
  refine total_tame fun Q args _ => ?_
  unfold num
  repeat' split
  all_goals first | exact Value.only_number _ | exact yields_mismatch _

theorem extreme_tame (function : String) (pick : Float → Float → Float) :
    (total (extreme function pick)).Tame := by
  have hfold : ∀ (vs : List Value) (best : Option Float),
      Yields (fun _ => True) (vs.foldlM (better function pick) best) := by
    intro vs
    induction vs with
    | nil => exact fun best => trivial
    | cons v vs ih =>
      intro best
      have hbetter : Yields (fun _ => True) (better function pick best v) := by
        unfold better
        split
        · trivial
        · exact yields_mismatch _
      exact hbetter.bind fun best _ => ih best
  refine total_tame fun Q args _ => (hfold _ none).bind fun best _ => ?_
  cases best with
  | none => exact Value.only_null
  | some n => exact Value.only_number n

theorem countUp_only {stop : Float} {steps : Nat} {n : Float} {read items : List Value}
    (hread : ∀ v ∈ read, v.Only Q) (h : countUp stop steps n read = some items) :
    ∀ v ∈ items, v.Only Q := by
  have hdone : ∀ {vs : List Value}, (∀ v ∈ vs, v.Only Q) → ∀ v ∈ vs.reverse, v.Only Q :=
    fun hvs v hv => hvs v (List.mem_reverse.mp hv)
  induction steps generalizing n read with
  | zero =>
    simp only [countUp] at h
    split at h
    · cases h
    · rw [← Option.some.inj h]
      exact hdone hread
  | succ steps ih =>
    simp only [countUp] at h
    split at h
    · exact ih (List.forall_mem_cons.mpr ⟨Value.only_number n, hread⟩) h
    · rw [← Option.some.inj h]
      exact hdone hread

theorem range_tame : Tame range := by
  have hnumber : ∀ v, Yields (fun _ => True) (numberArg "range" v) := numberArg_yields "range"
  intro Q args r hr _
  unfold range at hr
  extract_lets bounds at hr
  have hbounds : Yields (fun _ => True) bounds := by
    unfold bounds
    split
    · exact (hnumber _).bind fun _ _ => (hnumber _).bind fun _ _ => trivial
    · exact (hnumber _).bind fun _ _ => trivial
  clear_value bounds
  split at hr
  · rw [← Option.some.inj hr]
    exact hbounds
  · extract_lets at hr
    split at hr
    · rw [← Option.some.inj hr]
      simp [Yields, Fault.Stray, Fault.kind]
    · obtain ⟨items, hitems, rfl⟩ := Option.map_eq_some_iff.mp hr
      exact Value.only_array.mpr (countUp_only (List.forall_mem_nil _) hitems)

theorem pieces_only (s : String) (sep : Option Value) : ∀ v ∈ pieces s sep, v.Only Q := by
  have hstrings : ∀ ws : List (List Char),
      ∀ v ∈ ws.map fun w => Value.string (String.ofList w), v.Only Q := by
    simp
  unfold pieces
  split
  · exact hstrings _
  · exact hstrings _
  · extract_lets
    split
    · exact Value.only_characters s
    · exact hstrings _

theorem split_tame : (total split).Tame :=
  total_tame fun _ _ _ =>
    (stringArg_yields _ _).bind fun _ _ => Value.only_array.mpr (pieces_only _ _)

theorem join_tame : (total join).Tame :=
  total_tame fun _ _ hargs => (arrayArg_yields _ hargs).bind fun _ _ => Value.only_string _

theorem len_tame : (total len).Tame := by
  refine total_tame fun Q args _ => ?_
  unfold len
  split <;> first | exact Value.only_ofNat _ | exact yields_mismatch _

theorem contains_tame : (total contains).Tame := by
  refine total_tame fun Q args _ => ?_
  unfold contains
  split <;> first | exact Value.only_bool _ | exact yields_mismatch _

theorem keys_tame : (total keys).Tame :=
  total_tame fun _ _ hargs => (objectArg_yields _ hargs).bind fun _ _ =>
    Value.only_array.mpr (by simp)

theorem values_tame : (total values).Tame :=
  total_tame fun _ _ hargs => (objectArg_yields _ hargs).bind fun _ hfields =>
    Value.only_array.mpr (List.forall_mem_map.mpr hfields)

theorem push_tame : (total push).Tame := by
  refine total_tame fun Q args hargs => (arrayArg_yields _ hargs).bind fun items hitems => ?_
  refine Value.only_array.mpr fun v hv => ?_
  rcases List.mem_append.mp hv with hv | hv
  · exact hitems v hv
  · exact hargs v (List.mem_of_mem_drop hv)

end Native

end

/-- Native functions that are all tame. -/
def Natives.Tame (natives : Natives) : Prop := ∀ p ∈ natives, Native.Tame p.2

theorem Native.standard_tame : Natives.Tame Native.standard := by
  simp only [Natives.Tame, standard, List.forall_mem_cons]
  refine ⟨ofNumber_tame _ _, ofNumber_tame _ _, contains_tame, ofNumber_tame _ _,
    ofNumber_tame _ _, join_tame, keys_tame, len_tame, ofString_tame _ _, extreme_tame _ _,
    extreme_tame _ _, num_tame, push_tame, range_tame, ofNumber_tame _ _, split_tame,
    total_tame fun _ _ _ => Value.only_string _, ofString_tame _ _,
    total_tame fun _ _ _ => Value.only_string _, ofString_tame _ _, values_tame, ?_⟩
  simp

end DeskScript
