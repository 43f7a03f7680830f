import DeskScript.Proofs.Value.Rename

/-!
# Operations do not look at scope numbers

Every operation on values commutes with renaming: what a value is shown as, what
it is as data and how it compares stay the same, and a result that is a value is
renamed along with the operands. A native function that does so is `Blind`, and
the standard ones all are:

    Natives.Blind Native.standard                                 (Native.standard_blind)
-/

namespace DeskScript

namespace Value

variable (ρ : Renaming)

/-! ## Views -/

@[simp] theorem type_rename (v : Value) : (v.rename ρ).type = v.type := by
  cases v <;> simp [type]

@[simp] theorem truthy_rename (v : Value) : (v.rename ρ).truthy = v.truthy := by
  cases v <;> simp [truthy]

@[simp] theorem number?_rename (v : Value) : (v.rename ρ).number? = v.number? := by
  cases v <;> simp [number?]

theorem nestedBy_rename (shown : String) (v : Value) :
    nestedBy shown (v.rename ρ) = nestedBy shown v := by
  cases v <;> simp [nestedBy]

@[simp] theorem display_rename (v : Value) : (v.rename ρ).display = v.display := by
  induction v using induction with
  | null => simp
  | bool b => simp
  | number n => simp
  | string s => simp
  | function f => simp [display]
  | array items ih =>
    rw [rename_array, display, display, List.map_map]
    congr 3
    apply List.map_congr_left
    intro v hv
    simp only [Function.comp_apply, ih v hv, nestedBy_rename]
  | object fields ih =>
    rw [rename_object, display, display, Table.mapValues, List.map_map]
    congr 3
    apply List.map_congr_left
    intro p hp
    simp only [Function.comp_apply, ih p hp, nestedBy_rename]

@[simp] theorem text_rename (v : Value) : (v.rename ρ).text = v.text := by
  cases v with
  | null => simp [text]
  | bool b => simp [text]
  | number n => simp [text]
  | string s => simp [text]
  | array items =>
    have h := display_rename ρ (.array items)
    rw [rename_array] at h ⊢
    simpa only [text] using h
  | object fields =>
    have h := display_rename ρ (.object fields)
    rw [rename_object] at h ⊢
    simpa only [text] using h
  | function f => simp [text, display]

@[simp] theorem text_array_rename (items : List Value) :
    (array (items.map (rename ρ))).text = (array items).text := by
  rw [← rename_array, text_rename]

@[simp] theorem text_object_rename (fields : Table Value) :
    (object (Table.mapValues (rename ρ) fields)).text = (object fields).text := by
  rw [← rename_object, text_rename]

@[simp] theorem text_function_rename (f : Closure) :
    (function { f with scope := ρ f.scope }).text = (function f).text := by
  rw [← rename_function, text_rename]

@[simp] theorem toJson_rename (v : Value) : (v.rename ρ).toJson = v.toJson := by
  induction v using induction with
  | null => simp
  | bool b => simp
  | number n => simp
  | string s => simp
  | function f => simp [toJson]
  | array items ih =>
    rw [rename_array, toJson, toJson, List.map_map]
    congr 1
    exact List.map_congr_left ih
  | object fields ih =>
    rw [rename_object, toJson, toJson, Table.mapValues, List.map_map]
    congr 1
    apply List.map_congr_left
    intro p hp
    simp only [Function.comp_apply, ih p hp]

/-! ## Equality -/

theorem sameItems_rename (vs ws : List Value)
    (ih : ∀ v ∈ vs, ∀ w, same (v.rename ρ) (w.rename ρ) = same v w) :
    sameItems (vs.map (rename ρ)) (ws.map (rename ρ)) = sameItems vs ws := by
  induction vs generalizing ws with
  | nil => cases ws <;> rfl
  | cons v vs ihs =>
    cases ws with
    | nil => rfl
    | cons w ws =>
      simp only [List.map_cons, sameItems]
      rw [ih v List.mem_cons_self w, ihs ws fun x hx => ih x (List.mem_cons_of_mem _ hx)]

theorem sameFields_rename (fs gs : Table Value)
    (ih : ∀ p ∈ fs, ∀ w, same (p.2.rename ρ) (w.rename ρ) = same p.2 w) :
    sameFields (Table.mapValues (rename ρ) fs) (Table.mapValues (rename ρ) gs) =
      sameFields fs gs := by
  induction fs with
  | nil => rfl
  | cons p fs ihs =>
    obtain ⟨k, v⟩ := p
    have hcons : Table.mapValues (rename ρ) ((k, v) :: fs) =
        (k, v.rename ρ) :: Table.mapValues (rename ρ) fs := rfl
    rw [hcons, sameFields, sameFields, ihs fun x hx => ih x (List.mem_cons_of_mem _ hx),
      Table.get?_mapValues]
    cases Table.get? gs k with
    | none => rfl
    | some w => simp only [Option.map_some, ih (k, v) List.mem_cons_self w]

@[simp] theorem same_rename (v w : Value) : same (v.rename ρ) (w.rename ρ) = same v w := by
  induction v using induction generalizing w with
  | null => cases w <;> simp [same]
  | bool b => cases w <;> simp [same]
  | number n => cases w <;> simp [same]
  | string s => cases w <;> simp [same]
  | function f => cases w <;> simp [same]
  | array items ih =>
    cases w with
    | array ws => simpa only [rename_array, same] using sameItems_rename ρ items ws ih
    | _ => simp [same]
  | object fields ih =>
    cases w with
    | object gs =>
      simp only [rename_object, same, sameFields_rename ρ fields gs ih]
      simp [Table.mapValues]
    | _ => simp [same]

/-! ## Values without functions -/

@[simp] theorem rename_ofLiteral (l : Literal) : (ofLiteral l).rename ρ = ofLiteral l := by
  cases l <;> simp [ofLiteral]

@[simp] theorem rename_ofNat (n : Nat) : (ofNat n).rename ρ = ofNat n := by simp [ofNat]

@[simp] theorem map_rename_characters (s : String) :
    (characters s).map (rename ρ) = characters s := by
  simp [characters]

@[simp] theorem rename_raised (r : Raised) : r.toValue.rename ρ = r.toValue := by
  simp [Raised.toValue, Table.mapValues]

@[simp] theorem scopes_toValue (j : Json) : j.toValue.scopes = [] := by
  refine @Json.rec (fun j => j.toValue.scopes = []) (fun js => ∀ j ∈ js, j.toValue.scopes = [])
    (fun fs => ∀ p ∈ fs, p.2.toValue.scopes = []) (fun p => p.2.toValue.scopes = [])
    ?_ ?_ ?_ ?_ ?_ ?_ ?_ ?_ ?_ ?_ ?_ ?_ j
  all_goals simp_all [Json.toValue, List.flatMap_map]

/-! ## Operators -/

/-- The renaming of a result. -/
abbrev renameResult : Except Fault Value → Except Fault Value := Except.map (rename ρ)

theorem add_rename (v w : Value) : add (v.rename ρ) (w.rename ρ) = renameResult ρ (add v w) := by
  cases v <;> cases w <;> simp [add, mismatched, Except.map, type]

theorem arithmetic_rename (op : BinaryOp) (v w : Value) :
    arithmetic op (v.rename ρ) (w.rename ρ) = renameResult ρ (arithmetic op v w) := by
  cases v with
  | number a =>
    cases w with
    | number b =>
      cases hb : b == 0 <;> cases op <;> simp [arithmetic, Except.map, hb]
    | _ => simp [arithmetic, mismatched, Except.map, type]
  | _ => cases w <;> simp [arithmetic, mismatched, Except.map, type]

theorem compare_rename (op : BinaryOp) (v w : Value) :
    compare op (v.rename ρ) (w.rename ρ) = renameResult ρ (compare op v w) := by
  cases v <;> cases w <;> simp [compare, mismatched, Except.map, type]

theorem binary_rename (op : BinaryOp) (v w : Value) :
    binary op (v.rename ρ) (w.rename ρ) = renameResult ρ (binary op v w) := by
  cases op with
  | or => cases h : v.truthy <;> simp [binary, h, Except.map]
  | and => cases h : v.truthy <;> simp [binary, h, Except.map]
  | eq => simp [binary, Except.map]
  | ne => simp [binary, Except.map]
  | add => exact add_rename ρ v w
  | sub => exact arithmetic_rename ρ .sub v w
  | mul => exact arithmetic_rename ρ .mul v w
  | div => exact arithmetic_rename ρ .div v w
  | mod => exact arithmetic_rename ρ .mod v w
  | lt => exact compare_rename ρ .lt v w
  | gt => exact compare_rename ρ .gt v w
  | le => exact compare_rename ρ .le v w
  | ge => exact compare_rename ρ .ge v w

theorem unary_rename (op : UnaryOp) (v : Value) :
    unary op (v.rename ρ) = renameResult ρ (unary op v) := by
  cases op <;> cases v <;> simp [unary, Except.map, type, truthy]

/-! ## Parts -/

theorem member_rename (v : Value) (x : String) :
    (v.rename ρ).member x = renameResult ρ (v.member x) := by
  cases v with
  | object fields =>
    simp only [rename_object, member, Table.get?_mapValues, Except.map]
    cases Table.get? fields x <;> simp
  | array items =>
    simp only [rename_array, member]
    split <;> simp [Except.map]
  | string s =>
    simp only [rename_string, member]
    split <;> simp [Except.map]
  | _ => simp [member, Except.map, type]

theorem at_rename (v i : Value) : (v.rename ρ).at_ (i.rename ρ) = renameResult ρ (v.at_ i) := by
  cases v with
  | array items =>
    cases i with
    | number n =>
      simp only [rename_array, rename_number, at_, List.length_map]
      cases position n items.length with
      | error f => rfl
      | ok i =>
        simp [bind, Except.bind, pure, Except.pure, Except.map, List.getD_eq_getElem?_getD]
        cases items[i]? <;> simp
    | _ => simp [at_, Except.map, type]
  | string s =>
    cases i with
    | number n =>
      simp only [rename_string, rename_number, at_]
      cases position n s.length <;> simp [bind, Except.bind, pure, Except.pure, Except.map]
    | _ => simp [at_, Except.map, type]
  | object fields =>
    cases i with
    | string k =>
      simp only [rename_object, rename_string, at_, Table.get?_mapValues, Except.map]
      cases Table.get? fields k <;> simp
    | _ => simp [at_, Except.map, type]
  | _ => cases i <;> simp [at_, Except.map, type]

/-- A key with its value renamed. -/
def Key.rename : Key → Key
  | .member x => .member x
  | .index v => .index (v.rename ρ)

@[simp] theorem Key.name?_rename (key : Key) : (key.rename ρ).name? = key.name? := by
  cases key with
  | member x => rfl
  | index v => cases v <;> simp [Key.rename, Key.name?]

theorem assign_object (x : Value) (key : Key) (path : List Key) (fields : Table Value) :
    assign x (key :: path) (object fields) =
      match key.name? with
      | none => .error (.mismatch .objectKey)
      | some k =>
        match path, Table.get? fields k with
        | [], _ => .ok (object (Table.put fields k x))
        | _ :: _, none => .error (.mismatch (.throughMissing k))
        | _ :: _, some w => (assign x path w).map fun w => object (Table.put fields k w) := by
  rw [assign]
  cases key.name? with
  | none => rfl
  | some k =>
    cases path with
    | nil => rfl
    | cons key' path =>
      cases hk : Table.get? fields k with
      | none => simp only [hk]
      | some w =>
        simp only [hk]
        cases assign x (key' :: path) w <;> rfl

theorem assign_rename (x : Value) (path : List Key) (v : Value) :
    assign (x.rename ρ) (path.map (Key.rename ρ)) (v.rename ρ) =
      renameResult ρ (assign x path v) := by
  induction path generalizing v with
  | nil => rfl
  | cons key path ih =>
    cases v with
    | object fields =>
      simp only [List.map_cons, rename_object, assign_object, Key.name?_rename]
      cases key.name? with
      | none => rfl
      | some k =>
        cases path with
        | nil => simp [Except.map, Table.put_mapValues]
        | cons key' path =>
          simp only [List.map_cons, Table.get?_mapValues]
          cases hw : Table.get? fields k with
          | none => rfl
          | some w =>
            have ih := ih w
            simp only [List.map_cons] at ih
            simp only [Option.map_some, ih]
            cases assign x (key' :: path) w <;> simp [Except.map, Table.put_mapValues]
    | array items =>
      cases key with
      | member p => simp [assign, Key.rename, Except.map]
      | index i =>
        cases i with
        | number n =>
          simp only [List.map_cons, rename_array, Key.rename, rename_number, assign,
            List.length_map]
          cases position n items.length with
          | error f => rfl
          | ok i =>
            have hget : (items.map (rename ρ)).getD i null = (items.getD i null).rename ρ := by
              simp only [List.getD_eq_getElem?_getD, List.getElem?_map]
              cases items[i]? <;> simp
            simp only [bind, Except.bind, hget, ih]
            cases assign x path (items.getD i null) <;>
              simp [Except.map, pure, Except.pure, List.map_set]
        | _ => simp [assign, Key.rename, Except.map]
    | _ => cases key <;> simp [assign, Key.rename, Except.map, type]

end Value

end DeskScript
