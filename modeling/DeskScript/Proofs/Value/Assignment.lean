import DeskScript.Machine.Step
import DeskScript.Proofs.Number.Rounding
import DeskScript.Proofs.Scope.Mirror
import DeskScript.Proofs.Scope.Names
import DeskScript.Proofs.Value.Operation

/-!
# Laws of assignment along a path

`Assigns x path v v'` has the ways in which a value can be put at the end of a path, one
constructor for each kind of step. What it relates is what `assign` computes
(`assigns_of_assign`, `Assigns.assign_eq`), and the laws follow by induction on it:

    Assigns x path v v' → v'.follow path = .ok x                  (Assigns.follow)
    Assigns x path v v' → assign y path v' = assign y path v      (Assigns.assign_assign)

`store` does the same in place: it goes down to the slot at the end of the path and puts
back on the way up whatever is left in each slot, also after a fault. A fault leaves
everything as it was.
-/

namespace DeskScript

/-! ## Tables -/

namespace Table

variable {α : Type}

theorem put_put (t : Table α) (k : String) (v w : α) : put (put t k v) k w = put t k w := by
  induction t with
  | nil => simp [put]
  | cons p t ih => by_cases h : p.1 = k <;> simp [put, h, ih]

theorem put_get? {t : Table α} {k : String} {v : α} (h : get? t k = some v) : put t k v = t := by
  induction t with
  | nil => cases h
  | cons p t ih =>
    unfold get? at h
    unfold put
    split at h
    · next hk => rw [if_pos hk, ← Option.some.inj h, ← hk]
    · next hk => rw [if_neg hk, ih h]

/-- The entries under other names stay, in their order. -/
theorem filter_put (t : Table α) (k : String) (v : α) :
    (put t k v).filter (·.1 ≠ k) = t.filter (·.1 ≠ k) := by
  induction t with
  | nil => simp [put]
  | cons p t ih => by_cases h : p.1 = k <;> simp_all [put]

theorem mem_names_of_get? {t : Table α} {k : String} {v : α} (h : get? t k = some v) :
    k ∈ names t :=
  List.mem_map_of_mem (mem_of_get? h)

end Table

namespace Value

/-! ## Positions -/

theorem position_lt {n : Float} {length i : Nat} (h : position n length = .ok i) : i < length := by
  unfold position at h
  split at h
  · cases h
  · next hn =>
    simp only [Bool.or_eq_true, Bool.not_eq_true', decide_eq_true_eq, not_or,
      Bool.not_eq_false] at hn
    obtain ⟨⟨hwhole, hneg⟩, hbelow⟩ := hn
    rw [Number.isWhole, Bool.and_eq_true] at hwhole
    rw [← Except.ok.inj h]
    refine Nat.lt_of_not_le fun hle => hbelow ?_
    exact Number.ofNat_le_of_le_wholePart hwhole.1 hneg hle

/-! ## Following a path -/

/-- The value at the end of a path, read one key after the other. -/
def follow (v : Value) : List Key → Except Fault Value
  | [] => .ok v
  | key :: path => do (← v.part key).follow path

theorem follow_cons {v w : Value} {key : Key} (h : v.part key = .ok w) (path : List Key) :
    v.follow (key :: path) = w.follow path := by
  rw [follow, h]
  rfl

theorem part_object {key : Key} {k : String} (h : key.name? = some k) (fields : Table Value) :
    (object fields).part key = .ok ((Table.get? fields k).getD null) := by
  cases key with
  | member x => rw [← Option.some.inj h]; rfl
  | index v =>
    cases v with
    | string x => rw [← Option.some.inj h]; rfl
    | _ => cases h

theorem part_array {n : Float} {items : List Value} {i : Nat}
    (h : position n items.length = .ok i) :
    (array items).part (.index (number n)) = .ok (items.getD i null) := by
  simp only [part, at_, h]
  rfl

theorem getD_set {items : List Value} {i : Nat} (h : i < items.length) (w : Value) :
    (items.set i w).getD i null = w := by
  rw [List.getD_eq_getElem?_getD, List.getElem?_set_self h, Option.getD_some]

theorem set_getD {items : List Value} {i : Nat} (h : i < items.length) :
    items.set i (items.getD i null) = items := by
  rw [List.getD_eq_getElem?_getD, List.getElem?_eq_getElem h, Option.getD_some]
  exact List.set_getElem_self h

theorem part_array_set {n : Float} {items : List Value} {i : Nat}
    (h : position n items.length = .ok i) (w : Value) :
    (array (items.set i w)).part (.index (number n)) = .ok w := by
  rw [part_array (by rwa [List.length_set]), getD_set (position_lt h)]

/-! ## What an assignment does -/

/-- A value is put at the end of a path. -/
inductive Assigns (x : Value) : List Key → Value → Value → Prop
  | here (v : Value) : Assigns x [] v x
  | item {n : Float} {items : List Value} {i : Nat} {path : List Key} {w : Value}
      (hi : position n items.length = .ok i) (hw : Assigns x path (items.getD i null) w) :
      Assigns x (.index (number n) :: path) (array items) (array (items.set i w))
  /-- The last key need not be there. -/
  | last {key : Key} {k : String} {fields : Table Value} (hk : key.name? = some k) :
      Assigns x [key] (object fields) (object (Table.put fields k x))
  | field {key : Key} {k : String} {fields : Table Value} {u w : Value} {path : List Key}
      (hk : key.name? = some k) (hu : Table.get? fields k = some u) (hw : Assigns x path u w)
      (hpath : path ≠ []) :
      Assigns x (key :: path) (object fields) (object (Table.put fields k w))

theorem assigns_of_assign {x : Value} {path : List Key} {v v' : Value}
    (h : assign x path v = .ok v') : Assigns x path v v' := by
  induction path generalizing v v' with
  | nil =>
    obtain rfl := Except.ok.inj h
    exact .here v
  | cons key path ih =>
    cases v with
    | object fields =>
      rw [assign_object] at h
      cases hk : key.name? with
      | none =>
        rw [hk] at h
        cases h
      | some k =>
        simp only [hk] at h
        cases path with
        | nil =>
          obtain rfl := Except.ok.inj h
          exact .last hk
        | cons key' path =>
          cases hu : Table.get? fields k with
          | none =>
            rw [hu] at h
            cases h
          | some u =>
            simp only [hu] at h
            cases hw : assign x (key' :: path) u with
            | error f =>
              rw [hw] at h
              cases h
            | ok w =>
              rw [hw] at h
              obtain rfl := Except.ok.inj h
              exact .field hk hu (ih hw) (List.cons_ne_nil _ _)
    | array items =>
      cases key with
      | member p => cases h
      | index j =>
        cases j with
        | number n =>
          rw [assign] at h
          cases hi : position n items.length with
          | error f =>
            rw [hi] at h
            cases h
          | ok i =>
            rw [hi] at h
            change (assign x path (items.getD i null)).bind
              (fun w => .ok (array (items.set i w))) = .ok v' at h
            cases hw : assign x path (items.getD i null) with
            | error f =>
              rw [hw] at h
              cases h
            | ok w =>
              rw [hw] at h
              obtain rfl := Except.ok.inj h
              exact .item hi (ih hw)
        | _ => simp [assign] at h
    | _ => cases key <;> simp [assign] at h

section
variable {x : Value} {path : List Key} {v v' : Value}

theorem Assigns.assign_eq (h : Assigns x path v v') : assign x path v = .ok v' := by
  induction h with
  | here v => rfl
  | item hi hw ih =>
    simp only [assign, hi, bind, Except.bind, ih]
    rfl
  | last hk => simp only [assign_object, hk]
  | field hk hu hw hpath ih =>
    obtain ⟨key', path, rfl⟩ := List.exists_cons_of_ne_nil hpath
    simp only [assign_object, hk, hu, ih, Except.map]

/-- The value that was put is read back. -/
theorem Assigns.follow (h : Assigns x path v v') : v'.follow path = .ok x := by
  induction h with
  | here v => rfl
  | @item n items i path w hi hw ih =>
    rw [follow_cons (part_array_set hi w), ih]
  | last hk =>
    rw [follow_cons (part_object hk _), Table.get?_put_self]
    rfl
  | field hk hu hw hpath ih =>
    rw [follow_cons (part_object hk _), Table.get?_put_self, Option.getD_some, ih]

/-- What was put before does not matter. -/
theorem Assigns.assign_assign (h : Assigns x path v v') (y : Value) :
    assign y path v' = assign y path v := by
  induction h with
  | here v => rfl
  | @item n items i path w hi hw ih =>
    simp only [assign, List.length_set, hi, bind, Except.bind, getD_set (position_lt hi), ih,
      List.set_set]
  | last hk => simp only [assign_object, hk, Table.put_put]
  | @field key k fields u w path hk hu hw hpath ih =>
    obtain ⟨key', path, rfl⟩ := List.exists_cons_of_ne_nil hpath
    simp only [assign_object, hk, Table.get?_put_self, hu, ih, Table.put_put]

/-! ## What stays as it was -/

/-- Two values that are alike but for what a key leads to. A name may be new if `final`. -/
inductive Touched (key : Key) (final : Prop) : Value → Value → Prop
  | item {n : Float} {items items' : List Value} {i : Nat} (hkey : key = .index (number n))
      (hi : position n items.length = .ok i) (hlength : items'.length = items.length)
      (hothers : ∀ j, j ≠ i → items'[j]? = items[j]?) :
      Touched key final (array items) (array items')
  | field {k : String} {fields fields' : Table Value} (hk : key.name? = some k)
      (hothers : fields'.filter (·.1 ≠ k) = fields.filter (·.1 ≠ k))
      (hnames : Table.names fields' = Table.names fields ∨
        final ∧ k ∉ Table.names fields ∧ Table.names fields' = Table.names fields ++ [k]) :
      Touched key final (object fields) (object fields')

/-- The first key of a path leads to the only part that changes. -/
theorem Assigns.touched {key : Key} (h : Assigns x (key :: path) v v') :
    Touched key (path = []) v v' := by
  cases h with
  | item hi hw =>
    refine .item rfl hi List.length_set fun j hj => ?_
    exact List.getElem?_set_ne (Ne.symm hj)
  | @last _ k fields hk =>
    refine .field hk (Table.filter_put fields k x) ?_
    rw [Table.names_put]
    by_cases hmem : k ∈ Table.names fields
    · exact Or.inl (if_pos hmem)
    · exact Or.inr ⟨rfl, hmem, if_neg hmem⟩
  | @field _ k fields u w _ hk hu hw hpath =>
    refine .field hk (Table.filter_put fields k w) (Or.inl ?_)
    rw [Table.names_put, if_pos (Table.mem_names_of_get? hu)]

/-- Behind a key that is not the last, a value is put along the rest of the path. -/
theorem Assigns.step {key key' : Key} (h : Assigns x (key :: key' :: path) v v') :
    ∃ u u', v.part key = .ok u ∧ v'.part key = .ok u' ∧ Assigns x (key' :: path) u u' := by
  cases h with
  | @item n items i _ w hi hw =>
    exact ⟨_, w, part_array hi, part_array_set hi w, hw⟩
  | @field _ k fields u w _ hk hu hw hpath =>
    refine ⟨u, w, ?_, ?_, hw⟩
    · rw [part_object hk, hu, Option.getD_some]
    · rw [part_object hk, Table.get?_put_self, Option.getD_some]

/-- The parts that a path goes through are changed along the rest of it. -/
theorem Assigns.level {pre post : List Key} {key : Key}
    (h : Assigns x (pre ++ key :: post) v v') :
    ∃ u u', v.follow pre = .ok u ∧ v'.follow pre = .ok u' ∧ Assigns x (key :: post) u u' := by
  induction pre generalizing v v' with
  | nil => exact ⟨v, v', rfl, rfl, h⟩
  | cons first pre ih =>
    obtain ⟨w, w', hw, hw', hrest⟩ : ∃ w w', v.part first = .ok w ∧ v'.part first = .ok w' ∧
        Assigns x (pre ++ key :: post) w w' := by
      cases pre with
      | nil => exact h.step
      | cons second pre => exact h.step
    rw [follow_cons hw, follow_cons hw']
    exact ih hrest

end

/-! ## In place -/

/-- What is in a slot after an assignment along a path, and whether that went well. Each slot on the
way is written with what the step below left in its own, also after a fault. -/
def store (x : Value) : List Key → Value → Value × Except Fault Unit
  | [], _ => (x, .ok ())
  | key :: path, v =>
    match v, key with
    | object fields, key =>
      match key.name? with
      | none => (object fields, .error (.mismatch .objectKey))
      | some k =>
        match path, Table.get? fields k with
        | [], _ => (object (Table.put fields k x), .ok ())
        | _ :: _, none => (object fields, .error (.mismatch (.throughMissing k)))
        | _ :: _, some w =>
          let (w, r) := store x path w
          (object (Table.put fields k w), r)
    | array items, .index (number n) =>
      match position n items.length with
      | .error f => (array items, .error f)
      | .ok i =>
        let (w, r) := store x path (items.getD i null)
        (array (items.set i w), r)
    | array items, _ => (array items, .error (.mismatch .arrayKey))
    | v, .member p => (v, .error (.mismatch (.propertyOn p v.type)))
    | v, .index _ => (v, .error (.mismatch (.indexed v.type)))

/-- An assignment in place changes all or nothing. -/
theorem store_eq (x : Value) (path : List Key) (v : Value) :
    store x path v =
      match assign x path v with
      | .ok v' => (v', .ok ())
      | .error f => (v, .error f) := by
  induction path generalizing v with
  | nil => rfl
  | cons key path ih =>
    cases v with
    | object fields =>
      rw [assign_object, store]
      cases key.name? with
      | none => rfl
      | some k =>
        cases path with
        | nil => rfl
        | cons key' path =>
          cases hw : Table.get? fields k with
          | none => simp only [hw]
          | some w =>
            simp only [hw, ih]
            cases assign x (key' :: path) w with
            | ok w' => rfl
            | error f => simp only [Except.map, Table.put_get? hw]
    | array items =>
      cases key with
      | member p => rfl
      | index j =>
        cases j with
        | number n =>
          rw [assign, store]
          cases hi : position n items.length with
          | error f => rfl
          | ok i =>
            simp only [ih, bind, Except.bind, pure, Except.pure]
            cases assign x path (items.getD i null) with
            | ok w' => rfl
            | error f => simp only [set_getD (position_lt hi)]
        | _ => simp [assign, store]
    | _ => cases key <;> simp [assign, store]

end Value

/-! ## Variables -/

/-- A variable that gets the value it has. -/
theorem Arena.define_find? {a : Arena} {e o : ScopeId} {x : String} {v : Value}
    (h : a.find? e x = some (o, v)) : a.define o x v = a := by
  obtain ⟨u, hu, hv⟩ := findFrom_get? h
  have hslots :
      a.slots.modify o (Option.map fun u => { u with bindings := Table.put u.bindings x v }) =
        a.slots := by
    apply Array.ext_getElem?
    intro i
    rw [Array.getElem?_modify]
    split
    · next hi =>
      subst hi
      rw [Option.join_eq_some_iff.mp hu, Option.map_some, Option.map_some, Table.put_get? hv]
    · rfl
  rw [define, update, hslots]

/-- An assignment along a path leaves in the variable what `store` leaves there. -/
theorem Machine.assign_eq_store {s : Session} {scope owner : ScopeId} {name : String} {old : Value}
    (h : s.scopes.find? scope name = some (owner, old)) (k : List Frame) (pos : Position)
    (x : Value) (path : List Value.Key) :
    assign s k scope pos name x path =
      let s' := { s with scopes := s.scopes.define owner name (Value.store x path old).1 }
      match (Value.store x path old).2 with
      | .ok () => leave s' k .normal
      | .error f => raise s' k pos f := by
  unfold assign
  rw [h, Value.store_eq]
  cases hassign : Value.assign x path old with
  | ok v => simp only [hassign]
  | error f => simp only [hassign, Arena.define_find? h]

/-- A statement that assigns along a path works in place on the variable. If it fails, the value of
the variable is what it was. If not, the value that was put can be read along the path; at each key
of the path the two values are alike but for what the key leads to, where only the last key can be
a new name of an object; and the value that was put leaves no trace in a later assignment. -/
theorem Value.assignment_laws (x : Value) (path : List Key) (v : Value) :
    (∀ (s : Session) (k : List Frame) (scope owner : ScopeId) (pos : Position) (name : String),
      s.scopes.find? scope name = some (owner, v) →
        Machine.assign s k scope pos name x path =
          let s' := { s with scopes := s.scopes.define owner name (store x path v).1 }
          match (store x path v).2 with
          | .ok () => Machine.leave s' k .normal
          | .error f => Machine.raise s' k pos f) ∧
    (∀ f, assign x path v = .error f → store x path v = (v, .error f)) ∧
    ∀ v', assign x path v = .ok v' →
      store x path v = (v', .ok ()) ∧
      v'.follow path = .ok x ∧
      (∀ pre key post, path = pre ++ key :: post →
        ∃ u u', v.follow pre = .ok u ∧ v'.follow pre = .ok u' ∧ Touched key (post = []) u u') ∧
      ∀ y, assign y path v' = assign y path v := by
  refine ⟨fun s k scope owner pos name h => Machine.assign_eq_store h k pos x path, ?_, ?_⟩
  · intro f hf
    rw [store_eq, hf]
  · intro v' hv'
    have hassigns := assigns_of_assign hv'
    refine ⟨by rw [store_eq, hv'], hassigns.follow, ?_, hassigns.assign_assign⟩
    rintro pre key post rfl
    obtain ⟨u, u', hu, hu', hrest⟩ := hassigns.level
    exact ⟨u, u', hu, hu', hrest.touched⟩

/-- A new field in an object in an array, and a path through a field that is not there. -/
theorem Value.assignment_laws_nested :
    let v := array [null, object [("h", null)]]
    let path : List Key := [.index (number 1), .index (string "w")]
    let v' := array [null, object [("h", null), ("w", bool true)]]
    let s := (Session.initial 7 Native.standard 2).defineGlobal "a" v
    assign (bool true) path v = .ok v' ∧ v'.follow path = .ok (bool true) ∧
      assign null path v' = assign null path v ∧
      Machine.assign s [] Arena.root .start "a" (bool true) path =
        Machine.leave { s with scopes := s.scopes.define Arena.root "a" v' } [] .normal ∧
      store null (path ++ [.member "x"]) v = (v, .error (.mismatch (.throughMissing "w"))) := by
  have hfind : ((Session.initial 7 Native.standard 2).defineGlobal "a"
      (array [null, object [("h", null)]])).scopes.find? Arena.root "a" =
        some (Arena.root, array [null, object [("h", null)]]) := by cbv
  intro v path v' s
  have hposition : position 1 2 = .ok 1 := by
    unfold position
    rw [if_neg (by decide +kernel)]
    rfl
  have hfield : Assigns (bool true) [.index (string "w")] (object [("h", null)])
      (object [("h", null), ("w", bool true)]) := .last (k := "w") rfl
  have hitem : Assigns (bool true) path v v' :=
    @Assigns.item _ 1 [null, object [("h", null)]] 1 _ _ hposition hfield
  have hassign := hitem.assign_eq
  have hfails : assign null (path ++ [.member "x"]) v = .error (.mismatch (.throughMissing "w")) := by
    have hlength : [null, object [("h", null)]].length = 2 := rfl
    simp only [path, v, List.cons_append, assign, hlength, hposition]
    rfl
  obtain ⟨hplace, -, hlaws⟩ := assignment_laws (bool true) path v
  obtain ⟨hstore, hread, -, hagain⟩ := hlaws v' hassign
  have hstatement := hplace s [] Arena.root Arena.root .start "a" hfind
  rw [hstore] at hstatement
  exact ⟨hassign, hread, hagain null, hstatement, (assignment_laws null _ v).2.1 _ hfails⟩

end DeskScript
