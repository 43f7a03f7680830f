import DeskScript.Proofs.Number.Whole
import DeskScript.Proofs.Value.Rename

/-!
# Equality of values

`same` looks up the fields of its left operand in its right one and compares how many there are.
When no object has a key twice this is enough: the keys are then the same on both sides
(`names_perm_of_sameFields`), and equality is symmetric. It is always transitive, and fails
between a value and itself just where a NaN stands inside:

    v.Distinct → (same v v ↔ ∀ x, (number x).Inside v → x.isNaN = false)     (same_self_iff)

Two values are `Alike` when equality does not tell them apart. Objects with their keys in two
orders are, equal values are, and so is whatever holds them (`Altered.alike`).
-/

namespace DeskScript

/-! ## Tables -/

namespace Table

variable {α : Type}

theorem get?_eq_some_iff {t : Table α} (h : (names t).Nodup) {k : String} {v : α} :
    get? t k = some v ↔ (k, v) ∈ t := by
  refine ⟨mem_of_get?, fun hmem => ?_⟩
  induction t with
  | nil => cases hmem
  | cons p t ih =>
    obtain ⟨hp, ht⟩ := List.nodup_cons.mp h
    rw [get?]
    rcases List.mem_cons.mp hmem with rfl | hmem
    · exact if_pos rfl
    · rw [if_neg, ih ht hmem]
      rintro rfl
      exact hp (List.mem_map.mpr ⟨_, hmem, rfl⟩)

theorem get?_perm {t u : Table α} (hp : t.Perm u) (h : (names t).Nodup) (k : String) :
    get? t k = get? u k := by
  have hu : (names u).Nodup := (hp.map Prod.fst).nodup h
  ext v
  rw [get?_eq_some_iff h, get?_eq_some_iff hu, hp.mem_iff]

/-- Another value in one place of a table is seen under one name at most. -/
theorem get?_replace (l r : Table α) (k : String) (v w : α) (x : String) :
    get? (l ++ (k, v) :: r) x = get? (l ++ (k, w) :: r) x ∨
      get? (l ++ (k, v) :: r) x = some v ∧ get? (l ++ (k, w) :: r) x = some w := by
  induction l with
  | nil => by_cases h : k = x <;> simp [get?, h]
  | cons p l ih => by_cases h : p.1 = x <;> simp [get?, h, ih]

end Table

namespace Value

/-! ## Parts at any depth -/

/-- `u` is the value or stands somewhere inside it. -/
inductive Inside (u : Value) : Value → Prop
  | here : Inside u u
  | item {items : List Value} {v : Value} : v ∈ items → Inside u v → Inside u (array items)
  | field {fields : Table Value} {p : String × Value} :
      p ∈ fields → Inside u p.2 → Inside u (object fields)

@[simp] theorem inside_null {u : Value} : u.Inside null ↔ u = null :=
  ⟨fun h => by cases h; rfl, fun h => h ▸ .here⟩

@[simp] theorem inside_number {u : Value} {x : Float} : u.Inside (number x) ↔ u = number x :=
  ⟨fun h => by cases h; rfl, fun h => h ▸ .here⟩

@[simp] theorem inside_array {u : Value} {items : List Value} :
    u.Inside (array items) ↔ u = array items ∨ ∃ v ∈ items, u.Inside v := by
  constructor
  · rintro (_ | ⟨hv, h⟩)
    · exact .inl rfl
    · exact .inr ⟨_, hv, h⟩
  · rintro (rfl | ⟨v, hv, h⟩)
    · exact .here
    · exact .item hv h

@[simp] theorem inside_object {u : Value} {fields : Table Value} :
    u.Inside (object fields) ↔ u = object fields ∨ ∃ p ∈ fields, u.Inside p.2 := by
  constructor
  · rintro (_ | _ | ⟨hp, h⟩)
    · exact .inl rfl
    · exact .inr ⟨_, hp, h⟩
  · rintro (rfl | ⟨p, hp, h⟩)
    · exact .here
    · exact .field hp h

/-- The objects in a value have no key twice. -/
def Distinct (v : Value) : Prop :=
  ∀ fields, (object fields).Inside v → (Table.names fields).Nodup

theorem distinct_array {items : List Value} :
    (array items).Distinct ↔ ∀ v ∈ items, v.Distinct := by
  simp only [Distinct, inside_array, reduceCtorEq, false_or, forall_exists_index, and_imp]
  exact ⟨fun h v hv fields hf => h fields v hv hf, fun h fields v hv hf => h v hv fields hf⟩

theorem distinct_object {fields : Table Value} :
    (object fields).Distinct ↔ (Table.names fields).Nodup ∧ ∀ p ∈ fields, p.2.Distinct := by
  simp only [Distinct, inside_object]
  constructor
  · exact fun h => ⟨h fields (.inl rfl), fun p hp gs hg => h gs (.inr ⟨p, hp, hg⟩)⟩
  · rintro ⟨hnodup, h⟩ gs (hg | ⟨p, hp, hg⟩)
    · rwa [object.inj hg]
    · exact h p hp gs hg

/-! ## Equality of lists -/

theorem sameItems_iff {vs ws : List Value} :
    sameItems vs ws = true ↔ List.Forall₂ (fun v w => same v w = true) vs ws := by
  induction vs generalizing ws with
  | nil => cases ws <;> simp [sameItems]
  | cons v vs ih => cases ws <;> simp [sameItems, ih]

theorem sameFields_iff {fs gs : Table Value} :
    sameFields fs gs = true ↔ ∀ p ∈ fs, ∃ w, Table.get? gs p.1 = some w ∧ same p.2 w = true := by
  induction fs with
  | nil => simp [sameFields]
  | cons p fs ih =>
    rw [sameFields, Bool.and_eq_true, ih, List.forall_mem_cons]
    refine and_congr_left fun _ => ?_
    cases Table.get? gs p.1 <;> simp

/-! ## Laws of equality -/

theorem same_type {v w : Value} (h : same v w = true) : v.type = w.type := by
  cases v <;> cases w <;> first | rfl | (simp [same] at h)

theorem array_of_same {vs : List Value} {w : Value} (h : same (array vs) w = true) :
    ∃ ws, w = array ws ∧ sameItems vs ws = true := by
  cases w <;> simp_all [same]

theorem object_of_same {fs : Table Value} {w : Value} (h : same (object fs) w = true) :
    ∃ gs, w = object gs ∧ fs.length = gs.length ∧ sameFields fs gs = true := by
  cases w <;> simp_all [same]

/-- Fields that are found in as many others are all of them: each of the others is one of them. -/
theorem names_perm_of_sameFields {fs gs : Table Value} (hf : (Table.names fs).Nodup)
    (hlen : fs.length = gs.length) (h : sameFields fs gs = true) :
    (Table.names fs).Perm (Table.names gs) := by
  have hsub : Table.names fs ⊆ Table.names gs := by
    intro k hk
    obtain ⟨p, hp, rfl⟩ := List.mem_map.mp hk
    obtain ⟨w, hw, -⟩ := sameFields_iff.mp h p hp
    exact List.mem_map.mpr ⟨_, Table.mem_of_get? hw, rfl⟩
  refine (List.subperm_of_subset hf hsub).perm_of_length_le ?_
  simp [Table.names, hlen]

theorem sameItems_symm {vs ws : List Value}
    (ih : ∀ v ∈ vs, ∀ w ∈ ws, same v w = true → same w v = true)
    (h : sameItems vs ws = true) : sameItems ws vs = true := by
  rw [sameItems_iff] at *
  induction h with
  | nil => exact .nil
  | cons hvw _ ihs =>
    refine .cons (ih _ List.mem_cons_self _ List.mem_cons_self hvw) (ihs fun v hv w hw => ?_)
    exact ih v (.tail _ hv) w (.tail _ hw)

theorem same_symm {v w : Value} (hv : v.Distinct) (hw : w.Distinct) (h : same v w = true) :
    same w v = true := by
  induction v using Value.induction generalizing w with
  | array items ih =>
    obtain ⟨ws, rfl, hitems⟩ := array_of_same h
    rw [distinct_array] at hv hw
    rw [same]
    exact sameItems_symm (fun v hmem w hmem' => ih v hmem (hv v hmem) (hw w hmem')) hitems
  | object fields ih =>
    obtain ⟨gs, rfl, hlen, hfields⟩ := object_of_same h
    rw [distinct_object] at hv hw
    have hperm := names_perm_of_sameFields hv.1 hlen hfields
    rw [sameFields_iff] at hfields
    simp only [same, hlen, beq_self_eq_true, Bool.true_and, sameFields_iff]
    intro q hq
    -- the left field of that key was compared with `q`, as there is no other on the right
    have hmem : q.1 ∈ Table.names fields := hperm.mem_iff.mpr (List.mem_map.mpr ⟨q, hq, rfl⟩)
    obtain ⟨p, hp, hpq⟩ := List.mem_map.mp hmem
    obtain ⟨w, hget, hsame⟩ := hfields p hp
    have hwq : w = q.2 := by
      rw [hpq, (Table.get?_eq_some_iff hw.1).mpr hq] at hget
      exact (Option.some.inj hget).symm
    refine ⟨p.2, (Table.get?_eq_some_iff hv.1).mpr (hpq ▸ hp), ?_⟩
    exact hwq ▸ ih p hp (hv.2 p hp) (hwq ▸ hw.2 q hq) hsame
  | number x =>
    cases w <;> simp only [same, Bool.false_eq_true] at h ⊢
    exact Number.beq_symm h
  | _ => cases w <;> simp_all [same]

theorem sameItems_trans {us vs ws : List Value}
    (ih : ∀ u ∈ us, ∀ v w, same u v = true → same v w = true → same u w = true)
    (huv : sameItems us vs = true) (hvw : sameItems vs ws = true) : sameItems us ws = true := by
  rw [sameItems_iff] at *
  induction huv generalizing ws with
  | nil => exact hvw
  | cons huv _ ihs =>
    obtain - | ⟨hvw, hvws⟩ := hvw
    obtain ⟨hu, hus⟩ := List.forall_mem_cons.mp ih
    exact .cons (hu _ _ huv hvw) (ihs hus hvws)

theorem same_trans {u v w : Value} (huv : same u v = true) (hvw : same v w = true) :
    same u w = true := by
  induction u using Value.induction generalizing v w with
  | array items ih =>
    obtain ⟨vs, rfl, huv⟩ := array_of_same huv
    obtain ⟨ws, rfl, hvw⟩ := array_of_same hvw
    rw [same]
    exact sameItems_trans (fun u hu v w => ih u hu) huv hvw
  | object fields ih =>
    obtain ⟨gs, rfl, hfg, huv⟩ := object_of_same huv
    obtain ⟨ks, rfl, hgk, hvw⟩ := object_of_same hvw
    rw [sameFields_iff] at huv hvw
    simp only [same, hfg, hgk, beq_self_eq_true, Bool.true_and, sameFields_iff]
    intro p hp
    obtain ⟨v, hget, hpv⟩ := huv p hp
    obtain ⟨w, hw, hvw⟩ := hvw _ (Table.mem_of_get? hget)
    exact ⟨w, hw, ih p hp hpv hvw⟩
  | number x =>
    cases v <;> cases w <;> simp only [same, Bool.false_eq_true] at huv hvw ⊢
    exact Number.beq_trans huv hvw
  | _ => cases v <;> cases w <;> simp_all [same]

theorem same_self_iff {v : Value} (h : v.Distinct) :
    same v v = true ↔ ∀ x, (number x).Inside v → x.isNaN = false := by
  induction v using Value.induction with
  | array items ih =>
    rw [distinct_array] at h
    have hself : sameItems items items = true ↔ ∀ v ∈ items, same v v = true := by
      rw [sameItems_iff, List.forall₂_same]
    simp only [same, hself, inside_array, reduceCtorEq, false_or]
    constructor
    · rintro hs x ⟨v, hv, hx⟩
      exact (ih v hv (h v hv)).mp (hs v hv) x hx
    · intro hx v hv
      exact (ih v hv (h v hv)).mpr fun x hin => hx x ⟨v, hv, hin⟩
  | object fields ih =>
    rw [distinct_object] at h
    have hself : sameFields fields fields = true ↔ ∀ p ∈ fields, same p.2 p.2 = true := by
      rw [sameFields_iff]
      refine forall₂_congr fun p hp => ?_
      simp [(Table.get?_eq_some_iff h.1).mpr hp]
    simp only [same, beq_self_eq_true, Bool.true_and, hself, inside_object, reduceCtorEq, false_or]
    constructor
    · rintro hs x ⟨p, hp, hx⟩
      exact (ih p hp (h.2 p hp)).mp (hs p hp) x hx
    · intro hx p hp
      exact (ih p hp (h.2 p hp)).mpr fun x hin => hx x ⟨p, hp, hin⟩
  | number x =>
    rw [same, Number.beq_self_iff]
    simp
  | _ =>
    refine iff_of_true (by simp [same]) fun x hx => ?_
    cases hx

/-! ## Values that equality does not tell apart -/

/-- The two are equal to the same values, on either side. -/
def Alike (v w : Value) : Prop := ∀ u, same v u = same w u ∧ same u v = same u w

/-- The two are one object with its keys in two orders. -/
inductive Reordered : Value → Value → Prop
  | keys {fs gs : Table Value} :
      (Table.names fs).Nodup → fs.Perm gs → Reordered (object fs) (object gs)

/-- The two are equal, with no key twice in either. -/
def Equal (v w : Value) : Prop := v.Distinct ∧ w.Distinct ∧ same v w = true

/-- `w` is `v` with parts replaced, each by one that `R` relates to it. -/
inductive Altered (R : Value → Value → Prop) : Value → Value → Prop
  | part {v w : Value} : R v w → Altered R v w
  | item (l r : List Value) {v w : Value} :
      Altered R v w → Altered R (array (l ++ v :: r)) (array (l ++ w :: r))
  | field (l r : Table Value) (k : String) {v w : Value} :
      Altered R v w → Altered R (object (l ++ (k, v) :: r)) (object (l ++ (k, w) :: r))
  | refl (v : Value) : Altered R v v
  | trans {u v w : Value} : Altered R u v → Altered R v w → Altered R u w

theorem Equal.alike {v w : Value} (h : Equal v w) : Alike v w := by
  obtain ⟨hv, hw, hvw⟩ := h
  have hwv := same_symm hv hw hvw
  intro u
  constructor <;> rw [Bool.eq_iff_iff]
  · exact ⟨same_trans hwv, same_trans hvw⟩
  · exact ⟨fun h => same_trans h hvw, fun h => same_trans h hwv⟩

theorem Reordered.alike {v w : Value} (h : Reordered v w) : Alike v w := by
  obtain @⟨fs, gs, hnodup, hperm⟩ := h
  intro u
  cases u with
  | object us =>
    have hleft : sameFields fs us = sameFields gs us := by
      rw [Bool.eq_iff_iff, sameFields_iff, sameFields_iff]
      simp only [hperm.mem_iff]
    have hright : sameFields us fs = sameFields us gs := by
      rw [Bool.eq_iff_iff, sameFields_iff, sameFields_iff]
      simp only [Table.get?_perm hperm hnodup]
    simp only [same, hperm.length_eq, hleft, hright, and_self]
  | _ => simp [same]

theorem Alike.item {v w : Value} (h : Alike v w) (l r : List Value) :
    Alike (array (l ++ v :: r)) (array (l ++ w :: r)) := by
  intro u
  cases u with
  | array us =>
    simp only [same]
    induction l generalizing us with
    | nil => cases us <;> simp [sameItems, h _]
    | cons x l ih => cases us <;> simp [sameItems, ih]
  | _ => simp [same]

theorem Alike.sameFields_left {v w : Value} (h : Alike v w) (l r : Table Value) (k : String)
    (us : Table Value) :
    sameFields (l ++ (k, v) :: r) us = sameFields (l ++ (k, w) :: r) us := by
  induction l with
  | nil => simp only [List.nil_append, sameFields, h _]
  | cons p l ih => simp only [List.cons_append, sameFields, ih]

theorem Alike.sameFields_right {v w : Value} (h : Alike v w) (l r : Table Value) (k : String)
    (us : Table Value) :
    sameFields us (l ++ (k, v) :: r) = sameFields us (l ++ (k, w) :: r) := by
  induction us with
  | nil => rfl
  | cons p us ih =>
    rcases Table.get?_replace l r k v w p.1 with hget | ⟨hv, hw⟩
    · simp only [sameFields, ih, hget]
    · simp only [sameFields, ih, hv, hw, h p.2]

theorem Alike.field {v w : Value} (h : Alike v w) (l r : Table Value) (k : String) :
    Alike (object (l ++ (k, v) :: r)) (object (l ++ (k, w) :: r)) := by
  intro u
  cases u with
  | object us =>
    simp only [same, h.sameFields_left l r k, h.sameFields_right l r k, List.length_append, List.length_cons,
      and_self]
  | _ => simp [same]

theorem Altered.alike {R : Value → Value → Prop} (hR : ∀ v w, R v w → Alike v w) {v w : Value}
    (h : Altered R v w) : Alike v w := by
  induction h with
  | part h => exact hR _ _ h
  | item l r _ ih => exact ih.item l r
  | field l r k _ ih => exact ih.field l r k
  | refl v => exact fun _ => ⟨rfl, rfl⟩
  | trans _ _ ihv ihw => exact fun u => ⟨(ihv u).1.trans (ihw u).1, (ihv u).2.trans (ihw u).2⟩

/-- Equality is symmetric and transitive, and holds between a value and itself unless it has a NaN
inside. The order of keys and the choice between equal parts do not matter to it, at any depth, and
the type does. -/
theorem equality_laws :
    (∀ v w : Value, v.Distinct → w.Distinct → same v w = same w v) ∧
    (∀ u v w : Value, same u v = true → same v w = true → same u w = true) ∧
    (∀ v : Value, v.Distinct →
      (same v v = true ↔ ∀ x, (number x).Inside v → x.isNaN = false)) ∧
    (∀ v w u : Value, Altered Reordered v w → same v u = same w u ∧ same u v = same u w) ∧
    (∀ v w : Value, v.type ≠ w.type → same v w = false) ∧
    (∀ v v' w w' : Value, Altered Equal v v' → Altered Equal w w' → same v w = same v' w') := by
  refine ⟨fun v w hv hw => ?_, fun _ _ _ => same_trans, fun _ => same_self_iff,
    fun v w u h => h.alike (fun _ _ => Reordered.alike) u, fun v w htype => ?_,
    fun v v' w w' hv hw => ?_⟩
  · rw [Bool.eq_iff_iff]
    exact ⟨same_symm hv hw, same_symm hw hv⟩
  · rw [Bool.eq_false_iff]
    exact fun h => htype (same_type h)
  · have hEqual : ∀ v w, Equal v w → Alike v w := fun _ _ => Equal.alike
    exact (hv.alike hEqual w).1.trans (hw.alike hEqual v').2

/-- A record in a list, also with its keys turned around and with the other zero in it. -/
theorem equality_laws_record :
    same (array [object [("y", null), ("x", number 0)]])
        (array [object [("x", number 0), ("y", null)]]) = true ∧
    same (array [object [("x", number 0), ("y", null)]])
        (array [object [("y", null), ("x", number 0)]]) = true ∧
    same (array [object [("x", number (-0)), ("y", null)]])
        (array [object [("x", number 0), ("y", null)]]) = true ∧
    (∀ x, (number x).Inside (array [object [("x", number 0), ("y", null)]]) → x.isNaN = false) ∧
    same (array []) (object []) = false := by
  obtain ⟨hsymm, -, hself, hkeys, htype, hparts⟩ := equality_laws
  have hnumber (x : Float) : (number x).Distinct := by simp [Distinct]
  have hv : (array [object [("x", number 0), ("y", null)]]).Distinct := by
    simp [Distinct, Table.names]
  have hw : (array [object [("y", null), ("x", number 0)]]).Distinct := by
    simp [Distinct, Table.names]
  have hswap : Reordered (object [("x", number 0), ("y", null)])
      (object [("y", null), ("x", number 0)]) := .keys (by decide) (.swap _ _ _)
  have hzero : Equal (number 0) (number (-0)) := ⟨hnumber _, hnumber _, by rw [same]; decide⟩
  have hsame : same (array [object [("x", number 0), ("y", null)]])
      (array [object [("x", number 0), ("y", null)]]) = true := by
    decide
  have hturned := (hkeys _ _ _ (.item [] [] (.part hswap))).1.symm.trans hsame
  refine ⟨hturned, (hsymm _ _ hv hw).trans hturned, ?_, (hself _ hv).mp hsame,
    htype _ _ (by decide)⟩
  exact (hparts _ _ _ _ (.item [] [] (.field [] [("y", null)] "x" (.part hzero)))
    (.refl _)).symm.trans hsame

end Value

end DeskScript
