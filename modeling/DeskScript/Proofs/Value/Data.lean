import DeskScript.Proofs.Value.Equality
import DeskScript.Value.Data

/-!
# Values that are sent as data

A value goes out as data and is made into a value again where it arrives. Of numbers there
are three cases: zeros become the integer 0, other finite numbers come back as they were
(`Json.toValue_ofNumber`), and the rest has no data. From there the way out and back is taken
along the structure of the value:

    v.toJson.toValue = v.asData            (toValue_toJson)
    v.asData.toJson = v.toJson             (toJson_asData)

so to send a value on does nothing more to it.
-/

namespace DeskScript

/-! ## Numbers -/

namespace Number

theorem isNaN_of_isFinite {x : Float} (h : x.isFinite) : x.isNaN = false := by
  change x.toModel.unpack.isFinite at h
  show x.toModel.unpack.isNaN = false
  cases hx : x.toModel.unpack <;> rw [hx] at h <;> first | rfl | cases h

theorem isFinite_of_isWhole {x : Float} (h : isWhole x) : x.isFinite :=
  (Bool.and_eq_true_iff.mp h).1

end Number

namespace Json

theorem ofNumber_of_zero {x : Float} (h : (x == 0) = true) : ofNumber x = .int 0 := by
  rcases Number.eq_zero_or_eq_neg_zero h with rfl | rfl <;> rfl

theorem ofNumber_of_not_isFinite {x : Float} (h : ¬ x.isFinite) : ofNumber x = .null := by
  have hwhole : ¬ Number.isWhole x := fun hx => h (Number.isFinite_of_isWhole hx)
  simp [ofNumber, hwhole, h]

theorem toValue_ofNumber {x : Float} (hx : x.isFinite) (hzero : ¬ (x == 0) = true) :
    (ofNumber x).toValue = .number x := by
  unfold ofNumber
  split
  · next h =>
    obtain ⟨hwhole, hlimit⟩ := Bool.and_eq_true_iff.mp h
    rw [toValue, Number.ofInt_toInt hwhole (of_decide_eq_true hlimit), if_neg hzero]
  · rw [toValue]

end Json

namespace Value

/-- A value as data: functions and numbers that are not finite are null, and zero has no sign. -/
def asData : Value → Value
  | null | function _ => null
  | bool b => bool b
  | number x => if x == 0 then number 0 else if x.isFinite then number x else null
  | string s => string s
  | array items => array (items.map fun v => v.asData)
  | object fields => object (fields.map fun p => (p.1, p.2.asData))
termination_by v => sizeOf v
decreasing_by
  · have := List.sizeOf_lt_of_mem ‹_ ∈ items›
    simp_wf
    omega
  · have := List.sizeOf_lt_of_mem ‹_ ∈ fields›
    have : sizeOf p = 1 + sizeOf p.1 + sizeOf p.2 := rfl
    simp_wf
    omega

theorem toValue_toJson (v : Value) : v.toJson.toValue = v.asData := by
  induction v using Value.induction with
  | number x =>
    rw [toJson, asData]
    split
    · next hzero =>
      rw [Json.ofNumber_of_zero hzero, Json.toValue]
      rfl
    · next hzero =>
      split
      · next hx => exact Json.toValue_ofNumber hx hzero
      · next hx => rw [Json.ofNumber_of_not_isFinite hx, Json.toValue]
  | array items ih =>
    rw [toJson, Json.toValue, asData, List.map_map]
    exact congrArg array (List.map_congr_left ih)
  | object fields ih =>
    rw [toJson, Json.toValue, asData, List.map_map]
    refine congrArg object (List.map_congr_left fun p hp => ?_)
    exact congrArg (Prod.mk p.1) (ih p hp)
  | _ => simp only [toJson, Json.toValue, asData]

theorem toJson_asData (v : Value) : v.asData.toJson = v.toJson := by
  induction v using Value.induction with
  | number x =>
    rw [asData, toJson]
    split
    · next hzero =>
      rw [toJson, Json.ofNumber_of_zero hzero]
      exact Json.ofNumber_of_zero (by decide)
    · split
      · rw [toJson]
      · next hx => rw [toJson, Json.ofNumber_of_not_isFinite hx]
  | array items ih =>
    rw [asData, toJson, toJson, List.map_map]
    exact congrArg Json.array (List.map_congr_left ih)
  | object fields ih =>
    rw [asData, toJson, toJson, List.map_map]
    refine congrArg Json.object (List.map_congr_left fun p hp => ?_)
    exact congrArg (Prod.mk p.1) (ih p hp)
  | _ => simp only [asData, toJson]

/-- There are no functions inside a value, and the numbers inside are finite. -/
structure Plain (v : Value) : Prop where
  noFunction : ∀ f, ¬ (function f).Inside v
  finite : ∀ x, (number x).Inside v → x.isFinite

theorem Plain.of_inside {v w : Value} (h : w.Plain) (hv : ∀ u, Inside u v → Inside u w) : v.Plain :=
  ⟨fun f hf => h.noFunction f (hv _ hf), fun x hx => h.finite x (hv _ hx)⟩

theorem same_asData {v : Value} (hv : v.Distinct) (h : v.Plain) : same v.asData v = true := by
  induction v using Value.induction with
  | number x =>
    have hx := h.finite x .here
    rw [asData]
    split
    · next hzero => exact Number.beq_symm hzero
    · exact Number.beq_self_iff.mpr (Number.isNaN_of_isFinite hx)
  | function f => exact absurd .here (h.noFunction f)
  | array items ih =>
    rw [distinct_array] at hv
    rw [asData, same, sameItems_iff, List.forall₂_map_left_iff, List.forall₂_same]
    exact fun v hmem => ih v hmem (hv v hmem) (h.of_inside fun _ => .item hmem)
  | object fields ih =>
    rw [distinct_object] at hv
    simp only [asData, same, List.length_map, beq_self_eq_true, Bool.true_and, sameFields_iff,
      List.forall_mem_map]
    intro p hp
    refine ⟨p.2, (Table.get?_eq_some_iff hv.1).mpr hp, ?_⟩
    exact ih p hp (hv.2 p hp) (h.of_inside fun _ => .field hp)
  | _ => simp [asData, same]

/-- Whoever is sent a value receives it as data, which is sent on unchanged. What has neither
functions nor infinities nor NaN in it arrives equal to what was sent. -/
theorem sent_as_data :
    (∀ v : Value, v.toJson.toValue = v.asData) ∧
    (∀ v : Value, v.toJson.toValue.toJson = v.toJson) ∧
    (∀ v : Value, v.toJson.toValue.toJson.toValue = v.toJson.toValue) ∧
    (∀ v : Value, v.Distinct → v.Plain → same v.toJson.toValue v = true) := by
  have hback (v : Value) : v.toJson.toValue.toJson = v.toJson := by
    rw [toValue_toJson, toJson_asData]
  refine ⟨toValue_toJson, hback, fun v => by rw [hback], fun v hv h => ?_⟩
  rw [toValue_toJson]
  exact same_asData hv h

/-- A list of a negative zero and a record comes back equal. -/
theorem sent_as_data_record :
    same (array [number (-0), object [("x", number 0.5)]]).toJson.toValue
      (array [number (-0), object [("x", number 0.5)]]) = true := by
  obtain ⟨-, -, -, hsame⟩ := sent_as_data
  refine hsame _ ?_ ⟨?_, ?_⟩
  · simp [Distinct, Table.names]
  · simp
  · intro x hx
    obtain rfl | rfl : x = -0 ∨ x = 0.5 := by simpa using hx
    · rfl
    · rfl

end Value

end DeskScript
