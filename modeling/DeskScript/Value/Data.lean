import DeskScript.Value
import DeskScript.Json

/-!
Values as data. Functions, infinities and NaN have no data and become `null`;
a whole number of moderate size becomes an integer.
-/

namespace DeskScript

/-- A number as data. -/
def Json.ofNumber (x : Float) : Json :=
  if Number.isWhole x && x.abs < 9e15 then .int (Number.toInt x)
  else if x.isFinite then .float x
  else .null

def Value.toJson : Value → Json
  | null | function _ => .null
  | bool b => .bool b
  | number n => Json.ofNumber n
  | string s => .string s
  | array items => .array (items.map fun v => v.toJson)
  | object fields => .object (fields.map fun p => (p.1, p.2.toJson))
termination_by v => sizeOf v
decreasing_by
  · have := List.sizeOf_lt_of_mem ‹_ ∈ items›
    simp_wf
    omega
  · have := List.sizeOf_lt_of_mem ‹_ ∈ fields›
    have : sizeOf p = 1 + sizeOf p.1 + sizeOf p.2 := rfl
    simp_wf
    omega

def Json.toValue : Json → Value
  | null => .null
  | bool b => .bool b
  | int n => .number (Float.ofInt n)
  | float x => .number x
  | string s => .string s
  | array items => .array (items.map fun j => j.toValue)
  | object fields => .object (fields.map fun p => (p.1, p.2.toValue))
termination_by j => sizeOf j
decreasing_by
  · have := List.sizeOf_lt_of_mem ‹_ ∈ items›
    simp_wf
    omega
  · have := List.sizeOf_lt_of_mem ‹_ ∈ fields›
    have : sizeOf p = 1 + sizeOf p.1 + sizeOf p.2 := rfl
    simp_wf
    omega

end DeskScript
