import DeskScript.Program
import DeskScript.Table
import DeskScript.Number.Decimal
import DeskScript.Text.Blank
import DeskScript.Text.Quoted

/-!
The values of the language. Equality never converts between types, ignores the
order of object fields and tells functions apart by identity:

    Value.same (object fs) (object gs) ↔ as many fields, and each of fs has an equal one in gs
-/

namespace DeskScript

/-- The place of a scope among all scopes. -/
abbrev ScopeId := Nat

/-- What tells functions apart: the count of functions made before it, or a name given to it from
outside. -/
inductive FunctionId where
  | made (serial : Nat)
  | supplied (name : String)
  deriving DecidableEq, Repr

/-- A function together with the scope it was defined in. -/
structure Closure where
  id : FunctionId
  name : String
  params : List String
  body : Block
  scope : ScopeId

inductive Value where
  | null
  | bool (b : Bool)
  | number (n : Float)
  | string (s : String)
  | array (items : List Value)
  | object (fields : List (String × Value))
  | function (f : Closure)

instance : Inhabited Value := ⟨.null⟩

inductive ValueType where
  | null | bool | number | string | array | object | function
  deriving DecidableEq, Repr

def ValueType.name : ValueType → String
  | null => "null"
  | bool => "bool"
  | number => "number"
  | string => "string"
  | array => "array"
  | object => "object"
  | function => "function"

namespace Value

def type : Value → ValueType
  | null => .null
  | bool _ => .bool
  | number _ => .number
  | string _ => .string
  | array _ => .array
  | object _ => .object
  | function _ => .function

/-- The value of a literal. -/
def ofLiteral : Literal → Value
  | .null => null
  | .bool b => bool b
  | .number n => number n
  | .string s => string s

def ofNat (n : Nat) : Value := number (Float.ofNat n)

/-- One value per character. -/
def characters (s : String) : List Value := s.toList.map fun c => string c.toString

def truthy : Value → Bool
  | null => false
  | bool b => b
  | number n => !(n == 0) && !n.isNaN
  | string s => !s.isEmpty
  | _ => true

/-- The numeric view: numbers, and strings that spell a finite number. -/
def number? : Value → Option Float
  | number n => some n
  | string s => (Number.read? (trimBlank s.toList)).filter (·.isFinite)
  | _ => none

/-! ## Text -/

/-- A string inside a collection is quoted; other values keep the text given. -/
def nestedBy (shown : String) : Value → String
  | string s => quoteText s
  | _ => shown

/-- How a value is shown. -/
def display : Value → String
  | null => "null"
  | bool b => if b then "true" else "false"
  | number n => Number.display n
  | string s => s
  | array items => "[" ++ String.intercalate ", " (items.map fun v => nestedBy (display v) v) ++ "]"
  | object fields =>
    "\x7b" ++ String.intercalate ", " (fields.map fun p => p.1 ++ ": " ++ nestedBy (display p.2) p.2)
      ++ "\x7d"
  | function f => s!"<func {f.name}>"
termination_by v => sizeOf v
decreasing_by
  · have := List.sizeOf_lt_of_mem ‹_ ∈ items›
    simp_wf
    omega
  · have := List.sizeOf_lt_of_mem ‹_ ∈ fields›
    have : sizeOf p = 1 + sizeOf p.1 + sizeOf p.2 := rfl
    simp_wf
    omega

/-- A value as text: shown, with `null` empty. -/
def text : Value → String
  | null => ""
  | v => display v

/-! ## Equality -/

mutual

def same : Value → Value → Bool
  | null, null => true
  | bool a, bool b => a == b
  | number a, number b => a == b
  | string a, string b => a == b
  | array a, array b => sameItems a b
  | object a, object b => a.length == b.length && sameFields a b
  | function a, function b => a.id == b.id
  | _, _ => false

def sameItems : List Value → List Value → Bool
  | [], [] => true
  | v :: vs, w :: ws => same v w && sameItems vs ws
  | _, _ => false

/-- Does every field on the left have an equal one on the right? -/
def sameFields : List (String × Value) → List (String × Value) → Bool
  | [], _ => true
  | (k, v) :: fs, gs =>
    (match Table.get? gs k with
      | some w => same v w
      | none => false) && sameFields fs gs

end

/-! ## Scopes -/

/-- The scopes of the functions at any depth inside a value. -/
def scopes : Value → List ScopeId
  | array items => items.flatMap fun v => scopes v
  | object fields => fields.flatMap fun p => scopes p.2
  | function f => [f.scope]
  | _ => []
termination_by v => sizeOf v
decreasing_by
  · have := List.sizeOf_lt_of_mem ‹_ ∈ items›
    simp_wf
    omega
  · have := List.sizeOf_lt_of_mem ‹_ ∈ fields›
    have : sizeOf p = 1 + sizeOf p.1 + sizeOf p.2 := rfl
    simp_wf
    omega

end Value

end DeskScript
