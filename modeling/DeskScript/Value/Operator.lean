import DeskScript.Fault

/-!
Operators on values.
-/

namespace DeskScript

namespace Value

/-- Are two values in the order that a comparison asks for? `lt` and `eq` compare them. -/
def compareBy (op : BinaryOp) (lt eq gt : Bool) : Bool :=
  match op with
  | .lt => lt
  | .gt => gt
  | .le => lt || eq
  | _ => gt || eq

def mismatched {α : Type} (op : BinaryOp) (v w : Value) : Except Fault α :=
  .error (.mismatch (.operands op v.type w.type))

/-- Numbers are added; with a string on either side, texts are joined. -/
def add : Value → Value → Except Fault Value
  | number a, number b => .ok (number (a + b))
  | string a, w => .ok (string (a ++ w.text))
  | v, string b => .ok (string (v.text ++ b))
  | v, w => mismatched .add v w

def arithmetic (op : BinaryOp) : Value → Value → Except Fault Value
  | number a, number b =>
    match op with
    | .sub => .ok (number (a - b))
    | .mul => .ok (number (a * b))
    | .div => if b == 0 then .error .divisionByZero else .ok (number (a / b))
    | _ => if b == 0 then .error .divisionByZero else .ok (number (Number.rem a b))
  | v, w => mismatched op v w

/-- Numbers compare by value, where NaN is in no order, and strings by their characters. -/
def compare (op : BinaryOp) : Value → Value → Except Fault Value
  | number a, number b => .ok (bool (compareBy op (a < b) (a == b) (b < a)))
  | string a, string b => .ok (bool (compareBy op (a < b) (a == b) (b < a)))
  | v, w => mismatched op v w

/-- The result of an operator on both its operands. -/
def binary (op : BinaryOp) (v w : Value) : Except Fault Value :=
  match op with
  | .or => .ok (if v.truthy then v else w)
  | .and => .ok (if v.truthy then w else v)
  | .eq => .ok (bool (same v w))
  | .ne => .ok (bool (!same v w))
  | .add => add v w
  | .sub | .mul | .div | .mod => arithmetic op v w
  | .lt | .gt | .le | .ge => compare op v w

def unary (op : UnaryOp) (v : Value) : Except Fault Value :=
  match op, v with
  | .not, v => .ok (bool (!v.truthy))
  | .neg, number n => .ok (number (-n))
  | .neg, v => .error (.mismatch (.negated v.type))

end Value

end DeskScript
