import DeskScript.Fault

/-!
Parts of values: members, indices, and assignment along a path of them.

    assign path x v = .ok v' → reading path from v' gives x
-/

namespace DeskScript

namespace Value

/-- The position that a number names in a sequence. -/
def position (n : Float) (length : Nat) : Except Fault Nat :=
  if !Number.isWhole n || n < 0 || n ≥ Float.ofNat length then .error (.indexOutOfRange n length)
  else .ok (Number.wholePart n)

/-- The value of a property. -/
def member (v : Value) (property : String) : Except Fault Value :=
  match v with
  | object fields => .ok ((Table.get? fields property).getD null)
  | array items =>
    if property = "length" then .ok (ofNat items.length)
    else .error (.mismatch (.propertyOf property .array))
  | string s =>
    if property = "length" then .ok (ofNat s.length)
    else .error (.mismatch (.propertyOf property .string))
  | v => .error (.mismatch (.propertyOf property v.type))

/-- The part of a value at an index. -/
def at_ (v index : Value) : Except Fault Value :=
  match v, index with
  | array items, number n => do
    let i ← position n items.length
    return items.getD i null
  | string s, number n => do
    let i ← position n s.length
    return string (String.ofList [s.toList.getD i ' '])
  | object fields, string k => .ok ((Table.get? fields k).getD null)
  | array _, i => .error (.mismatch (.indexedBy i.type))
  | string _, i => .error (.mismatch (.indexedBy i.type))
  | object _, i => .error (.mismatch (.keyedBy i.type))
  | v, _ => .error (.mismatch (.indexed v.type))

/-- A step of a path to assign along. -/
inductive Key where
  | member (name : String)
  | index (v : Value)

/-- The part of a value at a key. -/
def part (v : Value) : Key → Except Fault Value
  | .member x => v.member x
  | .index i => v.at_ i

/-- The name by which a key reaches into an object. -/
def Key.name? : Key → Option String
  | .member x => some x
  | .index (string x) => some x
  | .index _ => none

/-- The value with `x` at the end of a path. All keys but the last must lead to something. -/
def assign (x : Value) : List Key → Value → Except Fault Value
  | [], _ => .ok x
  | key :: path, v =>
    match v, key with
    | object fields, key =>
      match key.name? with
      | none => .error (.mismatch .objectKey)
      | some k =>
        match path, Table.get? fields k with
        | [], _ => .ok (object (Table.put fields k x))
        | _ :: _, none => .error (.mismatch (.throughMissing k))
        | _ :: _, some w => do return object (Table.put fields k (← assign x path w))
    | array items, .index (number n) => do
      let i ← position n items.length
      return array (items.set i (← assign x path (items.getD i null)))
    | array _, _ => .error (.mismatch .arrayKey)
    | v, .member p => .error (.mismatch (.propertyOn p v.type))
    | v, .index _ => .error (.mismatch (.indexed v.type))

end Value

end DeskScript
