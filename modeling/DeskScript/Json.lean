/-!
JSON values. An object keeps its fields in the order they were written, and a
number is either whole or a binary fraction.
-/

namespace DeskScript

inductive Json where
  | null
  | bool (b : Bool)
  | int (n : Int)
  | float (x : Float)
  | string (s : String)
  | array (items : List Json)
  | object (fields : List (String × Json))

end DeskScript
