/-!
Sets of characters given by ranges of code points.
-/

namespace DeskScript

/-- Is the code point in one of the ranges? Both ends belong to a range. -/
def inRanges (table : Array (Nat × Nat)) (c : Char) : Bool :=
  table.any fun (first, last) => first ≤ c.toNat && c.toNat ≤ last

end DeskScript
