/-!
Finding and splitting at a separator, from left to right and without overlap.
-/

namespace DeskScript

/-- Does `sep` occur in the text? -/
def hasPart (sep : List Char) : List Char → Bool
  | [] => sep.isEmpty
  | c :: cs => sep.isPrefixOf (c :: cs) || hasPart sep cs

/-- The pieces between the occurrences of a non-empty separator. `skip` counts the characters of
an occurrence still to pass, and `piece` is the piece read so far, its last character first. -/
def splitFrom (sep : List Char) (skip : Nat) (piece : List Char) : List Char → List (List Char)
  | [] => [piece.reverse]
  | c :: cs =>
    match skip with
    | k + 1 => splitFrom sep k piece cs
    | 0 =>
      if sep.isPrefixOf (c :: cs) then piece.reverse :: splitFrom sep (sep.length - 1) [] cs
      else splitFrom sep 0 (c :: piece) cs

/-- The pieces of a text between the occurrences of a non-empty separator. -/
def splitAt (sep cs : List Char) : List (List Char) := splitFrom sep 0 [] cs

end DeskScript
