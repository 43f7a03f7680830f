/-!
White space, trimming, and the words between white space.
-/

namespace DeskScript

/-- The characters with the property White_Space. -/
def isBlank (c : Char) : Bool :=
  let n := c.toNat
  (9 ≤ n && n ≤ 13) || n == 32 || n == 0x85 || n == 0xa0 || n == 0x1680 || (0x2000 ≤ n && n ≤ 0x200a)
    || n == 0x2028 || n == 0x2029 || n == 0x202f || n == 0x205f || n == 0x3000

/-- A text without the white space at its ends. -/
def trimBlank (cs : List Char) : List Char :=
  ((cs.dropWhile isBlank).reverse.dropWhile isBlank).reverse

/-- The maximal runs without white space. -/
def blankWords (cs : List Char) : List (List Char) := go [] cs
where
  /-- `word` is the run read so far, its last character first. -/
  go (word : List Char) : List Char → List (List Char)
    | [] => if word.isEmpty then [] else [word.reverse]
    | c :: cs =>
      if isBlank c then
        if word.isEmpty then go [] cs else word.reverse :: go [] cs
      else go (c :: word) cs

end DeskScript
