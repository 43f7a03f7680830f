import DeskScript.Text.Ranges
import DeskScript.Text.LetterCase.Table

/-!
Upper and lower case of texts. A letter may become several, and the lower case
of a sigma depends on its place in a word.
-/

namespace DeskScript

namespace LetterCase

/-- The code point a table of runs gives, if it has one. -/
def runImage? (runs : Array (Nat × Nat × Nat × Nat)) (n : Nat) : Option Nat :=
  (runs.find? fun (first, last, step, _) => first ≤ n && n ≤ last && (n - first) % step == 0).map
    fun (first, _, _, image) => image + (n - first)

def sequence? (table : Array (Nat × List Nat)) (n : Nat) : Option (List Nat) :=
  (table.find? (·.1 == n)).map (·.2)

/-- The image of a character under a case mapping. -/
def image (runs : Array (Nat × Nat × Nat × Nat)) (sequences : Array (Nat × List Nat)) (c : Char) :
    List Char :=
  match runImage? runs c.toNat with
  | some n => [Char.ofNat n]
  | none =>
    match sequence? sequences c.toNat with
    | some ns => ns.map Char.ofNat
    | none => [c]

def upperChar (c : Char) : List Char :=
  if c.toNat < 128 then [c.toUpper] else image upperRuns upperSequences c

def lowerChar (c : Char) : List Char :=
  if c.toNat < 128 then [c.toLower] else image lowerRuns lowerSequences c

/-- The first character that case does not ignore is a cased one. -/
def meetsCased (cs : List Char) : Bool :=
  (cs.dropWhile (inRanges ignorableRanges)).head?.any (inRanges casedRanges)

def capitalSigma : Char := Char.ofNat 0x3a3

/-- The lower case of a sigma between `before`, its nearest character first, and `after`: the
final form at the end of a word. -/
def lowerSigma (before after : List Char) : Char :=
  if meetsCased before && !meetsCased after then Char.ofNat 0x3c2 else Char.ofNat 0x3c3

/-- `read` holds the characters so far, the last one first, and `out` their lower case, reversed. -/
def lowerFrom (read out : List Char) : List Char → List Char
  | [] => out.reverse
  | c :: cs =>
    let low := if c == capitalSigma then [lowerSigma read cs] else lowerChar c
    lowerFrom (c :: read) (low.reverse ++ out) cs

end LetterCase

def upperText (s : String) : String := String.ofList (s.toList.flatMap LetterCase.upperChar)

def lowerText (s : String) : String := String.ofList (LetterCase.lowerFrom [] [] s.toList)

end DeskScript
