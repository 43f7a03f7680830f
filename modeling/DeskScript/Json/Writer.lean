import DeskScript.Json
import DeskScript.Number.Decimal
import DeskScript.Text.Quoted

/-!
JSON as text, on one line or spread over lines with two spaces per level.
-/

namespace DeskScript

namespace Json

/-! ## Numbers -/

/-- The least and the greatest power of ten that is written without an exponent. -/
def positionalPowers : Int × Int := (-5, 15)

/-- Digits with a point somewhere among them; a whole number ends in `.0`. -/
def pointedText (ds : List Char) (point : Int) : String :=
  if point ≤ 0 then "0." ++ String.ofList (List.replicate (-point).toNat '0' ++ ds)
  else
    let before := point.toNat
    if ds.length ≤ before then
      String.ofList (ds ++ List.replicate (before - ds.length) '0') ++ ".0"
    else String.ofList (ds.take before) ++ "." ++ String.ofList (ds.drop before)

/-- One digit, the others behind a point, and a power of ten with its sign. -/
def exponentText (ds : List Char) (power : Int) : String :=
  let fraction := ds.drop 1
  let tail := if fraction.isEmpty then "" else "." ++ String.ofList fraction
  let sign := if 0 ≤ power then "+" else ""
  s!"{String.ofList (ds.take 1)}{tail}e{sign}{power}"

/-- The fewest digits that read back, a tie to the even one, as a number that is not whole by its
spelling. Infinities and NaN have no number and are written `null`. -/
def floatText (x : Float) : String :=
  if !x.isFinite then "null"
  else
    let sign := if Number.signBit x then "-" else ""
    if x == 0 then sign ++ "0.0"
    else
      let n := Number.shortest .even x.abs
      let ds := Number.stripZeros n.digits
      let power := n.point - 1
      if positionalPowers.1 ≤ power && power ≤ positionalPowers.2 then sign ++ pointedText ds n.point
      else sign ++ exponentText ds power

/-! ## Strings -/

def escapedChar (c : Char) : String :=
  match c with
  | '"' => "\\\""
  | '\\' => "\\\\"
  | '\n' => "\\n"
  | '\r' => "\\r"
  | '\t' => "\\t"
  | '\x08' => "\\b"
  | '\x0c' => "\\f"
  | c =>
    if c.toNat < 32 then
      let digits := hexDigits c.toNat
      "\\u" ++ String.ofList (List.replicate (4 - digits.length) '0') ++ digits
    else c.toString

def stringText (s : String) : String :=
  "\"" ++ s.toList.foldl (fun out c => out ++ escapedChar c) "" ++ "\""

/-! ## Values -/

/-- A list between brackets on one line. -/
def flat (opening closing : String) (items : List String) : String :=
  opening ++ String.intercalate "," items ++ closing

/-- The value on one line, without spaces. -/
def compact : Json → String
  | null => "null"
  | bool b => if b then "true" else "false"
  | int n => toString n
  | float x => floatText x
  | string s => stringText s
  | array items => flat "[" "]" (items.map fun j => compact j)
  | object fields => flat "\x7b" "\x7d" (fields.map fun p => stringText p.1 ++ ":" ++ compact p.2)
termination_by j => sizeOf j
decreasing_by
  · have := List.sizeOf_lt_of_mem ‹_ ∈ items›
    simp_wf
    omega
  · have := List.sizeOf_lt_of_mem ‹_ ∈ fields›
    have : sizeOf p = 1 + sizeOf p.1 + sizeOf p.2 := rfl
    simp_wf
    omega

/-- A list between brackets, one item a line, indented below `indent`. -/
def spread (indent opening closing : String) (items : List String) : String :=
  if items.isEmpty then opening ++ closing
  else
    let inner := "\n" ++ indent ++ "  "
    opening ++ inner ++ String.intercalate ("," ++ inner) items ++ "\n" ++ indent ++ closing

/-- The value over lines, the first one without indentation. -/
def prettyFrom (indent : String) : Json → String
  | array items => spread indent "[" "]" (items.map fun j => prettyFrom (indent ++ "  ") j)
  | object fields =>
    spread indent "\x7b" "\x7d"
      (fields.map fun p => stringText p.1 ++ ": " ++ prettyFrom (indent ++ "  ") p.2)
  | j => compact j
termination_by j => sizeOf j
decreasing_by
  · have := List.sizeOf_lt_of_mem ‹_ ∈ items›
    simp_wf
    omega
  · have := List.sizeOf_lt_of_mem ‹_ ∈ fields›
    have : sizeOf p = 1 + sizeOf p.1 + sizeOf p.2 := rfl
    simp_wf
    omega

def pretty (j : Json) : String := prettyFrom "" j

end Json

end DeskScript
