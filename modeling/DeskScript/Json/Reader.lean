import DeskScript.Json
import DeskScript.Table
import DeskScript.Number.Decimal

/-!
Reading JSON.

A value may be read with care or only skimmed. With care, a number must lie in
the range of numbers, an escaped surrogate needs its partner, and arrays and
objects nest to a limit. Skimming checks the form and drops the value; it is
for fields nobody asked for.

A field that is written twice keeps its first place and its last value.
-/

namespace DeskScript

namespace Json

namespace Reader

def isSpace (c : Char) : Bool := c == ' ' || c == '\n' || c == '\t' || c == '\r'

def skipSpace (cs : List Char) : List Char := cs.dropWhile isSpace

/-- The greatest number of arrays and objects inside each other. -/
def maxNesting : Nat := 127

/-! ## Strings -/

def hexValue? (c : Char) : Option Nat :=
  if '0' ≤ c && c ≤ '9' then some (c.toNat - '0'.toNat)
  else if 'a' ≤ c && c ≤ 'f' then some (c.toNat - 'a'.toNat + 10)
  else if 'A' ≤ c && c ≤ 'F' then some (c.toNat - 'A'.toNat + 10)
  else none

/-- The value of four hexadecimal digits. -/
def fourHex? (a b c d : Char) : Option Nat := do
  let (w, x, y, z) := (← hexValue? a, ← hexValue? b, ← hexValue? c, ← hexValue? d)
  return ((w * 16 + x) * 16 + y) * 16 + z

def isHighSurrogate (n : Nat) : Bool := 0xd800 ≤ n && n < 0xdc00

def isLowSurrogate (n : Nat) : Bool := 0xdc00 ≤ n && n < 0xe000

/-- What a letter after a backslash stands for. -/
def escape? : Char → Option Char
  | '"' => some '"'
  | '\\' => some '\\'
  | '/' => some '/'
  | 'b' => some '\x08'
  | 'f' => some '\x0c'
  | 'n' => some '\n'
  | 'r' => some '\r'
  | 't' => some '\t'
  | _ => none

/-- The rest of a string whose opening quote was read, and what follows its closing quote. `read`
holds the characters so far, the last one first. -/
def stringBody (careful : Bool) (read : List Char) : List Char → Option (String × List Char)
  | [] => none
  | '"' :: cs => some (String.ofList read.reverse, cs)
  | '\\' :: 'u' :: a :: b :: c :: d :: cs => do
    let n ← fourHex? a b c d
    if isHighSurrogate n && careful then
      match cs with
      | '\\' :: 'u' :: a' :: b' :: c' :: d' :: cs =>
        let m ← fourHex? a' b' c' d'
        if isLowSurrogate m then
          let code := 0x10000 + (n - 0xd800) * 0x400 + (m - 0xdc00)
          stringBody careful (Char.ofNat code :: read) cs
        else none
      | _ => none
    else if isLowSurrogate n && careful then none
    else stringBody careful (Char.ofNat n :: read) cs
  | '\\' :: c :: cs => do
    let c' ← escape? c
    stringBody careful (c' :: read) cs
  | c :: cs => if c == '\\' || c.toNat < 32 then none else stringBody careful (c :: read) cs

/-! ## Numbers -/

/-- Digits added to a significand for as long as it fits in 64 bits, and the digits left over. -/
def significand (n : Nat) : List Char → Nat × List Char
  | [] => (n, [])
  | d :: ds =>
    let n' := n * 10 + (d.toNat - '0'.toNat)
    if n' < 0x10000000000000000 then significand n' ds else (n, d :: ds)

/-- Divides by `10 ^ 308` until the exponent that is left is in reach of one power. -/
def scaleDown : Nat → Float → Int → Float × Int
  | 0, x, e => (x, e)
  | n + 1, x, e => if e < -308 && !(x == 0) then scaleDown n (x / 1e308) (e + 308) else (x, e)

/-- A significand times a power of ten, one multiplication or division at a time; `none` beyond the
range of numbers. -/
def scaled? (n : Nat) (e : Int) : Option Float :=
  let (x, e) := scaleDown 4 (Float.ofNat n) e
  if x == 0 then some x
  else if 308 < e then none
  else if 0 ≤ e then
    let y := x * Number.ofDecimal 1 e
    if y.isInf then none else some y
  else some (x / Number.ofDecimal 1 (-e))

/-- A whole number, or the nearest binary fraction if 64 bits cannot hold it. -/
def whole (negative : Bool) (n : Nat) : Json :=
  if !negative then int n
  else if n = 0 || 0x8000000000000000 < n then float (-(Float.ofNat n))
  else int (-n)

/-- The greatest exponent that is computed with. -/
def maxExponent : Nat := 2147483647

/-- The parts of a number: digits, digits after a point, and an exponent. -/
structure Numeral where
  negative : Bool
  digits : List Char
  fraction : Option (List Char)
  exponent : Option (Bool × List Char)

/-- The value of a number. -/
def Numeral.value? (n : Numeral) : Option Json :=
  let (sig, excess) := significand 0 n.digits
  if n.fraction.isNone && n.exponent.isNone && excess.isEmpty then some (whole n.negative sig)
  else
    let digits := n.fraction.getD []
    let (sig, unread) := significand sig digits
    let shift : Int := excess.length - (digits.length - unread.length : Nat)
    let (down, e) := match n.exponent with
      | some (down, ds) => (down, Number.digitsValue ds)
      | none => (false, 0)
    let magnitude :=
      if maxExponent < e then
        if sig ≠ 0 && !down then none else some 0
      else scaled? sig (if down then shift - e else shift + e)
    magnitude.map fun x => float (Number.signed n.negative x)

/-- Digits before the point: a zero, or digits that do not start with one. -/
def wholeDigits? (cs : List Char) : Option (List Char × List Char) :=
  match cs.takeWhile Number.isDigit, cs.dropWhile Number.isDigit with
  | [], _ => none
  | ['0'], rest => some (['0'], rest)
  | '0' :: _, _ => none
  | ds, rest => some (ds, rest)

def someDigits? (cs : List Char) : Option (List Char × List Char) :=
  let ds := cs.takeWhile Number.isDigit
  if ds.isEmpty then none else some (ds, cs.dropWhile Number.isDigit)

/-- The parts of the number at the start of a text. -/
def numeral? (cs : List Char) : Option (Numeral × List Char) := do
  let (negative, cs) := match cs with
    | '-' :: cs => (true, cs)
    | cs => (false, cs)
  let (digits, cs) ← wholeDigits? cs
  let (fraction, cs) ← match cs with
    | '.' :: cs => do
      let (ds, cs) ← someDigits? cs
      pure (some ds, cs)
    | cs => pure (none, cs)
  let (exponent, cs) ← match cs with
    | c :: cs' =>
      if c == 'e' || c == 'E' then do
        let (down, cs') := Number.splitSign cs'
        let (ds, cs') ← someDigits? cs'
        pure (some (down, ds), cs')
      else pure (none, cs)
    | [] => pure (none, [])
  return (⟨negative, digits, fraction, exponent⟩, cs)

def number? (careful : Bool) (cs : List Char) : Option (Json × List Char) := do
  let (n, cs) ← numeral? cs
  if careful then return (← n.value?, cs) else return (null, cs)

/-! ## Values -/

/-- A word at the start of a text, and what follows it. -/
def word? (word : String) (j : Json) (cs : List Char) : Option (Json × List Char) :=
  if word.toList.isPrefixOf cs then some (j, cs.drop word.length) else none

/-- The key of a field, its colon, and what follows. -/
def key? (careful : Bool) : List Char → Option (String × List Char)
  | '"' :: cs => do
    let (k, cs) ← stringBody careful [] cs
    match skipSpace cs with
    | ':' :: cs => some (k, cs)
    | _ => none
  | _ => none

/-- Separated by commas, up to a closing mark: the entries that `entry` reads, after at least one.
`read` holds those so far, the last one first. -/
def entries {α : Type} (entry : List Char → Option (α × List Char)) (close : Char) :
    Nat → List α → List Char → Option (List α × List Char)
  | 0, _, _ => none
  | n + 1, read, cs => do
    let (a, cs) ← entry (skipSpace cs)
    match skipSpace cs with
    | ',' :: cs => entries entry close n (a :: read) cs
    | c :: cs => if c == close then some ((a :: read).reverse, cs) else none
    | [] => none

/-- The entries of an array or object whose opening mark was read. -/
def bracketed {α : Type} (entry : List Char → Option (α × List Char)) (close : Char) (n : Nat)
    (cs : List Char) : Option (List α × List Char) :=
  match skipSpace cs with
  | c :: cs' => if c == close then some ([], cs') else entries entry close n [] (c :: cs')
  | [] => none

/-- The value at the start of a text. The first argument exceeds the length of the text, and `depth`
counts the arrays and objects around it. -/
def value (careful : Bool) : Nat → Nat → List Char → Option (Json × List Char)
  | 0, _, _ => none
  | n + 1, depth, cs =>
    let inside (cs : List Char) := value careful n (depth + 1) cs
    let tooDeep := careful && maxNesting ≤ depth
    match skipSpace cs with
    | '"' :: cs => (stringBody careful [] cs).map fun (s, cs) => (string s, cs)
    | '[' :: cs =>
      if tooDeep then none
      else (bracketed inside ']' n cs).map fun (items, cs) => (array items, cs)
    | '{' :: cs =>
      if tooDeep then none
      else
        let member (cs : List Char) := do
          let (k, cs) ← key? careful cs
          let (j, cs) ← inside cs
          return ((k, j), cs)
        (bracketed member '}' n cs).map fun (fields, cs) => (object (Table.ofPairs fields), cs)
    | 'n' :: cs => word? "null" null ('n' :: cs)
    | 't' :: cs => word? "true" (bool true) ('t' :: cs)
    | 'f' :: cs => word? "false" (bool false) ('f' :: cs)
    | cs => number? careful cs

end Reader

open Reader

/-- The value written by a text. -/
def read? (s : String) : Option Json := do
  let cs := s.toList
  let (j, rest) ← value true (cs.length + 1) 0 cs
  if (skipSpace rest).isEmpty then return j else none

/-- A record as it is written: named fields, all of them in order, or bare items. -/
inductive Record where
  | fields (entries : List (String × Json))
  | items (entries : List Json)

/-- The record written by a text. Fields that are not `wanted` are skimmed. -/
def readRecord? (wanted : String → Bool) (s : String) : Option Record := do
  let cs := s.toList
  let n := cs.length + 1
  let (record, rest) ← match skipSpace cs with
    | '{' :: cs => do
      let member (cs : List Char) := do
        let (k, cs) ← key? true cs
        let (j, cs) ← value (wanted k) n 1 cs
        return ((k, j), cs)
      let (fields, cs) ← bracketed member '}' n cs
      some (Record.fields fields, cs)
    | '[' :: cs => do
      let (items, cs) ← bracketed (value true n 1) ']' n cs
      some (Record.items items, cs)
    | _ => none
  if (skipSpace rest).isEmpty then return record else none

end Json

end DeskScript
