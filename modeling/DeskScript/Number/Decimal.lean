import DeskScript.Number.Binary

/-!
Numbers as decimal text.

Writing takes the fewest digits that read back as the same number, and among
those the nearest to it; what an exact tie does is for the format to say. Plain
text takes the larger magnitude and is positional, never with an exponent.

Reading takes the number nearest to the decimal, ties to the even mantissa.
-/

namespace DeskScript

namespace Number

/-! ## Writing -/

/-- A decimal numeral: the digits, most significant first, and the number of them that stand
before the point (which may be negative or beyond the last digit). -/
structure Numeral where
  digits : List Char
  point : Int

/-- Where a number goes that is half way between two numerals: to the larger magnitude, or to the
one that ends in an even digit. -/
inductive Tie where
  | up | even
  deriving DecidableEq, Repr

/-- Decimal digits of a natural number. -/
def decimalDigits (n : Nat) : List Char := Nat.toDigits 10 n

/-- The interval of reals that read back as `mant · 2 ^ exp`, in units of `2 ^ (exp - 2)`: its
lower end, the number itself, its upper end. Below a power of two the lower half is half as wide. -/
def readingInterval (mant : Nat) (lowest : Bool) : Nat × Nat × Nat :=
  let below := if mant = hiddenBit && !lowest then 1 else 2
  (4 * mant - below, 4 * mant, 4 * mant + 2)

/-- The quotient `10 ^ k * n / d`, for any integer `k`, as a pair of naturals. -/
def scaledRatio (k : Int) (n d : Nat) : Nat × Nat :=
  if 0 ≤ k then (n * pow10 k.toNat, d) else (n, d * pow10 (-k).toNat)

/-- The nearer of two neighbours `down` and `down + 1`, where `rest / d` is the way from `down`. -/
def Tie.nearer (tie : Tie) (down rest d : Nat) : Nat :=
  if 2 * rest < d then down
  else if 2 * rest = d && tie = .even && down % 2 = 0 then down
  else down + 1

/-- The neighbours of `v` on the grid of step `10 ^ step`, where `lo`, `v` and `hi` are over `den`:
the one that lies in the interval and is nearer, if any does. -/
def gridPoint? (tie : Tie) (closed : Bool) (lo v hi den : Nat) (step : Int) : Option Nat :=
  let (v', d) := scaledRatio (-step) v den
  let (lo', _) := scaledRatio (-step) lo den
  let (hi', _) := scaledRatio (-step) hi den
  let inside (q : Nat) : Bool :=
    if closed then lo' ≤ q * d && q * d ≤ hi' else lo' < q * d && q * d < hi'
  let down := v' / d
  let up := down + 1
  match inside down, inside up with
  | true, true => some (tie.nearer down (v' - down * d) d)
  | true, false => some down
  | false, true => some up
  | false, false => none

/-- The least `p` with `v / den < 10 ^ p`, searched upwards from a start below it. -/
def decimalPoint (v den : Nat) : Nat → Int → Int
  | 0, p => p
  | fuel + 1, p =>
    let (v', d) := scaledRatio (-p) v den
    if v' < d then p else decimalPoint v den fuel (p + 1)

/-- Tries 1, 2, … digits until a grid point falls into the interval. -/
def firstGrid (tie : Tie) (closed : Bool) (lo v hi den : Nat) (p : Int) : Nat → Nat → Nat × Int
  | 0, k => (v / den, p - k)
  | tries + 1, k =>
    match gridPoint? tie closed lo v hi den (p - k) with
    | some q => (q, p - k)
    | none => firstGrid tie closed lo v hi den p tries (k + 1)

/-- The shortest numeral of a positive finite number. -/
def shortest (tie : Tie) (x : Float) : Numeral :=
  let mant := mantissa x
  let e := exponent x - 2
  let (lo, v, hi) := readingInterval mant (exponentField x ≤ 1)
  let up := e.toNat
  let den := pow2 (-e).toNat
  let (lo, v, hi) := (lo <<< up, v <<< up, hi <<< up)
  -- `2 ^ n < 10 ^ (n / 3 + 1)`, and starting low only costs steps
  let bits : Int := v.log2 - den.log2
  let start : Int := bits * 30103 / 100000 - 1
  let p := decimalPoint v den 8 start
  let (q, step) := firstGrid tie (mant % 2 == 0) lo v hi den p 17 1
  let ds := decimalDigits q
  ⟨ds, step + ds.length⟩

/-- Digits without the zeros at their end. -/
def stripZeros (ds : List Char) : List Char := (ds.reverse.dropWhile (· == '0')).reverse

/-- Positional notation: zeros fill up to the point, and a fraction has no zeros at its end. -/
def Numeral.positional (n : Numeral) : String :=
  let ds := stripZeros n.digits
  if n.point ≤ 0 then
    "0." ++ String.ofList (List.replicate (-n.point).toNat '0' ++ ds)
  else
    let before := n.point.toNat
    if ds.length ≤ before then
      String.ofList (ds ++ List.replicate (before - ds.length) '0')
    else
      String.ofList (ds.take before) ++ "." ++ String.ofList (ds.drop before)

/-- The text of any number. -/
def text (x : Float) : String :=
  if x.isNaN then "NaN"
  else
    let sign := if signBit x then "-" else ""
    if x.isInf then sign ++ "inf"
    else if x == 0 then sign ++ "0"
    else sign ++ (shortest .up x.abs).positional

/-- The text of a number as scripts print it: whole numbers below `10 ^ 15` have no sign on zero. -/
def display (x : Float) : String :=
  if isWhole x && x.abs < 1e15 then toString (toInt x) else text x

/-! ## Reading -/

/-- The number nearest to `m · 10 ^ e`. Exponents far outside the range of numbers are settled
without computing the power. -/
def ofDecimal (m : Nat) (e : Int) : Float :=
  if m = 0 then 0
  else if 400 < e then 1.0 / 0.0
  else if e < -(m.log2 + 400 : Int) then 0
  else Float.ofScientific m (e < 0) e.natAbs

/-- The value of a row of digits. -/
def digitsValue (ds : List Char) : Nat := ds.foldl (fun n c => n * 10 + (c.toNat - '0'.toNat)) 0

def isDigit (c : Char) : Bool := '0' ≤ c && c ≤ '9'

/-- An optional sign and what follows it; `true` for a minus. -/
def splitSign : List Char → Bool × List Char
  | '-' :: cs => (true, cs)
  | '+' :: cs => (false, cs)
  | cs => (false, cs)

/-- The exponent part of a decimal: nothing, or `e` with an optional sign and digits. -/
def readExponent? : List Char → Option Int
  | [] => some 0
  | c :: cs =>
    if c == 'e' || c == 'E' then
      let (negative, ds) := splitSign cs
      if ds.isEmpty || !ds.all isDigit then none
      else
        let n : Int := digitsValue ds
        some (if negative then -n else n)
    else none

/-- A decimal without a sign: digits, a point, digits, with at least one digit in all, and an
optional exponent. -/
def readDecimal? (cs : List Char) : Option Float :=
  let before := cs.takeWhile isDigit
  let rest := cs.dropWhile isDigit
  let (after, rest) := match rest with
    | '.' :: r => (r.takeWhile isDigit, r.dropWhile isDigit)
    | r => ([], r)
  if before.isEmpty && after.isEmpty then none
  else (readExponent? rest).map fun e =>
    ofDecimal (digitsValue (before ++ after)) (e - after.length)

/-- The number spelled by a text: a decimal, `inf`, `infinity` or `nan` in any case, with an
optional sign. -/
def read? (cs : List Char) : Option Float :=
  let (negative, body) := splitSign cs
  let magnitude :=
    match String.ofList (body.map Char.toLower) with
    | "inf" | "infinity" => some (1.0 / 0.0)
    | "nan" => some (0.0 / 0.0)
    | _ => readDecimal? body
  magnitude.map (signed negative)

end Number

end DeskScript
