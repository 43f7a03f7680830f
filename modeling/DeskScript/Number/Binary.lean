/-!
Binary floating-point numbers taken apart. A finite number is a sign, a
mantissa and an exponent,

    x = ± mantissa x · 2 ^ exponent x

and every operation here is exact arithmetic on those parts: the part before
the point, rounding to a whole number, and the remainder of a division.
-/

namespace DeskScript

namespace Number

def pow2 (n : Nat) : Nat := Nat.pow 2 n

def pow10 (n : Nat) : Nat := Nat.pow 10 n

/-- The bit that a mantissa has in front of its fraction. -/
def hiddenBit : Nat := 0x10000000000000

def signBit (x : Float) : Bool := x.toBits >>> 63 == 1

def exponentField (x : Float) : Nat := ((x.toBits >>> 52) &&& 0x7ff).toNat

def fractionField (x : Float) : Nat := (x.toBits &&& 0xfffffffffffff).toNat

/-- Numbers with exponent field 0 have no hidden bit. -/
def mantissa (x : Float) : Nat :=
  if exponentField x = 0 then fractionField x else fractionField x + hiddenBit

def exponent (x : Float) : Int := (max (exponentField x) 1 : Int) - 1075

/-- The magnitude of a finite number without its fraction. -/
def wholePart (x : Float) : Nat :=
  if 0 ≤ exponent x then mantissa x <<< (exponent x).toNat
  else mantissa x >>> (-exponent x).toNat

def signed (negative : Bool) (x : Float) : Float := if negative then -x else x

/-- The number without its fraction, sign kept: `-0.5` gives `-0`. -/
def trunc (x : Float) : Float :=
  if x.isFinite && exponent x < 0 then signed (signBit x) (Float.ofNat (wholePart x)) else x

/-- A number without a fraction. Infinities and NaN have none by convention. -/
def isWhole (x : Float) : Bool := x.isFinite && trunc x == x

/-- The integer that is a finite number without its fraction. -/
def toInt (x : Float) : Int := if signBit x then -(wholePart x : Int) else wholePart x

def floor (x : Float) : Float :=
  let t := trunc x
  if x < t then t - 1 else t

def ceil (x : Float) : Float :=
  let t := trunc x
  if t < x then t + 1 else t

/-- To the nearest whole number, halves away from zero. -/
def round (x : Float) : Float :=
  let t := trunc x
  if (x - t).abs < 0.5 then t else if x < 0 then t - 1 else if x > 0 then t + 1 else t

/-- The power `2 ^ e`, for exponents of finite numbers. -/
def twoPow (e : Int) : Float :=
  if e < -1022 then Float.ofBits (UInt64.ofNat (pow2 (e + 1074).toNat))
  else Float.ofBits (UInt64.ofNat ((e + 1023).toNat * hiddenBit))

/-- The number `m · 2 ^ e`, exact whenever a finite number has that value. -/
def ofScaled (m : Nat) (e : Int) : Float :=
  let excess := m.log2 - 52
  Float.ofNat (m >>> excess) * twoPow (e + excess)

/-- The remainder of `x / y` with the quotient cut off at the point: it has the sign of `x`
and a magnitude below that of `y`, and is exact. -/
def rem (x y : Float) : Float :=
  if x.isNaN || y.isNaN || x.isInf || y == 0 then 0.0 / 0.0
  else if y.isInf then x
  else
    let e := min (exponent x) (exponent y)
    let a := mantissa x <<< (exponent x - e).toNat
    let b := mantissa y <<< (exponent y - e).toNat
    let r := a % b
    signed (signBit x) (if r = 0 then 0 else ofScaled r e)

/-- The smaller of two numbers; a NaN gives way to the other. -/
def lesser (x y : Float) : Float :=
  if x.isNaN then y else if y.isNaN then x else if y < x then y else x

/-- The larger of two numbers; a NaN gives way to the other. -/
def greater (x y : Float) : Float :=
  if x.isNaN then y else if y.isNaN then x else if x < y then y else x

end Number

end DeskScript
