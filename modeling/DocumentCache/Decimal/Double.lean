/-!
# Floating-point numbers as exact fractions

The 64 bits of a number are a sign, eleven bits of exponent and 52 of fraction.  A
finite number is a whole number of units, each a power of two; the exponent zero
stands for the smallest unit, without the leading one.  Going back, a fraction of
natural numbers is rounded to the nearest whole number of units, ties to the even
one.
-/

namespace DocumentCache.Double

def signBit : Nat := 0x8000000000000000

/-- The magnitudes that share an exponent. -/
def fractions : Nat := 0x10000000000000

def infinityBits : Nat := 0x7FF0000000000000

def nanBits : Nat := 0x7FF8000000000000

/-- A number by its kind; a finite one is `mantissa` times two to the power
`exponent`. -/
inductive Parts where
  | nan
  | infinite (negative : Bool)
  | finite (negative : Bool) (mantissa : Nat) (exponent : Int)
  deriving DecidableEq, Repr

def isNegative (bits : UInt64) : Bool := signBit ≤ bits.toNat

/-- The bits without the sign. -/
def magnitude (bits : UInt64) : Nat := bits.toNat % signBit

def parts (bits : UInt64) : Parts :=
  let size := magnitude bits
  if infinityBits < size then .nan
  else if size = infinityBits then .infinite (isNegative bits)
  else
    let exponent : Nat := size / fractions
    let fraction : Nat := size % fractions
    if exponent = 0 then .finite (isNegative bits) fraction (-1074)
    else .finite (isNegative bits) (fraction + fractions) ((exponent : Int) - 1075)

/-- The whole number nearest to a fraction, ties to the even one. -/
def roundToEven (numerator denominator : Nat) : Nat :=
  let whole := numerator / denominator
  let twice := 2 * (numerator % denominator)
  if twice < denominator then whole
  else if denominator < twice then whole + 1
  else whole + whole % 2

/-- The exponent of the largest power of two that is at most a fraction. -/
def binaryExponent (numerator denominator : Nat) : Int :=
  let guess : Int := (numerator.log2 : Int) - (denominator.log2 : Int)
  let reached :=
    if 0 ≤ guess then denominator * Nat.pow 2 guess.toNat ≤ numerator
    else denominator ≤ numerator * Nat.pow 2 (-guess).toNat
  if reached then guess else guess - 1

/-- The magnitude of the number nearest to a fraction, ties to the even one. -/
def magnitudeOfFraction (numerator denominator : Nat) : Nat :=
  if numerator = 0 then 0
  else
    let unit := max (binaryExponent numerator denominator - 52) (-1074)
    let mantissa :=
      if 0 ≤ unit then roundToEven numerator (denominator * Nat.pow 2 unit.toNat)
      else roundToEven (numerator * Nat.pow 2 (-unit).toNat) denominator
    min ((unit + 1074).toNat * fractions + mantissa) infinityBits

def withSign (negative : Bool) (magnitude : Nat) : UInt64 :=
  UInt64.ofNat (if negative then signBit + magnitude else magnitude)

end DocumentCache.Double
