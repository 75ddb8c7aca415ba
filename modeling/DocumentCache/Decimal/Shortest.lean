import DocumentCache.Decimal.Double

/-!
# The shortest decimal

A floating-point number stands for all real numbers that are rounded to it.  Its
shortest decimal is the one with the fewest digits among them, the nearest to the
number of those, and the larger of two that are equally near.

All is reckoned in quarters of the number's unit, as fractions of natural numbers.
For each count of digits only two decimals can qualify: the two neighbours of the
number among the decimals with that many digits.
-/

namespace DocumentCache.Decimal

/-- A decimal: its digits, read as a whole number, times ten to the power
`exponent`. -/
structure Shortest where
  digits : Nat
  exponent : Int
  deriving DecidableEq, Repr

/-- A positive number and the ends of the interval that is rounded to it, as
numerators over one denominator. -/
structure Interval where
  low : Nat
  number : Nat
  high : Nat
  denominator : Nat
  /-- Whether the ends themselves are rounded to the number. -/
  closed : Bool

/-- The interval around `mantissa` times two to the power `exponent`.  Below a power
of two the numbers lie twice as close, except at the smallest exponent. -/
def Interval.ofParts (mantissa : Nat) (exponent : Int) : Interval :=
  let below := if mantissa = Double.fractions ∧ exponent ≠ -1074 then 1 else 2
  let scale := if 2 ≤ exponent then Nat.pow 2 (exponent - 2).toNat else 1
  let denominator := if 2 ≤ exponent then 1 else Nat.pow 2 (2 - exponent).toNat
  { low := (4 * mantissa - below) * scale
    number := 4 * mantissa * scale
    high := (4 * mantissa + 2) * scale
    denominator
    closed := mantissa % 2 = 0 }

/-- Whether a fraction lies in the interval. -/
def Interval.holds (interval : Interval) (numerator denominator : Nat) : Bool :=
  let scaled := numerator * interval.denominator
  if interval.closed then
    interval.low * denominator ≤ scaled && scaled ≤ interval.high * denominator
  else interval.low * denominator < scaled && scaled < interval.high * denominator

/-- The number of digits before the point: the number is at least ten to the power
of one less.  `start` counts down from a bound. -/
def placesFrom (numerator denominator : Nat) : Nat → Int → Int
  | 0, places => places
  | steps + 1, places =>
      let reached :=
        if 0 < places then denominator * Nat.pow 10 (places - 1).toNat ≤ numerator
        else denominator ≤ numerator * Nat.pow 10 (1 - places).toNat
      if reached then places else placesFrom numerator denominator steps (places - 1)

/-- The digits before the point of a fraction; negative for zeros behind it.  A
fraction of `2 ^ n` has at most `n * 0.302 + 1` of them. -/
def places (numerator denominator : Nat) : Int :=
  let bits := Double.binaryExponent numerator denominator + 1
  placesFrom numerator denominator 4 (bits * 30103 / 100000 + 2)

/-- The nearer one of the two neighbours on the grid of ten to the power `exponent`
that lie in the interval. -/
def Interval.onGrid? (interval : Interval) (exponent : Int) : Option Nat :=
  let up := if 0 ≤ exponent then Nat.pow 10 exponent.toNat else 1
  let down := if 0 ≤ exponent then 1 else Nat.pow 10 (-exponent).toNat
  let step := interval.denominator * up
  let below := interval.number * down / step
  let rest := interval.number * down % step
  let lower := interval.holds (below * up) down
  let upper := interval.holds ((below + 1) * up) down
  if lower && upper then some (if 2 * rest < step then below else below + 1)
  else if lower then some below
  else if upper then some (below + 1)
  else none

/-- Try the grids of more and more digits. -/
def Interval.search (interval : Interval) : Nat → Int → Shortest
  | 0, exponent => ⟨interval.number / interval.denominator, exponent⟩
  | steps + 1, exponent =>
      match interval.onGrid? exponent with
      | some digits => ⟨digits, exponent⟩
      | none => interval.search steps (exponent - 1)

/-- A decimal without zeros at its end. -/
def Shortest.trim (decimal : Shortest) : Nat → Shortest
  | 0 => decimal
  | steps + 1 =>
      if decimal.digits % 10 = 0 ∧ decimal.digits ≠ 0 then
        Shortest.trim ⟨decimal.digits / 10, decimal.exponent + 1⟩ steps
      else decimal

/-- The shortest decimal of `mantissa` times two to the power `exponent`; seventeen
digits always suffice. -/
def shortest (mantissa : Nat) (exponent : Int) : Shortest :=
  let interval := Interval.ofParts mantissa exponent
  let whole := places interval.number interval.denominator
  (interval.search 17 (whole - 1)).trim 18

/-- How a floating-point number is spelled. -/
structure Spelling where
  /-- Powers of ten from here on, and below `lowest`, stand in an exponent. -/
  highest : Int
  lowest : Int
  nan : String
  infinity : String

/-- The digits of a decimal with the point after the first `whole` of them. -/
def positional (digits : List Char) (whole : Int) : String :=
  let text :=
    if whole ≤ 0 then ['0', '.'] ++ List.replicate (-whole).toNat '0' ++ digits
    else if digits.length ≤ whole then
      digits ++ List.replicate (whole.toNat - digits.length) '0' ++ ['.', '0']
    else digits.take whole.toNat ++ '.' :: digits.drop whole.toNat
  String.ofList text

/-- The digits of a decimal with the point after the first one and an exponent. -/
def scientific (digits : List Char) (exponent : Int) : String :=
  let text :=
    match digits with
    | first :: second :: rest => first :: '.' :: second :: rest
    | digits => digits
  s!"{String.ofList text}e{exponent}"

/-- A number that is not negative. -/
def Spelling.unsigned (spelling : Spelling) (mantissa : Nat) (exponent : Int) : String :=
  if mantissa = 0 then "0.0"
  else
    let decimal := shortest mantissa exponent
    let digits := Nat.toDigits 10 decimal.digits
    let leading := decimal.exponent + digits.length - 1
    if spelling.lowest ≤ leading ∧ leading < spelling.highest then
      positional digits (leading + 1)
    else scientific digits leading

/-- The text of a floating-point number. -/
def Spelling.text (spelling : Spelling) (bits : UInt64) : String :=
  match Double.parts bits with
  | .nan => spelling.nan
  | .infinite negative => (if negative then "-" else "") ++ spelling.infinity
  | .finite negative mantissa exponent =>
      (if negative then "-" else "") ++ spelling.unsigned mantissa exponent

end DocumentCache.Decimal
