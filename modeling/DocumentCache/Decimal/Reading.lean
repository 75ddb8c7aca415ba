import DocumentCache.Decimal.Double

/-!
# Reading numbers

A whole number is an optional sign and at least one digit, and must lie in a range.
A floating-point number is an optional sign and then either one of the words `inf`,
`infinity` and `nan`, in any case, or digits with an optional point among or around
them and an optional exponent; it is read as the nearest number there is.
-/

namespace DocumentCache.Decimal

def digitValue (digit : Char) : Nat := digit.toNat - '0'.toNat

/-- The number that a run of digits stands for. -/
def value (digits : List Char) : Nat :=
  digits.foldl (fun n digit => n * 10 + digitValue digit) 0

/-- Whether a minus sign stands in front, and what follows the sign. -/
def splitSign : List Char → Bool × List Char
  | '-' :: rest => (true, rest)
  | '+' :: rest => (false, rest)
  | text => (false, text)

/-- A whole number. -/
def readInt? (text : String) : Option Int :=
  let (negative, digits) := splitSign text.toList
  if digits.isEmpty || !digits.all Char.isDigit then none
  else some (if negative then -(value digits : Int) else value digits)

/-- A whole number between two bounds. -/
def readBetween? (lowest highest : Int) (text : String) : Option Int :=
  match readInt? text with
  | some number => if lowest ≤ number ∧ number ≤ highest then some number else none
  | none => none

def readInt64? (text : String) : Option Int64 :=
  (readBetween? (-9223372036854775808) 9223372036854775807 text).map Int64.ofInt

def readInt32? (text : String) : Option Int32 :=
  (readBetween? (-2147483648) 2147483647 text).map Int32.ofInt

/-- A number written out: its digits, read as a whole number, times ten to the power
`exponent`. -/
structure Numeral where
  digits : List Char
  exponent : Int

/-- An exponent, which must be the whole rest of a text; none at its end. -/
def readExponent? : List Char → Option Int
  | [] => some 0
  | mark :: rest =>
      if mark = 'e' ∨ mark = 'E' then
        let (negative, digits) := splitSign rest
        if digits.isEmpty || !digits.all Char.isDigit then none
        else some (if negative then -(value digits : Int) else value digits)
      else none

/-- Digits with an optional point and an optional exponent. -/
def readNumeral? (text : List Char) : Option Numeral :=
  let whole := text.takeWhile Char.isDigit
  let behind := text.dropWhile Char.isDigit
  let (fraction, behind) :=
    match behind with
    | '.' :: rest => (rest.takeWhile Char.isDigit, rest.dropWhile Char.isDigit)
    | _ => ([], behind)
  if whole.isEmpty && fraction.isEmpty then none
  else (readExponent? behind).map fun exponent => ⟨whole ++ fraction, exponent - fraction.length⟩

/-- The magnitude of the number nearest to a numeral.  Beyond 310 digits before the
point it is infinite and beyond 330 zeros behind it zero, whatever the digits. -/
def Numeral.magnitude (numeral : Numeral) : Nat :=
  let digits := numeral.digits.dropWhile (· = '0')
  let places : Int := digits.length + numeral.exponent
  if digits.isEmpty then 0
  else if 310 < places then Double.infinityBits
  else if places < -330 then 0
  else if 0 ≤ numeral.exponent then
    Double.magnitudeOfFraction (value digits * Nat.pow 10 numeral.exponent.toNat) 1
  else Double.magnitudeOfFraction (value digits) (Nat.pow 10 (-numeral.exponent).toNat)

/-- A floating-point number. -/
def readDouble? (text : String) : Option UInt64 :=
  let (negative, unsigned) := splitSign text.toList
  let word := String.ofList (unsigned.map Char.toLower)
  if word = "inf" ∨ word = "infinity" then
    some (Double.withSign negative Double.infinityBits)
  else if word = "nan" then some (Double.withSign negative Double.nanBits)
  else (readNumeral? unsigned).map fun numeral => Double.withSign negative numeral.magnitude

end DocumentCache.Decimal
