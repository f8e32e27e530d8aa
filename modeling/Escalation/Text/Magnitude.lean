/-!
# The magnitude of a decimal number in double precision

A decimal number is collected as a significand and a power of ten (`Decimal.ofDigits`). The
significand is a word of 64 bits and takes digits from the left as long as they fit. A digit in
front of the point that does not fit counts as a power of ten, and all that follow it there do so
too; a digit behind the point that does not fit is dropped with all that follow.

The number is then a product of two numbers of double precision. The significand, the power and the
product are each rounded to 53 binary digits (`roundTo`), so the product may be out of range where
the decimal number itself is not, and the other way round (`Decimal.overflows`).
-/

set_option autoImplicit false
set_option relaxedAutoImplicit false

namespace Escalation.Text

/-- A number rounded to its first `width` binary digits; a tie goes to the even neighbour. -/
def roundTo (width value : Nat) : Nat :=
  let unit := Nat.pow 2 (value.log2 + 1 - width)
  let kept := value / unit
  let dropped := value % unit
  let roundsUp := unit < 2 * dropped || (2 * dropped == unit && kept % 2 == 1)
  (if roundsUp then kept + 1 else kept) * unit

/-- A number that has no more binary digits than are kept is its own rounding. -/
theorem roundTo_of_log2_lt {width value : Nat} (h : value.log2 < width) :
    roundTo width value = value := by
  have hunit : value.log2 + 1 - width = 0 := by omega
  simp [roundTo, hunit, Nat.mod_one]

/-- The number of binary digits of a number of double precision. -/
def doubleWidth : Nat := 53

/-- The numbers of double precision lie below this one. -/
def doubleBound : Nat := Nat.pow 2 1024

/-- A significand lies below this bound. -/
def significandBound : Nat := Nat.pow 2 64

/-- The value of a decimal digit. -/
def digitValue (digit : Char) : Nat := digit.toNat - '0'.toNat

/-- The number that a row of decimal digits stands for. -/
def decimalValue (digits : List Char) : Nat :=
  digits.foldl (fun value digit ↦ value * 10 + digitValue digit) 0

/-- A magnitude `significand · 10 ^ exponent`. -/
structure Decimal where
  /-- The digits, as one number. -/
  significand : Nat
  /-- The power of ten. -/
  exponent : Int
  deriving DecidableEq, Repr

namespace Decimal

/-- Appends digits to a significand as long as it fits into a word, and gives back those that are
left. -/
def takeDigits (significand : Nat) : List Char → Nat × List Char
  | [] => (significand, [])
  | digit :: rest =>
    let longer := significand * 10 + digitValue digit
    if longer < significandBound then takeDigits longer rest else (significand, digit :: rest)

/-- The number with the given digits in front of the point and behind it. -/
def ofDigits (whole fraction : List Char) : Decimal :=
  let (significand, unfit) := takeDigits 0 whole
  let (significand, dropped) := takeDigits significand fraction
  { significand, exponent := unfit.length - (fraction.length - dropped.length) }

/-- The number times a power of ten. -/
def scale (number : Decimal) (exponent : Int) : Decimal :=
  { number with exponent := number.exponent + exponent }

/-- The greatest power of ten in double precision. -/
def greatestPower : Int := 308

/-- The number is out of the range of double precision. -/
def overflows (number : Decimal) : Bool :=
  if number.significand = 0 ∨ number.exponent < 0 then false
  else if greatestPower < number.exponent then true
  else
    let power := Nat.pow 10 number.exponent.toNat
    doubleBound ≤
      roundTo doubleWidth (roundTo doubleWidth number.significand * roundTo doubleWidth power)

/-- Zero is never out of range. -/
theorem overflows_of_significand_eq_zero {number : Decimal} (h : number.significand = 0) :
    number.overflows = false := by
  simp [overflows, h]

end Decimal

end Escalation.Text
