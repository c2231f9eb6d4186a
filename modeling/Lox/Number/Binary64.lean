set_option autoImplicit false

/-! Double-precision numbers as bit patterns, and their exact values. A magnitude is a pattern
without its sign bit; magnitudes are ordered as the numbers they stand for, so the neighbour of a
number is the pattern one below or one above. Values are whole multiples of the least positive
number, two to the power of -1074, which is the unit throughout. -/

namespace Lox.Binary64

/-- Width of the fraction field. -/
abbrev fractionWidth : Nat := 52

/-- The leading bit of a significand, which the pattern leaves out. It stands one place above the
fraction, where the exponent field begins. -/
abbrev leadingBit : Nat := 0x10000000000000

/-- The magnitude of infinity; the larger ones are no numbers. -/
def infinity : Nat := 0x7ff0000000000000

abbrev signBit : Nat := 0x8000000000000000

/-- The power of two by which one exceeds the unit. -/
abbrev unitsOfOne : Nat := 1074

/-- The value of a magnitude in units. The values of two neighbours differ by a power of two. -/
def units (magnitude : Nat) : Nat :=
  let exponent := magnitude / leadingBit
  let fraction := magnitude % leadingBit
  if exponent = 0 then fraction else (leadingBit + fraction) <<< (exponent - 1)

/-- The quotient rounded to the nearest whole number, a half going to the even one. -/
def divideHalfEven (dividend divisor : Nat) : Nat :=
  let quotient := dividend / divisor
  let remainder := dividend % divisor
  if 2 * remainder < divisor ∨ 2 * remainder = divisor ∧ quotient % 2 = 0 then quotient
  else quotient + 1

/-- The magnitude nearest to `dividend / divisor` units, a tie going to the even pattern.
A significand rounded up to the next power of two carries into the exponent field, which is where
its pattern belongs. -/
def nearest (dividend divisor : Nat) : Nat :=
  let shift := (dividend / divisor).log2 - fractionWidth
  min infinity (shift * leadingBit + divideHalfEven dividend (divisor <<< shift))

/-- A bit pattern read as a number. -/
inductive Reading where
  | notANumber
  | infinite (negative : Bool)
  | finite (negative : Bool) (magnitude : Nat)
  deriving DecidableEq, Repr

def read (bits : UInt64) : Reading :=
  let negative := decide (signBit ≤ bits.toNat)
  let magnitude := bits.toNat % signBit
  if infinity < magnitude then .notANumber
  else if magnitude = infinity then .infinite negative
  else .finite negative magnitude

end Lox.Binary64
