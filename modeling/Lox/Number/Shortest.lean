import Lox.Number.Binary64
set_option autoImplicit false

/-! The shortest decimal that reads back as a given number. The reals that round to a magnitude
form an interval, which keeps its ends exactly when the pattern is even. Powers of ten are tried
from above; the first whose multiples meet the interval gives the fewest digits, and of its two
multiples next to the number the nearer one in the interval is taken, the upper one in a tie. -/

namespace Lox

/-- The digits times ten to the power of the exponent. -/
structure Decimal where
  digits : Nat
  exponent : Int
  deriving DecidableEq, Repr

namespace Shortest

/-- The reals that round to a number, in half units, with the number between the ends. -/
structure Interval where
  low : Nat
  value : Nat
  high : Nat
  closed : Bool

/-- The ends lie midway to the neighbours. -/
def Interval.of (magnitude : Nat) : Interval where
  low := Binary64.units (magnitude - 1) + Binary64.units magnitude
  value := 2 * Binary64.units magnitude
  high := Binary64.units magnitude + Binary64.units (magnitude + 1)
  closed := magnitude % 2 == 0

/-- Whether `dividend / divisor` half units lie in the interval. -/
def Interval.contains (interval : Interval) (dividend divisor : Nat) : Bool :=
  if interval.closed then
    interval.low * divisor ≤ dividend && dividend ≤ interval.high * divisor
  else
    interval.low * divisor < dividend && dividend < interval.high * divisor

/-- Half units in one. -/
abbrev halvesOfOne : Nat := Binary64.unitsOfOne + 1

/-- A power of ten in half units, as a fraction. -/
def gridStep : (exponent : Int) → Nat × Nat
  | .ofNat exponent => (Nat.pow 10 exponent <<< halvesOfOne, 1)
  | .negSucc exponent => (1 <<< halvesOfOne, Nat.pow 10 (exponent + 1))

/-- The multiple of a power of ten that stands for the number, if one lies in the interval. -/
def multiple? (interval : Interval) (exponent : Int) : Option Nat :=
  let (dividend, divisor) := gridStep exponent
  let below := interval.value * divisor / dividend
  let above := below + 1
  match interval.contains (below * dividend) divisor,
    interval.contains (above * dividend) divisor with
  | true, true =>
    some (if 2 * interval.value * divisor < (below + above) * dividend then below else above)
  | true, false => some below
  | false, true => some above
  | false, false => none

/-- Tries the powers of ten from a height down, counted from the power `-halvesOfOne`. Every half
unit is a multiple of that one, so there the number itself is taken. -/
def search (interval : Interval) : (height : Nat) → Decimal
  | 0 => ⟨interval.value * Nat.pow 5 halvesOfOne, -halvesOfOne⟩
  | height + 1 =>
    let exponent : Int := (height + 1 : Nat) - (halvesOfOne : Int)
    match multiple? interval exponent with
    | some digits => ⟨digits, exponent⟩
    | none => search interval height

/-- A height whose power of ten lies above the interval. One binary digit is worth at most
0.30103 decimal ones. -/
def startHeight (interval : Interval) : Nat :=
  let binaryDigits : Int := (interval.value.log2 + 2 : Nat) - (halvesOfOne : Int)
  (binaryDigits * 30103 / 100000 + 1 + halvesOfOne).toNat

/-- The shortest decimal that rounds to a positive finite magnitude. -/
def decimal (magnitude : Nat) : Decimal :=
  let interval := Interval.of magnitude
  search interval (startHeight interval)

end Shortest

end Lox
