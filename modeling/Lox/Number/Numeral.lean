import Lox.Number.Binary64
set_option autoImplicit false

/-! Decimal numerals and the numbers they denote: the exact value, rounded once. -/

namespace Lox.Numeral

/-- The whole number written by a list of digits. -/
def digitsValue (digits : List Char) : Nat :=
  digits.foldl (fun value digit => value * 10 + (digit.toNat - '0'.toNat)) 0

/-- The magnitude nearest to a decimal. -/
def magnitude (digits : Nat) (exponent : Int) : Nat :=
  match exponent with
  | .ofNat zeros => Binary64.nearest ((digits * Nat.pow 10 zeros) <<< Binary64.unitsOfOne) 1
  | .negSucc places =>
    Binary64.nearest (digits <<< Binary64.unitsOfOne) (Nat.pow 10 (places + 1))

/-- The number nearest to a decimal with a sign. -/
def number (negative : Bool) (digits : Nat) (exponent : Int) : Float :=
  let sign := if negative then Binary64.signBit else 0
  Float.ofBits (UInt64.ofNat (sign + magnitude digits exponent))

/-- The number written by digits before and behind a point. -/
def value (whole fraction : List Char) : Float :=
  number false (digitsValue (whole ++ fraction)) (-fraction.length)

end Lox.Numeral
