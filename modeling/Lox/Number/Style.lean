import Lox.Number.Shortest
set_option autoImplicit false

/-! How a number is written. The digits are always the shortest that read back; a style says which
of them are written positionally, how the others are scaled, and where a fraction is required. -/

namespace Lox

structure NumberStyle where
  /-- The least and the greatest exponent of the leading digit that are written positionally. -/
  leastPlain : Int
  greatestPlain : Int
  /-- Whether a positional whole number still shows a fraction. -/
  plainFraction : Bool
  /-- Whether a scaled number of one digit still shows a fraction. -/
  scaledFraction : Bool
  /-- What stands before the exponent. -/
  mark : Char
  infinity : String

namespace NumberStyle

/-- Numbers as programs print them: `4`, `0.001`, `1.0E7`. -/
def printed : NumberStyle where
  leastPlain := -3
  greatestPlain := 6
  plainFraction := false
  scaledFraction := true
  mark := 'E'
  infinity := "Infinity"

/-- Numbers as a token shows them: `4.0`, `0.0001`, `1e16`. -/
def shown : NumberStyle where
  leastPlain := -4
  greatestPlain := 15
  plainFraction := true
  scaledFraction := false
  mark := 'e'
  infinity := "inf"

end NumberStyle

namespace Number

/-- The digits with a point after the first `whole` of them, padded by zeros on either side. -/
def positional (plainFraction : Bool) (digits : List Char) (exponent : Int) : List Char :=
  match exponent with
  | .ofNat zeros =>
    digits ++ List.replicate zeros '0' ++ (if plainFraction then ['.', '0'] else [])
  | .negSucc places =>
    let places := places + 1
    if places < digits.length then
      digits.take (digits.length - places) ++ '.' :: digits.drop (digits.length - places)
    else
      '0' :: '.' :: (List.replicate (places - digits.length) '0' ++ digits)

/-- One digit, the others behind a point, and the exponent of the first. -/
def scaled (style : NumberStyle) (digits : List Char) (leading : Int) : List Char :=
  let mantissa :=
    match digits with
    | [] => []
    | [digit] => if style.scaledFraction then [digit, '.', '0'] else [digit]
    | digit :: others => digit :: '.' :: others
  let exponent :=
    match leading with
    | .ofNat size => Nat.toDigits 10 size
    | .negSucc size => '-' :: Nat.toDigits 10 (size + 1)
  mantissa ++ style.mark :: exponent

/-- A decimal in a style; the exponent of its leading digit decides the form. -/
def writeDecimal (style : NumberStyle) (decimal : Decimal) : List Char :=
  let digits := Nat.toDigits 10 decimal.digits
  let leading : Int := decimal.exponent + digits.length - 1
  if style.leastPlain ≤ leading ∧ leading ≤ style.greatestPlain then
    positional style.plainFraction digits decimal.exponent
  else
    scaled style digits leading

/-- A magnitude in a style; zero has no shortest decimal and is written as the digit. -/
def writeMagnitude (style : NumberStyle) (magnitude : Nat) : List Char :=
  if magnitude = 0 then positional style.plainFraction ['0'] 0
  else writeDecimal style (Shortest.decimal magnitude)

/-- The text of a number given by its bits. -/
def write (style : NumberStyle) (bits : UInt64) : String :=
  match Binary64.read bits with
  | .notANumber => "NaN"
  | .infinite negative => (if negative then "-" else "") ++ style.infinity
  | .finite negative magnitude =>
    (if negative then "-" else "") ++ String.ofList (writeMagnitude style magnitude)

example : write .printed 0x416312cfe0000000 = "9999999" := by decide +kernel

example : write .printed 0x416312d000000000 = "1.0E7" := by decide +kernel

example : write .shown 0x4341c37937e08000 = "1e16" := by decide +kernel

/-- Three and seven units read back as well; five is nearest to the least positive number. -/
example : write .printed 1 = "5.0E-324" := by decide +kernel

/-- The number ends in 625, midway between its two neighbours on the grid. -/
example : write .shown 0x42d8c5176e5f1ae8 = "108939122932843.63" := by decide +kernel

/-- The text that programs print. -/
def text (number : Float) : String :=
  write .printed number.toBits

end Number

end Lox
