/-!
# Decimal numbers

A decimal number is `coefficient · 10 ^ exponent`.  It can be read from digits
around a point, and it has a positional form: digits, and a point if something
other than zeros follows it, never an exponent.
-/

namespace ConfLang

/-- A decimal number `coefficient · 10 ^ exponent`. -/
structure Decimal where
  coefficient : Nat
  exponent : Int
  deriving DecidableEq, Repr

namespace Decimal

/-- The decimal number with the given digits before and after the point. -/
def ofDigits (whole fraction : List Char) : Decimal :=
  ⟨Nat.ofDigitChars 10 (whole ++ fraction) 0, -(fraction.length : Int)⟩

/-- The number of digits behind the point. -/
def places (decimal : Decimal) : Nat :=
  (-decimal.exponent).toNat

/-- A decimal number is `numerator / denominator`. -/
def numerator (decimal : Decimal) : Nat :=
  decimal.coefficient * Nat.pow 10 decimal.exponent.toNat

/-- The denominator is the power of ten for the digits behind the point. -/
def denominator (decimal : Decimal) : Nat :=
  Nat.pow 10 decimal.places

/-- The digits before the point. -/
def wholeDigits (decimal : Decimal) : List Char :=
  Nat.toDigits 10 (decimal.numerator / decimal.denominator)

/-- The digits behind the point, without zeros at the end. -/
def fractionDigits (decimal : Decimal) : List Char :=
  let digits := Nat.toDigits 10 (decimal.numerator % decimal.denominator)
  let padded := List.replicate (decimal.places - digits.length) '0' ++ digits
  (padded.reverse.dropWhile (· == '0')).reverse

/-- The positional form of a decimal number. -/
def positional (decimal : Decimal) : String :=
  let whole := String.ofList decimal.wholeDigits
  match decimal.fractionDigits with
  | [] => whole
  | fraction => whole ++ "." ++ String.ofList fraction

end Decimal

end ConfLang
