import ConfLang.Number.Decimal

/-!
# Binary floating-point numbers of 64 bits

A number is its bit pattern: a sign, eleven bits of exponent and 52 bits of
fraction.  All arithmetic on it is exact arithmetic on natural numbers.

The patterns of the finite non-negative numbers, read as natural numbers, are in
the order of the numbers they stand for, and a pattern `s * 2 ^ 52 + m` with
`m < 2 ^ 53`, where `m` is not below `2 ^ 52` unless `s = 0`, stands for
`m * 2 ^ (s - 1074)`.  Rounding (`ofRatio`) uses this: it finds the scale `s`,
rounds to a whole multiple `m` of the unit and adds the two up, and a carry out
of `m` goes to the next scale by itself.
-/

namespace ConfLang

/-- A binary floating-point number of 64 bits. -/
structure Binary64 where
  bits : UInt64
  deriving DecidableEq, Repr, Inhabited

namespace Binary64

/-- The pattern of negative zero: the sign alone. -/
def signBits : Nat := 0x8000000000000000

/-- The pattern of positive infinity. -/
def infinityBits : Nat := 0x7FF0000000000000

/-- The distance between the patterns of a number and of its double, `2 ^ 52`. -/
def scaleStep : Nat := 0x10000000000000

/-- The pattern without its sign. -/
def magnitude (number : Binary64) : Nat :=
  number.bits.toNat % signBits

/-- Whether the sign bit is set. -/
def isNegative (number : Binary64) : Bool :=
  signBits ≤ number.bits.toNat

/-- Whether the pattern stands for no number. -/
def isNaN (number : Binary64) : Bool :=
  infinityBits < number.magnitude

/-- Whether a pattern stands for one of the two infinities. -/
def isInfinite (number : Binary64) : Bool :=
  number.magnitude == infinityBits

/-- Numerical equality: the two zeros are equal, and what is no number equals
nothing, itself included. -/
def same (first second : Binary64) : Bool :=
  !first.isNaN && !second.isNaN &&
    (first.bits == second.bits || (first.magnitude == 0 && second.magnitude == 0))

/-- The scale of a finite pattern: its unit is `2 ^ (scale - 1074)`. -/
def scale (number : Binary64) : Nat :=
  number.magnitude / scaleStep - 1

/-- How many units the magnitude of a finite number is. -/
def significand (number : Binary64) : Nat :=
  number.magnitude - number.scale * scaleStep

/-- The magnitude of a finite number is `numerator / denominator`. -/
def numerator (number : Binary64) : Nat :=
  number.significand <<< (number.scale - 1074)

/-- The denominator of a magnitude is a power of two. -/
def denominator (number : Binary64) : Nat :=
  1 <<< (1074 - number.scale)

/-! ### Rounding -/

/-- A fraction rounded to the nearest whole number, a half to the even one. -/
def roundHalfEven (numerator denominator : Nat) : Nat :=
  let quotient := numerator / denominator
  let remainder := numerator % denominator
  if 2 * remainder < denominator then quotient
  else if denominator < 2 * remainder then quotient + 1
  else quotient + quotient % 2

/-- The least scale at which a fraction is below `2 ^ 53` units. -/
def scaleOf (numerator denominator : Nat) : Nat :=
  ((numerator <<< 1074) / denominator).log2 - 52

/-- The number nearest to a fraction, of two equally near ones the one with the
even significand; too large a fraction becomes infinite. -/
def ofRatio (numerator denominator : Nat) : Binary64 :=
  let scale := scaleOf numerator denominator
  let units := roundHalfEven (numerator <<< (1074 - scale)) (denominator <<< (scale - 1074))
  ⟨UInt64.ofNat (min (scale * scaleStep + units) infinityBits)⟩

/-- The number nearest to a decimal number. -/
def ofDecimal (decimal : Decimal) : Binary64 :=
  ofRatio decimal.numerator decimal.denominator

end Binary64

end ConfLang
