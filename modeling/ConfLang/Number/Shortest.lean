import ConfLang.Number.Binary64

/-!
# The shortest decimal text of a floating-point number

A finite number is written with the fewest digits that read back as the same
number, and with the nearest such digits if there are several.  For every number
of digits the two neighbours of the number on the grid of that many digits are
tried; the first grid with a neighbour that reads back is the right one, since an
interval around the number that holds any point of a grid holds a neighbour.
-/

namespace ConfLang.Binary64

/-- The number of digits before the point of a positive fraction; zero and below
count the zeros that follow the point. -/
def digitsBeforePoint (numerator denominator : Nat) : Int :=
  if denominator ≤ numerator then
    ((Nat.toDigits 10 (numerator / denominator)).length : Int)
  else
    1 - ((Nat.toDigits 10 ((denominator - 1) / numerator)).length : Int)

/-- The neighbours of a fraction among the multiples of `10 ^ exponent`, the
nearer one first.  Of two equally near ones the larger comes first. -/
def neighbours (numerator denominator : Nat) (exponent : Int) : List Decimal :=
  let numerator := numerator * Nat.pow 10 (-exponent).toNat
  let denominator := denominator * Nat.pow 10 exponent.toNat
  let below := numerator / denominator
  let remainder := numerator % denominator
  if denominator ≤ 2 * remainder then [⟨below + 1, exponent⟩, ⟨below, exponent⟩]
  else [⟨below, exponent⟩, ⟨below + 1, exponent⟩]

/-- The exact value of a finite magnitude as a decimal number. -/
def exact (number : Binary64) : Decimal :=
  ⟨number.numerator * Nat.pow 5 (1074 - number.scale), (number.scale : Int) - max 1074 number.scale⟩

/-- Whether a decimal number is read as the magnitude of a number. -/
def readsBack (number : Binary64) (decimal : Decimal) : Bool :=
  (ofDecimal decimal).magnitude == number.magnitude

/-- The shortest decimal number that reads back as a finite magnitude.  Seventeen
digits always suffice. -/
def shortest (number : Binary64) : Decimal :=
  if number.magnitude = 0 then ⟨0, 0⟩
  else
    let numerator := number.numerator
    let denominator := number.denominator
    let before := digitsBeforePoint numerator denominator
    let candidates := (List.range 17).flatMap fun (digits : Nat) =>
      neighbours numerator denominator (before - (digits + 1 : Nat))
    (candidates.find? number.readsBack).getD number.exact

/-- The text of a number: its sign, and its shortest digits in positional form. -/
def text (number : Binary64) : String :=
  if number.isNaN then "NaN"
  else
    let sign := if number.isNegative then "-" else ""
    if number.isInfinite then sign ++ "inf" else sign ++ number.shortest.positional

end ConfLang.Binary64
