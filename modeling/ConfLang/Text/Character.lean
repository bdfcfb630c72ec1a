/-!
# Classes of characters

The language distinguishes two kinds of white space.  Inside a line only the
space, the tabulator and the carriage return separate tokens (`isSpacing`).  All
characters with the Unicode property `White_Space` (`isBlank`) count as blank
when a line is trimmed at its end, and when one asks whether anything stands
before a `%` on its line.

Names and keywords are made of ASCII letters, digits and the underscore.
-/

namespace ConfLang.Text

/-- The characters of the Unicode property `White_Space`. -/
def isBlank (character : Char) : Bool :=
  let code := character.toNat
  (0x09 ≤ code && code ≤ 0x0D) || code == 0x20 || code == 0x85 || code == 0xA0 ||
    code == 0x1680 || (0x2000 ≤ code && code ≤ 0x200A) || code == 0x2028 || code == 0x2029 ||
    code == 0x202F || code == 0x205F || code == 0x3000

/-- The characters that separate tokens inside a line. -/
def isSpacing (character : Char) : Bool :=
  character == ' ' || character == '\t' || character == '\r'

theorem isBlank_of_isSpacing {character : Char} (h : isSpacing character = true) :
    isBlank character = true := by
  simp only [isSpacing, Bool.or_eq_true, beq_iff_eq] at h
  rcases h with (rfl | rfl) | rfl <;> decide

/-- The characters a bare name may start with. -/
def isWordStart (character : Char) : Bool :=
  character.isAlpha || character == '_'

/-- The characters a bare name is made of. -/
def isWordPart (character : Char) : Bool :=
  character.isAlphanum || character == '_'

/-- The letters, by their numbers. -/
theorem isAlpha_iff {character : Char} : character.isAlpha = true ↔
    (65 ≤ character.toNat ∧ character.toNat ≤ 90) ∨
      97 ≤ character.toNat ∧ character.toNat ≤ 122 := by
  change (decide ('A'.val ≤ character.val ∧ character.val ≤ 'Z'.val) ||
    decide ('a'.val ≤ character.val) && decide (character.val ≤ 'z'.val)) = true ↔ _
  simp only [Bool.or_eq_true, Bool.and_eq_true, decide_eq_true_eq, UInt32.le_iff_toNat_le]
  rfl

theorem isBlank_of_isWordPart {character : Char} (h : isWordPart character = true) :
    isBlank character = false := by
  simp only [isWordPart, Bool.or_eq_true, beq_iff_eq] at h
  rcases h with halphanum | rfl
  · simp only [Char.isAlphanum, Char.isDigit, Bool.or_eq_true, isAlpha_iff, Bool.and_eq_true,
      decide_eq_true_eq, UInt32.le_iff_toNat_le] at halphanum
    change (65 ≤ character.toNat ∧ character.toNat ≤ 90 ∨
      97 ≤ character.toNat ∧ character.toNat ≤ 122) ∨
        48 ≤ character.toNat ∧ character.toNat ≤ 57 at halphanum
    simp only [isBlank, Bool.or_eq_false_iff, Bool.and_eq_false_iff, decide_eq_false_iff_not,
      beq_eq_false_iff_ne]
    omega
  · decide

/-- The characters up to the end of the line. -/
def line (characters : List Char) : List Char :=
  characters.takeWhile (· != '\n')

/-- A list of characters without the blank ones at its end. -/
def trimEnd (characters : List Char) : List Char :=
  (characters.reverse.dropWhile isBlank).reverse

end ConfLang.Text
