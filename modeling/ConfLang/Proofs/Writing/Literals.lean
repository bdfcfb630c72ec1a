import ConfLang.Proofs.Excerpt.Lexeme
import ConfLang.Proofs.Writing.Alone

/-!
# Numbers are scanned as they were written, but for infinite ones

An integer literal that is too large is reported and read as the largest integer, so every integer
that a scanner gives can be written again.  A literal with a point that is too large is not
reported: it is read as infinity, whose text is a name and not a number.  These literals, from
`2 ^ 1024 - 2 ^ 970` on, are the only ones that are not scanned again as they were read.

## Strategy

The text of a number is cut out of the source by its span, and begins with the digits that the
number was read from (`Numeral.takeWhile_text`).  What is too large is found by the scale of a
ratio: at the scales below the last one a rounded ratio is finite, at the scales above it none is,
and at the last one it depends on whether the units are rounded up to a power of two.
-/

namespace ConfLang

/-! ## Ratios that are too large -/

namespace Binary64

variable {numerator denominator : Nat}

theorem div_le_roundHalfEven (numerator denominator : Nat) :
    numerator / denominator ≤ roundHalfEven numerator denominator ∧
      roundHalfEven numerator denominator ≤ numerator / denominator + 1 := by
  unfold roundHalfEven
  simp only
  split
  · omega
  split <;> omega

/-- Above an odd number of units, what is half a unit above it or more is rounded up. -/
theorem lt_roundHalfEven_iff {units : Nat} (hodd : units % 2 = 1) (hpos : 0 < denominator) :
    units < roundHalfEven numerator denominator ↔
      (2 * units + 1) * denominator ≤ 2 * numerator := by
  have hparts := Nat.div_add_mod numerator denominator
  have hless := Nat.mod_lt numerator hpos
  obtain ⟨hlow, hhigh⟩ := div_le_roundHalfEven numerator denominator
  rw [Nat.add_mul, Nat.mul_assoc, Nat.one_mul]
  rcases Nat.lt_trichotomy (numerator / denominator) units with hbelow | hsame | habove
  · have hle : denominator * (numerator / denominator + 1) ≤ units * denominator := by
      rw [Nat.mul_comm units]
      exact Nat.mul_le_mul_left _ hbelow
    rw [Nat.mul_add, Nat.mul_one] at hle
    constructor <;> intro <;> omega
  · -- The number of units is the rounded one, or the next one if that is nearer or even.
    rw [← hsame, Nat.mul_comm _ denominator]
    unfold roundHalfEven
    simp only
    rw [← hsame] at hodd
    split
    · constructor <;> intro <;> omega
    split <;> (constructor <;> intro <;> omega)
  · have hle : denominator * (units + 1) ≤ denominator * (numerator / denominator) :=
      Nat.mul_le_mul_left _ habove
    rw [Nat.mul_add, Nat.mul_one, Nat.mul_comm _ units] at hle
    constructor <;> intro <;> omega

/-- The units of a scale, counted from the lowest scale on. -/
theorem roundHalfEven_scale (scale : Nat) :
    roundHalfEven (numerator <<< (1074 - scale)) (denominator <<< (scale - 1074)) =
      roundHalfEven (numerator <<< 1074) (denominator <<< scale) := by
  have hfactor : roundHalfEven (2 ^ min scale 1074 * numerator <<< (1074 - scale))
      (2 ^ min scale 1074 * denominator <<< (scale - 1074)) =
        roundHalfEven (numerator <<< (1074 - scale)) (denominator <<< (scale - 1074)) :=
    roundHalfEven_mul (Nat.two_pow_pos _)
  rw [← hfactor, Nat.mul_comm, Nat.mul_comm (2 ^ _), ← Nat.shiftLeft_eq, ← Nat.shiftLeft_eq,
    ← Nat.shiftLeft_add, ← Nat.shiftLeft_add]
  have hnumerator : 1074 - scale + min scale 1074 = 1074 := by omega
  have hdenominator : scale - 1074 + min scale 1074 = scale := by omega
  rw [hnumerator, hdenominator]

/-- The least ratio that is rounded to infinity, `2 ^ 1024 - 2 ^ 970`: half a unit above the largest
number. -/
def overflow : Nat := (2 ^ 54 - 1) <<< 970

theorem isInfinite_ofRatio (numerator denominator : Nat) :
    (ofRatio numerator denominator).isInfinite = true ↔
      2047 * scaleStep ≤ scaleOf numerator denominator * scaleStep +
        roundHalfEven (numerator <<< 1074) (denominator <<< scaleOf numerator denominator) := by
  rw [ofRatio, roundHalfEven_scale, isInfinite, magnitude, beq_iff_eq, UInt64.toNat_ofNat']
  generalize scaleOf numerator denominator * scaleStep + _ = bits
  unfold signBits infinityBits scaleStep
  omega

/-- At a scale above the lowest one, a ratio is as many units as a scale has, or more, but fewer than
its double. -/
theorem units_of_scaleOf (numerator denominator : Nat) :
    (numerator <<< 1074) / (denominator <<< scaleOf numerator denominator) < 2 * scaleStep ∧
      (0 < scaleOf numerator denominator → scaleStep ≤
        (numerator <<< 1074) / (denominator <<< scaleOf numerator denominator)) := by
  rw [Nat.shiftLeft_eq denominator, ← Nat.div_div_eq_div_mul]
  unfold scaleOf
  generalize (numerator <<< 1074) / denominator = units
  constructor
  · rw [Nat.div_lt_iff_lt_mul (Nat.two_pow_pos _)]
    calc units
      _ < 2 ^ (units.log2 + 1) := Nat.lt_log2_self
      _ ≤ 2 ^ (53 + (units.log2 - 52)) := Nat.pow_le_pow_right (by decide) (by omega)
      _ = 2 * scaleStep * 2 ^ (units.log2 - 52) := Nat.pow_add 2 53 _
  · intro hscale
    rw [Nat.le_div_iff_mul_le (Nat.two_pow_pos _)]
    have hne : units ≠ 0 := by
      rintro rfl
      cases hscale
    calc scaleStep * 2 ^ (units.log2 - 52)
      _ = 2 ^ (52 + (units.log2 - 52)) := (Nat.pow_add 2 52 _).symm
      _ = 2 ^ units.log2 := by rw [Nat.add_sub_cancel' (by omega)]
      _ ≤ units := Nat.log2_self_le hne

theorem two_mul_shiftLeft_le {first second : Nat} (h : first < second) (number : Nat) :
    2 * number <<< first ≤ number <<< second := by
  calc 2 * number <<< first
    _ = number <<< (first + 1) := (Nat.shiftLeft_succ ..).symm
    _ ≤ number <<< second := by
      rw [Nat.shiftLeft_eq, Nat.shiftLeft_eq]
      exact Nat.mul_le_mul_left _ (Nat.pow_le_pow_right (by decide) h)

/-- The least ratio that is too large, in units of the last scale. -/
theorem overflow_mul_le_iff : overflow * denominator ≤ numerator ↔
    (2 * (2 * scaleStep - 1) + 1) * denominator <<< 2045 ≤ 2 * numerator <<< 1074 := by
  have hmove (first second : Nat) : (2 ^ 54 - 1) * denominator <<< (first + second) =
      ((2 ^ 54 - 1) <<< first * denominator) <<< second := by
    rw [Nat.shiftLeft_eq, Nat.shiftLeft_eq, Nat.shiftLeft_eq, Nat.pow_add]
    ring
  have hcancel (shift : Nat) : overflow * denominator ≤ numerator ↔
      (overflow * denominator) <<< shift ≤ numerator <<< shift := by
    rw [Nat.shiftLeft_eq, Nat.shiftLeft_eq, Nat.mul_le_mul_right_iff (Nat.two_pow_pos _)]
  have hleft : (2 * (2 * scaleStep - 1) + 1) * denominator <<< 2045 =
      (overflow * denominator) <<< 1075 := hmove 970 1075
  have hright : 2 * numerator <<< 1074 = numerator <<< 1075 := (Nat.shiftLeft_succ ..).symm
  rw [hleft, hright]
  exact hcancel 1075

/-- Exactly the ratios from the least one that is too large on are rounded to infinity. -/
theorem isInfinite_ofRatio_iff (hpos : 0 < denominator) :
    (ofRatio numerator denominator).isInfinite = true ↔ overflow * denominator ≤ numerator := by
  rw [isInfinite_ofRatio, overflow_mul_le_iff]
  obtain ⟨hless, hmore⟩ := units_of_scaleOf numerator denominator
  obtain ⟨hlow, hhigh⟩ := div_le_roundHalfEven (numerator <<< 1074)
    (denominator <<< scaleOf numerator denominator)
  have hshift (scale : Nat) : 0 < denominator <<< scale := by
    rw [Nat.shiftLeft_eq]
    exact Nat.mul_pos hpos (Nat.two_pow_pos _)
  rcases Nat.lt_trichotomy (scaleOf numerator denominator) 2045 with hbelow | hlast | habove
  · -- Below the last scale even two steps more are too few.
    have hdouble := two_mul_shiftLeft_le hbelow denominator
    have hround : scaleOf numerator denominator * scaleStep + roundHalfEven (numerator <<< 1074)
        (denominator <<< scaleOf numerator denominator) < 2047 * scaleStep := by
      unfold scaleStep at *
      omega
    rw [Nat.div_lt_iff_lt_mul (hshift _)] at hless
    refine iff_of_false (Nat.not_le.mpr hround) (Nat.not_le.mpr ?_)
    unfold scaleStep at *
    omega
  · rw [hlast, ← lt_roundHalfEven_iff (by decide) (hshift _)]
    unfold scaleStep
    omega
  · have hdouble := two_mul_shiftLeft_le habove denominator
    have hsome := hmore (by omega)
    have hround : 2047 * scaleStep ≤ scaleOf numerator denominator * scaleStep + roundHalfEven
        (numerator <<< 1074) (denominator <<< scaleOf numerator denominator) := by
      unfold scaleStep at *
      omega
    rw [Nat.le_div_iff_mul_le (hshift _)] at hsome
    refine iff_of_true hround ?_
    unfold scaleStep at *
    omega

end Binary64

/-! ## The characters of a number -/

/-- Whether a token is a number. -/
def TokenKind.isNumber : TokenKind → Bool
  | integer _ | float _ => true
  | _ => false

/-- Whether a problem is that an integer is too large. -/
def Problem.isOutOfRange (problem : Problem) : Bool :=
  match problem.cause with
  | .integerOutOfRange _ => true
  | _ => false

/-- The digits that a text begins with. -/
def Text.leadingDigits (text : String) : List Char :=
  text.toList.takeWhile Char.isDigit

namespace Lexeme

variable {mode : LineMode} {first : Char} {rest : List Char} {kind : TokenKind}

namespace Numeral

theorem fractionOf_ne_nil {behind : List Char} (h : fractionOf behind ≠ []) : ∃ after,
    behind = '.' :: after ∧ fractionOf behind = after.takeWhile Char.isDigit := by
  unfold fractionOf at h ⊢
  split at h
  · exact ⟨_, rfl, rfl⟩
  · exact absurd rfl h

/-- A number is made of the characters that it was read from. -/
theorem text_isPrefix (first : Char) (rest : List Char) : (read first rest).text <+: first :: rest := by
  have hrest := @List.takeWhile_append_dropWhile _ Char.isDigit rest
  unfold text digits read
  simp only
  generalize rest.dropWhile Char.isDigit = behind at hrest ⊢
  by_cases hnone : fractionOf behind = []
  · rw [hnone]
    simp only [List.isEmpty_nil, if_true, List.cons_append]
    rw [List.cons_prefix_cons]
    refine ⟨rfl, ?_⟩
    conv_rhs => rw [← hrest]
    exact (List.prefix_append_right_inj _).mpr (List.takeWhile_prefix _)
  · obtain ⟨after, rfl, hfraction⟩ := fractionOf_ne_nil hnone
    have hafter := @List.takeWhile_append_dropWhile _ Char.isDigit after
    simp only [List.isEmpty_iff, hnone, if_false, List.drop_succ_cons, List.cons_append,
      List.append_assoc]
    rw [List.cons_prefix_cons]
    refine ⟨rfl, ?_⟩
    conv_rhs => rw [← hrest]
    refine (List.prefix_append_right_inj _).mpr (List.cons_prefix_cons.mpr ⟨rfl, ?_⟩)
    rw [hfraction, drop_length_takeWhile]
    conv_rhs => rw [← hafter]
    exact (List.prefix_append_right_inj _).mpr (List.takeWhile_prefix _)

/-- The characters of a number are those of its lexeme. -/
theorem text_eq_take (first : Char) (rest : List Char) :
    first :: rest.take (readNumber first rest).further = (read first rest).text := by
  have htake := List.prefix_iff_eq_take.mp (text_isPrefix first rest)
  have hpos : 0 < (read first rest).text.length := by
    rw [length_text, read, List.length_cons]
    omega
  obtain ⟨further, hfurther⟩ := Nat.exists_eq_succ_of_ne_zero hpos.ne'
  have hread : (readNumber first rest).further = further := by
    rw [readNumber, hfurther]
    rfl
  rw [htake, hfurther, hread]
  rfl

theorem isDigit_of_mem_whole (hfirst : first.isDigit = true) :
    ∀ digit ∈ (read first rest).whole, digit.isDigit = true :=
  List.forall_mem_cons.mpr ⟨hfirst, fun _ => List.mem_takeWhile_imp⟩

theorem isDigit_of_mem_fraction : ∀ digit ∈ (read first rest).fraction, digit.isDigit = true := by
  intro digit hmem
  obtain ⟨after, -, hfraction⟩ := fractionOf_ne_nil (List.ne_nil_of_mem hmem)
  rw [read] at hmem
  rw [hfraction] at hmem
  exact List.mem_takeWhile_imp hmem

/-- The letters behind a number begin where its digits end. -/
theorem tail_eq (first : Char) (rest : List Char) : ∃ after : List Char,
    (read first rest).tail = (after.dropWhile Char.isDigit).takeWhile Text.isWordPart := by
  unfold read
  simp only
  generalize hbehind : rest.dropWhile Char.isDigit = behind
  by_cases hnone : fractionOf behind = []
  · rw [hnone]
    exact ⟨rest, by rw [hbehind]; rfl⟩
  · obtain ⟨after, rfl, hfraction⟩ := fractionOf_ne_nil hnone
    refine ⟨after, ?_⟩
    rw [if_neg (by simpa using hnone), hfraction, List.drop_succ_cons, drop_length_takeWhile]

theorem isDigit_head_tail (first : Char) (rest : List Char) :
    ∀ letter ∈ (read first rest).tail.head?, letter.isDigit = false := by
  obtain ⟨after, htail⟩ := tail_eq first rest
  intro letter hmem
  rw [htail] at hmem
  obtain ⟨letters, hletters⟩ := List.head?_eq_some_iff.mp hmem
  have hbegin := List.takeWhile_prefix (l := after.dropWhile Char.isDigit) Text.isWordPart
  rw [hletters] at hbegin
  obtain ⟨behind, hbehind⟩ := hbegin
  exact head?_dropWhile_stop Char.isDigit after letter (by rw [← hbehind]; rfl)

theorem text_of_whole (numeral : Numeral) (h : numeral.fraction = []) :
    numeral.text = numeral.whole ++ numeral.tail := by
  rw [text, digits, h]
  rfl

theorem text_of_fraction (numeral : Numeral) (h : numeral.fraction ≠ []) :
    numeral.text = numeral.whole ++ '.' :: numeral.fraction ++ numeral.tail := by
  rw [text, digits, if_neg (by simpa using h)]

/-- No digit follows the whole part of a number. -/
theorem takeWhile_text (hfirst : first.isDigit = true) :
    (read first rest).text.takeWhile Char.isDigit = (read first rest).whole := by
  have hwhole : ∀ digit ∈ (read first rest).whole, digit.isDigit = true :=
    isDigit_of_mem_whole hfirst
  by_cases hnone : (read first rest).fraction = []
  · rw [text_of_whole _ hnone]
    exact (takeWhile_append_stop hwhole (isDigit_head_tail first rest)).1
  · rw [text_of_fraction _ hnone, List.append_assoc]
    exact (takeWhile_append_stop hwhole (by simp)).1

end Numeral

/-! ## The value of a number -/

/-- Only numbers begin with a digit. -/
theorem read_of_isNumber (h : (read mode first rest).kind = .token kind)
    (hnumber : kind.isNumber = true) :
    first.isDigit = true ∧ read mode first rest = readNumber first rest := by
  revert h
  refine read_cases (P := fun lexeme => lexeme.kind = .token kind →
    first.isDigit = true ∧ lexeme = readNumber first rest) ?spacing ?lineFeed ?comment ?quoted
    ?number ?word ?percent ?symbol
  case spacing | comment => rintro _ ⟨⟩
  case lineFeed =>
    intro _
    split
    · rintro ⟨⟩
      cases hnumber
    · rintro ⟨⟩
  case quoted =>
    intro quote _
    cases quote <;> (rintro ⟨⟩; cases hnumber)
  case number => exact fun hdigit _ => ⟨hdigit, rfl⟩
  case word =>
    intro _
    rcases readWord_cases first rest with ⟨_, _, hword⟩ | ⟨_, _, hword⟩ <;>
      (rw [hword]; rintro ⟨⟩; cases hnumber)
  case percent =>
    intro _
    split
    · rcases readDirective_cases rest with ⟨_, _, _, hdirective, hword⟩ | ⟨_, _, hword⟩
      · rw [hword]
        rintro ⟨⟩
        have hline := startsDirectiveLine_of_ofDirective? hdirective
        cases kind <;> simp [TokenKind.isNumber, TokenKind.startsDirectiveLine] at hnumber hline
      · rw [hword]
        rintro ⟨⟩
        cases hnumber
    · rintro ⟨⟩
  case symbol =>
    rcases readSymbol_cases first rest with ⟨_, _, hsign⟩ | ⟨_, hlone⟩ | ⟨_, hother⟩
    · rw [hsign]
      rintro ⟨⟩
      cases hnumber
    · rw [hlone]
      rintro ⟨⟩
    · rw [hother]
      rintro ⟨⟩

/-- The value of a number is that of its digits, or they are too many for an integer. -/
theorem Numeral.value_cases (numeral : Numeral) :
    (numeral.fraction = [] ∧ Nat.ofDigitChars 10 numeral.whole 0 ≤ maxInteger ∧
      numeral.value = (.integer (Int64.ofNat (Nat.ofDigitChars 10 numeral.whole 0)), [])) ∨
    (numeral.fraction = [] ∧ maxInteger < Nat.ofDigitChars 10 numeral.whole 0 ∧
      numeral.value = (.integer (Int64.ofNat maxInteger),
        [.integerOutOfRange (String.ofList numeral.whole)])) ∨
    (numeral.fraction ≠ [] ∧
      numeral.value = (.float (.ofDecimal (.ofDigits numeral.whole numeral.fraction)), [])) := by
  unfold value
  by_cases hnone : numeral.fraction = []
  · rw [hnone, List.isEmpty_nil, if_pos rfl]
    by_cases hrange : Nat.ofDigitChars 10 numeral.whole 0 ≤ maxInteger
    · exact .inl ⟨rfl, hrange, if_pos hrange⟩
    · exact .inr (.inl ⟨rfl, Nat.lt_of_not_le hrange, if_neg hrange⟩)
  · exact .inr (.inr ⟨hnone, if_neg (by simpa using hnone)⟩)

end Lexeme

/-! ## Numbers that are written again -/

/-- An integer without a sign is scanned as it was written. -/
theorem isScannedAs_integer {value : Int64} {span : Span} (hsign : 0 ≤ value) :
    IsScannedAs (Expression.source (.integer value span)) (.integer value) := by
  obtain ⟨hsome, hdigits, hrange, hvalue⟩ := toString_toInt hsign
  have hspells : Spells {} _ (toString value.toInt).toList [] :=
    Lexeme.spells_integer hsome hdigits hrange ⟨by simp, by simp⟩
  rw [hvalue] at hspells
  exact hspells.isScannedAs

/-- A floating-point number without a sign is scanned as it was written if and only if it is
finite. -/
theorem isScannedAs_float_iff {value : Binary64} {span : Span} (hsign : value.isNegative = false)
    (hnumber : value.isNaN = false) :
    IsScannedAs (Expression.source (.float value span)) (.float value) ↔ value.isInfinite = false := by
  constructor
  · intro h
    by_contra hinfinite
    rw [Bool.not_eq_false] at hinfinite
    have htext : Expression.source (.float value span) = "inf.0" := by
      have htext : value.text = "inf" := by
        rw [Binary64.text, hnumber, hsign, hinfinite]
        rfl
      change value.source = "inf.0"
      rw [Binary64.source, htext]
      decide
    -- What is read first is a name.
    rw [htext] at h
    have hname : (Cursor.ofSource "inf.0").next.token.kind = .name "inf" false := by decide +kernel
    have hfloat := h.next.1
    rw [hname] at hfloat
    cases hfloat
  · intro hfinite
    obtain ⟨whole, fraction, htext, hwhole, hfraction, hdigits, hvalue⟩ :=
      Binary64.source_eq hsign hnumber hfinite
    have hspells : Spells {} _ (whole ++ '.' :: fraction) [] :=
      Lexeme.spells_float hwhole hfraction hdigits ⟨by simp, by simp⟩
    rw [hvalue, ← htext] at hspells
    exact hspells.isScannedAs

/-! ## The main result -/

/-- What an integer token tells about the digits it begins with: their value, or that it is too
large, which was recorded exactly once. -/
def TellsValue (digits : List Char) (value : Int64) (span : Span) (problems : List Problem) : Prop :=
  if Nat.ofDigitChars 10 digits 0 < 2 ^ 63 then
    value.toInt = Nat.ofDigitChars 10 digits 0 ∧ problems.filter Problem.isOutOfRange = []
  else
    value = Int64.maxValue ∧ problems.filter Problem.isOutOfRange =
      [⟨.integerOutOfRange (String.ofList digits), span⟩]

/-- What is wrong with the characters of a number is not its range. -/
theorem Lexeme.Numeral.filter_malformed (numeral : Numeral) (piece : Piece) :
    (numeral.malformed.map fun cause => Problem.mk cause (piece.faultSpan cause)).filter
      Problem.isOutOfRange = [] := by
  unfold malformed
  split <;> rfl

variable {source : String} {requests : List Request} {token : Token}

/-- A number that a scanner gives is the one that its text was read as. -/
theorem Scanner.exists_numeral (hmem : token ∈ ((ofSource source).answers requests).1)
    (hnumber : token.kind.isNumber = true) :
    ∃ first rest, first.isDigit = true ∧
      (Lexeme.readNumber first rest).kind = .token token.kind ∧
      (token.span.textIn source).toList = (Lexeme.Numeral.read first rest).text ∧
      ((ofSource source).answers requests).2.problemsIn token.span =
        Piece.problems ⟨.token token.kind, token.span, (Lexeme.readNumber first rest).faults⟩ := by
  have hscanned : token.kind.isScanned = true := by
    cases hkind : token.kind <;> simp [hkind, TokenKind.isNumber] at hnumber <;> rfl
  obtain ⟨mode, first, rest, hread, htext, hproblems⟩ := exists_lexeme hmem hscanned
  obtain ⟨hfirst, hdigits⟩ := Lexeme.read_of_isNumber hread hnumber
  rw [hdigits] at hread htext hproblems
  refine ⟨first, rest, hfirst, hread, ?_, hproblems⟩
  rw [htext, String.toList_ofList, Lexeme.Numeral.text_eq_take]

theorem tellsValue_of_answers {value : Int64}
    (hmem : token ∈ ((Scanner.ofSource source).answers requests).1)
    (hkind : token.kind = .integer value) :
    TellsValue (Text.leadingDigits (token.span.textIn source)) value token.span
        (((Scanner.ofSource source).answers requests).2.problemsIn token.span) ∧
      0 ≤ value := by
  obtain ⟨first, rest, hfirst, hread, htext, hproblems⟩ :=
    Scanner.exists_numeral hmem (by rw [hkind]; rfl)
  rw [hkind] at hread
  refine ⟨?_, Lexeme.writable_number first rest hread⟩
  have hfound : (Lexeme.Numeral.read first rest).value.1 = .integer value :=
    LexemeKind.token.inj hread
  have hfaults : (Lexeme.readNumber first rest).faults = (Lexeme.Numeral.read first rest).malformed ++
      (Lexeme.Numeral.read first rest).value.2 := rfl
  rw [hproblems, hfaults, Text.leadingDigits, htext, Lexeme.Numeral.takeWhile_text hfirst,
    TellsValue, Piece.problems, List.map_append, List.filter_append,
    Lexeme.Numeral.filter_malformed, List.nil_append]
  rcases (Lexeme.Numeral.read first rest).value_cases with
    ⟨-, hrange, hvalue⟩ | ⟨-, hrange, hvalue⟩ | ⟨-, hvalue⟩
  · rw [hvalue] at hfound ⊢
    have hless : Nat.ofDigitChars 10 (Lexeme.Numeral.read first rest).whole 0 < 2 ^ 63 :=
      Nat.lt_succ_of_le hrange
    rw [if_pos hless, ← TokenKind.integer.inj hfound]
    exact ⟨Int64.toInt_ofNat_of_lt hless, rfl⟩
  · rw [hvalue] at hfound ⊢
    have hmore : ¬Nat.ofDigitChars 10 (Lexeme.Numeral.read first rest).whole 0 < 2 ^ 63 :=
      Nat.not_lt.mpr hrange
    rw [if_neg hmore, ← TokenKind.integer.inj hfound]
    exact ⟨by decide, rfl⟩
  · rw [hvalue] at hfound
    cases hfound

theorem float_of_answers {value : Binary64}
    (hmem : token ∈ ((Scanner.ofSource source).answers requests).1)
    (hkind : token.kind = .float value) :
    (∃ whole fraction letters : List Char,
      (token.span.textIn source).toList = whole ++ '.' :: fraction ++ letters ∧
      (∀ digit ∈ whole ++ fraction, digit.isDigit = true) ∧
      (∀ letter ∈ letters.head?, letter.isDigit = false) ∧
      value = .ofDecimal (.ofDigits whole fraction)) ∧
    (((Scanner.ofSource source).answers requests).2.problemsIn token.span).filter
      Problem.isOutOfRange = [] := by
  obtain ⟨first, rest, hfirst, hread, htext, hproblems⟩ :=
    Scanner.exists_numeral hmem (by rw [hkind]; rfl)
  have hfound : (Lexeme.Numeral.read first rest).value.1 = .float value := by
    rw [← hkind]
    exact LexemeKind.token.inj hread
  have hfaults : (Lexeme.readNumber first rest).faults = (Lexeme.Numeral.read first rest).malformed ++
      (Lexeme.Numeral.read first rest).value.2 := rfl
  rw [hproblems, hfaults, Piece.problems, List.map_append, List.filter_append,
    Lexeme.Numeral.filter_malformed, List.nil_append]
  rcases (Lexeme.Numeral.read first rest).value_cases with
    ⟨-, -, hvalue⟩ | ⟨-, -, hvalue⟩ | ⟨hfraction, hvalue⟩
  · rw [hvalue] at hfound
    cases hfound
  · rw [hvalue] at hfound
    cases hfound
  · rw [hvalue] at hfound ⊢
    refine ⟨⟨_, _, _, htext.trans (Lexeme.Numeral.text_of_fraction _ hfraction), ?_,
      Lexeme.Numeral.isDigit_head_tail first rest, (TokenKind.float.inj hfound).symm⟩, rfl⟩
    exact List.forall_mem_append.mpr
      ⟨Lexeme.Numeral.isDigit_of_mem_whole hfirst, Lexeme.Numeral.isDigit_of_mem_fraction⟩

/-- Digits around a point stand for infinity from the least ratio on that is too large. -/
theorem isInfinite_ofDigits_iff (whole fraction : List Char) :
    (Binary64.ofDecimal (.ofDigits whole fraction)).isInfinite = true ↔
      Binary64.overflow * 10 ^ fraction.length ≤ Nat.ofDigitChars 10 (whole ++ fraction) 0 := by
  have hdenominator : (Decimal.ofDigits whole fraction).denominator = 10 ^ fraction.length := by
    change Nat.pow 10 (- -(fraction.length : Int)).toNat = _
    rw [neg_neg, Int.toNat_natCast]
    rfl
  have hnumerator : (Decimal.ofDigits whole fraction).numerator =
      Nat.ofDigitChars 10 (whole ++ fraction) 0 := by
    change Nat.ofDigitChars 10 (whole ++ fraction) 0 * Nat.pow 10 (-(fraction.length : Int)).toNat = _
    have hnone : (-(fraction.length : Int)).toNat = 0 := by omega
    rw [hnone]
    exact Nat.mul_one _
  rw [Binary64.ofDecimal, Binary64.isInfinite_ofRatio_iff (Decimal.denominator_pos _), hdenominator,
    hnumerator]

/-- **Only infinite numbers are lost.**  An integer that a scanner gives is the value of the digits
that its text begins with, or the largest integer if that value is `2 ^ 63` or more; this, and
only this, is recorded as out of range, exactly once and at the span of the token.  A
floating-point number is the decimal number of its digits, rounded, and never recorded as out of
range.  Every integer is scanned again as it is written, and so is every floating-point number but
the infinite ones, which the decimal numbers from `2 ^ 1024 - 2 ^ 970` on are rounded to. -/
theorem numbers_scanned (source : String) (requests : List Request) (token : Token)
    (hmem : token ∈ ((Scanner.ofSource source).answers requests).1) :
    (∀ value, token.kind = .integer value →
      TellsValue (Text.leadingDigits (token.span.textIn source)) value token.span
          (((Scanner.ofSource source).answers requests).2.problemsIn token.span) ∧
        IsScannedAs (Expression.source (.integer value token.span)) token.kind) ∧
    ∀ value, token.kind = .float value →
      (∃ whole fraction letters : List Char,
        (token.span.textIn source).toList = whole ++ '.' :: fraction ++ letters ∧
        (∀ digit ∈ whole ++ fraction, digit.isDigit = true) ∧
        (∀ letter ∈ letters.head?, letter.isDigit = false) ∧
        value = .ofDecimal (.ofDigits whole fraction) ∧
        (value.isInfinite = true ↔ Binary64.overflow * 10 ^ fraction.length ≤
          Nat.ofDigitChars 10 (whole ++ fraction) 0)) ∧
      (((Scanner.ofSource source).answers requests).2.problemsIn token.span).filter
        Problem.isOutOfRange = [] ∧
      (IsScannedAs (Expression.source (.float value token.span)) token.kind ↔
        value.isInfinite = false) := by
  constructor
  · intro value hkind
    obtain ⟨hvalue, hsign⟩ := tellsValue_of_answers hmem hkind
    rw [hkind]
    exact ⟨hvalue, isScannedAs_integer hsign⟩
  · intro value hkind
    obtain ⟨⟨whole, fraction, letters, htext, hdigits, hletters, hvalue⟩, hrange⟩ :=
      float_of_answers hmem hkind
    obtain ⟨hsign, hnumber⟩ := Binary64.ofDecimal_isNegative (.ofDigits whole fraction)
    rw [← hvalue] at hsign hnumber
    refine ⟨⟨whole, fraction, letters, htext, hdigits, hletters, hvalue, ?_⟩, hrange, ?_⟩
    · rw [hvalue, isInfinite_ofDigits_iff]
    · rw [hkind]
      exact isScannedAs_float_iff hsign hnumber

/-- A number with 310 digits in front of its point is read without a problem, and lost when it is
written. -/
theorem exists_lost_number : ∃ source token value,
    token ∈ ((Scanner.ofSource source).answers [.next]).1 ∧ token.kind = .float value ∧
      ((Scanner.ofSource source).answers [.next]).2.problems = #[] ∧
      ¬IsScannedAs (Expression.source (.float value token.span)) token.kind := by
  have hdigits : ∀ digit ∈ ('1' :: List.replicate 309 '0') ++ ['0'], digit.isDigit = true := by
    intro digit hmem
    rcases List.mem_append.mp hmem with hwhole | hfraction
    · rcases List.mem_cons.mp hwhole with rfl | hzero
      · rfl
      · rw [List.eq_of_mem_replicate hzero]
        rfl
    · rw [List.mem_singleton.mp hfraction]
      rfl
  have hspells : Spells {} _ ('1' :: List.replicate 309 '0' ++ ['.', '0']) [] :=
    Lexeme.spells_float (List.cons_ne_nil _ _) (List.cons_ne_nil _ _) hdigits ⟨by simp, by simp⟩
  rw [← String.toList_ofList (l := '1' :: List.replicate 309 '0' ++ ['.', '0'])] at hspells
  obtain ⟨hkind, hproblems⟩ := hspells.isScannedAs.next
  refine ⟨_, _, _, List.mem_singleton_self _, hkind, ?_, fun hagain => ?_⟩
  · change #[] ++ (Cursor.next (.ofSource _)).problems = #[]
    rw [hproblems]
    rfl
  · have hfinite :=
      ((numbers_scanned _ [.next] _ (List.mem_singleton_self _)).2 _ hkind).2.2.mp hagain
    rw [← Bool.not_eq_true, isInfinite_ofDigits_iff] at hfinite
    exact hfinite (by decide +kernel)

end ConfLang
