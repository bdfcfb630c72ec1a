import ConfLang.Token.Lexeme
import ConfLang.Tree.Source
import Mathlib.Data.List.TakeWhile
import Mathlib.Tactic.Ring

/-!
# Numbers are written and read back

The text of a number stands for that number.  For an integer these are its digits.  For a finite
floating-point number it is the positional form of a decimal number that is rounded to the number,
and rounding looks at nothing but the ratio that a decimal number stands for.

That the shortest decimal number reads back is tried when it is looked for; where nothing else
was found it is the exact value of the number, which is rounded to the number itself.
-/

namespace ConfLang

/-! ## Rounding a ratio -/

namespace Binary64

variable {numerator denominator numerator' denominator' factor : Nat}

theorem scaleOf_mul (hfactor : 0 < factor) :
    scaleOf (factor * numerator) (factor * denominator) = scaleOf numerator denominator := by
  rw [scaleOf, scaleOf, Nat.shiftLeft_eq, Nat.shiftLeft_eq, Nat.mul_assoc,
    Nat.mul_div_mul_left _ _ hfactor]

theorem roundHalfEven_mul (hfactor : 0 < factor) :
    roundHalfEven (factor * numerator) (factor * denominator) =
      roundHalfEven numerator denominator := by
  have hless (a b : Nat) : 2 * (factor * a) < factor * b ↔ 2 * a < b := by
    rw [Nat.mul_left_comm, Nat.mul_lt_mul_left hfactor]
  have hmore (a b : Nat) : factor * a < 2 * (factor * b) ↔ a < 2 * b := by
    rw [Nat.mul_left_comm, Nat.mul_lt_mul_left hfactor]
  simp only [roundHalfEven, Nat.mul_div_mul_left _ _ hfactor, Nat.mul_mod_mul_left, hless, hmore]

theorem ofRatio_mul (hfactor : 0 < factor) :
    ofRatio (factor * numerator) (factor * denominator) = ofRatio numerator denominator := by
  simp only [ofRatio, scaleOf_mul hfactor, Nat.shiftLeft_eq, Nat.mul_assoc,
    roundHalfEven_mul hfactor]

/-- Rounding looks only at the ratio. -/
theorem ofRatio_eq_of_cross (hpos : 0 < denominator) (hpos' : 0 < denominator')
    (h : numerator * denominator' = numerator' * denominator) :
    ofRatio numerator denominator = ofRatio numerator' denominator' := by
  calc ofRatio numerator denominator
    _ = ofRatio (denominator' * numerator) (denominator' * denominator) := (ofRatio_mul hpos').symm
    _ = ofRatio (denominator * numerator') (denominator * denominator') := by
      rw [Nat.mul_comm denominator', h, Nat.mul_comm numerator', Nat.mul_comm denominator']
    _ = ofRatio numerator' denominator' := ofRatio_mul hpos

/-- A whole number of units is rounded to itself. -/
theorem roundHalfEven_mul_self (units : Nat) (hpos : 0 < denominator) :
    roundHalfEven (units * denominator) denominator = units := by
  rw [roundHalfEven, Nat.mul_div_cancel _ hpos, Nat.mul_mod_left]
  exact if_pos hpos

/-! ## Exact values -/

variable {number : Binary64}

theorem magnitude_eq (number : Binary64) :
    number.magnitude = number.scale * scaleStep + number.significand := by
  have hle : number.scale * scaleStep ≤ number.magnitude := by
    unfold scale scaleStep
    omega
  rw [significand]
  omega

theorem significand_lt (number : Binary64) : number.significand < 2 * scaleStep := by
  unfold significand scale scaleStep
  omega

theorem scaleStep_le_significand (h : 0 < number.scale) : scaleStep ≤ number.significand := by
  unfold significand
  unfold scale scaleStep at h ⊢
  omega

theorem shiftLeft_div_shiftLeft (significand scale bias : Nat) :
    (significand <<< (scale - bias) <<< bias) / (1 <<< (bias - scale)) = significand * 2 ^ scale := by
  have hpow : 2 ^ (scale - bias) * 2 ^ bias = 2 ^ scale * 2 ^ (bias - scale) := by
    rw [← Nat.pow_add, ← Nat.pow_add]
    congr 1
    omega
  rw [Nat.shiftLeft_eq, Nat.shiftLeft_eq, Nat.shiftLeft_eq, Nat.one_mul, Nat.mul_assoc, hpow,
    ← Nat.mul_assoc, Nat.mul_div_cancel _ (Nat.two_pow_pos _)]

theorem scaleOf_self (number : Binary64) :
    scaleOf number.numerator number.denominator = number.scale := by
  have hunits : (number.numerator <<< 1074) / number.denominator =
      number.significand * 2 ^ number.scale :=
    shiftLeft_div_shiftLeft _ _ _
  rw [scaleOf, hunits]
  have hless := number.significand_lt
  by_cases hscale : 0 < number.scale
  · -- The significand has 53 bits, so the scale can be read off the length of the whole.
    have hle := scaleStep_le_significand hscale
    have hne : number.significand * 2 ^ number.scale ≠ 0 :=
      Nat.mul_ne_zero (by unfold scaleStep at hle; omega) (Nat.two_pow_pos _).ne'
    have hlog : (number.significand * 2 ^ number.scale).log2 = 52 + number.scale := by
      rw [Nat.log2_eq_iff hne, Nat.pow_add, Nat.add_right_comm, Nat.pow_add]
      exact ⟨Nat.mul_le_mul_right _ hle, Nat.mul_lt_mul_of_pos_right hless (Nat.two_pow_pos _)⟩
    rw [hlog, Nat.add_sub_cancel_left]
  · obtain hzero : number.scale = 0 := Nat.eq_zero_of_not_pos hscale
    rw [hzero, Nat.pow_zero, Nat.mul_one]
    -- A number of the lowest scale has fewer bits, if any.
    by_cases hnone : number.significand = 0
    · rw [hnone]
      rfl
    · have hlog := (Nat.log2_lt hnone).mpr (show number.significand < 2 ^ 53 from hless)
      omega

theorem roundHalfEven_shiftLeft (significand up down : Nat) :
    roundHalfEven (significand <<< up <<< down) (1 <<< down <<< up) = significand := by
  rw [Nat.shiftLeft_eq, Nat.shiftLeft_eq, Nat.shiftLeft_eq, Nat.shiftLeft_eq, Nat.one_mul,
    Nat.mul_assoc, Nat.mul_comm (2 ^ up)]
  exact roundHalfEven_mul_self _ (Nat.mul_pos (Nat.two_pow_pos _) (Nat.two_pow_pos _))

/-- The exact value of a finite number is rounded to the number. -/
theorem ofRatio_self (hfinite : number.magnitude < infinityBits) :
    (ofRatio number.numerator number.denominator).bits = UInt64.ofNat number.magnitude := by
  have hround : roundHalfEven (number.numerator <<< (1074 - number.scale))
      (number.denominator <<< (number.scale - 1074)) = number.significand :=
    roundHalfEven_shiftLeft _ _ _
  simp only [ofRatio, scaleOf_self, hround, ← magnitude_eq]
  rw [Nat.min_eq_left hfinite.le]

end Binary64

/-! ## Digits of a decimal number -/

namespace Decimal

variable {decimal : Decimal}

theorem denominator_pos (decimal : Decimal) : 0 < decimal.denominator :=
  Nat.pow_pos (by decide)

theorem all_isDigit_toDigits (number : Nat) :
    ∀ digit ∈ Nat.toDigits 10 number, digit.isDigit = true :=
  fun _ h => Nat.isDigit_of_mem_toDigits (by decide) (by decide) h

/-- The digits behind the point, before the zeros at their end are dropped. -/
def paddedDigits (decimal : Decimal) : List Char :=
  let digits := Nat.toDigits 10 (decimal.numerator % decimal.denominator)
  List.replicate (decimal.places - digits.length) '0' ++ digits

theorem paddedDigits_eq (decimal : Decimal) :
    ∃ zeros, decimal.paddedDigits = decimal.fractionDigits ++ List.replicate zeros '0' := by
  refine ⟨(decimal.paddedDigits.reverse.takeWhile (· == '0')).length, ?_⟩
  -- Zeros are dropped from the end, which is the beginning of the reversed digits.
  have hzeros : decimal.paddedDigits.reverse.takeWhile (· == '0') =
      List.replicate (decimal.paddedDigits.reverse.takeWhile (· == '0')).length '0' :=
    List.eq_replicate_iff.mpr ⟨rfl, fun digit h => by simpa using List.mem_takeWhile_imp h⟩
  have hsplit := congrArg List.reverse
    (List.takeWhile_append_dropWhile (p := (· == '0')) (l := decimal.paddedDigits.reverse))
  rw [List.reverse_append, List.reverse_reverse, hzeros,
    List.reverse_replicate] at hsplit
  exact hsplit.symm

theorem all_isDigit_wholeDigits (decimal : Decimal) :
    ∀ digit ∈ decimal.wholeDigits, digit.isDigit = true :=
  all_isDigit_toDigits _

theorem all_isDigit_fractionDigits (decimal : Decimal) :
    ∀ digit ∈ decimal.fractionDigits, digit.isDigit = true := by
  obtain ⟨zeros, hpadded⟩ := decimal.paddedDigits_eq
  intro digit hdigit
  have hmem : digit ∈ decimal.paddedDigits := by
    rw [hpadded]
    exact List.mem_append_left _ hdigit
  rcases List.mem_append.mp hmem with hzero | hrest
  · rw [List.eq_of_mem_replicate hzero]
    rfl
  · exact all_isDigit_toDigits _ digit hrest

theorem ofDigitChars_paddedDigits (decimal : Decimal) :
    Nat.ofDigitChars 10 decimal.paddedDigits 0 = decimal.numerator % decimal.denominator := by
  rw [paddedDigits, Nat.ofDigitChars_append, Nat.ofDigitChars_replicate_zero, Nat.mul_zero,
    Nat.ofDigitChars_toDigits (by decide) (by decide)]

theorem length_paddedDigits (hplaces : 0 < decimal.places) :
    decimal.paddedDigits.length = decimal.places := by
  have hless : decimal.numerator % decimal.denominator < 10 ^ decimal.places :=
    Nat.mod_lt _ decimal.denominator_pos
  have hlength := (Nat.length_toDigits_le_iff (by decide) hplaces).mpr hless
  rw [paddedDigits, List.length_append, List.length_replicate]
  omega

/-- The digits behind the point stand for the remainder. -/
theorem ofDigitChars_fractionDigits (decimal : Decimal) :
    Nat.ofDigitChars 10 decimal.fractionDigits 0 * decimal.denominator =
      decimal.numerator % decimal.denominator * 10 ^ decimal.fractionDigits.length := by
  obtain ⟨zeros, hpadded⟩ := decimal.paddedDigits_eq
  have hvalue := decimal.ofDigitChars_paddedDigits
  rw [hpadded, Nat.ofDigitChars_append, Nat.ofDigitChars_replicate_zero] at hvalue
  rw [← hvalue]
  by_cases hplaces : 0 < decimal.places
  · have hlength := length_paddedDigits hplaces
    rw [hpadded, List.length_append, List.length_replicate] at hlength
    have hdenominator : decimal.denominator = 10 ^ decimal.fractionDigits.length * 10 ^ zeros := by
      rw [← Nat.pow_add, hlength]
      rfl
    rw [hdenominator]
    ring
  · -- Without digits behind the point there is no remainder.
    have hdenominator : decimal.denominator = 1 := by
      rw [denominator, Nat.eq_zero_of_not_pos hplaces]
    rw [hdenominator, Nat.mod_one] at hvalue
    have hzero : Nat.ofDigitChars 10 decimal.fractionDigits 0 = 0 :=
      (Nat.mul_eq_zero.mp hvalue).resolve_left (Nat.pow_pos (by decide)).ne'
    rw [hzero, Nat.mul_zero, Nat.zero_mul, Nat.zero_mul]

/-- The digits of a decimal number stand for its value. -/
theorem ofDigitChars_digits (decimal : Decimal) :
    Nat.ofDigitChars 10 (decimal.wholeDigits ++ decimal.fractionDigits) 0 * decimal.denominator =
      decimal.numerator * 10 ^ decimal.fractionDigits.length := by
  have hwhole : Nat.ofDigitChars 10 decimal.wholeDigits 0 =
      decimal.numerator / decimal.denominator :=
    Nat.ofDigitChars_toDigits (by decide) (by decide)
  have hfraction := decimal.ofDigitChars_fractionDigits
  have hdivision := Nat.div_add_mod decimal.numerator decimal.denominator
  rw [Nat.ofDigitChars_append, hwhole, Nat.ofDigitChars_eq_ofDigitChars_zero]
  generalize Nat.ofDigitChars 10 decimal.fractionDigits 0 = fraction at hfraction ⊢
  calc (10 ^ decimal.fractionDigits.length * (decimal.numerator / decimal.denominator) + fraction) *
        decimal.denominator
      = 10 ^ decimal.fractionDigits.length *
          (decimal.denominator * (decimal.numerator / decimal.denominator)) +
          fraction * decimal.denominator := by ring
    _ = 10 ^ decimal.fractionDigits.length *
          (decimal.denominator * (decimal.numerator / decimal.denominator) +
            decimal.numerator % decimal.denominator) := by
        rw [hfraction]
        ring
    _ = decimal.numerator * 10 ^ decimal.fractionDigits.length := by
        rw [hdivision, Nat.mul_comm]

/-- The digits of a decimal number are read as that number, and so they are with a zero behind
them. -/
theorem ofDecimal_ofDigits (decimal : Decimal) (zeros : Nat) :
    Binary64.ofDecimal (.ofDigits decimal.wholeDigits
      (decimal.fractionDigits ++ List.replicate zeros '0')) = Binary64.ofDecimal decimal := by
  refine Binary64.ofRatio_eq_of_cross (denominator_pos _) decimal.denominator_pos ?_
  have hdigits := decimal.ofDigitChars_digits
  have hplaces (fraction : List Char) :
      (ofDigits decimal.wholeDigits fraction).denominator = 10 ^ fraction.length := by
    rw [denominator, places, ofDigits, Int.neg_neg, Int.toNat_natCast]
    rfl
  have hnumerator (fraction : List Char) : (ofDigits decimal.wholeDigits fraction).numerator =
      Nat.ofDigitChars 10 (decimal.wholeDigits ++ fraction) 0 := by
    rw [numerator, ofDigits, Int.toNat_neg_natCast]
    exact Nat.mul_one _
  rw [hplaces, hnumerator, ← List.append_assoc, Nat.ofDigitChars_append,
    Nat.ofDigitChars_replicate_zero, List.length_append, List.length_replicate, Nat.pow_add,
    Nat.mul_assoc, hdigits]
  ring

end Decimal

/-! ## The text of a number -/

namespace Binary64

variable {number : Binary64}

theorem bits_ofRatio_le (numerator denominator : Nat) :
    (ofRatio numerator denominator).bits.toNat ≤ infinityBits := by
  rw [ofRatio, UInt64.toNat_ofNat']
  exact Nat.le_trans (Nat.mod_le _ _) (Nat.min_le_right _ _)

/-- What is read as a number has no sign, and stands for a number. -/
theorem ofDecimal_isNegative (decimal : Decimal) :
    (ofDecimal decimal).isNegative = false ∧ (ofDecimal decimal).isNaN = false := by
  have hle := bits_ofRatio_le decimal.numerator decimal.denominator
  unfold isNegative isNaN magnitude ofDecimal
  unfold infinityBits at hle ⊢
  unfold signBits
  constructor
  · exact decide_eq_false (by omega)
  · exact decide_eq_false (by omega)

theorem readsBack_exact (hfinite : number.magnitude < infinityBits) :
    number.readsBack number.exact = true := by
  have hvalue : ofDecimal number.exact = ofRatio number.numerator number.denominator := by
    refine ofRatio_eq_of_cross (Decimal.denominator_pos _) ?_ ?_
    · rw [denominator, Nat.shiftLeft_eq, Nat.one_mul]
      exact Nat.two_pow_pos _
    · have hexponent : number.exact.exponent = (number.scale : Int) - max 1074 number.scale := rfl
      have hplaces : number.exact.places = 1074 - number.scale := by
        rw [Decimal.places, hexponent]
        omega
      have hnone : number.exact.exponent.toNat = 0 := by
        rw [hexponent]
        omega
      rw [Decimal.numerator, hnone, Decimal.denominator, hplaces, exact, denominator,
        Nat.shiftLeft_eq, Nat.one_mul]
      generalize 1074 - number.scale = places
      change number.numerator * 5 ^ places * 10 ^ 0 * 2 ^ places = number.numerator * 10 ^ places
      rw [Nat.pow_zero, Nat.mul_one, Nat.mul_assoc, ← Nat.mul_pow]
  rw [readsBack, hvalue, beq_iff_eq, magnitude, ofRatio_self hfinite, UInt64.toNat_ofNat']
  unfold infinityBits at hfinite
  unfold signBits
  omega

theorem readsBack_shortest (hfinite : number.magnitude < infinityBits) :
    number.readsBack number.shortest = true := by
  unfold shortest
  split
  · rename_i hzero
    rw [readsBack, hzero]
    decide
  · simp only
    generalize (List.range 17).flatMap _ = candidates
    -- What is found reads back because that was tested.
    cases hfound : candidates.find? number.readsBack with
    | none => exact readsBack_exact hfinite
    | some decimal => exact List.find?_some hfound

theorem ofDecimal_shortest (hsign : number.isNegative = false)
    (hfinite : number.magnitude < infinityBits) : ofDecimal number.shortest = number := by
  have hmagnitude : (ofDecimal number.shortest).magnitude = number.magnitude := by
    simpa [readsBack] using readsBack_shortest hfinite
  have hbits := bits_ofRatio_le number.shortest.numerator number.shortest.denominator
  have hsame : (ofDecimal number.shortest).bits.toNat = number.bits.toNat := by
    unfold isNegative signBits at hsign
    unfold magnitude signBits ofDecimal at hmagnitude
    unfold infinityBits at hbits
    rw [decide_eq_false_iff_not] at hsign
    unfold ofDecimal
    omega
  obtain ⟨bits⟩ := number
  exact congrArg mk (UInt64.toNat_inj.mp hsame)

/-- A finite number without a sign is written as digits around a point, which are read as that
number. -/
theorem source_eq (hsign : number.isNegative = false) (hnumber : number.isNaN = false)
    (hfinite : number.isInfinite = false) :
    ∃ whole fraction : List Char, number.source.toList = whole ++ '.' :: fraction ∧
      whole ≠ [] ∧ fraction ≠ [] ∧ (∀ digit ∈ whole ++ fraction, digit.isDigit = true) ∧
      ofDecimal (.ofDigits whole fraction) = number := by
  have hless : number.magnitude < infinityBits := by
    rw [isNaN, decide_eq_false_iff_not] at hnumber
    rw [isInfinite, beq_eq_false_iff_ne] at hfinite
    omega
  have htext : number.text = number.shortest.positional := by
    rw [text, hnumber, hsign, hfinite]
    exact String.empty_append
  have hwhole := number.shortest.all_isDigit_wholeDigits
  have hfraction := number.shortest.all_isDigit_fractionDigits
  have hvalue := ofDecimal_shortest hsign hless
  have hpoint : '.' ∉ number.shortest.wholeDigits := by
    intro hmem
    exact absurd (hwhole _ hmem) (by decide)
  rw [source, htext, Decimal.positional]
  cases hdigits : number.shortest.fractionDigits with
  | nil =>
      -- A whole number is written with a zero behind the point.
      have hone := number.shortest.ofDecimal_ofDigits 1
      rw [hdigits] at hone
      refine ⟨number.shortest.wholeDigits, ['0'], ?_, Nat.toDigits_ne_nil, List.cons_ne_nil _ _, ?_,
        hone.trans hvalue⟩
      · simp [hpoint]
      · intro digit hdigit
        rcases List.mem_append.mp hdigit with hmem | hmem
        · exact hwhole digit hmem
        · rw [List.mem_singleton.mp hmem]
          rfl
  | cons first rest =>
      have hnone := number.shortest.ofDecimal_ofDigits 0
      rw [List.replicate_zero, List.append_nil, hdigits] at hnone
      refine ⟨number.shortest.wholeDigits, first :: rest, ?_, Nat.toDigits_ne_nil,
        List.cons_ne_nil _ _, ?_, hnone.trans hvalue⟩
      · simp
      · rw [← hdigits]
        intro digit hdigit
        exact (List.mem_append.mp hdigit).elim (hwhole digit) (hfraction digit)

end Binary64

/-! ## Integers -/

/-- An integer without a sign is written as digits, which are read as that integer. -/
theorem toString_toInt {value : Int64} (hsign : 0 ≤ value) :
    (toString value.toInt).toList ≠ [] ∧
      (∀ digit ∈ (toString value.toInt).toList, digit.isDigit = true) ∧
      Nat.ofDigitChars 10 (toString value.toInt).toList 0 ≤ Lexeme.maxInteger ∧
      Int64.ofNat (Nat.ofDigitChars 10 (toString value.toInt).toList 0) = value := by
  have hpos : 0 ≤ value.toInt := Int64.le_iff_toInt_le.mp hsign
  obtain ⟨number, hnumber⟩ := Int.eq_ofNat_of_zero_le hpos
  have htext : (toString value.toInt).toList = Nat.toDigits 10 number := by
    rw [hnumber]
    exact Nat.toList_repr
  rw [htext, Nat.ofDigitChars_ten_toDigits]
  refine ⟨Nat.toDigits_ne_nil, Decimal.all_isDigit_toDigits number, ?_, ?_⟩
  · have := value.toInt_lt
    unfold Lexeme.maxInteger
    omega
  · rw [← Int64.ofInt_eq_ofNat, ← hnumber]
    exact Int64.ofInt_toInt value

end ConfLang
