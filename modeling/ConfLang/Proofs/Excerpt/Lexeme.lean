import ConfLang.Proofs.Scanning.Modes

/-!
# Lexemes at the end of an excerpt

A lexeme is read from its own characters and from what comes behind them, but what comes behind
only tells that the lexeme is over.  The end of the text tells that as well: a text that is cut
off behind a lexeme, or further on, begins with the same lexeme.

At the other end of an excerpt, a token is read in the same way at the beginning of a line as at
the place where it was found, if that is not on the line of a directive.
-/

namespace ConfLang

variable {rest tail : List Char}

/-! ## Parts of a line -/

theorem takeWhile_excerpt {p : Char → Bool}
    (h : ((rest ++ tail).takeWhile p).length ≤ rest.length) :
    (rest ++ tail).takeWhile p = rest.takeWhile p := by
  rw [List.takeWhile_append] at h ⊢
  split
  · rename_i hwhole
    rw [if_pos hwhole, List.length_append] at h
    have hnone : tail.takeWhile p = [] := List.eq_nil_of_length_eq_zero (by omega)
    rw [hnone, List.append_nil]
    exact ((List.takeWhile_prefix p).eq_of_length hwhole).symm
  · rfl

theorem dropWhile_excerpt {p : Char → Bool}
    (h : ((rest ++ tail).takeWhile p).length ≤ rest.length) :
    (rest ++ tail).dropWhile p = rest.dropWhile p ++ tail := by
  have hsame : rest.takeWhile p ++ (rest ++ tail).dropWhile p =
      rest.takeWhile p ++ (rest.dropWhile p ++ tail) :=
    calc rest.takeWhile p ++ (rest ++ tail).dropWhile p
        = rest ++ tail := by rw [← takeWhile_excerpt h, List.takeWhile_append_dropWhile]
      _ = rest.takeWhile p ++ (rest.dropWhile p ++ tail) := by
          rw [← List.append_assoc, List.takeWhile_append_dropWhile]
  exact List.append_cancel_left hsame

namespace Text

theorem trimEnd_append (first second : List Char) : trimEnd (first ++ second) =
    if trimEnd second = [] then trimEnd first else first ++ trimEnd second := by
  unfold trimEnd
  rw [List.reverse_append, List.dropWhile_append]
  by_cases hblank : second.reverse.dropWhile isBlank = []
  · simp [hblank]
  · simp [hblank, List.isEmpty_iff]

/-- Blank characters at the end of a line do not count, whether they are there or not. -/
theorem trimEnd_line_excerpt (h : (trimEnd (line (rest ++ tail))).length ≤ rest.length) :
    trimEnd (line (rest ++ tail)) = trimEnd (line rest) := by
  unfold line at h ⊢
  rw [List.takeWhile_append] at h ⊢
  split
  · rename_i hwhole
    rw [if_pos hwhole] at h
    have hline : rest.takeWhile (· != '\n') = rest := (List.takeWhile_prefix _).eq_of_length hwhole
    rw [hline]
    rw [trimEnd_append] at h ⊢
    split
    · rfl
    · rename_i hsome
      rw [if_neg hsome, List.length_append] at h
      exact absurd (List.eq_nil_of_length_eq_zero (by omega)) hsome
  · rfl

end Text

/-! ## Quoted text -/

namespace Quote

theorem scan_of_width_zero {quote : Quote} (h : (quote.scan rest).width = 0) :
    quote.scan rest = quote.scan [] := by
  revert h
  fun_cases scan quote rest <;> simp [Content.prepend, scan]

/-- Only in front of the delimiter a backslash is read together with what follows. -/
theorem scan_of_ne {quote : Quote} {character : Char} (h : character ≠ '\\') (rest : List Char) :
    quote.scan (character :: rest) = if character = '\n' then ⟨[], 0, false⟩
      else if character = quote.delimiter then ⟨[], 1, true⟩
      else (quote.scan rest).prepend character 1 :=
  scan.eq_3 quote character rest fun _ _ hcharacter _ => h hcharacter

/-- A backslash that the text ends with stands for itself. -/
theorem scan_backslash {quote : Quote} (h : (quote.scan ('\\' :: tail)).width ≤ 1) :
    quote.scan ('\\' :: tail) = quote.scan ['\\'] := by
  cases tail with
  | nil => rfl
  | cons next tail =>
      rw [scan] at h ⊢
      split
      · rename_i hquote
        rw [if_pos hquote] at h
        simp only [Content.prepend] at h
        omega
      · rename_i hquote
        rw [if_neg hquote] at h
        simp only [Content.prepend] at h
        rw [scan_of_width_zero (by omega)]
        cases quote <;> rfl

theorem scan_excerpt (quote : Quote) (h : (quote.scan (rest ++ tail)).width ≤ rest.length) :
    quote.scan (rest ++ tail) = quote.scan rest := by
  fun_induction scan quote rest with
  | case1 => exact scan_of_width_zero (Nat.le_zero.mp h)
  | case2 rest ih =>
      rw [List.cons_append, List.cons_append, scan, if_pos rfl] at h ⊢
      simp only [Content.prepend, List.length_cons] at h
      rw [ih (by omega)]
  | case3 character rest hquote ih =>
      rw [List.cons_append, List.cons_append, scan, if_neg hquote, ← List.cons_append] at h ⊢
      simp only [Content.prepend, List.length_cons] at h ih
      rw [ih (by omega)]
  | case4 rest hescape =>
      rw [List.cons_append, scan_of_ne (by decide), if_pos rfl]
  | case5 rest hline hescape =>
      have hbackslash : quote.delimiter ≠ '\\' := by cases quote <;> decide
      rw [List.cons_append, scan_of_ne hbackslash, if_pos rfl]
      exact if_neg (by cases quote <;> decide)
  | case6 character rest hescape hline hquote ih =>
      by_cases hbackslash : character = '\\'
      · subst hbackslash
        cases rest with
        | nil =>
            rw [List.singleton_append] at h ⊢
            rw [scan_backslash h]
            cases quote <;> rfl
        | cons next rest => exact (hescape next rest rfl rfl).elim
      · rw [List.cons_append, scan_of_ne hbackslash, if_neg hline, if_neg hquote] at h ⊢
        simp only [Content.prepend, List.length_cons] at h
        rw [ih (by omega)]

end Quote

namespace Lexeme

/-! ## Numbers -/

namespace Numeral

theorem fractionOf_excerpt {behind : List Char}
    (h : fractionOf (behind ++ tail) = [] ∨ (fractionOf (behind ++ tail)).length < behind.length) :
    fractionOf (behind ++ tail) = fractionOf behind := by
  cases behind with
  | nil => exact h.resolve_right (Nat.not_lt_zero _)
  | cons character behind =>
      by_cases hpoint : character = '.'
      · subst hpoint
        apply takeWhile_excerpt
        rcases h with hnone | hless
        · exact (congrArg List.length hnone).trans_le (Nat.zero_le _)
        · exact Nat.le_of_lt_succ hless
      · simp [fractionOf, hpoint]

theorem length_text (numeral : Numeral) : numeral.text.length = numeral.whole.length +
    (if numeral.fraction.isEmpty then 0 else numeral.fraction.length + 1) + numeral.tail.length := by
  unfold text digits
  split
  · rw [List.length_append, Nat.add_zero]
  · rw [List.length_append, List.length_append, List.length_cons]

theorem read_excerpt {first : Char} (h : (read first (rest ++ tail)).text.length ≤ rest.length + 1) :
    read first (rest ++ tail) = read first rest := by
  have hparts := congrArg List.length (@List.takeWhile_append_dropWhile _ Char.isDigit rest)
  rw [List.length_append] at hparts
  rw [length_text] at h
  simp only [read, List.length_cons] at h ⊢
  have hwhole : ((rest ++ tail).takeWhile Char.isDigit).length ≤ rest.length := by omega
  simp only [takeWhile_excerpt hwhole, dropWhile_excerpt hwhole] at h ⊢
  generalize rest.dropWhile Char.isDigit = behind at h hparts ⊢
  have hfraction : fractionOf (behind ++ tail) = fractionOf behind := by
    apply fractionOf_excerpt
    by_cases hnone : fractionOf (behind ++ tail) = []
    · exact .inl hnone
    · rw [if_neg (by simpa using hnone)] at h
      right
      omega
  simp only [hfraction] at h ⊢
  congr 1
  split
  · rename_i hnone
    rw [if_pos hnone, if_pos hnone] at h
    exact takeWhile_excerpt (by omega)
  · rename_i hsome
    rw [if_neg hsome, if_neg hsome] at h
    have hless := length_fractionOf_lt (by simpa using hsome)
    rw [List.drop_append_of_le_length hless] at h ⊢
    apply takeWhile_excerpt
    rw [List.length_drop]
    omega

end Numeral

/-! ## Words, directives and symbols -/

theorem readWord_excerpt {first : Char} (h : (readWord first (rest ++ tail)).further ≤ rest.length) :
    readWord first (rest ++ tail) = readWord first rest := by
  have hletters : ((rest ++ tail).takeWhile Text.isWordPart).length ≤ rest.length := by
    unfold readWord at h
    simp only at h
    split at h <;> exact h
  rw [readWord, readWord, takeWhile_excerpt hletters]

theorem readDirective_excerpt (h : (readDirective (rest ++ tail)).further ≤ rest.length) :
    readDirective (rest ++ tail) = readDirective rest := by
  have hletters : ((rest ++ tail).takeWhile Text.isWordPart).length ≤ rest.length := by
    unfold readDirective at h
    simp only at h
    split at h
    · exact h
    · simp only [ofToken, List.length_append] at h
      omega
  have hwidth := (List.takeWhile_prefix (l := rest) Text.isWordPart).length_le
  unfold readDirective at h ⊢
  simp only [takeWhile_excerpt hletters, List.drop_append_of_le_length hwidth] at h ⊢
  split
  · rfl
  · rename_i hword
    simp only [hword, ofToken, List.length_append] at h
    rw [Text.trimEnd_line_excerpt]
    rw [List.length_drop]
    omega

theorem readSymbol_excerpt {first : Char}
    (h : (readSymbol first (rest ++ tail)).further ≤ rest.length) :
    readSymbol first (rest ++ tail) = readSymbol first rest := by
  cases rest with
  | cons => rfl
  | nil =>
      -- nothing stands behind the symbol, so the text goes on with no second character of it
      revert h
      unfold readSymbol readPaired readDoubled
      split <;> split <;> simp [ofSymbol, ofToken, *]

/-! ## Lexemes -/

/-- A text that is cut off behind a lexeme begins with the same lexeme. -/
theorem read_excerpt (mode : LineMode) {first : Char} :
    (read mode first (rest ++ tail)).further ≤ rest.length →
      read mode first (rest ++ tail) = read mode first rest := by
  unfold read
  split
  · intro h
    rw [takeWhile_excerpt h]
  split
  · exact fun _ => rfl
  split
  · intro h
    rw [Text.line, takeWhile_excerpt h, Text.line]
  unfold readToken
  split
  · intro h
    rw [readQuoted, readQuoted, Quote.scan_excerpt _ h]
  split
  · intro h
    rw [readNumber, readNumber, Numeral.read_excerpt (Nat.sub_le_iff_le_add.mp h)]
  split
  · exact readWord_excerpt
  split
  · split
    · exact readDirective_excerpt
    · exact fun _ => rfl
  · exact readSymbol_excerpt

/-! ## Tokens at the beginning of a line -/

/-- A token is read in the same way where a line begins, unless it belongs to the line of a
directive. -/
theorem read_of_token {mode : LineMode} {first : Char} {kind : TokenKind}
    (hkind : (read mode first rest).kind = .token kind) (hmode : mode.isDirective = false) :
    read {} first rest = read mode first rest := by
  revert hkind
  unfold read
  split
  · exact nofun
  split
  · rw [if_neg (by simp [hmode])]
    exact nofun
  split
  · exact nofun
  unfold readToken
  split
  · exact fun _ => rfl
  split
  · exact fun _ => rfl
  split
  · exact fun _ => rfl
  split
  · split
    · exact fun _ => rfl
    · exact nofun
  · exact fun _ => rfl

/-- A token that does not end a line begins with a character that is not blank. -/
theorem isBlank_of_token {mode : LineMode} {first : Char} {kind : TokenKind}
    (hkind : (read mode first rest).kind = .token kind) (hline : kind ≠ .endOfLine) :
    Text.isBlank first = false := by
  by_contra hblank
  rw [Bool.not_eq_false] at hblank
  by_cases hspacing : Text.isSpacing first
  · rw [read, if_pos hspacing] at hkind
    cases hkind
  by_cases hfeed : first = '\n'
  · rw [read, if_neg hspacing, if_pos hfeed] at hkind
    split at hkind
    · exact hline (LexemeKind.token.inj hkind).symm
    · cases hkind
  · rw [read_of_isBlank hblank hspacing hfeed] at hkind
    cases hkind

end Lexeme

end ConfLang
