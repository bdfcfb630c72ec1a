import ConfLang.Proofs.Scanning.Directives
import ConfLang.Proofs.Scanning.Trimming
import ConfLang.Proofs.Writing.Literals

/-!
# Lexemes in front of other texts

A text may be changed behind one of its characters, or right behind a token.

A lexeme looks no further than the character behind it, but for the digit behind a point.  So in
front of a character that is kept, the mark, a lexeme stays the same whatever follows the mark
(`Lexeme.read_mark`).  This needs a mark that is neither blank nor a point: blank characters at
the end of a line do not count, and a point may or may not belong to a number.

Right behind a token that may end an expression, anything may follow that goes on with no number
and no word (`Lexeme.read_stops`).
-/

namespace ConfLang

variable {rest tail tail' : List Char} {mark : Char}

/-! ## Parts of a line -/

theorem takeWhile_mark {p : Char → Bool}
    (h : ((rest ++ mark :: tail).takeWhile p).length ≤ rest.length) :
    (rest ++ mark :: tail').takeWhile p = rest.takeWhile p := by
  rw [List.takeWhile_append] at h ⊢
  split
  · rename_i hwhole
    rw [if_pos hwhole, List.length_append] at h
    have hmark : p mark = false := by
      by_contra hmark
      rw [List.takeWhile_cons, if_pos (by simpa using hmark), List.length_cons] at h
      omega
    rw [List.takeWhile_cons, hmark, if_neg Bool.false_ne_true, List.append_nil]
    exact ((List.takeWhile_prefix p).eq_of_length hwhole).symm
  · rfl

theorem dropWhile_mark {p : Char → Bool}
    (h : ((rest ++ mark :: tail).takeWhile p).length ≤ rest.length) :
    (rest ++ mark :: tail').dropWhile p = rest.dropWhile p ++ mark :: tail' := by
  apply dropWhile_excerpt
  rw [takeWhile_mark h]
  exact (List.takeWhile_prefix p).length_le

namespace Text

theorem ne_lineFeed (hmark : isBlank mark = false) : mark ≠ '\n' := by
  rintro rfl
  exact absurd hmark (by decide)

/-- A line that goes on through a mark that is not blank is not cut off in front of it. -/
theorem length_lt_trimEnd_line (hmark : isBlank mark = false) (hfeed : '\n' ∉ rest) :
    rest.length < (trimEnd (line (rest ++ mark :: tail))).length := by
  have hsome : trimEnd (line (mark :: tail)) ≠ [] := by
    rw [Ne, trimEnd_eq_nil_iff]
    intro hblank
    have hmem : mark ∈ line (mark :: tail) := by
      rw [line, List.takeWhile_cons, if_pos (bne_iff_ne.mpr (ne_lineFeed hmark))]
      exact List.mem_cons_self
    rw [hblank mark hmem] at hmark
    cases hmark
  rw [line_append hfeed, trimEnd_append, if_neg hsome, List.length_append]
  exact Nat.lt_add_of_pos_right (List.length_pos_iff.mpr hsome)

theorem trimEnd_line_mark (hmark : isBlank mark = false)
    (h : (trimEnd (line (rest ++ mark :: tail))).length ≤ rest.length) :
    trimEnd (line (rest ++ mark :: tail')) = trimEnd (line rest) := by
  by_cases hfeed : '\n' ∈ rest
  · obtain ⟨text, behind, rfl, -⟩ := List.eq_append_cons_of_mem hfeed
    rw [List.append_assoc, List.cons_append, line_line, line_line]
  · exact absurd (length_lt_trimEnd_line hmark hfeed) (Nat.not_lt.mpr h)

end Text

/-! ## Quoted text -/

namespace Quote

theorem width_scan_pos (quote : Quote) (hmark : mark ≠ '\n') :
    0 < (quote.scan (mark :: tail)).width := by
  unfold scan
  split
  · rename_i hnil
    cases hnil
  · split
    · exact Nat.lt_add_right _ (by decide)
    · exact Nat.lt_add_right _ (by decide)
  · rename_i hcons
    obtain ⟨rfl, rfl⟩ := List.cons.inj hcons
    rw [if_neg hmark]
    split
    · exact Nat.one_pos
    · exact Nat.lt_add_right _ (by decide)

theorem scan_mark (quote : Quote) (hmark : mark ≠ '\n')
    (h : (quote.scan (rest ++ mark :: tail)).width ≤ rest.length) :
    quote.scan (rest ++ mark :: tail') = quote.scan rest := by
  fun_induction scan quote rest with
  | case1 => exact absurd h (Nat.not_le.mpr (width_scan_pos quote hmark))
  | case2 rest ih =>
      rw [List.cons_append, List.cons_append, scan, if_pos rfl] at h ⊢
      simp only [Content.prepend, List.length_cons] at h
      rw [ih (by omega)]
  | case3 character rest hquote ih =>
      rw [List.cons_append, List.cons_append, scan, if_neg hquote, ← List.cons_append] at h ⊢
      simp only [Content.prepend, List.length_cons] at h ih
      rw [ih (by omega)]
  | case4 rest hescape => rw [List.cons_append, scan_of_ne (by decide), if_pos rfl]
  | case5 rest hline hescape =>
      have hbackslash : quote.delimiter ≠ '\\' := by cases quote <;> decide
      rw [List.cons_append, scan_of_ne hbackslash, if_pos rfl]
      exact if_neg (by cases quote <;> decide)
  | case6 character rest hescape hline hquote ih =>
      by_cases hbackslash : character = '\\'
      · subst hbackslash
        cases rest with
        | nil =>
            -- a backslash is read together with the mark, or the mark is read behind it
            rw [List.singleton_append, scan] at h
            have hpos : 0 < (quote.scan (mark :: tail)).width := width_scan_pos quote hmark
            split at h <;> simp only [Content.prepend, List.length_singleton] at h <;> omega
        | cons next rest => exact (hescape next rest rfl rfl).elim
      · rw [List.cons_append, scan_of_ne hbackslash, if_neg hline, if_neg hquote] at h ⊢
        simp only [Content.prepend, List.length_cons] at h
        rw [ih (by omega)]

/-- Quoted text that is closed does not depend on what follows. -/
theorem scan_append (quote : Quote) (hclosed : (quote.scan rest).closed = true) :
    quote.scan (rest ++ tail) = quote.scan rest := by
  fun_induction scan quote rest with
  | case1 => cases hclosed
  | case2 rest ih =>
      rw [List.cons_append, List.cons_append, scan, if_pos rfl, ih hclosed]
  | case3 character rest hquote ih =>
      rw [List.cons_append, List.cons_append, scan, if_neg hquote, ← List.cons_append, ih hclosed]
  | case4 => cases hclosed
  | case5 rest hline hescape =>
      have hbackslash : quote.delimiter ≠ '\\' := by cases quote <;> decide
      rw [List.cons_append, scan_of_ne hbackslash, if_pos rfl]
      exact if_neg (by cases quote <;> decide)
  | case6 character rest hescape hline hquote ih =>
      by_cases hbackslash : character = '\\'
      · subst hbackslash
        cases rest with
        | nil => cases hclosed
        | cons next rest => exact (hescape next rest rfl rfl).elim
      · rw [List.cons_append, scan_of_ne hbackslash, if_neg hline, if_neg hquote, ih hclosed]

end Quote

namespace Lexeme

/-! ## Numbers -/

namespace Numeral

theorem fractionOf_mark {behind : List Char} (hpoint : mark ≠ '.')
    (h : fractionOf (behind ++ mark :: tail) = [] ∨
      (fractionOf (behind ++ mark :: tail)).length < behind.length) :
    fractionOf (behind ++ mark :: tail') = fractionOf behind := by
  cases behind with
  | nil => simp [fractionOf, hpoint]
  | cons character behind =>
      by_cases hcharacter : character = '.'
      · subst hcharacter
        apply takeWhile_mark
        rcases h with hnone | hless
        · exact (congrArg List.length hnone).trans_le (Nat.zero_le _)
        · exact Nat.le_of_lt_succ hless
      · simp [fractionOf, hcharacter]

theorem read_mark {first : Char} (hpoint : mark ≠ '.')
    (h : (read first (rest ++ mark :: tail)).text.length ≤ rest.length + 1) :
    read first (rest ++ mark :: tail') = read first rest := by
  have hparts := congrArg List.length (@List.takeWhile_append_dropWhile _ Char.isDigit rest)
  rw [List.length_append] at hparts
  rw [length_text] at h
  simp only [read, List.length_cons] at h ⊢
  have hwhole : ((rest ++ mark :: tail).takeWhile Char.isDigit).length ≤ rest.length := by omega
  simp only [takeWhile_mark hwhole, dropWhile_mark hwhole] at h ⊢
  generalize rest.dropWhile Char.isDigit = behind at h hparts ⊢
  have hfraction : fractionOf (behind ++ mark :: tail) = [] ∨
      (fractionOf (behind ++ mark :: tail)).length < behind.length := by
    by_cases hnone : fractionOf (behind ++ mark :: tail) = []
    · exact .inl hnone
    · rw [if_neg (by simpa using hnone)] at h
      right
      omega
  simp only [fractionOf_mark hpoint hfraction] at h ⊢
  congr 1
  split
  · rename_i hnone
    rw [if_pos hnone, if_pos hnone] at h
    exact @takeWhile_mark behind tail _ _ _ (by omega)
  · rename_i hsome
    rw [if_neg hsome, if_neg hsome] at h
    have hless := length_fractionOf_lt (by simpa using hsome)
    rw [List.drop_append_of_le_length hless] at h ⊢
    refine @takeWhile_mark _ tail _ _ _ ?_
    rw [List.length_drop]
    omega

end Numeral

/-! ## Words, directives and symbols -/

theorem readWord_mark {first : Char}
    (h : (readWord first (rest ++ mark :: tail)).further ≤ rest.length) :
    readWord first (rest ++ mark :: tail') = readWord first rest := by
  have hletters : ((rest ++ mark :: tail).takeWhile Text.isWordPart).length ≤ rest.length := by
    unfold readWord at h
    simp only at h
    split at h <;> exact h
  rw [readWord, readWord, takeWhile_mark hletters]

theorem readDirective_mark (hmark : Text.isBlank mark = false)
    (h : (readDirective (rest ++ mark :: tail)).further ≤ rest.length) :
    readDirective (rest ++ mark :: tail') = readDirective rest := by
  have hletters : ((rest ++ mark :: tail).takeWhile Text.isWordPart).length ≤ rest.length := by
    unfold readDirective at h
    simp only at h
    split at h
    · exact h
    · simp only [ofToken, List.length_append] at h
      omega
  have hwidth := (List.takeWhile_prefix (l := rest) Text.isWordPart).length_le
  unfold readDirective at h ⊢
  simp only [takeWhile_mark hletters, List.drop_append_of_le_length hwidth] at h ⊢
  split
  · rfl
  · rename_i hword
    simp only [hword, ofToken, List.length_append] at h
    rw [@Text.trimEnd_line_mark _ tail _ _ hmark]
    rw [List.length_drop]
    omega

theorem readSymbol_mark (first : Char) :
    readSymbol first (rest ++ mark :: tail') = readSymbol first (rest ++ mark :: tail) := by
  cases rest <;> rfl

/-! ## Lexemes -/

/-- In front of a mark, a lexeme is the same whatever stands behind the mark. -/
theorem read_mark (mode : LineMode) {first : Char} (hmark : Text.isBlank mark = false)
    (hpoint : mark ≠ '.') (h : (read mode first (rest ++ mark :: tail)).further ≤ rest.length) :
    read mode first (rest ++ mark :: tail') = read mode first (rest ++ mark :: tail) := by
  rw [read_excerpt mode h]
  revert h
  unfold read
  split
  · intro h
    rw [takeWhile_mark h]
  split
  · exact fun _ => rfl
  split
  · intro h
    rw [Text.line, takeWhile_mark h, Text.line]
  unfold readToken
  split
  · intro h
    rw [readQuoted, readQuoted, Quote.scan_mark _ (Text.ne_lineFeed hmark) h]
  split
  · intro h
    rw [readNumber, readNumber, Numeral.read_mark hpoint (Nat.sub_le_iff_le_add.mp h)]
  split
  · exact readWord_mark
  split
  · split
    · exact readDirective_mark hmark
    · exact fun _ => rfl
  · intro h
    rw [← readSymbol_excerpt h]
    exact readSymbol_mark first

end Lexeme

/-! ## Directives -/

/-- The line of a directive is begun by its word, behind a percent sign at the beginning of the
line. -/
theorem Lexeme.directive_of_starts {mode : LineMode} {first : Char} {kind : TokenKind}
    (h : (read mode first rest).kind = .token kind) (hstarts : kind.startsDirectiveLine = true) :
    first = '%' ∧ mode.atStart = true ∧ mode.isDirective = false ∧
      TokenKind.ofDirective? (String.ofList (rest.takeWhile Text.isWordPart)) = some kind := by
  have hdirective : kind.isDirective = true := by
    cases kind <;> first | rfl | cases hstarts
  obtain ⟨rfl, hstart⟩ := percent_of_isDirective h hdirective
  have hread : read mode '%' rest =
      if mode.atStart && !mode.isDirective then readDirective rest else reject .strayPercent := rfl
  rw [hread] at h
  split at h
  · rename_i hmode
    simp only [Bool.and_eq_true, Bool.not_eq_true'] at hmode
    refine ⟨rfl, hmode.1, hmode.2, ?_⟩
    unfold readDirective at h
    simp only at h
    split at h
    · rename_i hword
      rw [hword, ← LexemeKind.token.inj h]
    · cases LexemeKind.token.inj h
      cases hstarts
  · cases h

/-! ## Tokens at the end of an expression -/

/-- Whether an expression may end with a token. -/
def TokenKind.endsExpression : TokenKind → Bool
  | integer _ | float _ | string _ | name .. => true
  | symbol .closeParen | symbol .closeBracket => true
  | _ => false

theorem TokenKind.startsDirectiveLine_of_endsExpression (kind : TokenKind)
    (h : kind.endsExpression = true) : kind.startsDirectiveLine = false := by
  cases kind <;> first | rfl | cases h

namespace Lexeme

theorem stops_nil : Stops [] where
  word := nofun
  point := nofun

theorem further_readNumber (first : Char) :
    (readNumber first rest).further = rest.length ↔ (Numeral.read first rest).text = first :: rest := by
  rw [← Numeral.text_eq_take, List.cons.injEq]
  constructor
  · intro h
    rw [h, List.take_length]
    exact ⟨rfl, rfl⟩
  · intro h
    have hlength := congrArg List.length h.2
    have hle := Numeral.length_text_read first rest
    rw [List.length_take] at hlength
    have hfurther : (readNumber first rest).further ≤ rest.length := Nat.sub_le_of_le_add hle
    omega

/-- A number without letters is one wherever it stops. -/
theorem spells_number {mode : LineMode} {first : Char} (hfirst : first.isDigit = true)
    (hfaults : (readNumber first rest).faults = [])
    (hfurther : (readNumber first rest).further = rest.length) :
    ∃ kind, ∀ tail, Stops tail → Spells mode kind (first :: rest) tail := by
  rw [further_readNumber] at hfurther
  rw [readNumber, List.append_eq_nil_iff] at hfaults
  have htail : (Numeral.read first rest).tail = [] := by
    have hnone := hfaults.1
    rw [Numeral.malformed] at hnone
    split at hnone
    · rename_i hempty
      exact List.isEmpty_iff.mp hempty
    · cases hnone
  have hwhole : ∀ digit ∈ (Numeral.read first rest).whole, digit.isDigit = true :=
    Numeral.isDigit_of_mem_whole hfirst
  by_cases hnone : (Numeral.read first rest).fraction = []
  · rw [Numeral.text_of_whole _ hnone, htail, List.append_nil] at hfurther
    have hrange : Nat.ofDigitChars 10 (Numeral.read first rest).whole 0 ≤ maxInteger := by
      have hvalue := hfaults.2
      rw [Numeral.value, if_pos (List.isEmpty_iff.mpr hnone)] at hvalue
      by_contra hlarge
      rw [if_neg hlarge] at hvalue
      cases hvalue
    rw [hfurther] at hwhole hrange
    exact ⟨_, fun tail htail => spells_integer (List.cons_ne_nil _ _) hwhole hrange htail⟩
  · rw [Numeral.text_of_fraction _ hnone, htail, List.append_nil] at hfurther
    refine ⟨.float (.ofDecimal (.ofDigits (Numeral.read first rest).whole
      (Numeral.read first rest).fraction)), fun tail htail => ?_⟩
    rw [← hfurther]
    refine spells_float (List.cons_ne_nil _ _) hnone (fun digit hmem => ?_) htail
    exact (List.mem_append.mp hmem).elim (hwhole digit) (Numeral.isDigit_of_mem_fraction digit)

/-- A word is one wherever no letters follow. -/
theorem spells_letters {mode : LineMode} {first : Char} (hfirst : Text.isWordStart first = true)
    (hfurther : (readWord first rest).further = rest.length) :
    ∃ kind, ∀ tail, Stops tail → Spells mode kind (first :: rest) tail := by
  have hletters : rest.takeWhile Text.isWordPart = rest := by
    refine (List.takeWhile_prefix _).eq_of_length ?_
    unfold readWord at hfurther
    simp only at hfurther
    split at hfurther <;> exact hfurther
  have hword : isWord (first :: rest) = true := by
    rw [isWord, hfirst, Bool.true_and, List.all_eq_true]
    exact List.takeWhile_eq_self_iff.mp hletters
  exact ⟨_, fun tail htail => spells_word hword htail.word⟩

/-- Brackets do not care for what follows. -/
theorem readSymbol_stops {first : Char} {kind : TokenKind}
    (hkind : (readSymbol first rest).kind = .token kind) (hends : kind.endsExpression = true) :
    readSymbol first (rest ++ tail) = readSymbol first rest := by
  revert hkind
  unfold readSymbol readPaired readDoubled
  split
  case h_5 => exact fun _ => rfl
  all_goals
    split
    all_goals
      intro hkind
      first | (cases hkind; done) | (cases hkind; cases hends)

/-- A token that may end an expression, and that takes a whole text, is read from that text as well
where another text follows that does not go on with it. -/
theorem read_stops {mode : LineMode} {first : Char} {kind : TokenKind}
    (hkind : (read mode first rest).kind = .token kind) (hends : kind.endsExpression = true)
    (hfaults : (read mode first rest).faults = [])
    (hfurther : (read mode first rest).further = rest.length) (hstops : Stops tail) :
    read mode first (rest ++ tail) = read mode first rest := by
  -- What is spelt in front of every stop is the same in front of the tail and of nothing.
  have hspells (h : ∃ kind, ∀ tail, Stops tail → Spells mode kind (first :: rest) tail) :
      read mode first (rest ++ tail) = read mode first rest := by
    obtain ⟨kind', h⟩ := h
    obtain ⟨_, _, ⟨⟩, hread⟩ := h tail hstops
    obtain ⟨_, _, ⟨⟩, hread'⟩ := h [] stops_nil
    rw [List.append_nil] at hread'
    rw [hread, hread']
  revert hkind hfaults hfurther hspells
  unfold read
  split
  · rintro ⟨⟩
  split
  · split
    · rintro ⟨⟩
      cases hends
    · rintro ⟨⟩
  split
  · rintro ⟨⟩
  unfold readToken
  split
  · rename_i quote _
    intro _ hfaults _ _
    have hclosed : (quote.scan rest).closed = true := by
      rw [readQuoted] at hfaults
      by_contra hopen
      simp only [if_neg hopen] at hfaults
      cases hfaults
    rw [readQuoted, readQuoted, Quote.scan_append _ hclosed]
  split
  · rename_i hdigit
    intro _ hfaults hfurther hspells
    exact hspells (spells_number hdigit hfaults hfurther)
  split
  · rename_i hstart
    intro _ _ hfurther hspells
    exact hspells (spells_letters hstart hfurther)
  split
  · split
    · unfold readDirective
      simp only
      split
      · rename_i hword
        rintro ⟨⟩
        have hline := startsDirectiveLine_of_ofDirective? hword
        rw [kind.startsDirectiveLine_of_endsExpression hends] at hline
        cases hline
      · rintro ⟨⟩
        cases hends
    · rintro ⟨⟩
  · exact fun hkind _ _ _ => readSymbol_stops hkind hends

end Lexeme

end ConfLang
