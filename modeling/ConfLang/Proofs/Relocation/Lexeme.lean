import ConfLang.Proofs.LexemeCases
import Mathlib.Data.List.TakeWhile

/-!
# Lexemes in front of the end of a line

No lexeme goes past the end of its line, but for line feeds themselves, whatever is wrong with
it: a quote that is not closed ends with its line as well.  So a text has the same lexemes if a
line feed and another text are put behind it.  Words, numbers and symbols end in front of every
blank character.
-/

namespace ConfLang

variable {rest : List Char} {mark : Char} (tail : List Char)

/-! ## Parts of a line -/

theorem takeWhile_line {p : Char → Bool} (h : p mark = false) :
    (rest ++ mark :: tail).takeWhile p = rest.takeWhile p := by
  induction rest with
  | nil => simp [h]
  | cons first rest ih => simp only [List.cons_append, List.takeWhile_cons, ih]

theorem dropWhile_line {p : Char → Bool} (h : p mark = false) :
    (rest ++ mark :: tail).dropWhile p = rest.dropWhile p ++ mark :: tail := by
  induction rest with
  | nil => simp [h]
  | cons first rest ih =>
      simp only [List.cons_append, List.dropWhile_cons, ih]
      split <;> rfl

theorem drop_takeWhile_line (rest : List Char) (p : Char → Bool) :
    (rest ++ mark :: tail).drop (rest.takeWhile p).length =
      rest.drop (rest.takeWhile p).length ++ mark :: tail :=
  List.drop_append_of_le_length (List.takeWhile_prefix p).length_le

namespace Text

variable {character : Char}

theorem ne_of_isBlank (hmark : isBlank mark = true) (h : isBlank character = false) :
    mark ≠ character := by
  rintro rfl
  rw [hmark] at h
  cases h

theorem isWordPart_of_isBlank (hmark : isBlank mark = true) : isWordPart mark = false := by
  rw [← Bool.not_eq_true]
  intro hpart
  rw [isBlank_of_isWordPart hpart] at hmark
  cases hmark

theorem isDigit_of_isBlank (hmark : isBlank mark = true) : mark.isDigit = false := by
  have hpart := isWordPart_of_isBlank hmark
  simp only [isWordPart, Char.isAlphanum, Bool.or_eq_false_iff] at hpart
  exact hpart.1.2

end Text

theorem Text.line_line : Text.line (rest ++ '\n' :: tail) = Text.line rest :=
  takeWhile_line tail rfl

theorem Text.isPrefix_trimEnd (characters : List Char) : trimEnd characters <+: characters := by
  have hsuffix := List.dropWhile_suffix (l := characters.reverse) isBlank
  rw [← List.reverse_prefix, List.reverse_reverse] at hsuffix
  exact hsuffix

theorem Text.not_mem_trimEnd_line (characters : List Char) :
    '\n' ∉ trimEnd (line characters) := by
  intro hmem
  have hline := List.mem_takeWhile_imp ((isPrefix_trimEnd _).subset hmem)
  simp at hline

theorem Text.length_trimEnd_le (characters : List Char) :
    (Text.trimEnd characters).length ≤ characters.length :=
  (isPrefix_trimEnd characters).length_le

/-! ## Quoted text -/

/-- Quoted text ends with its line, if it is not closed before. -/
theorem Quote.scan_line (quote : Quote) (rest : List Char) :
    quote.scan (rest ++ '\n' :: tail) = quote.scan rest := by
  fun_induction Quote.scan quote rest with
  | case1 => cases quote <;> rfl
  | case2 rest ih => rw [List.cons_append, List.cons_append, scan, if_pos rfl, ih]
  | case3 character rest hquote ih =>
      rw [List.cons_append, List.cons_append, scan, if_neg hquote, ← List.cons_append, ih]
  | case4 rest hescape =>
      cases rest with
      | nil => cases quote <;> rfl
      | cons next rest => cases quote <;> rfl
  | case5 rest hline hescape =>
      cases rest with
      | nil => cases quote <;> rfl
      | cons next rest => cases quote <;> rfl
  | case6 character rest hescape hline hquote ih =>
      cases rest with
      | nil =>
          rw [List.nil_append] at ih
          rw [List.cons_append, List.nil_append, ← ih]
          by_cases hbackslash : character = '\\'
          · -- The line feed is none of the characters that a backslash stands in front of.
            have hfeed : '\n' ≠ quote.delimiter := by cases quote <;> decide
            rw [hbackslash, scan.eq_def quote ('\\' :: _)]
            exact if_neg hfeed
          · have hnext (next : Char) (rest' : List Char) (hcharacter : character = '\\') :
                '\n' :: tail = next :: rest' → False := absurd hcharacter hbackslash
            rw [scan.eq_3 quote character _ hnext, if_neg hline, if_neg hquote]
      | cons next rest =>
          rw [List.cons_append, scan, if_neg hline, if_neg hquote, ih]
          rintro next' rest' rfl hrest
          exact hescape _ _ rfl rfl

theorem Quote.width_scan_le (quote : Quote) (rest : List Char) :
    (quote.scan rest).width ≤ rest.length := by
  fun_induction Quote.scan quote rest <;> simp_all [Content.prepend] <;> omega

namespace Lexeme

/-! ## Numbers -/

namespace Numeral

theorem length_fractionOf_lt {behind : List Char} (h : fractionOf behind ≠ []) :
    (fractionOf behind).length < behind.length := by
  revert h
  unfold fractionOf
  split
  · exact fun _ => Nat.lt_succ_of_le (List.takeWhile_prefix _).length_le
  · exact fun h => absurd rfl h

theorem fractionOf_line (hmark : Text.isBlank mark = true) (behind : List Char) :
    fractionOf (behind ++ mark :: tail) = fractionOf behind := by
  cases behind with
  | nil => simp [fractionOf, Text.ne_of_isBlank hmark (show Text.isBlank '.' = false by decide)]
  | cons character behind =>
      by_cases hpoint : character = '.'
      · rw [hpoint]
        exact takeWhile_line tail (Text.isDigit_of_isBlank hmark)
      · simp [fractionOf, hpoint]

theorem read_line (hmark : Text.isBlank mark = true) (first : Char) :
    read first (rest ++ mark :: tail) = read first rest := by
  simp only [read, takeWhile_line tail (Text.isDigit_of_isBlank hmark),
    dropWhile_line tail (Text.isDigit_of_isBlank hmark), fractionOf_line tail hmark]
  congr 1
  split
  · exact takeWhile_line tail (Text.isWordPart_of_isBlank hmark)
  · rename_i hsome
    have hless := length_fractionOf_lt (by simpa using hsome)
    rw [List.drop_append_of_le_length hless]
    exact takeWhile_line tail (Text.isWordPart_of_isBlank hmark)

theorem length_text_read (first : Char) (rest : List Char) :
    (read first rest).text.length ≤ rest.length + 1 := by
  have hparts := congrArg List.length (List.takeWhile_append_dropWhile (p := Char.isDigit) (l := rest))
  rw [List.length_append] at hparts
  have htail (behind : List Char) := (List.takeWhile_prefix (l := behind) Text.isWordPart).length_le
  unfold read text digits
  simp only
  split
  · have := htail (rest.dropWhile Char.isDigit)
    simp only [List.length_append, List.length_cons]
    omega
  · rename_i hsome
    have hless := length_fractionOf_lt (by simpa using hsome)
    have := htail ((rest.dropWhile Char.isDigit).drop
      ((fractionOf (rest.dropWhile Char.isDigit)).length + 1))
    rw [List.length_drop] at this
    simp only [List.length_append, List.length_cons]
    omega

end Numeral

/-! ## Words, directives and symbols -/

theorem readQuoted_line (quote : Quote) :
    readQuoted quote (rest ++ '\n' :: tail) = readQuoted quote rest := by
  rw [readQuoted, readQuoted, Quote.scan_line]

theorem letters_line (hmark : Text.isBlank mark = true) :
    (rest ++ mark :: tail).takeWhile Text.isWordPart = rest.takeWhile Text.isWordPart :=
  takeWhile_line tail (Text.isWordPart_of_isBlank hmark)

theorem readDirective_line : readDirective (rest ++ '\n' :: tail) = readDirective rest := by
  have hletters : (rest ++ '\n' :: tail).takeWhile Text.isWordPart = _ := letters_line tail rfl
  simp only [readDirective, hletters, drop_takeWhile_line tail rest, Text.line_line]

theorem readSymbol_line (hmark : Text.isBlank mark = true) (first : Char) :
    readSymbol first (rest ++ mark :: tail) = readSymbol first rest := by
  have hhead (character : Char) (hblank : Text.isBlank character = false) :
      (rest ++ mark :: tail).head? = some character ↔ rest.head? = some character := by
    cases rest with
    | nil => simpa using Text.ne_of_isBlank hmark hblank
    | cons => rfl
  simp only [readSymbol, readPaired, readDoubled, hhead '=' (by decide), hhead '&' (by decide),
    hhead '|' (by decide)]

theorem further_readSymbol_le (first : Char) (rest : List Char) :
    (readSymbol first rest).further ≤ rest.length := by
  have hone {character : Char} (h : rest.head? = some character) : 1 ≤ rest.length := by
    cases rest with
    | nil => cases h
    | cons => exact Nat.succ_le_succ (Nat.zero_le _)
  unfold readSymbol readPaired readDoubled
  split
  all_goals
    split
    · first | exact hone ‹_› | exact Nat.zero_le _
    · exact Nat.zero_le _

/-! ## Lexemes -/

/-- A lexeme is the same in front of a line feed. -/
theorem read_line (mode : LineMode) {first : Char} :
    read mode first (rest ++ '\n' :: tail) = read mode first rest := by
  unfold read
  split
  · rw [takeWhile_line tail (by decide)]
  split
  · rfl
  split
  · rw [Text.line_line]
  · unfold readToken
    split
    · exact readQuoted_line tail _
    · rw [readNumber, readNumber, Numeral.read_line tail rfl, readWord, readWord,
        letters_line tail rfl, readDirective_line, readSymbol_line tail rfl]

theorem further_readDirective_le (rest : List Char) :
    (readDirective rest).further ≤ rest.length := by
  unfold readDirective
  simp only
  split
  · exact (List.takeWhile_prefix _).length_le
  · have hletters : (rest.takeWhile Text.isWordPart).length ≤ rest.length :=
      (List.takeWhile_prefix _).length_le
    have hremainder := Text.length_trimEnd_le
      (Text.line (rest.drop (rest.takeWhile Text.isWordPart).length))
    have hbehind : (Text.line (rest.drop (rest.takeWhile Text.isWordPart).length)).length ≤ _ :=
      (List.takeWhile_prefix _).length_le
    rw [List.length_drop] at hbehind
    simp only [ofToken, List.length_append]
    omega

/-- A lexeme does not go past the end of the text. -/
theorem further_read_le (mode : LineMode) (first : Char) (rest : List Char) :
    (read mode first rest).further ≤ rest.length := by
  refine read_cases (P := fun lexeme => lexeme.further ≤ rest.length)
    ?spacing ?lineFeed ?comment ?quoted ?number ?word ?percent ?symbol
  case spacing | comment => exact fun _ => (List.takeWhile_prefix _).length_le
  case lineFeed =>
    intro _
    split <;> exact Nat.zero_le _
  case quoted => exact fun _ _ => Quote.width_scan_le _ _
  case number => exact fun _ => Nat.sub_le_of_le_add (Numeral.length_text_read first rest)
  case word =>
    intro _
    unfold readWord
    simp only
    split <;> exact (List.takeWhile_prefix _).length_le
  case percent =>
    intro _
    split
    · exact further_readDirective_le rest
    · exact Nat.zero_le _
  case symbol => exact further_readSymbol_le first rest

end Lexeme

end ConfLang
