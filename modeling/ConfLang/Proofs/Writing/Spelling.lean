import ConfLang.Proofs.Relocation.Lexeme
import ConfLang.Proofs.Writing.Number

/-!
# Tokens are written and read back

How a token is written in a source, and that this text is read as the token again.  What a
number or a word needs for that is a text behind it that does not go on with it.  Quoted text,
raw text and the text of a passage need to be such that they can have been read: they stay on
their line, and neither an escape nor blank characters at the end get lost.
-/

namespace ConfLang

open Text

variable {mode : LineMode} {tail : List Char}

/-! ## Texts that can be written -/

/-- A text that can stand in quotes: it stays on its line, and its last character does not
escape the closing quote. -/
structure Quotable (text : String) : Prop where
  line : '\n' ∉ text.toList
  last : text.toList.getLast? ≠ some '\\'

/-- A text that can be the rest of a line behind a space. -/
structure IsRestOfLine (text : String) : Prop where
  line : '\n' ∉ text.toList
  first : ∀ character ∈ text.toList.head?, isSpacing character = false
  last : ∀ character ∈ text.toList.getLast?, isBlank character = false

/-- A text that can be kept as a directive line: it does not begin with the word of a directive
that is known. -/
structure IsPassage (text : String) : Prop where
  line : '\n' ∉ text.toList
  last : ∀ character ∈ text.toList.getLast?, isBlank character = false
  word : TokenKind.ofDirective? (String.ofList (text.toList.takeWhile isWordPart)) = none

/-! ## What stands behind -/

/-- A text that goes on with no number and no word in front of it. -/
structure Stops (tail : List Char) : Prop where
  word : ∀ character ∈ tail.head?, isWordPart character = false
  point : ∀ rest, tail = '.' :: rest → ∀ digit ∈ rest.head?, digit.isDigit = false

theorem stops_cons {character : Char} (rest : List Char) (hword : isWordPart character = false)
    (hpoint : character ≠ '.') : Stops (character :: rest) where
  word := by simpa using hword
  point := by
    intro _ h
    exact absurd (List.cons.inj h).1 hpoint

theorem stops_point {rest : List Char} (h : ∀ digit ∈ rest.head?, digit.isDigit = false) :
    Stops ('.' :: rest) where
  word := by simp [isWordPart]
  point := by
    rintro _ ⟨⟩
    exact h

theorem takeWhile_stop {p : Char → Bool} (htail : ∀ character ∈ tail.head?, p character = false) :
    tail.takeWhile p = [] ∧ tail.dropWhile p = tail := by
  cases tail with
  | nil => exact ⟨rfl, rfl⟩
  | cons character rest =>
      have hstop : p character = false := htail character rfl
      simp [hstop]

theorem takeWhile_append_stop {p : Char → Bool} {letters : List Char}
    (hletters : ∀ character ∈ letters, p character = true)
    (htail : ∀ character ∈ tail.head?, p character = false) :
    (letters ++ tail).takeWhile p = letters ∧ (letters ++ tail).dropWhile p = tail := by
  obtain ⟨htake, hdrop⟩ := takeWhile_stop htail
  rw [List.takeWhile_append_of_pos hletters, List.dropWhile_append_of_pos hletters, htake, hdrop,
    List.append_nil]
  exact ⟨rfl, rfl⟩

theorem drop_length_takeWhile (p : Char → Bool) (letters : List Char) :
    letters.drop (letters.takeWhile p).length = letters.dropWhile p := by
  refine (List.append_right_inj (letters.takeWhile p)).mp ?_
  rw [List.takeWhile_append_dropWhile]
  exact List.prefix_iff_eq_append.mp (List.takeWhile_prefix _)

theorem isWordPart_of_isDigit {character : Char} (h : character.isDigit = true) :
    isWordPart character = true := by
  simp [isWordPart, Char.isAlphanum, h]

theorem isDigit_of_stops (h : Stops tail) :
    ∀ character ∈ tail.head?, character.isDigit = false := by
  intro character hmem
  by_contra hdigit
  rw [Bool.not_eq_false] at hdigit
  exact absurd (isWordPart_of_isDigit hdigit) (by rw [h.word character hmem]; decide)

/-! ## The lexeme of a token -/

/-- In front of another text, a text is read as a token. -/
def Spells (mode : LineMode) (kind : TokenKind) (text tail : List Char) : Prop :=
  ∃ first rest, text = first :: rest ∧
    Lexeme.read mode first (rest ++ tail) = .ofToken kind rest.length

namespace Lexeme

/-- A character that begins neither trivia nor quoted text. -/
theorem read_of_ne {first : Char} {rest : List Char}
    (h : ∀ other ∈ [' ', '\t', '\r', '\n', '#', '\'', '"'], first ≠ other) :
    read mode first rest =
      if first.isDigit then readNumber first rest
      else if isWordStart first then readWord first rest
      else if first = '%' then
        if mode.atStart && !mode.isDirective then readDirective rest else reject .strayPercent
      else readSymbol first rest := by
  simp only [List.mem_cons, List.not_mem_nil, or_false, forall_eq_or_imp, forall_eq] at h
  obtain ⟨hspace, htab, hreturn, hline, hcomment, hname, hstring⟩ := h
  simp [read, readToken, isSpacing, Quote.ofDelimiter?, hspace, htab, hreturn, hline, hcomment,
    hname, hstring]

theorem ne_of_class {p : Char → Bool} {first : Char} (hfirst : p first = true) {others : List Char}
    (h : others.all (fun other => !p other) = true) : ∀ other ∈ others, first ≠ other := by
  rintro _ hmem rfl
  have hnone := List.all_eq_true.mp h first hmem
  rw [hfirst] at hnone
  cases hnone

/-! ### Numbers -/

theorem read_digit {first : Char} (rest : List Char) (h : first.isDigit = true) :
    read mode first rest = readNumber first rest := by
  rw [read_of_ne (ne_of_class h (by decide)), if_pos h]

theorem spells_integer {digits : List Char} (hsome : digits ≠ [])
    (hdigits : ∀ digit ∈ digits, digit.isDigit = true)
    (hrange : Nat.ofDigitChars 10 digits 0 ≤ maxInteger) (htail : Stops tail) :
    Spells mode (.integer (Int64.ofNat (Nat.ofDigitChars 10 digits 0))) digits tail := by
  obtain ⟨first, rest, rfl⟩ := List.exists_cons_of_ne_nil hsome
  rw [List.forall_mem_cons] at hdigits
  refine ⟨first, rest, rfl, ?_⟩
  obtain ⟨hwhole, hbehind⟩ := takeWhile_append_stop hdigits.2 (isDigit_of_stops htail)
  -- A point that no digit follows does not belong to the number.
  have hnone : Numeral.fractionOf tail = [] := by
    unfold Numeral.fractionOf
    split
    · rename_i rest
      cases rest with
      | nil => rfl
      | cons character rest =>
          rw [List.takeWhile_cons, htail.point _ rfl character rfl]
          rfl
    · rfl
  have hword := (takeWhile_stop htail.word).1
  rw [read_digit _ hdigits.1]
  simp [readNumber, Numeral.read, hwhole, hbehind, hnone, hword, Numeral.value, hrange,
    Numeral.malformed, Numeral.text, Numeral.digits, ofToken]

theorem spells_float {whole fraction : List Char} (hwhole : whole ≠ []) (hfraction : fraction ≠ [])
    (hdigits : ∀ digit ∈ whole ++ fraction, digit.isDigit = true) (htail : Stops tail) :
    Spells mode (.float (.ofDecimal (.ofDigits whole fraction))) (whole ++ '.' :: fraction) tail := by
  obtain ⟨first, rest, rfl⟩ := List.exists_cons_of_ne_nil hwhole
  rw [List.cons_append, List.forall_mem_cons, List.forall_mem_append] at hdigits
  refine ⟨first, rest ++ '.' :: fraction, rfl, ?_⟩
  have hpoint : ∀ character ∈ ('.' :: (fraction ++ tail)).head?, character.isDigit = false := by
    simp
  obtain ⟨htake, hdrop⟩ := takeWhile_append_stop hdigits.2.1 hpoint
  have hfound := (takeWhile_append_stop hdigits.2.2 (isDigit_of_stops htail)).1
  have hword := (takeWhile_stop htail.word).1
  rw [read_digit _ hdigits.1, List.append_assoc, List.cons_append]
  simp [readNumber, Numeral.read, htake, hdrop, Numeral.fractionOf, hfound, hfraction, hword,
    Numeral.value, Numeral.malformed, Numeral.text, Numeral.digits, ofToken]

/-! ### Words -/

theorem isDigit_of_isWordStart {first : Char} (h : isWordStart first = true) :
    first.isDigit = false := by
  by_contra hdigit
  rw [Bool.not_eq_false] at hdigit
  simp only [isWordStart, Bool.or_eq_true, beq_iff_eq] at h
  rcases h with halpha | rfl
  · simp [isAlpha_iff, Char.isDigit, UInt32.le_iff_toNat_le] at halpha hdigit
    omega
  · cases hdigit

theorem read_wordStart {first : Char} (rest : List Char) (h : isWordStart first = true) :
    read mode first rest = readWord first rest := by
  rw [read_of_ne (ne_of_class h (by decide)), isDigit_of_isWordStart h, if_neg Bool.false_ne_true,
    if_pos h]

theorem spells_word {word : List Char} (hword : isWord word = true)
    (htail : ∀ character ∈ tail.head?, isWordPart character = false) :
    Spells mode
      (((Keyword.ofText? (String.ofList word)).map TokenKind.keyword).getD
        (.name (String.ofList word) false)) word tail := by
  cases word with
  | nil => cases hword
  | cons first rest =>
      rw [isWord, Bool.and_eq_true, List.all_eq_true] at hword
      have hletters := (takeWhile_append_stop hword.2 htail).1
      refine ⟨first, rest, rfl, ?_⟩
      rw [read_wordStart _ hword.1, readWord, hletters]
      cases hkeyword : Keyword.ofText? (String.ofList (first :: rest)) with
      | none => rfl
      | some keyword => rfl

theorem spells_keyword (keyword : Keyword)
    (htail : ∀ character ∈ tail.head?, isWordPart character = false) :
    Spells mode (.keyword keyword) keyword.text.toList tail := by
  have hword : isWord keyword.text.toList = true := by cases keyword <;> decide
  have hkind : Spells mode _ keyword.text.toList tail := spells_word hword htail
  have hfound : Keyword.ofText? keyword.text = some keyword := by cases keyword <;> decide
  rwa [String.ofList_toList, hfound] at hkind

end Lexeme

/-! ## Quoted text -/

namespace Quote

theorem encode_cons (quote : Quote) (character : Char) (text : List Char) :
    quote.encode (character :: text) =
      if character = quote.delimiter then '\\' :: quote.delimiter :: quote.encode text
      else character :: quote.encode text := by
  unfold encode
  rw [List.flatMap_cons]
  split
  · rename_i h
    rw [h]
    rfl
  · rfl

/-- No quoted text begins with the delimiter, so a backslash in front of it stands for
itself. -/
theorem encode_begins (quote : Quote) {text : List Char} (h : text ≠ []) :
    ∃ first rest, quote.encode text = first :: rest ∧ first ≠ quote.delimiter := by
  cases text with
  | nil => exact absurd rfl h
  | cons character text =>
      rw [encode_cons]
      split
      · exact ⟨_, _, rfl, by cases quote <;> decide⟩
      · exact ⟨_, _, rfl, ‹_›⟩

theorem scan_delimiter (quote : Quote) (rest : List Char) :
    quote.scan (quote.delimiter :: rest) = ⟨[], 1, true⟩ := by
  cases rest <;> cases quote <;> rfl

/-- What is written in quotes is read as the text it was written for. -/
theorem scan_encode (quote : Quote) {text : List Char} (hline : '\n' ∉ text)
    (hlast : text.getLast? ≠ some '\\') (tail : List Char) :
    quote.scan (quote.encode text ++ quote.delimiter :: tail) =
      ⟨text, (quote.encode text).length + 1, true⟩ := by
  induction text with
  | nil => exact quote.scan_delimiter tail
  | cons character text ih =>
      rw [List.mem_cons, not_or] at hline
      have hrest : text.getLast? ≠ some '\\' := by
        intro h
        rw [List.getLast?_cons, h] at hlast
        exact hlast rfl
      have ih := ih hline.2 hrest
      rw [encode_cons]
      by_cases hquote : character = quote.delimiter
      · rw [if_pos hquote, List.cons_append, List.cons_append, scan, if_pos rfl, ih]
        simp only [Content.prepend, hquote, List.length_cons, Content.mk.injEq, true_and, and_true]
        omega
      rw [if_neg hquote, List.cons_append]
      -- A backslash is an escape in front of the delimiter only, and the text does not end with one.
      by_cases hescape : character = '\\'
      · have hsome : text ≠ [] := by
          rintro rfl
          rw [hescape] at hlast
          exact hlast rfl
        obtain ⟨first, rest, hencoded, hfirst⟩ := encode_begins quote hsome
        rw [hencoded, List.cons_append] at ih ⊢
        rw [hescape, scan, if_neg hfirst, ih]
        simp [Content.prepend, Nat.add_comm]
      · rw [scan, if_neg (Ne.symm hline.1), if_neg hquote, ih]
        · simp [Content.prepend, Nat.add_comm]
        · intro _ _ h _
          exact hescape h

end Quote

namespace Lexeme

theorem spells_quoted {text : String} (quote : Quote) (h : Quotable text) :
    Spells mode (quotedToken quote text) (quote.written text).toList tail := by
  refine ⟨quote.delimiter, quote.encode text.toList ++ [quote.delimiter], by rw [Quote.written]; simp, ?_⟩
  have hscan := Quote.scan_encode quote h.line h.last tail
  have hread : read mode quote.delimiter (quote.encode text.toList ++ quote.delimiter :: tail) =
      readQuoted quote (quote.encode text.toList ++ quote.delimiter :: tail) := by
    cases quote <;> rfl
  rw [List.append_assoc, List.singleton_append, hread, readQuoted, hscan]
  simp [ofToken]

/-- A name is read as a name, whichever way it is written. -/
theorem spells_name {name : String} (h : Quotable name)
    (htail : ∀ character ∈ tail.head?, isWordPart character = false) :
    Spells mode (.name name (!isBareName name)) (writtenName name).toList tail := by
  rw [writtenName]
  cases hbare : isBareName name with
  | false => exact spells_quoted .name h
  | true =>
      rw [isBareName, Bool.and_eq_true, Option.isNone_iff_eq_none] at hbare
      have hword : Spells mode _ name.toList tail := spells_word hbare.1 htail
      rwa [String.ofList_toList, hbare.2] at hword

/-! ### Directives -/

theorem spells_directive {word : List Char} {kind : TokenKind} (hatStart : mode.atStart = true)
    (hline : mode.isDirective = false) (hletters : ∀ character ∈ word, isWordPart character = true)
    (hkind : TokenKind.ofDirective? (String.ofList word) = some kind)
    (htail : ∀ character ∈ tail.head?, isWordPart character = false) :
    Spells mode kind ('%' :: word) tail := by
  refine ⟨'%', word, rfl, ?_⟩
  have hread : read mode '%' (word ++ tail) = readDirective (word ++ tail) := by
    rw [read_of_ne (by simp), if_neg (by decide), if_neg (by decide), if_pos rfl, hatStart, hline]
    rfl
  rw [hread, readDirective, (takeWhile_append_stop hletters htail).1]
  simp only [hkind]

theorem line_append {text : List Char} (hline : '\n' ∉ text) (tail : List Char) :
    Text.line (text ++ '\n' :: tail) = text := by
  refine (takeWhile_append_stop (p := (· != '\n')) (fun character hmem => ?_) (by simp)).1
  rw [bne_iff_ne]
  rintro rfl
  exact hline hmem

theorem trimEnd_of_last {text : List Char}
    (hlast : ∀ character ∈ text.getLast?, isBlank character = false) : Text.trimEnd text = text := by
  rw [Text.trimEnd]
  rw [← List.head?_reverse] at hlast
  cases hreverse : text.reverse with
  | nil =>
      rw [List.reverse_eq_nil_iff.mp hreverse]
      rfl
  | cons character rest =>
      rw [hreverse] at hlast
      rw [List.dropWhile_cons, hlast character rfl, if_neg Bool.false_ne_true, ← hreverse,
        List.reverse_reverse]

theorem spells_passage {text : String} (h : IsPassage text) (hatStart : mode.atStart = true)
    (hline : mode.isDirective = false) :
    Spells mode (.passage text) ('%' :: text.toList) ('\n' :: tail) := by
  refine ⟨'%', text.toList, rfl, ?_⟩
  have hread : read mode '%' (text.toList ++ '\n' :: tail) =
      readDirective (text.toList ++ '\n' :: tail) := by
    rw [read_of_ne (by simp), if_neg (by decide), if_neg (by decide), if_pos rfl, hatStart, hline]
    rfl
  have hsplit := List.takeWhile_append_dropWhile (p := isWordPart) (l := text.toList)
  have hremainder : '\n' ∉ text.toList.dropWhile isWordPart := by
    intro hmem
    exact h.line ((List.dropWhile_suffix _).subset hmem)
  have hlast : ∀ character ∈ (text.toList.dropWhile isWordPart).getLast?,
      isBlank character = false := by
    intro character hmem
    refine h.last character ?_
    rw [← hsplit, List.getLast?_append, hmem]
    rfl
  -- The word ends in the line, so the rest of the line is what is kept behind it.
  rw [hread, readDirective, takeWhile_line tail (by decide)]
  simp only [h.word, drop_takeWhile_line tail, drop_length_takeWhile, line_append hremainder,
    trimEnd_of_last hlast, hsplit, String.ofList_toList]

/-! ### Symbols -/

theorem spells_symbol (sign : Symbol)
    (htail : sign = .assign ∨ sign = .plus → tail.head? ≠ some '=') :
    Spells mode (.symbol sign) sign.text.toList tail := by
  cases sign
  case assign =>
    refine ⟨'=', [], rfl, ?_⟩
    rw [List.nil_append, read_of_ne (by simp)]
    simp [isWordStart, readSymbol, readPaired, htail (.inl rfl)]
    rfl
  case plus =>
    refine ⟨'+', [], rfl, ?_⟩
    rw [List.nil_append, read_of_ne (by simp)]
    simp [isWordStart, readSymbol, readPaired, htail (.inr rfl)]
    rfl
  all_goals exact ⟨_, _, rfl, rfl⟩

end Lexeme

end ConfLang
