import ConfLang.Token.Lexeme

/-!
# The cases of a lexeme

The first character of a lexeme tells by which function it is read (`Lexeme.read_cases`), and each
of these functions gives tokens of a few kinds only.  What is true of all lexemes, or of all those
of some kind, is proved by these cases, so that no other proof depends on the order in which the
first character is asked about.
-/

namespace ConfLang.Lexeme

variable {mode : LineMode} {first : Char} {rest : List Char}

/-- The cases of a lexeme, by its first character. -/
theorem read_cases {P : Lexeme → Prop}
    (spacing : Text.isSpacing first = true →
      P ⟨.trivia .spacing, (rest.takeWhile Text.isSpacing).length, []⟩)
    (lineFeed : first = '\n' →
      P (if mode.isDirective then ofToken .endOfLine else ⟨.trivia .newline, 0, []⟩))
    (comment : first = '#' → P ⟨.trivia .comment, (Text.line rest).length, []⟩)
    (quoted : ∀ quote, Quote.ofDelimiter? first = some quote → P (readQuoted quote rest))
    (number : first.isDigit = true → P (readNumber first rest))
    (word : Text.isWordStart first = true → P (readWord first rest))
    (percent : first = '%' →
      P (if mode.atStart && !mode.isDirective then readDirective rest else reject .strayPercent))
    (symbol : P (readSymbol first rest)) : P (read mode first rest) := by
  unfold read
  split
  · exact spacing ‹_›
  split
  · exact lineFeed ‹_›
  split
  · exact comment ‹_›
  unfold readToken
  split
  · exact quoted _ ‹_›
  split
  · exact number ‹_›
  split
  · exact word ‹_›
  split
  · exact percent ‹_›
  · exact symbol

theorem read_percent (mode : LineMode) (rest : List Char) : read mode '%' rest =
    if mode.atStart && !mode.isDirective then readDirective rest else reject .strayPercent := rfl

/-! ## What is read from a first character on -/

theorem kind_readNumber (first : Char) (rest : List Char) :
    (∃ value, (readNumber first rest).kind = .token (.integer value)) ∨
      ∃ value, (readNumber first rest).kind = .token (.float value) := by
  unfold readNumber Numeral.value
  simp only
  split
  · split <;> exact .inl ⟨_, rfl⟩
  · exact .inr ⟨_, rfl⟩

theorem readWord_cases (first : Char) (rest : List Char) :
    (∃ word further, readWord first rest = ofToken (.keyword word) further) ∨
      ∃ text further, readWord first rest = ofToken (.name text false) further := by
  unfold readWord
  simp only
  split
  · exact .inl ⟨_, _, rfl⟩
  · exact .inr ⟨_, _, rfl⟩

theorem readDirective_cases (rest : List Char) :
    (∃ word kind further, TokenKind.ofDirective? word = some kind ∧
        readDirective rest = ofToken kind further) ∨
      ∃ text further, readDirective rest = ofToken (.passage text) further := by
  unfold readDirective
  simp only
  split
  · exact .inl ⟨_, _, _, ‹_›, rfl⟩
  · exact .inr ⟨_, _, rfl⟩

/-- A character that begins no symbol is rejected, and so is half of an operator. -/
theorem readSymbol_cases (first : Char) (rest : List Char) :
    (∃ sign further, readSymbol first rest = ofSymbol sign further) ∨
      ((∃ character, readSymbol first rest = reject (.loneOperator character)) ∨
        ∃ character, readSymbol first rest = reject (.unexpectedCharacter character)) := by
  unfold readSymbol readPaired readDoubled
  split <;> split
  all_goals first
    | exact .inl ⟨_, _, rfl⟩
    | exact .inr (.inl ⟨_, rfl⟩)
    | exact .inr (.inr ⟨_, rfl⟩)

end ConfLang.Lexeme
