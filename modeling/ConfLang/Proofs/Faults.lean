import ConfLang.Proofs.LexemeCases
import ConfLang.Token.Cursor

/-!
# What can be wrong about lexemes

The causes that are found while a source is cut into lexemes are lexical ones, and a quote
can lack its end only where a lexeme begins with a delimiter.
-/

namespace ConfLang

namespace Lexeme

variable {mode : LineMode} {first : Char} {rest : List Char} {cause : Cause}

theorem faults_ofToken (kind : TokenKind) (further : Nat) : (ofToken kind further).faults = [] :=
  rfl

theorem faults_readWord (first : Char) (rest : List Char) : (readWord first rest).faults = [] := by
  rcases readWord_cases first rest with ⟨_, _, hword⟩ | ⟨_, _, hword⟩ <;>
    rw [hword, faults_ofToken]

theorem faults_readDirective (rest : List Char) : (readDirective rest).faults = [] := by
  rcases readDirective_cases rest with ⟨_, _, _, -, hword⟩ | ⟨_, _, hword⟩ <;>
    rw [hword, faults_ofToken]

theorem cause_of_mem_readNumber (h : cause ∈ (readNumber first rest).faults) :
    (∃ text, cause = .malformedNumber text) ∨ ∃ digits, cause = .integerOutOfRange digits := by
  simp only [readNumber, Numeral.malformed, Numeral.value, List.mem_append] at h
  rcases h with h | h
  · split at h
    · cases h
    · exact .inl ⟨_, List.mem_singleton.mp h⟩
  · repeat' split at h
    all_goals simp only [List.mem_singleton, List.not_mem_nil] at h
    exact .inr ⟨_, h⟩

theorem cause_of_mem_readSymbol (h : cause ∈ (readSymbol first rest).faults) :
    (∃ character, cause = .loneOperator character) ∨
      ∃ character, cause = .unexpectedCharacter character := by
  rcases readSymbol_cases first rest with ⟨_, _, hsign⟩ | ⟨character, hlone⟩ | ⟨character, hother⟩
  · rw [hsign] at h
    cases h
  · rw [hlone] at h
    exact .inl ⟨character, List.mem_singleton.mp h⟩
  · rw [hother] at h
    exact .inr ⟨character, List.mem_singleton.mp h⟩

/-- A quote without its end begins with a delimiter; anything else is lexical, too. -/
theorem cause_of_mem_read (h : cause ∈ (read mode first rest).faults) :
    (∃ quote, Quote.ofDelimiter? first = some quote ∧ cause = .unterminated quote) ∨
      cause.kind = .lexical ∧ ∀ quote, cause ≠ .unterminated quote := by
  revert h
  refine read_cases (P := fun lexeme => cause ∈ lexeme.faults → _) ?spacing ?lineFeed ?comment
    ?quoted ?number ?word ?percent ?symbol
  case spacing | comment => exact fun _ => nofun
  case lineFeed =>
    intro _
    split <;> exact nofun
  case quoted =>
    intro quote hquote
    unfold readQuoted
    simp only
    split
    · exact nofun
    · exact fun h => .inl ⟨quote, hquote, List.mem_singleton.mp h⟩
  case number =>
    refine fun _ h => .inr ?_
    rcases cause_of_mem_readNumber h with ⟨_, rfl⟩ | ⟨_, rfl⟩ <;> exact ⟨rfl, nofun⟩
  case word =>
    intro _ h
    rw [faults_readWord] at h
    cases h
  case percent =>
    refine fun _ h => .inr ?_
    split at h
    · rw [faults_readDirective] at h
      cases h
    · rw [List.mem_singleton.mp h]
      exact ⟨rfl, nofun⟩
  case symbol =>
    refine fun h => .inr ?_
    rcases cause_of_mem_readSymbol h with ⟨_, rfl⟩ | ⟨_, rfl⟩ <;> exact ⟨rfl, nofun⟩

/-- Only what begins with a delimiter lacks the closing one. -/
theorem delimiter_of_unterminated {quote : Quote}
    (h : .unterminated quote ∈ (read mode first rest).faults) : first = '\'' ∨ first = '"' := by
  rcases cause_of_mem_read h with ⟨quote', hquote, -⟩ | ⟨-, hnot⟩
  · unfold Quote.ofDelimiter? at hquote
    split at hquote
    · exact .inl ‹_›
    · split at hquote
      · exact .inr ‹_›
      · cases hquote
  · exact absurd rfl (hnot quote)

/-- What is wrong about a lexeme is lexical. -/
theorem kind_of_mem_read (h : cause ∈ (read mode first rest).faults) : cause.kind = .lexical := by
  rcases cause_of_mem_read h with ⟨quote, -, rfl⟩ | ⟨hkind, -⟩
  · rfl
  · exact hkind

end Lexeme

/-- What is wrong with a piece that is passed over comes first. -/
theorem Scan.problems_pass (piece : Piece) (scan : Scan) :
    Scan.problems { scan with passed := piece :: scan.passed } =
      piece.problems ++ scan.problems := by
  rw [Scan.problems, List.flatMap_cons, List.append_assoc]
  rfl

namespace Cursor

variable {cursor after : Cursor} {piece : Piece} {problem : Problem}

theorem kind_of_mem_piece? (hpiece : cursor.piece? = some (piece, after))
    (h : problem ∈ piece.problems) : problem.cause.kind = .lexical := by
  unfold piece? at hpiece
  split at hpiece
  · cases hpiece
  · cases hpiece
    obtain ⟨cause, hcause, rfl⟩ := List.mem_map.mp h
    exact Lexeme.kind_of_mem_read hcause

/-- What is wrong on the way to a token is lexical. -/
theorem kind_of_mem_next (h : problem ∈ cursor.next.problems) : problem.cause.kind = .lexical := by
  fun_induction Cursor.next cursor with
  | case1 cursor hnone => cases h
  | case2 cursor piece after hpiece token htoken => exact kind_of_mem_piece? hpiece h
  | case3 cursor piece after hpiece htoken scan ih =>
      rw [Scan.problems_pass, List.mem_append] at h
      rcases h with h | h
      · exact kind_of_mem_piece? hpiece h
      · exact ih h

end Cursor

end ConfLang
