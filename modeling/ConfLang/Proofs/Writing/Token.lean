import ConfLang.Proofs.Grammar.Scan
import ConfLang.Proofs.Growth
import ConfLang.Proofs.Writing.Spelling

/-!
# Tokens that are read can be written

Whatever token is read, it can be written and read again, unless it is a quoted text that lacks
its closing quote: this text could end in a backslash, which would escape a closing quote.  Such
a token is always reported, as long as the reading has not stopped.
-/

namespace ConfLang

open Text

/-! ## Quoted text -/

namespace Quote

variable {quote : Quote}

/-- Only in front of the closing quote nothing is left to read. -/
theorem text_scan_ne_nil {first : Char} {rest : List Char}
    (hclosed : (quote.scan (first :: rest)).closed = true) (h : first ≠ quote.delimiter) :
    (quote.scan (first :: rest)).text ≠ [] := by
  unfold scan at hclosed ⊢
  split at hclosed
  · cases hclosed
  · split <;> exact List.cons_ne_nil _ _
  · rename_i heq
    obtain ⟨rfl, rfl⟩ := List.cons.inj heq
    by_cases hline : first = '\n'
    · rw [if_pos hline] at hclosed
      cases hclosed
    · rw [if_neg hline, if_neg h]
      exact List.cons_ne_nil _ _

/-- What stands between two quotes stays on its line and does not escape the second one. -/
theorem scan_closed {rest : List Char} (hclosed : (quote.scan rest).closed = true) :
    '\n' ∉ (quote.scan rest).text ∧ (quote.scan rest).text.getLast? ≠ some '\\' := by
  -- The cases are the end of the text, an escaped quote, a backslash that escapes nothing, the end
  -- of the line, the closing quote, and any other character.
  fun_induction Quote.scan quote rest with
  | case1 => cases hclosed
  | case2 rest ih =>
      obtain ⟨hline, hlast⟩ := ih hclosed
      have hdelimiter : quote.delimiter ≠ '\n' ∧ quote.delimiter ≠ '\\' := by
        cases quote <;> decide
      refine ⟨?_, ?_⟩
      · simp [Content.prepend, hline, hdelimiter.1.symm]
      · simp only [Content.prepend, List.getLast?_cons]
        cases hrest : (quote.scan rest).text.getLast? with
        | none => simpa using hdelimiter.2
        | some character =>
            rw [hrest] at hlast
            exact hlast
  | case3 character rest hquote ih =>
      obtain ⟨hline, hlast⟩ := ih hclosed
      refine ⟨?_, ?_⟩
      · simp [Content.prepend, hline]
      · have hsome := text_scan_ne_nil hclosed hquote
        simp only [Content.prepend, List.getLast?_cons]
        cases hrest : (quote.scan (character :: rest)).text.getLast? with
        | none => exact absurd (List.getLast?_eq_none_iff.mp hrest) hsome
        | some other =>
            rw [hrest] at hlast
            exact hlast
  | case4 => cases hclosed
  | case5 => exact ⟨List.not_mem_nil, by simp⟩
  | case6 character rest hescape hline hquote ih =>
      obtain ⟨hbehind, hlast⟩ := ih hclosed
      refine ⟨?_, ?_⟩
      · simp [Content.prepend, hbehind, Ne.symm hline]
      · simp only [Content.prepend, List.getLast?_cons]
        cases hrest : (quote.scan rest).text.getLast? with
        | none =>
            intro hbackslash
            -- A backslash alone would escape what follows it, and a quote has to follow.
            cases rest with
            | nil => cases hclosed
            | cons next rest => exact hescape next rest (Option.some.inj hbackslash) rfl
        | some other =>
            rw [hrest] at hlast
            exact hlast

end Quote

/-! ## Texts that are cut out of a line -/

theorem Text.last_trimEnd (characters : List Char) :
    ∀ character ∈ (trimEnd characters).getLast?, isBlank character = false := by
  intro character hmem
  rw [trimEnd, List.getLast?_reverse] at hmem
  have hstop := List.head?_dropWhile_not isBlank characters.reverse
  rw [hmem] at hstop
  simpa using hstop

theorem Text.head?_trimEnd_line {p : Char → Bool} {characters : List Char}
    (h : ∀ character ∈ characters.head?, p character = false) :
    ∀ character ∈ (trimEnd (line characters)).head?, p character = false := by
  have hprefix := (isPrefix_trimEnd (line characters)).trans (List.takeWhile_prefix _)
  intro character hmem
  obtain ⟨rest, hrest⟩ := List.head?_eq_some_iff.mp hmem
  obtain ⟨behind, hbehind⟩ := hprefix
  refine h character ?_
  rw [← hbehind, hrest]
  rfl

theorem head?_dropWhile_stop (p : Char → Bool) (characters : List Char) :
    ∀ character ∈ (characters.dropWhile p).head?, p character = false := by
  intro character hmem
  have hstop := List.head?_dropWhile_not p characters
  rw [hmem] at hstop
  simpa using hstop

theorem isRestOfLine_rawLine (cursor : Cursor) : IsRestOfLine cursor.rawLine.text where
  line := by
    rw [Cursor.rawLine, String.toList_ofList]
    exact not_mem_trimEnd_line _
  first := by
    rw [Cursor.rawLine, String.toList_ofList]
    refine head?_trimEnd_line ?_
    rw [Cursor.advance, Cursor.spacing]
    have hdrop : cursor.rest.drop (cursor.rest.takeWhile isSpacing).length =
        cursor.rest.dropWhile isSpacing := drop_length_takeWhile _ _
    rw [hdrop]
    exact head?_dropWhile_stop _ _
  last := by
    rw [Cursor.rawLine, String.toList_ofList]
    exact last_trimEnd _

/-! ## Lexemes -/

/-- Whether a token is written in a way that can be read again. -/
def TokenKind.IsWritable : TokenKind → Prop
  | integer value => 0 ≤ value
  | float value => value.isNegative = false ∧ value.isNaN = false
  | string text | name text _ => Quotable text
  | passage text => IsPassage text
  | _ => True

namespace Lexeme

variable {mode : LineMode} {first : Char} {rest : List Char} {kind : TokenKind}

theorem quotable_word {word : List Char} (h : ∀ character ∈ word, isWordPart character = true) :
    Quotable (String.ofList word) where
  line := by
    rw [String.toList_ofList]
    intro hmem
    exact absurd (h _ hmem) (by decide)
  last := by
    rw [String.toList_ofList]
    intro hlast
    exact absurd (h _ (List.mem_of_getLast? hlast)) (by decide)

theorem writable_quoted (quote : Quote) (rest : List Char) :
    (quotedToken quote (String.ofList (quote.scan rest).text)).IsWritable ∨
      .unterminated quote ∈ (readQuoted quote rest).faults := by
  cases hclosed : (quote.scan rest).closed with
  | false =>
      right
      rw [readQuoted, hclosed]
      exact List.mem_singleton_self _
  | true =>
      left
      obtain ⟨hline, hlast⟩ := Quote.scan_closed hclosed
      have hquotable : Quotable (String.ofList (quote.scan rest).text) := by
        constructor
        · rwa [String.toList_ofList]
        · rwa [String.toList_ofList]
      cases quote <;> exact hquotable

theorem writable_number (first : Char) (rest : List Char)
    (h : (readNumber first rest).kind = .token kind) : kind.IsWritable := by
  unfold readNumber at h
  simp only [LexemeKind.token.injEq] at h
  subst h
  unfold Numeral.value
  split
  · simp only
    split
    · rename_i hrange
      unfold maxInteger at hrange
      simp only [TokenKind.IsWritable]
      rw [Int64.le_iff_toInt_le, Int64.toInt_ofNat_of_lt (by omega)]
      exact Int64.toInt_zero ▸ Int.natCast_nonneg _
    · exact (by decide : 0 ≤ Int64.ofNat maxInteger)
  · exact Binary64.ofDecimal_isNegative _

theorem isPassage_readDirective
    (h : TokenKind.ofDirective? (String.ofList (rest.takeWhile isWordPart)) = none) :
    IsPassage (String.ofList (rest.takeWhile isWordPart ++
      trimEnd (line (rest.drop (rest.takeWhile isWordPart).length)))) := by
  rw [drop_length_takeWhile]
  have hletters : ∀ character ∈ rest.takeWhile isWordPart, isWordPart character = true :=
    fun _ hmem => List.mem_takeWhile_imp hmem
  constructor
  · rw [String.toList_ofList, List.mem_append, not_or]
    refine ⟨fun hmem => ?_, not_mem_trimEnd_line _⟩
    exact absurd (hletters _ hmem) (by decide)
  · rw [String.toList_ofList, List.getLast?_append]
    intro character hmem
    cases hlast : (trimEnd (line (rest.dropWhile isWordPart))).getLast? with
    | some last =>
        rw [hlast] at hmem
        cases hmem
        exact last_trimEnd _ _ hlast
    | none =>
        -- Nothing is kept behind the word, so it is a letter of the word that is the last one.
        rw [hlast] at hmem
        exact isBlank_of_isWordPart (hletters _ (List.mem_of_getLast? hmem))
  · rw [String.toList_ofList, (takeWhile_append_stop hletters
      (head?_trimEnd_line (head?_dropWhile_stop _ _))).1]
    exact h

theorem writable_word (hstart : isWordStart first = true)
    (h : (readWord first rest).kind = .token kind) : kind.IsWritable := by
  have hfirst : isWordPart first = true := by
    simp only [isWordStart, isWordPart, Char.isAlphanum, Bool.or_eq_true] at hstart ⊢
    exact hstart.imp_left .inl
  unfold readWord at h
  simp only at h
  split at h
  · cases h
    trivial
  · cases h
    exact quotable_word (List.forall_mem_cons.mpr ⟨hfirst, fun _ => List.mem_takeWhile_imp⟩)

theorem writable_directive (h : (readDirective rest).kind = .token kind) : kind.IsWritable := by
  unfold readDirective at h
  simp only at h
  split at h
  · rename_i hkind
    cases h
    have hstarts := startsDirectiveLine_of_ofDirective? hkind
    cases kind <;> trivial
  · rename_i hnone
    cases h
    exact isPassage_readDirective hnone

theorem writable_symbol (h : (readSymbol first rest).kind = .token kind) : kind.IsWritable := by
  rcases readSymbol_cases first rest with ⟨_, _, hsign⟩ | ⟨_, hlone⟩ | ⟨_, hother⟩
  · rw [hsign] at h
    cases h
    trivial
  · rw [hlone] at h
    cases h
  · rw [hother] at h
    cases h

/-- A token that is read can be written, or it is quoted text that lacks its end. -/
theorem writable_read (h : (read mode first rest).kind = .token kind) :
    kind.IsWritable ∨ ∃ quote, .unterminated quote ∈ (read mode first rest).faults := by
  revert h
  refine read_cases (P := fun lexeme => lexeme.kind = .token kind →
      kind.IsWritable ∨ ∃ quote, .unterminated quote ∈ lexeme.faults) ?spacing ?lineFeed ?comment
    ?quoted ?number ?word ?percent ?symbol
  case spacing | comment => exact fun _ => nofun
  case lineFeed =>
    intro _
    split
    · rintro ⟨⟩
      exact .inl trivial
    · exact nofun
  case quoted =>
    rintro quote _ ⟨⟩
    exact (writable_quoted quote rest).imp_right fun hfault => ⟨quote, hfault⟩
  case number => exact fun _ h => .inl (writable_number first rest h)
  case word => exact fun hstart h => .inl (writable_word hstart h)
  case percent =>
    intro _
    split
    · exact fun h => .inl (writable_directive h)
    · exact nofun
  case symbol => exact fun h => .inl (writable_symbol h)

end Lexeme

/-! ## The next token -/

/-- The next token can be written, or it is quoted text that lacks its end. -/
theorem Cursor.writable_next (cursor : Cursor) : cursor.next.token.kind.IsWritable ∨
    ∃ quote, ∃ problem ∈ cursor.next.problems, problem.cause = .unterminated quote := by
  fun_induction Cursor.next cursor with
  | case1 => exact .inl trivial
  | case2 cursor piece after hpiece token htoken =>
      obtain ⟨first, rest, -, hread, hfaults, -⟩ := eq_of_piece? hpiece
      rcases Lexeme.writable_read (hread ▸ kind_of_token? htoken) with h | ⟨quote, h⟩
      · exact .inl h
      · rw [← hfaults] at h
        exact .inr ⟨quote, ⟨_, piece.faultSpan (.unterminated quote)⟩,
          List.mem_append_right _ (List.mem_map_of_mem h), rfl⟩
  | case3 cursor piece after hpiece htoken scan ih =>
      rcases ih with h | ⟨quote, problem, hmem, hcause⟩
      · exact .inl h
      · refine .inr ⟨quote, problem, ?_, hcause⟩
        rw [Scan.problems_pass]
        exact List.mem_append_right _ hmem

end ConfLang
