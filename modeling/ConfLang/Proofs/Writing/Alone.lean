import ConfLang.Proofs.Scanning.Lexemes
import ConfLang.Proofs.Scanning.Lines
import ConfLang.Proofs.Writing.Token
import ConfLang.Tree.Source

/-!
# Names and strings are scanned as they were written

A text that is scanned alone as one token is that token and the end of the file, and nothing else:
no trivia and no problem (`IsScannedAs`).  A name or a string is written as such a text if and
only if it can be quoted, and what is read between quotes that are both there can be quoted.  So
writing and scanning undo each other on the texts that can be quoted, and on no other ones.

## Strategy

A backslash in front of a quote is always an escape, so a run of backslashes is written and read
character by character; only at the end of a text there is a quote that must not be escaped
(`Quote.scan_encode`, `Quote.scan_closed`).  A bare name is a word that is no keyword, which is
what the scanner asks of a word (`Lexeme.spells_name`).
-/

namespace ConfLang

/-- A text is scanned as one token that covers it, with no trivia and no problems. -/
structure IsScannedAs (text : String) (kind : TokenKind) : Prop where
  tokens : (Scanner.ofSource text).tokens.1 =
    [⟨kind, .between .start (Position.start.after text.toList)⟩,
      ⟨.endOfFile, .emptyAt (Position.start.after text.toList)⟩]
  trivia : (Scanner.ofSource text).tokens.2.trivia = #[]
  problems : (Scanner.ofSource text).tokens.2.problems = #[]

variable {text : String} {kind : TokenKind}

/-- What is read as a token when nothing follows is scanned as that token. -/
theorem Spells.isScannedAs (h : Spells {} kind text.toList []) : IsScannedAs text kind := by
  obtain ⟨first, rest, htext, hread⟩ := h
  rw [List.append_nil] at hread
  have hstart : (Cursor.ofSource text).rest = first :: rest := htext
  have hpiece := Cursor.piece?_of_rest hstart
  have hmode : (Cursor.ofSource text).mode = {} := rfl
  have hposition : (Cursor.ofSource text).position = .start := rfl
  have hrest : (Cursor.ofSource text).rest = text.toList := rfl
  have hwidth : (Lexeme.ofToken kind rest.length).width = text.toList.length := by
    rw [htext]
    rfl
  simp only [hmode, hread, hposition, hwidth, Cursor.advance, hrest, List.take_length,
    List.drop_length] at hpiece
  obtain ⟨htokens, htrivia, hproblems⟩ := Scanner.tokens_of_pieces (.cons hpiece .nil) rfl
  exact ⟨htokens, Array.toList_inj.mp htrivia, Array.toList_inj.mp hproblems⟩

/-- Nothing is wrong with the first token, which is the one that the text is scanned as. -/
theorem IsScannedAs.next (h : IsScannedAs text kind) :
    (Cursor.ofSource text).next.token.kind = kind ∧ (Cursor.ofSource text).next.problems = [] := by
  have hne : (Cursor.ofSource text).next.token.kind ≠ .endOfFile := by
    intro hend
    have hone := congrArg List.length h.tokens
    change ((Cursor.ofSource text).scans.map Scan.token).length = 2 at hone
    rw [Cursor.scans_of_endOfFile hend] at hone
    cases hone
  have hscans := Cursor.scans_of_ne hne
  constructor
  · have hfirst := congrArg List.head? h.tokens
    change ((Cursor.ofSource text).scans.map Scan.token).head? = _ at hfirst
    rw [hscans] at hfirst
    exact congrArg Token.kind (Option.some.inj hfirst)
  · have hnone : (Scanner.ofSource text).tokens.2.problems.toList = [] := by rw [h.problems]
    have hrecord := (Scanner.foldl_record (Cursor.ofSource text).scans (.ofSource text)).2
    rw [hscans, List.flatMap_cons] at hrecord
    change ((Cursor.ofSource text).scans.foldl Scanner.record (.ofSource text)).problems.toList = []
      at hnone
    rw [hscans, hrecord] at hnone
    exact (List.append_eq_nil_iff.mp (List.append_eq_nil_iff.mp hnone).2).1

/-- What is scanned without a problem can be written. -/
theorem IsScannedAs.isWritable (h : IsScannedAs text kind) : kind.IsWritable := by
  obtain ⟨hkind, hproblems⟩ := h.next
  rcases (Cursor.ofSource text).writable_next with hwritable | ⟨quote, problem, hmem, -⟩
  · rwa [hkind] at hwritable
  · rw [hproblems] at hmem
    cases hmem

/-! ## The main result -/

theorem Lexeme.quotable_of_isWritable {quote : Quote}
    (h : (Lexeme.quotedToken quote text).IsWritable) : Quotable text := by
  cases quote <;> exact h

/-- Quoted text is scanned as it was written if and only if it can be quoted. -/
theorem isScannedAs_quoted_iff (quote : Quote) :
    IsScannedAs (quote.written text) (Lexeme.quotedToken quote text) ↔ Quotable text :=
  ⟨fun h => Lexeme.quotable_of_isWritable h.isWritable,
    fun h => (Lexeme.spells_quoted quote h).isScannedAs⟩

/-- A name is scanned as it was written if and only if it can be quoted. -/
theorem isScannedAs_name_iff :
    IsScannedAs (writtenName text) (.name text (!isBareName text)) ↔ Quotable text :=
  ⟨fun h => h.isWritable, fun h => (Lexeme.spells_name h (by simp)).isScannedAs⟩

/-- What was given without an unterminated quote can be quoted. -/
theorem quotable_of_mem_answers {source : String} {requests : List Request} {token : Token}
    {quote : Quote} (hmem : token ∈ ((Scanner.ofSource source).answers requests).1)
    (hkind : token.kind = Lexeme.quotedToken quote text)
    (hclosed : ∀ quote', ⟨.unterminated quote', token.span.firstByte⟩ ∉
      ((Scanner.ofSource source).answers requests).2.problems) : Quotable text := by
  have hscanned : token.kind.isScanned = true := by
    rw [hkind]
    cases quote <;> rfl
  obtain ⟨mode, first, rest, hread, -, hproblems⟩ := Scanner.exists_lexeme hmem hscanned
  rcases Lexeme.writable_read hread with hwritable | ⟨quote', hfault⟩
  · rw [hkind] at hwritable
    exact Lexeme.quotable_of_isWritable hwritable
  · -- The fault would have been recorded at the opening quote.
    have hrecorded : ⟨.unterminated quote', token.span.firstByte⟩ ∈
        ((Scanner.ofSource source).answers requests).2.problemsIn token.span := by
      rw [hproblems]
      exact List.mem_map_of_mem hfault
    exact absurd (Array.mem_toList_iff.mp (List.mem_of_mem_filter hrecorded)) (hclosed quote')

/-- **Writing and scanning undo each other on the texts that can be quoted.**  A name is scanned
alone as one token with that name, a bare one if and only if it is a bare name, just when it stays
on its line and does not end in a backslash; so is a string.  And whatever is asked of a scanner,
each quoted name and each string that it gives carries such a text, unless its quote is recorded
as one that lacks its end. -/
theorem quoted_texts_scanned :
    (∀ identifier : Identifier, Quotable identifier.name ↔
      IsScannedAs identifier.text (.name identifier.name (!isBareName identifier.name))) ∧
    (∀ text span, Quotable text ↔
      IsScannedAs (Expression.source (.string text span)) (.string text)) ∧
    ∀ source requests, ∀ token ∈ ((Scanner.ofSource source).answers requests).1,
      ∀ quote text, token.kind = Lexeme.quotedToken quote text →
        (∀ quote', ⟨.unterminated quote', token.span.firstByte⟩ ∉
          ((Scanner.ofSource source).answers requests).2.problems) → Quotable text := by
  refine ⟨fun _ => isScannedAs_name_iff.symm, fun _ _ => ?_, fun _ _ _ hmem _ _ hkind hclosed => ?_⟩
  · exact (isScannedAs_quoted_iff .string).symm
  · exact quotable_of_mem_answers hmem hkind hclosed

end ConfLang
