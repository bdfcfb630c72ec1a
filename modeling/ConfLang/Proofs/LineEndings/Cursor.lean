import ConfLang.Proofs.Likeness.Basic
import ConfLang.Proofs.LineEndings.Lexeme
import ConfLang.Proofs.Relocation.Joined

/-!
# Cursors in front of carriage returns

A cursor in a source and one in the same source with carriage returns go the same way.  They stand
at the same line and column with the same text behind them, or both in front of the same line
feed: there the second one may be a column further, if what came last took in the carriage return
(`Cursor.Alongside`).  So both find the same tokens at the same places, but for the place of a
line feed, and but for a quote that is not closed, which is reported (`Cursor.Alongside.next`).
-/

namespace ConfLang

/-! ## Places -/

/-- Two positions with the same line and column. -/
structure Position.Level (position other : Position) : Prop where
  line : other.line = position.line
  column : other.column = position.column

/-- Two spans that begin at the same line and column. -/
structure Span.Level (span other : Span) : Prop where
  line : other.line = span.line
  column : other.column = span.column

theorem Position.Level.after {position other : Position} (h : position.Level other)
    (text : List Char) : (position.after text).Level (other.after text) := by
  induction text generalizing position other with
  | nil => exact h
  | cons first rest ih =>
      rw [after_cons, after_cons]
      apply ih
      unfold next
      split
      · exact ⟨congrArg (· + 1) h.line, rfl⟩
      · exact ⟨h.line, congrArg (· + 1) h.column⟩

theorem Position.line_after_return (position : Position) (text : List Char) :
    (position.after (text ++ ['\r'])).line = (position.after text).line := by
  rw [after_append]
  rfl

/-! ## Tokens and problems -/

/-- Two tokens are the same up to their places.  They stand at the same line and column unless
they end a line, and if a quote may be cut off, the text of the second one may go on with a
carriage return. -/
structure Token.Alongside (cut : Prop) (token other : Token) : Prop where
  kind : token.kind.Like (fun text text' => text' = text ∨ cut ∧ text' = text ++ "\r") other.kind
  line : other.span.line = token.span.line
  level : token.kind ≠ .endOfLine → token.span.Level other.span

theorem Token.Alongside.imp {cut cut' : Prop} (hcut : cut → cut') {token other : Token}
    (h : token.Alongside cut other) : token.Alongside cut' other :=
  ⟨h.kind.imp fun _ _ => .imp_right (.imp_left hcut), h.line, h.level⟩

/-- Two problems with the same cause on the same line. -/
structure Problem.Alongside (problem other : Problem) : Prop where
  cause : other.cause = problem.cause
  line : other.span.line = problem.span.line

/-- Two lexemes are the same, or a quote that is not closed goes on with a carriage return. -/
def LexemeKind.Alongside (faults : List Cause) (kind other : LexemeKind) : Prop :=
  other = kind ∨ ∃ quote text, .unterminated quote ∈ faults ∧
    kind = .token (Lexeme.quotedToken quote text) ∧
    other = .token (Lexeme.quotedToken quote (text ++ "\r"))

/-- Two pieces with the same beginning, the second of which may take in a carriage return. -/
structure Piece.Alongside (piece other : Piece) : Prop where
  kind : piece.kind.Alongside piece.faults other.kind
  faults : other.faults = piece.faults
  line : other.span.line = piece.span.line
  level : ∀ kind, piece.kind = .token kind → kind ≠ .endOfLine → piece.span.Level other.span

/-- What happens to a lexeme at the end of its line. -/
theorem Lexeme.Returned.alongside {length : Nat} {lexeme other : Lexeme}
    (h : Returned length lexeme other) : lexeme.kind.Alongside lexeme.faults other.kind ∧
      other.faults = lexeme.faults ∧
      (other = lexeme ∨ lexeme.further = length ∧ other.further = length + 1) := by
  cases h with
  | same lexeme => exact ⟨.inl rfl, rfl, .inl rfl⟩
  | trivia kind => exact ⟨.inl rfl, rfl, .inr ⟨rfl, rfl⟩⟩
  | quoted quote text =>
      refine ⟨.inr ⟨quote, String.ofList text, List.mem_singleton.mpr rfl, rfl, ?_⟩, rfl,
        .inr ⟨rfl, rfl⟩⟩
      rw [String.ofList_append]

theorem Lexeme.like_quotedToken {like : String → String → Prop} {quote : Quote}
    {text text' : String} (h : like text text') :
    (quotedToken quote text).Like like (quotedToken quote text') := by
  cases quote with
  | name => exact .name h
  | string => exact .string h

namespace Piece.Alongside

variable {piece other : Piece}

theorem problems (h : piece.Alongside other) :
    List.Forall₂ Problem.Alongside piece.problems other.problems := by
  rw [Piece.problems, Piece.problems, h.faults, List.forall₂_map_left_iff,
    List.forall₂_map_right_iff]
  refine List.forall₂_same.mpr fun cause _ => ⟨rfl, ?_⟩
  unfold faultSpan
  split <;> exact h.line

theorem token? (h : piece.Alongside other) {token : Token} (htoken : piece.token? = some token) :
    ∃ token', other.token? = some token' ∧
      token.Alongside (∃ quote, ∃ problem ∈ piece.problems, problem.cause = .unterminated quote)
        token' := by
  have hkind := Cursor.kind_of_token? htoken
  have hspan : token.span = piece.span := by
    rw [Piece.token?, hkind] at htoken
    rw [← Option.some.inj htoken]
  rcases h.kind with hsame | ⟨quote, text, hfault, hkind', hother⟩
  · refine ⟨⟨token.kind, other.span⟩, by rw [Piece.token?, hsame, hkind], .same _, ?_, ?_⟩
    · rw [hspan]
      exact h.line
    · rw [hspan]
      exact h.level _ hkind
  · refine ⟨⟨_, other.span⟩, by rw [Piece.token?, hother], ?_, ?_, ?_⟩
    · have hcut : ∃ quote, ∃ problem ∈ piece.problems, problem.cause = .unterminated quote :=
        ⟨quote, _, List.mem_map_of_mem hfault, rfl⟩
      rw [LexemeKind.token.inj (hkind.symm.trans hkind')]
      exact Lexeme.like_quotedToken (.inr ⟨hcut, rfl⟩)
    · rw [hspan]
      exact h.line
    · rw [hspan]
      exact h.level _ hkind

theorem token?_none (h : piece.Alongside other) (htoken : piece.token? = none) :
    other.token? = none := by
  rcases h.kind with hsame | ⟨quote, text, -, hkind, -⟩
  · unfold Piece.token? at htoken ⊢
    rw [hsame]
    split at htoken
    · cases htoken
    · rfl
  · rw [Piece.token?, hkind] at htoken
    cases htoken

end Piece.Alongside

/-! ## Cursors -/

namespace Cursor

/-- Two cursors at the same line and column, the second one with carriage returns in the text
behind it. -/
structure Level (cursor other : Cursor) : Prop where
  rest : other.rest = Text.withReturns cursor.rest
  mode : other.mode = cursor.mode
  position : cursor.position.Level other.position

/-- Two cursors in front of the same line feed, the second one behind the carriage return. -/
structure BehindReturn (cursor other : Cursor) : Prop where
  rest : ∃ tail, cursor.rest = '\n' :: tail ∧ other.rest = '\n' :: Text.withReturns tail
  mode : other.mode = cursor.mode
  line : other.position.line = cursor.position.line

/-- Two cursors at the same place of a source without and with carriage returns. -/
def Alongside (cursor other : Cursor) : Prop :=
  cursor.Level other ∨ cursor.BehindReturn other

variable {cursor other after : Cursor} {text tail : List Char}

theorem Alongside.line (h : cursor.Alongside other) :
    other.position.line = cursor.position.line :=
  h.elim (·.position.line) (·.line)

theorem Alongside.mode (h : cursor.Alongside other) : other.mode = cursor.mode :=
  h.elim Level.mode BehindReturn.mode

theorem Alongside.withMode (h : cursor.Alongside other) {mode mode' : LineMode}
    (hmode : mode' = mode) : Alongside { cursor with mode } { other with mode := mode' } :=
  h.imp (fun h => ⟨h.rest, hmode, h.position⟩) fun h => ⟨h.rest, hmode, h.line⟩

theorem advance_length (h : cursor.rest = text ++ tail) : cursor.advance text.length =
    ⟨tail, cursor.position.after text,
      { cursor.mode with atStart := text.foldl startAfter cursor.mode.atStart }⟩ := by
  rw [advance, h, List.take_left, List.drop_left]

theorem advance_zero (cursor : Cursor) : cursor.advance 0 = cursor := rfl

/-- Inside of a line both cursors go on. -/
theorem Level.advance (h : cursor.Level other) {rest : List Char}
    (hrest : cursor.rest = text ++ rest) (hfeed : '\n' ∉ text) :
    (cursor.advance text.length).Level (other.advance text.length) := by
  have hother : other.rest = text ++ Text.withReturns rest := by
    rw [h.rest, hrest, Text.withReturns_append hfeed]
  rw [advance_length hrest, advance_length hother, h.mode]
  exact ⟨rfl, rfl, h.position.after text⟩

/-- What comes to the end of the line takes in the carriage return. -/
theorem Level.advance_return (h : cursor.Level other) (hrest : cursor.rest = text ++ '\n' :: tail)
    (hfeed : '\n' ∉ text) :
    (cursor.advance text.length).BehindReturn (other.advance (text.length + 1)) := by
  have hother : other.rest = (text ++ ['\r']) ++ '\n' :: Text.withReturns tail := by
    rw [h.rest, hrest, Text.withReturns_append hfeed]
    simp
  have hafter := advance_length hother
  rw [List.length_append, List.length_singleton] at hafter
  rw [advance_length hrest, hafter, h.mode]
  refine ⟨⟨tail, rfl, rfl⟩, ?_, ?_⟩
  · simp [startAfter, Text.isBlank]
  · rw [Position.line_after_return]
    exact (h.position.after text).line

/-! ### Pieces -/

/-- A carriage return in front of a line feed is passed over. -/
theorem Level.meets_return (h : cursor.Level other) (hrest : cursor.rest = '\n' :: tail) :
    ∃ behind, other.Meets behind ∧ cursor.BehindReturn behind := by
  have hother : other.rest = '\r' :: '\n' :: Text.withReturns tail := by
    rw [h.rest, hrest, Text.withReturns_lineFeed]
  have hline : cursor.rest = [] ++ '\n' :: tail := hrest
  have hbehind := h.advance_return hline List.not_mem_nil
  rw [List.length_nil, Nat.zero_add, advance_zero] at hbehind
  have hpiece : other.piece? =
      some (⟨.trivia .spacing, .between other.position (other.advance 1).position, []⟩,
        other.advance 1) := by
    obtain ⟨rest, position, mode⟩ := other
    obtain rfl : rest = _ := hother
    rfl
  refine ⟨other.advance 1, ⟨?_, ?_, ?_, ?_⟩, hbehind⟩
  · rw [next_of_passed hpiece rfl]
  · rw [next_of_passed hpiece rfl]
    rfl
  · rw [next_of_passed hpiece rfl]
  · rw [Cursor.advance, hother, List.take_one, Position.offset_after]
    exact Nat.le_add_right _ _

theorem BehindReturn.piece? (h : cursor.BehindReturn other) {piece : Piece}
    (hpiece : cursor.piece? = some (piece, after)) :
    ∃ piece' after', other.piece? = some (piece', after') ∧ piece.Alongside piece' ∧
      after.Alongside after' := by
  obtain ⟨tail, hrest, hother⟩ := h.rest
  obtain ⟨rfl, rfl⟩ := Prod.mk.inj (Option.some.inj ((piece?_lineFeed hrest).symm.trans hpiece))
  refine ⟨_, _, piece?_lineFeed hother, ⟨.inl ?_, rfl, h.line, ?_⟩, .inl ⟨rfl, rfl, ?_, rfl⟩⟩
  · rw [h.mode]
  · intro kind hkind hend
    simp only at hkind
    split at hkind
    · exact absurd (LexemeKind.token.inj hkind).symm hend
    · cases hkind
  · exact congrArg (· + 1) h.line

theorem modeAfter_quotedToken (mode : LineMode) (quote : Quote) (text text' : String) :
    modeAfter mode (.token (Lexeme.quotedToken quote text)) =
      modeAfter mode (.token (Lexeme.quotedToken quote text')) := by
  cases quote <;> rfl

/-- Where no line feed comes next, both cursors read the same lexeme, and go on alongside. -/
theorem Level.lexeme (h : cursor.Level other) {first : Char} {rest : List Char}
    (hrest : cursor.rest = first :: rest) (hfeed : first ≠ '\n') :
    let lexeme := Lexeme.read cursor.mode first rest
    let lexeme' := Lexeme.read cursor.mode first (Text.withReturns rest)
    lexeme.kind.Alongside lexeme.faults lexeme'.kind ∧ lexeme'.faults = lexeme.faults ∧
      (cursor.advance lexeme.width).Alongside (other.advance lexeme'.width) := by
  have hinside := Lexeme.not_mem_take_further cursor.mode first rest
  have hle := Lexeme.further_read_le cursor.mode first rest
  have hread := Lexeme.read_withReturns cursor.mode first rest
  simp only
  generalize Lexeme.read cursor.mode first rest = lexeme at hinside hle hread ⊢
  generalize Lexeme.read cursor.mode first (Text.withReturns rest) = lexeme' at hread ⊢
  -- A lexeme that is the same is as wide, and lies inside of its line.
  have hsame : (cursor.advance lexeme.width).Alongside (other.advance lexeme.width) := by
    have hlength : (first :: rest.take lexeme.further).length = lexeme.width := by
      rw [List.length_cons, List.length_take_of_le hle, Lexeme.width]
    have hline : cursor.rest =
        (first :: rest.take lexeme.further) ++ rest.drop lexeme.further := by
      rw [hrest, List.cons_append, List.take_append_drop]
    rw [← hlength]
    refine .inl (h.advance hline ?_)
    rw [List.mem_cons, not_or]
    exact ⟨hfeed.symm, hinside⟩
  rcases hread with rfl | ⟨⟨tail, hline⟩, hreturned⟩
  · exact ⟨.inl rfl, rfl, hsame⟩
  · obtain ⟨hkind, hfaults, rfl | ⟨hfurther, hfurther'⟩⟩ := hreturned.alongside
    · exact ⟨hkind, hfaults, hsame⟩
    · refine ⟨hkind, hfaults, .inr ?_⟩
      have hahead : cursor.rest = (first :: Text.line rest) ++ '\n' :: tail := by
        rw [hrest, List.cons_append, ← hline]
      have hreturn := h.advance_return hahead
        (by rw [List.mem_cons, not_or]; exact ⟨hfeed.symm, Text.not_mem_line rest⟩)
      rw [Lexeme.width, Lexeme.width, hfurther', hfurther]
      exact hreturn

/-- Where no line feed comes next, both cursors find the same piece. -/
theorem Level.piece? (h : cursor.Level other) {first : Char} {rest : List Char}
    (hrest : cursor.rest = first :: rest) (hfeed : first ≠ '\n') {piece : Piece}
    (hpiece : cursor.piece? = some (piece, after)) :
    ∃ piece' after', other.piece? = some (piece', after') ∧ piece.Alongside piece' ∧
      after.Alongside after' := by
  obtain ⟨rfl, rfl⟩ := Prod.mk.inj (Option.some.inj ((piece?_of_rest hrest).symm.trans hpiece))
  have hother : other.rest = first :: Text.withReturns rest := by
    rw [h.rest, hrest, Text.withReturns_cons hfeed]
  have hfound := piece?_of_rest hother
  rw [h.mode] at hfound
  obtain ⟨hkind, hfaults, hafter⟩ := h.lexeme hrest hfeed
  refine ⟨_, _, hfound, ⟨hkind, hfaults, h.position.line, fun _ _ _ => ?_⟩, hafter.withMode ?_⟩
  · exact ⟨h.position.line, h.position.column⟩
  · rw [hafter.mode]
    rcases hkind with hsame | ⟨quote, text, -, hquoted, hquoted'⟩
    · rw [hsame]
    · rw [hquoted, hquoted']
      exact modeAfter_quotedToken _ _ _ _

/-- Both cursors find the same piece, the second one perhaps behind a carriage return. -/
theorem Alongside.piece? (h : cursor.Alongside other) {piece : Piece}
    (hpiece : cursor.piece? = some (piece, after)) :
    ∃ behind piece' after', other.Meets behind ∧ behind.piece? = some (piece', after') ∧
      piece.Alongside piece' ∧ after.Alongside after' := by
  have hrefl : other.Meets other := ⟨rfl, rfl, rfl, Nat.le_refl _⟩
  rcases h with hlevel | hbehind
  · obtain ⟨first, rest, hrest, -⟩ := eq_of_piece? hpiece
    by_cases hfeed : first = '\n'
    · subst hfeed
      obtain ⟨behind, hmeets, hbehind⟩ := hlevel.meets_return hrest
      obtain ⟨piece', after', hfound⟩ := hbehind.piece? hpiece
      exact ⟨behind, piece', after', hmeets, hfound⟩
    · obtain ⟨piece', after', hfound⟩ := hlevel.piece? hrest hfeed hpiece
      exact ⟨other, piece', after', hrefl, hfound⟩
  · obtain ⟨piece', after', hfound⟩ := hbehind.piece? hpiece
    exact ⟨other, piece', after', hrefl, hfound⟩

/-! ### Tokens -/

/-- A quote that is not closed comes on the way to the next token, or is that token. -/
def CutsQuote (cursor : Cursor) : Prop :=
  ∃ quote, ∃ problem ∈ cursor.next.problems, problem.cause = .unterminated quote

/-- Two cursors find the same token next, with the same problems on the way. -/
structure FindsAlongside (cursor other : Cursor) : Prop where
  token : cursor.next.token.Alongside cursor.CutsQuote other.next.token
  problems : List.Forall₂ Problem.Alongside cursor.next.problems other.next.problems
  after : cursor.next.cursor.Alongside other.next.cursor

theorem FindsAlongside.of_meets {behind : Cursor} (hmeets : other.Meets behind)
    (h : cursor.FindsAlongside behind) : cursor.FindsAlongside other := by
  refine ⟨?_, ?_, ?_⟩
  · rw [hmeets.token]
    exact h.token
  · rw [hmeets.problems]
    exact h.problems
  · rw [hmeets.after]
    exact h.after

/-- **Carriage returns are not seen.**  Alongside each other, two cursors find the same token with
the same problems on the way to it, and stand alongside each other behind it. -/
theorem Alongside.next (h : cursor.Alongside other) : cursor.FindsAlongside other := by
  fun_induction Cursor.next cursor generalizing other with
  | case1 cursor hnone =>
      have hrest := rest_of_piece?_none hnone
      rcases h with hlevel | hbehind
      · have hother : other.rest = [] := by rw [hlevel.rest, hrest, Text.withReturns_nil]
        refine ⟨?_, ?_, ?_⟩ <;> rw [next_of_rest_nil hrest, next_of_rest_nil hother]
        · exact ⟨.same _, hlevel.position.line, fun _ =>
            ⟨hlevel.position.line, hlevel.position.column⟩⟩
        · exact .nil
        · exact Alongside.withMode (.inl hlevel) (by rw [hlevel.mode])
      -- A cursor that is behind has a line feed to come, so the source does not end here.
      · obtain ⟨tail, hfeed, -⟩ := hbehind.rest
        rw [hrest] at hfeed
        cases hfeed
  | case2 cursor piece after hpiece token htoken =>
      obtain ⟨behind, piece', after', hmeets, hpiece', hpieces, hafter⟩ := h.piece? hpiece
      obtain ⟨token', htoken', htokens⟩ := hpieces.token? htoken
      have hnext := next_of_token hpiece htoken
      have hnext' := next_of_token hpiece' htoken'
      refine .of_meets hmeets ⟨?_, ?_, ?_⟩
      · rw [CutsQuote, hnext, hnext']
        exact htokens
      · rw [hnext, hnext']
        exact hpieces.problems
      · rw [hnext, hnext']
        exact hafter
  | case3 cursor piece after hpiece htoken scan =>
      rename_i ih
      obtain ⟨behind, piece', after', hmeets, hpiece', hpieces, hafter⟩ := h.piece? hpiece
      obtain ⟨htokens, hproblems, hcursor⟩ := ih hafter
      have hnext := next_of_passed hpiece htoken
      have hnext' := next_of_passed hpiece' (hpieces.token?_none htoken)
      have hpassed : cursor.next.problems = piece.problems ++ after.next.problems := by
        rw [hnext, Scan.problems_pass]
      have hcuts : after.CutsQuote → cursor.CutsQuote := by
        rintro ⟨quote, problem, hmem, hcause⟩
        exact ⟨quote, problem, hpassed ▸ List.mem_append_right _ hmem, hcause⟩
      refine .of_meets hmeets ⟨?_, ?_, ?_⟩
      · rw [hnext, hnext']
        exact htokens.imp hcuts
      · rw [hpassed, hnext', Scan.problems_pass]
        exact List.rel_append hpieces.problems hproblems
      · rw [hnext, hnext']
        exact hcursor

/-! ### Raw text -/

/-- Raw text ends in front of the blank characters at the end of its line. -/
theorem Alongside.rest_of_line (h : cursor.Alongside other) :
    Text.trimEnd (Text.line other.rest) = Text.trimEnd (Text.line cursor.rest) ∧
      (cursor.advance (Text.trimEnd (Text.line cursor.rest)).length).Alongside
        (other.advance (Text.trimEnd (Text.line other.rest)).length) := by
  rcases h with hlevel | hbehind
  · have htext : Text.trimEnd (Text.line other.rest) = Text.trimEnd (Text.line cursor.rest) := by
      rw [hlevel.rest, Text.trimEnd_line_withReturns]
    obtain ⟨rest, hrest⟩ :=
      (Text.isPrefix_trimEnd (Text.line cursor.rest)).trans (List.takeWhile_prefix _)
    rw [htext]
    exact ⟨rfl, .inl (hlevel.advance hrest.symm (Text.not_mem_trimEnd_line _))⟩
  · obtain ⟨tail, hrest, hother⟩ := id hbehind.rest
    rw [hrest, hother]
    exact ⟨rfl, .inr hbehind⟩

theorem Alongside.spacing (h : cursor.Alongside other) :
    (cursor.advance cursor.spacing.length).Alongside (other.advance other.spacing.length) := by
  have hfeed : '\n' ∉ cursor.spacing := fun hmem =>
    absurd (List.mem_takeWhile_imp hmem) (by decide)
  have hrest : cursor.rest = cursor.spacing ++ cursor.rest.dropWhile Text.isSpacing :=
    List.takeWhile_append_dropWhile.symm
  rcases h with hlevel | hbehind
  · have hother : other.spacing = (Text.withReturns cursor.rest).takeWhile Text.isSpacing := by
      rw [Cursor.spacing, hlevel.rest]
    rcases Text.spacing_withReturns cursor.rest with hsame | ⟨⟨tail, hline⟩, hreturn⟩
    · rw [hother, hsame]
      exact .inl (hlevel.advance hrest hfeed)
    · rw [hother, hreturn, List.length_append]
      exact .inr (hlevel.advance_return hline hfeed)
  · obtain ⟨tail, hrest, hother⟩ := id hbehind.rest
    rw [Cursor.spacing, Cursor.spacing, hrest, hother]
    exact .inr hbehind

/-- Alongside each other, two cursors find the same raw text on the same line. -/
theorem Alongside.rawLine (h : cursor.Alongside other) :
    other.rawLine.text = cursor.rawLine.text ∧
      other.rawLine.span.line = cursor.rawLine.span.line ∧
      cursor.rawLine.cursor.Alongside other.rawLine.cursor := by
  obtain ⟨htext, hafter⟩ := h.spacing.rest_of_line
  exact ⟨congrArg String.ofList htext, h.spacing.line, hafter⟩

end Cursor

end ConfLang
