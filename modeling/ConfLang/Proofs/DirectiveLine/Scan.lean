import ConfLang.Proofs.Grammar.Scan
import ConfLang.Proofs.Scanning.Directives

/-!
# The tokens on the line of a directive

The line of a directive is ended by a token, which stands for its line feed.  From a place on such
a line the next token is either that one, and then the place behind it is the beginning of the next
line, or another token of the line.  In both cases everything that is found on the way is on the
line, what is wrong there included.

`Cursor.LineTo` is the relation of a place on such a line to the place behind its line feed.
-/

namespace ConfLang

/-- A span begins on the line that ends right in front of a place. -/
def Span.Above (span : Span) (behind : Cursor) : Prop :=
  span.line + 1 = behind.position.line

/-- Two spans above the same place begin on the same line. -/
theorem Span.Above.line_eq {span other : Span} {behind : Cursor} (h : span.Above behind)
    (hother : other.Above behind) : span.line = other.line :=
  Nat.succ.inj (h.trans hother.symm)

namespace Position

variable {position : Position} {text : List Char}

theorem line_after (h : '\n' ∉ text) : (position.after text).line = position.line := by
  induction text generalizing position with
  | nil => rfl
  | cons first rest ih =>
      rw [List.mem_cons, not_or] at h
      rw [after_cons, ih h.2, next, if_neg (Ne.symm h.1)]

theorem line_after_lineFeed (h : '\n' ∉ text) :
    (position.after (text ++ ['\n'])).line = position.line + 1 := by
  have hline : (position.after text).line = position.line := line_after h
  rw [after_append, ← hline]
  rfl

end Position

namespace Cursor

variable {cursor after behind : Cursor} {piece : Piece}

/-- A place on the line of a directive, and the place right behind the line feed that ends the
line. -/
structure LineTo (cursor behind : Cursor) : Prop where
  isDirective : cursor.mode.isDirective = true
  text : ∃ text, cursor.rest = text ++ '\n' :: behind.rest ∧ '\n' ∉ text ∧
    behind.position = cursor.position.after (text ++ ['\n'])
  mode : behind.mode = {}

/-- Only the end of a line changes the line of a directive to another one. -/
theorem isDirective_modeAfter_of_ne {mode : LineMode} {kind : LexemeKind}
    (hmode : mode.isDirective = true) (hkind : kind ≠ .token .endOfLine) :
    (modeAfter mode kind).isDirective = true := by
  unfold modeAfter
  split
  · exact absurd rfl hkind
  · simp [hmode]
  · exact hmode

/-- From a place on the line of a directive, the first line feed behind it ends that line. -/
theorem exists_lineTo (hmode : cursor.mode.isDirective = true) (hfeed : '\n' ∈ cursor.rest) :
    ∃ behind, cursor.LineTo behind := by
  obtain ⟨text, rest, hrest, hnone⟩ := List.eq_append_cons_of_mem hfeed
  exact ⟨⟨rest, cursor.position.after (text ++ ['\n']), {}⟩, hmode, ⟨text, hrest, hnone, rfl⟩, rfl⟩

namespace LineTo

theorem above (h : cursor.LineTo behind) {span : Span} (hline : span.line = cursor.position.line) :
    span.Above behind := by
  obtain ⟨text, -, hfeed, hposition⟩ := h.text
  rw [Span.Above, hline, hposition, Position.line_after_lineFeed hfeed]

theorem left_lt (h : cursor.LineTo behind) : behind.left < cursor.left := by
  obtain ⟨text, htext, -⟩ := h.text
  have hpos := Char.utf8Size_pos '\n'
  rw [left, left, htext, Position.bytes_append, Position.bytes_cons]
  omega

/-- The line feed is the last piece of its line. -/
theorem piece?_of_lineFeed (h : cursor.LineTo behind) (hrest : cursor.rest = '\n' :: behind.rest)
    (hposition : behind.position = cursor.position.next '\n') : cursor.piece? =
      some (⟨.token .endOfLine, .between cursor.position behind.position, []⟩, behind) := by
  obtain ⟨rest, position, mode⟩ := behind
  obtain rfl : position = _ := hposition
  obtain rfl : mode = _ := h.mode
  rw [piece?_lineFeed hrest, h.isDirective]
  rfl

/-- A piece of a line is its line feed, or it leaves the rest of the line. -/
theorem piece_cases (h : cursor.LineTo behind) (hpiece : cursor.piece? = some (piece, after)) :
    piece.span.line = cursor.position.line ∧
      (piece.kind = .token .endOfLine ∧ after = behind ∨
        piece.kind ≠ .token .endOfLine ∧ after.LineTo behind) := by
  obtain ⟨_ | ⟨first, text⟩, htext, hfeed, hposition⟩ := h.text
  · rw [h.piece?_of_lineFeed htext hposition] at hpiece
    obtain ⟨rfl, rfl⟩ := Prod.mk.inj (Option.some.inj hpiece)
    exact ⟨rfl, .inl ⟨rfl, rfl⟩⟩
  rw [List.mem_cons, not_or] at hfeed
  have hkind : piece.kind ≠ .token .endOfLine := by
    obtain ⟨first', rest', hrest', hkind, -⟩ := eq_of_piece? hpiece
    rw [htext] at hrest'
    obtain ⟨rfl, rfl⟩ := List.cons.inj hrest'
    rw [hkind]
    exact fun hline => hfeed.1 (Lexeme.lineFeed_of_endOfLine hline).symm
  have hmode : after.mode.isDirective = true := by
    obtain ⟨_, _, -, -, -, hmode⟩ := eq_of_piece? hpiece
    rw [hmode]
    exact isDirective_modeAfter_of_ne h.isDirective hkind
  -- no lexeme reads across the line feed
  have hwidth : (Lexeme.read cursor.mode first (text ++ '\n' :: behind.rest)).further ≤
      text.length := by
    have hline := Lexeme.further_read_le_line cursor.mode first (text ++ '\n' :: behind.rest)
    rwa [Text.line_append hfeed.2, List.length_append, show Text.line ('\n' :: behind.rest) = []
      from rfl, List.length_nil, Nat.add_zero] at hline
  rw [List.cons_append] at htext hposition
  rw [piece?_of_rest htext] at hpiece
  generalize Lexeme.read cursor.mode first (text ++ '\n' :: behind.rest) = lexeme at hpiece hwidth
  obtain ⟨rfl, rfl⟩ := Prod.mk.inj (Option.some.inj hpiece)
  refine ⟨rfl, .inr ⟨hkind, hmode, ⟨text.drop lexeme.further, ?_, ?_, ?_⟩, h.mode⟩⟩
  · simp only [advance, Lexeme.width, htext, List.drop_succ_cons]
    exact List.drop_append_of_le_length hwidth
  · exact fun hmem => hfeed.2 (List.mem_of_mem_drop hmem)
  · simp only [advance, Lexeme.width, htext, List.take_succ_cons]
    rw [List.take_append_of_le_length hwidth, ← Position.after_append, List.cons_append,
      ← List.append_assoc, List.take_append_drop, hposition]

/-! ## The next token -/

/-- What is found on a line in front of a place. -/
structure Found (scan : Scan) (behind : Cursor) : Prop where
  token : scan.token.span.Above behind
  problems : ∀ problem ∈ scan.problems, problem.span.Above behind
  cursor : scan.token.kind = .endOfLine ∧ scan.cursor = behind ∨
    scan.token.kind ≠ .endOfLine ∧ scan.token.kind ≠ .endOfFile ∧ scan.cursor.LineTo behind

theorem line_of_mem_problems {problem : Problem} (h : problem ∈ piece.problems) :
    problem.span.line = piece.span.line := by
  obtain ⟨cause, -, rfl⟩ := List.mem_map.mp h
  cases cause <;> rfl

/-- The next token is on the same line, and so is all that is wrong on the way. -/
theorem next (h : cursor.LineTo behind) : Found cursor.next behind := by
  revert h
  fun_induction Cursor.next cursor with
  | case1 cursor hnone =>
      intro h
      obtain ⟨text, htext, -⟩ := h.text
      rw [rest_of_piece?_none hnone] at htext
      cases text <;> cases htext
  | case2 cursor piece after hpiece token htoken =>
      intro h
      obtain ⟨hline, hcases⟩ := h.piece_cases hpiece
      have hkind := kind_of_token? htoken
      have hscanned := isScanned_of_piece? hpiece htoken
      refine ⟨h.above (Piece.span_of_token? htoken ▸ hline), ?_, ?_⟩
      · exact fun problem hmem => h.above ((line_of_mem_problems hmem).trans hline)
      · rcases hcases with ⟨hend, rfl⟩ | ⟨hother, hafter⟩
        · exact .inl ⟨LexemeKind.token.inj (hkind.symm.trans hend), rfl⟩
        · refine .inr ⟨fun hend => hother (hkind.trans (congrArg _ hend)), fun hend => ?_, hafter⟩
          rw [hend] at hscanned
          cases hscanned
  | case3 cursor piece after hpiece htoken scan ih =>
      intro h
      obtain ⟨hline, ⟨hend, -⟩ | ⟨-, hafter⟩⟩ := h.piece_cases hpiece
      · exact absurd hend (kind_of_passed htoken _)
      · obtain ⟨htoken', hproblems, hcursor⟩ := ih hafter
        refine ⟨htoken', ?_, hcursor⟩
        rw [Scan.problems_pass, List.forall_mem_append]
        exact ⟨fun problem hmem => h.above ((line_of_mem_problems hmem).trans hline), hproblems⟩

end LineTo

/-- A token that is not the end of a line ends on the line on which it begins. -/
theorem line_next (hend : cursor.next.token.kind ≠ .endOfFile)
    (hline : cursor.next.token.kind ≠ .endOfLine) :
    cursor.next.cursor.position.line = cursor.next.token.span.line := by
  revert hend hline
  fun_induction Cursor.next cursor with
  | case1 => simp [endOfFile]
  | case2 cursor piece after hpiece token htoken =>
      intro _ hline
      obtain ⟨first, rest, hrest, -⟩ := eq_of_piece? hpiece
      have hfeed : first ≠ '\n' := by
        rintro rfl
        rw [piece?_lineFeed hrest] at hpiece
        obtain ⟨rfl, -⟩ := Prod.mk.inj (Option.some.inj hpiece)
        have hkind := kind_of_token? htoken
        simp only at hkind
        split at hkind
        · exact hline (LexemeKind.token.inj hkind).symm
        · cases hkind
      change after.position.line = token.span.line
      rw [Piece.span_of_token? htoken]
      rw [piece?_of_rest hrest] at hpiece
      obtain ⟨rfl, rfl⟩ := Prod.mk.inj (Option.some.inj hpiece)
      simp only [advance, Lexeme.width, hrest, List.take_succ_cons]
      rw [Position.line_after]
      · rfl
      · rw [List.mem_cons, not_or]
        exact ⟨Ne.symm hfeed, Lexeme.not_mem_take_further _ _ _⟩
  | case3 cursor piece after hpiece htoken scan ih => exact ih

/-- What begins the line of a directive is on that line. -/
theorem Shows.above {token : Token} (h : cursor.Shows token) (hline : token.kind ≠ .endOfLine)
    (hbehind : cursor.next.cursor.LineTo behind) : token.span.Above behind := by
  obtain ⟨rfl, -, hend⟩ := h
  exact hbehind.above (line_next hend hline).symm

end Cursor

end ConfLang
