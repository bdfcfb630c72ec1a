import ConfLang.Proofs.Grammar.Scan
import ConfLang.Proofs.Relocation.Trees

/-!
# Cursors at other places

What a cursor finds depends on the text behind it and on the mode of its line, and not on its
position.  So a cursor that is moved finds the same tokens and the same problems, moved as far.
-/

namespace ConfLang

variable {d : Displacement}

/-! ## Positions and spans -/

/-- The place that a position is moved to. -/
def Position.moved (displacement : Displacement) (position : Position) : Position :=
  ⟨position.offset + displacement.bytes, position.line + displacement.lines, position.column⟩

theorem Position.next_moved (position : Position) (character : Char) :
    (position.moved d).next character = (position.next character).moved d := by
  simp only [next, moved]
  split <;> simp only [mk.injEq, and_true] <;> omega

theorem Position.after_moved (position : Position) (characters : List Char) :
    (position.moved d).after characters = (position.after characters).moved d := by
  induction characters generalizing position with
  | nil => rfl
  | cons character rest ih => rw [after_cons, after_cons, next_moved, ih]

namespace Span

theorem through_moved (first last : Span) :
    (first.moved d).through (last.moved d) = (first.through last).moved d := by
  simp only [through, moved, mk.injEq, and_true, true_and]
  omega

theorem origin_moved (span : Span) : (span.moved d).origin = span.origin.moved d := rfl

theorem firstByte_moved (span : Span) : (span.moved d).firstByte = span.firstByte.moved d := by
  simp only [firstByte, moved, mk.injEq, and_true, true_and]
  omega

end Span

/-! ## Problems -/

/-- The message of a lexical problem quotes no place. -/
theorem Cause.mapSpans_of_lexical {f : Span → Span} {cause : Cause} (h : cause.kind = .lexical) :
    cause.mapSpans f = cause := by
  cases cause <;> first | rfl | simp [kind] at h

/-- A token with another span. -/
def Token.mapSpan (f : Span → Span) (token : Token) : Token :=
  { token with span := f token.span }

/-- A piece with another span. -/
def Piece.mapSpan (f : Span → Span) (piece : Piece) : Piece :=
  { piece with span := f piece.span }

theorem Piece.token?_mapSpan (f : Span → Span) (piece : Piece) :
    (piece.mapSpan f).token? = piece.token?.map (Token.mapSpan f) := by
  unfold token? mapSpan
  simp only
  split <;> rfl

/-- A token at another place. -/
def Token.moved (displacement : Displacement) (token : Token) : Token :=
  { token with span := token.span.moved displacement }

/-- A problem at another place. -/
abbrev Problem.moved (displacement : Displacement) : Problem → Problem :=
  Problem.mapSpans (Span.moved displacement)

/-- A diagnostic at another place. -/
abbrev Diagnostic.moved (displacement : Displacement) : Diagnostic → Diagnostic :=
  Diagnostic.mapSpans (Span.moved displacement)

/-- A piece of a source at another place. -/
def Piece.moved (displacement : Displacement) (piece : Piece) : Piece :=
  { piece with span := piece.span.moved displacement }

namespace Piece

variable {piece : Piece}

theorem token?_moved : (piece.moved d).token? = piece.token?.map (Token.moved d) :=
  token?_mapSpan (Span.moved d) piece

theorem problems_moved (h : ∀ problem ∈ piece.problems, problem.cause.kind = .lexical) :
    (piece.moved d).problems = piece.problems.map (Problem.moved d) := by
  simp only [problems, List.forall_mem_map] at h
  simp only [problems, moved, List.map_map, List.map_inj_left, Function.comp]
  intro cause hcause
  simp only [Problem.mapSpans, Cause.mapSpans_of_lexical (h cause hcause), Problem.mk.injEq, true_and]
  unfold faultSpan
  split
  · exact Span.firstByte_moved _
  · rfl

end Piece

/-! ## Cursors -/

namespace Cursor

/-- A cursor at another place, with the same text behind it. -/
def moved (displacement : Displacement) (cursor : Cursor) : Cursor :=
  { cursor with position := cursor.position.moved displacement }

variable {cursor : Cursor}

theorem advance_moved (count : Nat) :
    (cursor.moved d).advance count = (cursor.advance count).moved d := by
  simp only [advance, moved, Position.after_moved]

theorem piece?_moved : (cursor.moved d).piece? =
    cursor.piece?.map fun found => (found.1.moved d, found.2.moved d) := by
  obtain ⟨rest, position, mode⟩ := cursor
  cases rest with
  | nil => rfl
  | cons first rest =>
      simp only [piece?, Option.map_some, advance_moved]
      rfl

/-- The next token of a cursor that is moved, what is wrong on the way to it, and the place
behind it. -/
theorem next_moved : (cursor.moved d).next.token = cursor.next.token.moved d ∧
    (cursor.moved d).next.problems = cursor.next.problems.map (Problem.moved d) ∧
    (cursor.moved d).next.cursor = cursor.next.cursor.moved d := by
  fun_induction next cursor with
  | case1 cursor hnone =>
      have hmoved : (cursor.moved d).piece? = none := by rw [piece?_moved, hnone, Option.map_none]
      rw [next_of_none hmoved]
      exact ⟨rfl, rfl, rfl⟩
  | case2 cursor piece after hpiece token htoken =>
      have hmoved : (cursor.moved d).piece? = some (piece.moved d, after.moved d) := by
        rw [piece?_moved, hpiece, Option.map_some]
      have htoken' : (piece.moved d).token? = some (token.moved d) := by
        rw [Piece.token?_moved, htoken, Option.map_some]
      rw [next_of_token hmoved htoken']
      exact ⟨rfl, Piece.problems_moved fun _ => kind_of_mem_piece? hpiece, rfl⟩
  | case3 cursor piece after hpiece htoken scan ih =>
      have hmoved : (cursor.moved d).piece? = some (piece.moved d, after.moved d) := by
        rw [piece?_moved, hpiece, Option.map_some]
      have htoken' : (piece.moved d).token? = none := by
        rw [Piece.token?_moved, htoken, Option.map_none]
      obtain ⟨hnext, hproblems, hcursor⟩ := ih
      rw [next_of_passed hmoved htoken']
      refine ⟨hnext, ?_, hcursor⟩
      have hpiece' := Piece.problems_moved (d := d) fun _ => kind_of_mem_piece? hpiece
      rw [Scan.problems_pass, Scan.problems_pass, hproblems, hpiece', List.map_append]

theorem rawLine_moved : (cursor.moved d).rawLine.text = cursor.rawLine.text ∧
    (cursor.moved d).rawLine.span = cursor.rawLine.span.moved d ∧
    (cursor.moved d).rawLine.cursor = cursor.rawLine.cursor.moved d := by
  simp only [rawLine, show (cursor.moved d).spacing = cursor.spacing from rfl, advance_moved]
  exact ⟨rfl, rfl, rfl⟩

end Cursor

end ConfLang
