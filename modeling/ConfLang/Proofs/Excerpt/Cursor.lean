import ConfLang.Proofs.Excerpt.Lexeme
import ConfLang.Proofs.Relocation.Cursor
import ConfLang.Proofs.Scanning.Pieces

/-!
# Cursors in an excerpt

An excerpt of a source is read like a source of its own.  As far as it goes, a cursor in the
excerpt finds what a cursor at the same character of the whole source finds, if they agree on
the mode of the line.  Only the places differ: in the excerpt they are counted from its
beginning (`Span.placed`).
-/

namespace ConfLang

/-! ## Places -/

/-- The place in a source of a span that is counted from the beginning of another span.  Only on
the first line the columns are those behind that beginning. -/
def Span.placed (base span : Span) : Span :=
  ⟨base.start + span.start, base.start + span.stop, base.line + (span.line - 1),
    if span.line = 1 then base.column + (span.column - 1) else span.column⟩

theorem Span.placed_through (base first last : Span) :
    base.placed (first.through last) = (base.placed first).through (base.placed last) := by
  simp only [placed, through, Nat.add_max_add_left]
  rfl

theorem Span.placed_origin (base span : Span) : base.placed span.origin = (base.placed span).origin :=
  rfl

namespace Position

variable {before text : List Char}

theorem lastLine_of_mem (h : '\n' ∈ text) : lastLine (before ++ text) = lastLine text := by
  rw [lastLine, lastLine, List.reverse_append, List.takeWhile_append, if_neg]
  intro hwhole
  have hall := List.takeWhile_eq_self_iff.mp ((List.takeWhile_prefix _).eq_of_length hwhole)
  simpa using hall '\n' (List.mem_reverse.mpr h)

/-- A span of a text, placed where the text stands, is a span of the whole. -/
theorem placed_between (before first last : List Char) (stop : Position) :
    (Span.between (start.after before) stop).placed
        (.between (start.after first) (start.after last)) =
      .between (start.after (before ++ first)) (start.after (before ++ last)) := by
  simp only [Span.placed, Span.between, start_after, bytes_append, List.count_append,
    Span.mk.injEq, true_and]
  refine ⟨by omega, ?_⟩
  by_cases hline : '\n' ∈ first
  · have hlines := List.count_pos_iff.mpr hline
    rw [if_neg (by omega), lastLine_of_mem hline]
  · have hfirst : lastLine first = first := @Text.lastLine_append [] first hline
    rw [List.count_eq_zero.mpr hline, if_pos rfl, Text.lastLine_append hline, List.length_append,
      hfirst]
    omega

end Position

theorem Piece.problems_eq_nil_iff {piece : Piece} : piece.problems = [] ↔ piece.faults = [] :=
  List.map_eq_nil_iff

/-! ## Cursors -/

namespace Cursor

/-- A cursor in an excerpt stands at the same character as a cursor in the whole source.  In front
of the excerpt and behind it there are other texts. -/
structure Excerpt (before tail : List Char) (cursor inner : Cursor) : Prop where
  rest : cursor.rest = inner.rest ++ tail
  mode : cursor.mode = inner.mode
  place : ∃ text, cursor.position = Position.start.after (before ++ text) ∧
    inner.position = Position.start.after text

namespace Excerpt

variable {before tail : List Char} {cursor inner after after' : Cursor} (stop : Position)

/-- What lies between two places of the excerpt. -/
theorem between (h : Excerpt before tail cursor inner) (h' : Excerpt before tail after after') :
    (Span.between (Position.start.after before) stop).placed
        (.between inner.position after'.position) = .between cursor.position after.position := by
  obtain ⟨first, hfirst, hfirst'⟩ := h.place
  obtain ⟨last, hlast, hlast'⟩ := h'.place
  rw [hfirst, hfirst', hlast, hlast']
  exact Position.placed_between before first last stop

theorem advance (h : Excerpt before tail cursor inner) {count : Nat}
    (hcount : count ≤ inner.rest.length) :
    Excerpt before tail (cursor.advance count) (inner.advance count) := by
  have htake : cursor.rest.take count = inner.rest.take count := by
    rw [h.rest, List.take_append_of_le_length hcount]
  refine ⟨?_, ?_, ?_⟩
  · rw [Cursor.advance, h.rest, List.drop_append_of_le_length hcount]
    rfl
  · rw [Cursor.advance, htake, h.mode]
    rfl
  · obtain ⟨text, hcursor, hinner⟩ := h.place
    refine ⟨text ++ inner.rest.take count, ?_, ?_⟩
    · rw [Cursor.advance, htake, hcursor, ← Position.after_append, List.append_assoc]
    · rw [Cursor.advance, hinner, Position.after_append]

/-- What does not reach into the text behind the excerpt is not longer than the excerpt. -/
theorem le_length (h : Excerpt before tail cursor inner) {count : Nat}
    (hcount : count ≤ cursor.rest.length) (htail : tail <:+ cursor.rest.drop count) :
    count ≤ inner.rest.length := by
  have hlength := htail.length_le
  rw [List.length_drop, h.rest, List.length_append] at hlength
  rw [h.rest, List.length_append] at hcount
  omega

theorem piece? (h : Excerpt before tail cursor inner) {piece : Piece}
    (hpiece : cursor.piece? = some (piece, after)) (htail : tail <:+ after.rest) :
    ∃ piece' after', inner.piece? = some (piece', after') ∧ Excerpt before tail after after' ∧
      piece = piece'.mapSpan (Span.between (Position.start.after before) stop).placed := by
  unfold Cursor.piece? at hpiece
  split at hpiece
  · cases hpiece
  rename_i first rest hrest
  simp only [Option.some.injEq, Prod.mk.injEq] at hpiece
  obtain ⟨rfl, rfl⟩ := hpiece
  have hwidth : (Lexeme.read cursor.mode first rest).width ≤ cursor.rest.length := by
    rw [hrest]
    exact Nat.succ_le_succ (Lexeme.further_read_le _ _ _)
  have hinside := h.le_length hwidth htail
  have hafter := h.advance hinside
  cases hrest' : inner.rest with
  | nil =>
      rw [hrest'] at hinside
      exact absurd hinside (Nat.not_succ_le_zero _)
  | cons first' rest' =>
      have hsame := h.rest
      rw [hrest, hrest', List.cons_append, List.cons.injEq] at hsame
      obtain ⟨rfl, rfl⟩ := hsame
      rw [hrest'] at hinside
      have hread := Lexeme.read_excerpt cursor.mode (Nat.le_of_succ_le_succ hinside)
      unfold Cursor.piece?
      rw [hrest']
      simp only [← h.mode, ← hread, Option.some.injEq, Prod.mk.injEq]
      refine ⟨_, _, ⟨rfl, rfl⟩, ⟨hafter.rest, ?_, hafter.place⟩, ?_⟩
      · exact congrArg (modeAfter · _) hafter.mode
      · exact congrArg (Piece.mk _ · _) (h.between stop hafter).symm

/-- The next token of the excerpt is that of the source, if it does not reach behind the
excerpt. -/
theorem next (h : Excerpt before tail cursor inner) (hproblems : cursor.next.problems = [])
    (hkind : cursor.next.token.kind ≠ .endOfFile) (htail : tail <:+ cursor.next.cursor.rest) :
    inner.next.problems = [] ∧
      cursor.next.token =
        inner.next.token.mapSpan (Span.between (Position.start.after before) stop).placed ∧
      Excerpt before tail cursor.next.cursor inner.next.cursor := by
  revert inner
  fun_induction Cursor.next cursor with
  | case1 => exact absurd rfl hkind
  | case2 cursor piece after hpiece token htoken =>
      intro inner h
      obtain ⟨piece', after', hpiece', hafter, hsame⟩ := h.piece? stop hpiece htail
      rw [hsame, Piece.token?_mapSpan, Option.map_eq_some_iff] at htoken
      obtain ⟨token', htoken', rfl⟩ := htoken
      rw [next_of_token hpiece' htoken']
      refine ⟨?_, rfl, hafter⟩
      simp only [Scan.problems, List.flatMap_nil, List.nil_append, Piece.problems_eq_nil_iff]
        at hproblems ⊢
      rw [hsame] at hproblems
      exact hproblems
  | case3 cursor piece after hpiece htoken scan ih =>
      intro inner h
      have hafter' : tail <:+ after.rest := htail.trans (rest_next after)
      obtain ⟨piece', after', hpiece', hafter, hsame⟩ := h.piece? stop hpiece hafter'
      rw [hsame, Piece.token?_mapSpan, Option.map_eq_none_iff] at htoken
      rw [Scan.problems_pass, List.append_eq_nil_iff, Piece.problems_eq_nil_iff] at hproblems
      obtain ⟨hproblems', htoken', hcursor⟩ := ih hproblems.2 hkind htail hafter
      rw [next_of_passed hpiece' htoken]
      refine ⟨?_, htoken', hcursor⟩
      have hfaults : piece'.problems = [] := by
        rw [hsame] at hproblems
        exact Piece.problems_eq_nil_iff.mpr hproblems.1
      rw [Scan.problems_pass, hfaults, List.nil_append]
      exact hproblems'

/-- What is left of a line is the same, if it does not reach behind the excerpt. -/
theorem rawLine (h : Excerpt before tail cursor inner) (htail : tail <:+ cursor.rawLine.cursor.rest) :
    cursor.rawLine.text = inner.rawLine.text ∧
      cursor.rawLine.span =
        (Span.between (Position.start.after before) stop).placed inner.rawLine.span ∧
      Excerpt before tail cursor.rawLine.cursor inner.rawLine.cursor := by
  have hspacing : cursor.spacing.length ≤ inner.rest.length :=
    h.le_length (List.takeWhile_prefix _).length_le (htail.trans (rest_advance _ _))
  have hspacing' : cursor.spacing = inner.spacing := by
    rw [spacing, h.rest] at hspacing
    rw [spacing, spacing, h.rest, takeWhile_excerpt hspacing]
  have hstart := h.advance hspacing
  rw [hspacing'] at hstart
  have hlength : (Text.trimEnd (Text.line (cursor.advance inner.spacing.length).rest)).length ≤
      (inner.advance inner.spacing.length).rest.length := by
    apply hstart.le_length
    · exact (Text.length_trimEnd_le _).trans (List.takeWhile_prefix _).length_le
    · rw [← hspacing']
      exact htail
  have htext : Text.trimEnd (Text.line (cursor.advance inner.spacing.length).rest) =
      Text.trimEnd (Text.line (inner.advance inner.spacing.length).rest) := by
    rw [hstart.rest] at hlength ⊢
    exact Text.trimEnd_line_excerpt hlength
  have hafter := hstart.advance hlength
  simp only [Cursor.rawLine, hspacing']
  rw [htext] at hafter ⊢
  exact ⟨rfl, (hstart.between stop hafter).symm, hafter⟩

end Excerpt

end Cursor

end ConfLang
