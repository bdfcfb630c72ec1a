import ConfLang.Proofs.Faults
import Mathlib.Data.List.Infix

/-!
# Where tokens and problems of a source lie

A position counts bytes, lines and columns.  Behind a text it counts what the words say:
the bytes of the text, its line feeds, and the characters behind the last one of them.

A cursor that was moved over characters only stands behind a beginning of its source, and
what it reads lies between two such places.  So do the spans that are made of such spans.
-/

namespace ConfLang

/-! ## Positions -/

namespace Position

/-- The number of bytes of a text. -/
def bytes (characters : List Char) : Nat :=
  (String.ofList characters).utf8ByteSize

theorem bytes_append (first second : List Char) :
    bytes (first ++ second) = bytes first + bytes second := by
  rw [bytes, String.ofList_append, String.utf8ByteSize_append, bytes, bytes]

theorem bytes_singleton (character : Char) : bytes [character] = character.utf8Size := by
  rw [bytes, ← String.singleton_eq_ofList, String.utf8ByteSize_singleton]

theorem bytes_cons (character : Char) (characters : List Char) :
    bytes (character :: characters) = character.utf8Size + bytes characters := by
  rw [← List.singleton_append, bytes_append, bytes_singleton]

theorem bytes_le_of_prefix {first second : List Char} (h : first <+: second) :
    bytes first ≤ bytes second := by
  obtain ⟨rest, rfl⟩ := h
  rw [bytes_append]
  exact Nat.le_add_right _ _

theorem offset_after (position : Position) (characters : List Char) :
    (position.after characters).offset = position.offset + bytes characters := by
  induction characters generalizing position with
  | nil => rfl
  | cons character rest ih => rw [after_cons, ih, offset_next, bytes_cons, Nat.add_assoc]

/-- Behind a text, a position counts its bytes, its lines and the characters of its last
line. -/
theorem start_after (characters : List Char) : start.after characters =
    ⟨bytes characters, 1 + characters.count '\n', 1 + (lastLine characters).length⟩ := by
  induction characters using List.reverseRecOn with
  | nil => rfl
  | append_singleton rest character ih =>
      rw [after_append, ih, after_cons, after_nil, next, bytes_append, bytes_singleton]
      by_cases hline : character = '\n'
      · simp [hline, lastLine, Nat.add_assoc]
      · simp [hline, lastLine, Nat.add_assoc]

end Position

/-! ## Spans -/

/-- What it means that a span points at a real place of a source. -/
structure Span.PointsInto (span : Span) (source : String) : Prop where
  start_le_stop : span.start ≤ span.stop
  stop_le_size : span.stop ≤ source.utf8ByteSize
  start_isValid : String.Pos.Raw.IsValid source ⟨span.start⟩
  stop_isValid : String.Pos.Raw.IsValid source ⟨span.stop⟩
  /-- Line and column are those of the text before the start, both counted from one. -/
  place : ∃ before, before <+: source.toList ∧ Position.bytes before = span.start ∧
    span.line = 1 + before.count '\n' ∧ span.column = 1 + (Position.lastLine before).length

/-- A span lies in a source if it is between the ends of two beginnings of it. -/
def Span.LiesIn (source : List Char) (span : Span) : Prop :=
  ∃ first last, first <+: last ∧ last <+: source ∧
    span = .between (Position.start.after first) (Position.start.after last)

namespace Span.LiesIn

variable {source : List Char} {span other : Span}

theorem pointsInto {source : String} (h : span.LiesIn source.toList) : span.PointsInto source := by
  obtain ⟨first, last, hfirst, hlast, rfl⟩ := h
  have hsource : source = String.ofList source.toList := String.ofList_toList.symm
  have hvalid {before : List Char} (hbefore : before <+: source.toList) :
      String.Pos.Raw.IsValid source ⟨Position.bytes before⟩ := by
    rw [hsource, String.Pos.Raw.isValid_ofList]
    exact ⟨before.length, by rw [← List.prefix_iff_eq_take.mp hbefore]; rfl⟩
  rw [between, Position.start_after, Position.start_after]
  refine ⟨Position.bytes_le_of_prefix hfirst, ?_, hvalid (hfirst.trans hlast), hvalid hlast, ?_⟩
  · conv_rhs => rw [hsource]
    exact Position.bytes_le_of_prefix hlast
  · exact ⟨first, hfirst.trans hlast, rfl, rfl, rfl⟩

theorem origin (h : span.LiesIn source) : span.origin.LiesIn source := by
  obtain ⟨first, last, hfirst, hlast, rfl⟩ := h
  exact ⟨first, first, List.prefix_rfl, hfirst.trans hlast, rfl⟩

theorem through (h : span.LiesIn source) (hother : other.LiesIn source) :
    (span.through other).LiesIn source := by
  obtain ⟨first, last, hfirst, hlast, rfl⟩ := h
  obtain ⟨first', last', hfirst', hlast', rfl⟩ := hother
  have hoffset {before text : List Char} (hbefore : before <+: text) :
      (Position.start.after before).offset ≤ (Position.start.after text).offset := by
    obtain ⟨rest, rfl⟩ := hbefore
    rw [Position.after_append, Position.offset_after _ rest]
    exact Nat.le_add_right _ _
  rcases List.prefix_or_prefix_of_prefix hlast hlast' with hle | hle
  · refine ⟨first, last', hfirst.trans hle, hlast', ?_⟩
    simp only [Span.through, between, Nat.max_eq_left (hoffset hle)]
  · refine ⟨first, last, hfirst, hlast, ?_⟩
    simp only [Span.through, between, Nat.max_eq_right (hoffset hle)]

end Span.LiesIn

/-! ## Cursors -/

/-- A cursor stands in a source if it was moved there from its beginning. -/
def Cursor.StandsIn (source : List Char) (cursor : Cursor) : Prop :=
  ∃ before, source = before ++ cursor.rest ∧ cursor.position = Position.start.after before

namespace Cursor.StandsIn

variable {source : List Char} {cursor after : Cursor}

theorem ofSource (source : String) : (Cursor.ofSource source).StandsIn source.toList :=
  ⟨[], rfl, rfl⟩

theorem advance (h : cursor.StandsIn source) (count : Nat) :
    (cursor.advance count).StandsIn source := by
  obtain ⟨before, hsource, hposition⟩ := h
  refine ⟨before ++ cursor.rest.take count, ?_, ?_⟩
  · rw [List.append_assoc, Cursor.advance, List.take_append_drop, hsource]
  · rw [Cursor.advance, hposition, Position.after_append]

theorem between (h : cursor.StandsIn source) (count : Nat) :
    (Span.between cursor.position (cursor.advance count).position).LiesIn source := by
  obtain ⟨before, hsource, hposition⟩ := h
  refine ⟨before, before ++ cursor.rest.take count, List.prefix_append _ _, ?_, ?_⟩
  · rw [hsource, List.prefix_append_right_inj]
    exact List.take_prefix _ _
  · rw [Cursor.advance, hposition, Position.after_append]

theorem emptyAt (h : cursor.StandsIn source) : (Span.emptyAt cursor.position).LiesIn source := by
  simpa [Cursor.advance, Span.emptyAt] using h.between 0

/-- The mode of the line does not count. -/
theorem withMode (h : cursor.StandsIn source) (mode : LineMode) :
    { cursor with mode }.StandsIn source := h

end Cursor.StandsIn

/-! ## Scans -/

/-- A token lies where its piece lies. -/
theorem Piece.span_of_token? {piece : Piece} {token : Token} (h : piece.token? = some token) :
    token.span = piece.span := by
  unfold token? at h
  split at h
  · rw [← Option.some.inj h]
  · cases h

namespace Cursor.StandsIn

variable {source : List Char} {cursor after : Cursor} {piece : Piece}

theorem piece? (h : cursor.StandsIn source) (hpiece : cursor.piece? = some (piece, after)) :
    after.StandsIn source ∧ piece.span.LiesIn source ∧
      ∀ problem ∈ piece.problems, problem.span.LiesIn source := by
  unfold Cursor.piece? at hpiece
  split at hpiece
  · simp at hpiece
  rename_i first rest hrest
  simp only [Option.some.injEq, Prod.mk.injEq] at hpiece
  obtain ⟨rfl, rfl⟩ := hpiece
  have hspan := h.between (Lexeme.read cursor.mode first rest).width
  refine ⟨(h.advance _).withMode _, hspan, ?_⟩
  simp only [Piece.problems, List.mem_map]
  rintro problem ⟨cause, hcause, rfl⟩
  cases cause with
  | unterminated quote =>
      -- The delimiter is one byte long, and nothing else is.
      have hfirst := h.between 1
      rcases Lexeme.delimiter_of_unterminated hcause with rfl | rfl <;>
        simpa [Piece.faultSpan, Span.firstByte, Span.between, Cursor.advance, hrest,
          Position.offset_next, Char.utf8Size] using hfirst
  | _ => exact hspan

theorem next (h : cursor.StandsIn source) :
    cursor.next.cursor.StandsIn source ∧ cursor.next.token.span.LiesIn source ∧
      ∀ problem ∈ cursor.next.problems, problem.span.LiesIn source := by
  fun_induction Cursor.next cursor with
  | case1 cursor hnone => exact ⟨h.withMode _, h.emptyAt, by simp [Scan.problems]⟩
  | case2 cursor piece after hpiece token htoken =>
      obtain ⟨hafter, hspan, hproblems⟩ := h.piece? hpiece
      rw [← Piece.span_of_token? htoken] at hspan
      exact ⟨hafter, hspan, by simpa [Scan.problems] using hproblems⟩
  | case3 cursor piece after hpiece htoken scan ih =>
      obtain ⟨hafter, -, hproblems⟩ := h.piece? hpiece
      obtain ⟨hcursor, hspan, hrest⟩ := ih hafter
      refine ⟨hcursor, hspan, fun problem hproblem => ?_⟩
      rw [Scan.problems_pass, List.mem_append] at hproblem
      rcases hproblem with hproblem | hproblem
      · exact hproblems problem hproblem
      · exact hrest problem hproblem

theorem rawLine (h : cursor.StandsIn source) :
    cursor.rawLine.cursor.StandsIn source ∧ cursor.rawLine.span.LiesIn source :=
  ⟨(h.advance _).advance _, (h.advance _).between _⟩

end Cursor.StandsIn

end ConfLang
