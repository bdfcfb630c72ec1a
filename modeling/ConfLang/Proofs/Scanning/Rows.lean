import ConfLang.Proofs.Scanning.Lexemes
import ConfLang.Proofs.Scanning.Lines

/-!
# The piece that holds a character

A source is a row of pieces, so every character of it belongs to one of them
(`Cursor.Pieces.exists_holds`).  So a statement about all characters of a source becomes one about
a single lexeme and the place where it is read.
-/

namespace ConfLang

namespace Cursor

/-- The piece at a place of a source holds a character: some characters from the place on, and that
one, are the beginning of its lexeme. -/
structure Holds (source start inside : List Char) (character : Char) (place : Cursor) (piece : Piece)
    (next : Cursor) : Prop where
  behind : place.StandsBehind source start
  found : place.piece? = some (piece, next)
  held : ∃ first rest, place.rest = first :: rest ∧
    inside ++ [character] <+: first :: rest.take (Lexeme.read place.mode first rest).further

variable {source before front back after : List Char} {cursor last next : Cursor} {piece : Piece}
  {pieces : List Piece} {character : Char}

/-- In front of a character a piece is found: its lexeme at its place. -/
theorem StandsBehind.behind_piece? (h : cursor.StandsBehind source before)
    (hpiece : cursor.piece? = some (piece, next)) :
    ∃ first rest, cursor.rest = first :: rest ∧ next.StandsBehind source
        (before ++ first :: rest.take (Lexeme.read cursor.mode first rest).further) ∧
      piece = ⟨(Lexeme.read cursor.mode first rest).kind, .between (Position.start.after before)
          (Position.start.after
            (before ++ first :: rest.take (Lexeme.read cursor.mode first rest).further)),
        (Lexeme.read cursor.mode first rest).faults⟩ := by
  unfold Cursor.piece? at hpiece
  split at hpiece
  · cases hpiece
  rename_i first rest hrest
  simp only [Option.some.injEq, Prod.mk.injEq] at hpiece
  obtain ⟨rfl, rfl⟩ := hpiece
  refine ⟨first, rest, hrest, ?_⟩
  have hafter := h.advance (Lexeme.read cursor.mode first rest).width
  rw [hrest, Lexeme.width, List.take_succ_cons] at hafter
  refine ⟨⟨hafter.source, hafter.position⟩, ?_⟩
  rw [Lexeme.width, hafter.position, h.position]

/-- Two beginnings of a source with the same rest are the same. -/
theorem StandsBehind.unique (h : cursor.StandsBehind source before)
    (hsource : source = after ++ cursor.rest) : after = before :=
  List.append_cancel_right (hsource.symm.trans h.source)

theorem Holds.first_mem {start inside : List Char} {place : Cursor}
    (h : Holds source start inside character place piece next) :
    ∀ first ∈ place.rest.head?, first ∈ inside ++ [character] := by
  obtain ⟨first, rest, hrest, hpart⟩ := h.held
  rintro _ hfirst
  rw [hrest] at hfirst
  obtain rfl := Option.some.inj hfirst
  cases inside with
  | nil => exact List.mem_singleton.mpr (List.cons_prefix_cons.mp hpart).1.symm
  | cons other inside => exact (List.cons_prefix_cons.mp hpart).1 ▸ List.mem_cons_self

namespace Pieces

theorem rest (h : cursor.Pieces pieces last) : last.rest <:+ cursor.rest := by
  induction h with
  | nil => exact List.suffix_rfl
  | cons hpiece _ ih => exact ih.trans (rest_piece? hpiece)

/-- A row without characters is empty. -/
theorem eq_nil_of_rest (h : cursor.Pieces pieces last) (hrest : cursor.rest = last.rest) :
    pieces = [] := by
  cases h with
  | nil => rfl
  | cons hpiece hrow =>
      have hlt := rest_length_piece? hpiece
      have hle := hrow.rest.length_le
      rw [hrest] at hlt
      omega

/-- The pieces of a row are lexemes of the source and share out what stands between its ends. -/
theorem shared (h : cursor.Pieces pieces last) (hcursor : cursor.StandsBehind source before) :
    ∃ after, Shared before pieces after ∧ last.StandsBehind source after ∧
      ∀ piece ∈ pieces, piece.IsReadIn source := by
  induction h generalizing before with
  | nil => exact ⟨before, .nil, hcursor, nofun⟩
  | cons hpiece _ ih =>
      obtain ⟨text, hmiddle, hspan, hgap⟩ := hcursor.piece? hpiece
      obtain ⟨after, hshared, hlast, hread⟩ := ih hmiddle
      exact ⟨after, .cons hspan hgap hshared, hlast,
        List.forall_mem_cons.mpr ⟨hcursor.isReadIn hpiece, hread⟩⟩

/-- In front of each piece of a row there is a row that leads to its place. -/
theorem exists_place (h : cursor.Pieces pieces last) (hmem : piece ∈ pieces) :
    ∃ first place next, cursor.Pieces first place ∧ place.piece? = some (piece, next) := by
  induction h with
  | nil => cases hmem
  | @cons cursor middle last found pieces hpiece _ ih =>
      rcases List.mem_cons.mp hmem with rfl | hmem
      · exact ⟨[], cursor, middle, .nil, hpiece⟩
      · obtain ⟨first, place, next, hfirst, hfound⟩ := ih hmem
        exact ⟨found :: first, place, next, .cons hpiece hfirst, hfound⟩

/-- Every character between the ends of a row is held by one of its pieces. -/
theorem exists_holds (h : cursor.Pieces pieces last) (hcursor : cursor.StandsBehind source before)
    (hsource : source = front ++ character :: back) (hfirst : before <+: front)
    (hlast : last.StandsBehind source after) (hend : front.length < after.length) :
    ∃ piece ∈ pieces, ∃ first place next start inside, cursor.Pieces first place ∧
      Holds source start inside character place piece next ∧ before <+: start ∧
      front = start ++ inside := by
  induction h generalizing before with
  | nil =>
      obtain rfl := hlast.unique hcursor.source
      exact absurd hfirst.length_le (Nat.not_le.mpr hend)
  | @cons cursor middle last piece pieces hpiece hrow ih =>
      obtain ⟨first, rest, hrest, hmiddle, -⟩ := hcursor.behind_piece? hpiece
      set text := first :: rest.take (Lexeme.read cursor.mode first rest).further with htext
      have hwhole : front ++ [character] <+: source :=
        ⟨back, by rw [hsource, List.append_assoc, List.singleton_append]⟩
      by_cases hinside : front.length < (before ++ text).length
      · obtain ⟨inside, rfl⟩ := hfirst
        refine ⟨piece, List.mem_cons_self, [], cursor, middle, before, inside, .nil,
          ⟨hcursor, hpiece, first, rest, hrest, ?_⟩, List.prefix_rfl, rfl⟩
        have hpart : before ++ inside ++ [character] <+: before ++ text :=
          List.prefix_of_prefix_length_le hwhole ⟨_, hmiddle.source.symm⟩
            (by rw [List.length_append]; exact hinside)
        rwa [List.append_assoc, List.prefix_append_right_inj] at hpart
      · have hbehind : before ++ text <+: front :=
          List.prefix_of_prefix_length_le ⟨_, hmiddle.source.symm⟩
            ((List.prefix_append _ _).trans hwhole) (Nat.le_of_not_lt hinside)
        obtain ⟨found, hmem, others, place, next, start, inside, hfront, hholds, hstart, rfl⟩ :=
          ih hmiddle hbehind hlast
        exact ⟨found, List.mem_cons_of_mem _ hmem, piece :: others, place, next, start, inside,
          .cons hpiece hfront, hholds, (List.prefix_append _ _).trans hstart, rfl⟩

end Pieces

end Cursor

/-! ## The span of a character -/

/-- The place of a character behind a text that stands at a position. -/
def Span.ofCharacter (position : Position) (front : List Char) (character : Char) : Span :=
  .between (position.after front) ((position.after front).next character)

theorem Cursor.StandsBehind.ofCharacter {source before : List Char} {cursor : Cursor}
    (h : cursor.StandsBehind source before) (front : List Char) (character : Char) :
    Span.ofCharacter cursor.position front character =
        .between (Position.start.after (before ++ front))
          ((Position.start.after (before ++ front)).next character) ∧
      (Span.ofCharacter cursor.position front character).start = Position.bytes (before ++ front) ∧
      (Span.ofCharacter cursor.position front character).stop =
        Position.bytes (before ++ front ++ [character]) := by
  have hstop : (Position.start.after (before ++ front ++ [character])).offset =
      Position.bytes (before ++ front ++ [character]) := by rw [Position.start_after]
  rw [Span.ofCharacter, h.position, ← Position.after_append, Position.after_append _ _ [character]]
    at *
  exact ⟨rfl, by rw [Span.between, Position.start_after], hstop⟩

/-! ## Problems in a span -/

namespace Scanner

variable {source after : List Char} {scanner : Scanner} {pieces : List Piece} {piece : Piece}
  {span : Span}

/-- The problems in the span of a lexeme are those of the lexeme. -/
theorem problemsIn_piece (h : Shared [] pieces after)
    (hfrom : ∀ piece ∈ pieces, piece.ComesFrom source)
    (hproblems : scanner.problems.toList = pieces.flatMap Piece.problems) (hmem : piece ∈ pieces)
    (hread : piece.IsReadIn source) : scanner.problemsIn piece.span = piece.problems := by
  rw [problemsIn, hproblems]
  exact h.filter_problems hfrom hmem hread

/-- Where nothing is said about a span, nothing is said about a part of it. -/
theorem problemsIn_eq_nil (h : scanner.problemsIn span = []) {part : Span}
    (hstart : span.start ≤ part.start) (hstop : part.stop ≤ span.stop) :
    scanner.problemsIn part = [] := by
  rw [problemsIn, List.filter_eq_nil_iff] at h ⊢
  intro problem hmem hinside
  refine h problem hmem ?_
  simp only [decide_eq_true_eq] at hinside ⊢
  omega

end Scanner

end ConfLang
