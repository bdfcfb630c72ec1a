import ConfLang.Token.Lexeme
import ConfLang.Problem.Diagnostic

/-!
# Reading tokens at a cursor

A cursor is a place in a source: the characters that follow, the position, and
the mode of the line.  `Cursor.piece?` takes the next lexeme and gives it its
place; `Cursor.next` goes on until a token comes, and `Cursor.restOfLine` takes
what is left of a line as raw text.

Nothing gets lost: the pieces that a scan passes over and its token are all there
is between the two cursors.
-/

namespace ConfLang

/-- Source text between tokens. -/
structure Trivia where
  kind : TriviaKind
  span : Span
  deriving DecidableEq, Repr

/-- A lexeme at its place. -/
structure Piece where
  kind : LexemeKind
  span : Span
  faults : List Cause := []
  deriving DecidableEq, Repr

namespace Piece

/-- Where a fault of a piece is reported: a quote that is not closed at its opening
delimiter, anything else at the whole piece. -/
def faultSpan (piece : Piece) : Cause → Span
  | .unterminated _ => piece.span.firstByte
  | _ => piece.span

/-- What is wrong about a piece. -/
def problems (piece : Piece) : List Problem :=
  piece.faults.map fun cause => ⟨cause, piece.faultSpan cause⟩

/-- A piece as trivia. -/
def trivia? (piece : Piece) : Option Trivia :=
  match piece.kind with
  | .trivia kind => some ⟨kind, piece.span⟩
  | _ => none

/-- A piece as a token. -/
def token? (piece : Piece) : Option Token :=
  match piece.kind with
  | .token kind => some ⟨kind, piece.span⟩
  | _ => none

end Piece

/-- A place in a source. -/
structure Cursor where
  rest : List Char
  position : Position := .start
  mode : LineMode := {}
  deriving DecidableEq, Repr

/-- A token together with the pieces that were passed over to find it. -/
structure Scan where
  passed : List Piece
  token : Token
  /-- What is wrong about the token itself. -/
  faults : List Problem
  /-- The place behind the token. -/
  cursor : Cursor
  deriving DecidableEq, Repr

/-- Raw text up to the end of a line, and the spacing in front of it. -/
structure RawLine where
  passed : List Piece
  text : String
  span : Span
  /-- The place behind the text. -/
  cursor : Cursor
  deriving DecidableEq, Repr

namespace Scan

/-- The problems of a scan in the order of the source. -/
def problems (scan : Scan) : List Problem :=
  scan.passed.flatMap Piece.problems ++ scan.faults

/-- The trivia of a scan in the order of the source. -/
def trivia (scan : Scan) : List Trivia :=
  scan.passed.filterMap Piece.trivia?

end Scan

namespace Cursor

/-- The place before the first character of a source. -/
def ofSource (source : String) : Cursor :=
  { rest := source.toList }

/-- Whether only blank characters stand before on the line, after one more
character. -/
def startAfter (atStart : Bool) (character : Char) : Bool :=
  character == '\n' || (atStart && Text.isBlank character)

/-- The place some characters further on. -/
def advance (cursor : Cursor) (count : Nat) : Cursor :=
  let passed := cursor.rest.take count
  { rest := cursor.rest.drop count
    position := cursor.position.after passed
    mode := { cursor.mode with atStart := passed.foldl startAfter cursor.mode.atStart } }

/-- The mode of the line behind a lexeme. -/
def modeAfter (mode : LineMode) : LexemeKind → LineMode
  | .token .endOfLine => { mode with isDirective := false }
  | .token kind => { mode with isDirective := mode.isDirective || kind.startsDirectiveLine }
  | _ => mode

/-- The next lexeme at its place, and the cursor behind it. -/
def piece? (cursor : Cursor) : Option (Piece × Cursor) :=
  match cursor.rest with
  | [] => none
  | first :: rest =>
    let lexeme := Lexeme.read cursor.mode first rest
    let after := cursor.advance lexeme.width
    let span := Span.between cursor.position after.position
    some (⟨lexeme.kind, span, lexeme.faults⟩,
      { after with mode := modeAfter after.mode lexeme.kind })

theorem rest_length_advance (cursor : Cursor) (count : Nat) :
    (cursor.advance count).rest.length = cursor.rest.length - count := by
  simp [advance]

/-- A piece is never empty. -/
theorem rest_length_piece? {cursor after : Cursor} {piece : Piece}
    (h : cursor.piece? = some (piece, after)) : after.rest.length < cursor.rest.length := by
  unfold piece? at h
  split at h
  · simp at h
  · rename_i first rest hrest
    simp only [Option.some.injEq, Prod.mk.injEq] at h
    obtain ⟨-, rfl⟩ := h
    simp only [rest_length_advance, hrest, Lexeme.width, List.length_cons]
    omega

/-- The end of the source as a token. -/
def endOfFile (cursor : Cursor) : Token :=
  ⟨.endOfFile, Span.emptyAt cursor.position⟩

/-- Reads the next token.  At the end of the source this is the end of the file,
however often it is asked for. -/
def next (cursor : Cursor) : Scan :=
  match _h : cursor.piece? with
  | none =>
    ⟨[], cursor.endOfFile, [], { cursor with mode := { cursor.mode with isDirective := false } }⟩
  | some (piece, after) =>
    match piece.token? with
    | some token => ⟨[], token, piece.problems, after⟩
    | none =>
      let scan := next after
      { scan with passed := piece :: scan.passed }
termination_by cursor.rest.length
decreasing_by exact rest_length_piece? _h

/-- The spacing in front of a cursor. -/
def spacing (cursor : Cursor) : List Char :=
  cursor.rest.takeWhile Text.isSpacing

/-- Takes what is left of the line, without the spacing in front of it and the blank
characters at its end.  The end of the line stays unread. -/
def rawLine (cursor : Cursor) : RawLine :=
  let start := cursor.advance cursor.spacing.length
  let passed :=
    if cursor.spacing.isEmpty then []
    else [⟨.trivia .spacing, Span.between cursor.position start.position, []⟩]
  let text := Text.trimEnd (Text.line start.rest)
  let after := start.advance text.length
  ⟨passed, String.ofList text, Span.between start.position after.position, after⟩

/-- Reads what is left of the line as one token. -/
def restOfLine (cursor : Cursor) : Scan :=
  let raw := cursor.rawLine
  ⟨raw.passed, ⟨.restOfLine raw.text, raw.span⟩, [], raw.cursor⟩

/-! ### Progress -/

/-- Unless it is the end of the file, a token takes something away. -/
theorem rest_length_next_lt {cursor : Cursor} (h : cursor.next.token.kind ≠ .endOfFile) :
    cursor.next.cursor.rest.length < cursor.rest.length := by
  revert h
  fun_induction next cursor with
  | case1 => simp [endOfFile]
  | case2 cursor piece after h => exact fun _ => rest_length_piece? h
  | case3 cursor piece after h _ scan ih =>
    intro hkind
    have := rest_length_piece? h
    have := ih hkind
    simp only [scan] at this ⊢
    omega

/-- The scans of all tokens from a cursor on, through the end of the file. -/
def scans (cursor : Cursor) : List Scan :=
  let scan := cursor.next
  if _h : scan.token.kind = .endOfFile then [scan]
  else scan :: scans scan.cursor
termination_by cursor.rest.length
decreasing_by exact rest_length_next_lt _h

end Cursor

end ConfLang
