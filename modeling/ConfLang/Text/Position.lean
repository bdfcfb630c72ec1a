/-!
# Positions and spans

A place in a text is counted in three ways at once: in bytes of its UTF-8
encoding, in lines and in characters of the line.  All three follow from the
characters that stand before the place, so a position is obtained by moving over
characters (`Position.next`, `Position.after`).  Only the end of a text is also counted
from the text as a whole (`Span.endOf`).

A span is a stretch of text together with the line and column of its first
character.
-/

namespace ConfLang

/-- A place in a text: bytes before it, and its line and column, both counted
from one. -/
structure Position where
  offset : Nat
  line : Nat
  column : Nat
  deriving DecidableEq, Repr, Inhabited

namespace Position

/-- The place before the first character of a text. -/
def start : Position := ⟨0, 1, 1⟩

/-- The place after one more character.  Only a line feed begins a new line. -/
def next (position : Position) (character : Char) : Position :=
  if character = '\n' then
    ⟨position.offset + character.utf8Size, position.line + 1, 1⟩
  else
    ⟨position.offset + character.utf8Size, position.line, position.column + 1⟩

/-- The place after some more characters. -/
def after (position : Position) (characters : List Char) : Position :=
  characters.foldl next position

@[simp] theorem after_nil (position : Position) : position.after [] = position := rfl

@[simp] theorem after_cons (position : Position) (character : Char) (characters : List Char) :
    position.after (character :: characters) = (position.next character).after characters := rfl

theorem after_append (position : Position) (first second : List Char) :
    position.after (first ++ second) = (position.after first).after second := by
  simp [after]

/-- The characters behind the last line feed of a text. -/
def lastLine (characters : List Char) : List Char :=
  (characters.reverse.takeWhile (· != '\n')).reverse

theorem offset_next (position : Position) (character : Char) :
    (position.next character).offset = position.offset + character.utf8Size := by
  unfold next
  split <;> rfl

end Position

/-- A stretch `start..stop` of bytes, with the line and column of its start.  The
span of all zeros stands for "nowhere". -/
structure Span where
  start : Nat := 0
  stop : Nat := 0
  line : Nat := 0
  column : Nat := 0
  deriving DecidableEq, Repr, Inhabited

namespace Span

/-- The stretch between two places. -/
def between (first last : Position) : Span :=
  ⟨first.offset, last.offset, first.line, first.column⟩

/-- The empty stretch at a place. -/
def emptyAt (position : Position) : Span :=
  between position position

/-- The empty stretch at the end of a text, counted from the whole text. -/
def endOf (text : String) : Span :=
  { start := text.utf8ByteSize
    stop := text.utf8ByteSize
    line := text.toList.count '\n' + 1
    column := (Position.lastLine text.toList).length + 1 }

/-- From the start of one span through the end of another, or its own end if that
is later. -/
def through (span other : Span) : Span :=
  { span with stop := max other.stop span.stop }

/-- The empty span where a span starts. -/
def origin (span : Span) : Span :=
  { span with stop := span.start }

/-- The first byte of a span. -/
def firstByte (span : Span) : Span :=
  { span with stop := span.start + 1 }

/-- The number of bytes covered. -/
def length (span : Span) : Nat :=
  span.stop - span.start

/-- Whether no byte is covered. -/
def isEmpty (span : Span) : Bool :=
  span.start == span.stop

/-- How a span is quoted in a message. -/
def text (span : Span) : String :=
  "line " ++ toString span.line ++ ", column " ++ toString span.column

end Span

end ConfLang
