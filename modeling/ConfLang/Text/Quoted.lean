/-!
# Quoted text

Names are quoted by apostrophes and strings by quotation marks.  Inside quotes a
backslash before the delimiter stands for the delimiter; any other backslash
stands for itself.  Quoted text never goes past the end of its line.

`Quote.encode` writes the inside of a quoted text, and `Quote.scan` reads it up
to and including the closing delimiter.
-/

namespace ConfLang

/-- What a pair of quotes encloses. -/
inductive Quote where
  | name
  | string
  deriving DecidableEq, Repr

namespace Quote

/-- The character on both sides of a quoted text. -/
def delimiter : Quote → Char
  | name => '\''
  | string => '"'

/-- What the quoted thing is called in a message. -/
def noun : Quote → String
  | name => "quoted identifier"
  | string => "string literal"

/-- The quote that a character opens. -/
def ofDelimiter? (character : Char) : Option Quote :=
  if character = '\'' then some name
  else if character = '"' then some string
  else none

/-- The characters written inside quotes for a text. -/
def encode (quote : Quote) (text : List Char) : List Char :=
  text.flatMap fun character =>
    if character = quote.delimiter then ['\\', character] else [character]

/-- A text in its quotes. -/
def written (quote : Quote) (text : String) : String :=
  String.ofList (quote.delimiter :: (quote.encode text.toList ++ [quote.delimiter]))

/-- What was read behind an opening delimiter. -/
structure Content where
  /-- The text that the quotes stand for. -/
  text : List Char
  /-- How many characters were read, the closing delimiter included. -/
  width : Nat
  /-- Whether the closing delimiter was there. -/
  closed : Bool
  deriving DecidableEq, Repr

/-- A further character of the text, which was written as `width` characters. -/
def Content.prepend (content : Content) (character : Char) (width : Nat) : Content :=
  ⟨character :: content.text, width + content.width, content.closed⟩

/-- Reads the characters behind an opening delimiter, up to the closing one or to
the end of the line. -/
def scan (quote : Quote) : List Char → Content
  | [] => ⟨[], 0, false⟩
  | '\\' :: character :: rest =>
    if character = quote.delimiter then (scan quote rest).prepend character 2
    else (scan quote (character :: rest)).prepend '\\' 1
  | character :: rest =>
    if character = '\n' then ⟨[], 0, false⟩
    else if character = quote.delimiter then ⟨[], 1, true⟩
    else (scan quote rest).prepend character 1

end Quote

end ConfLang
