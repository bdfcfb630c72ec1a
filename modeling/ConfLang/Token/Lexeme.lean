import ConfLang.Problem.Cause

/-!
# Lexemes

A source is cut into lexemes: trivia, tokens, and single characters that belong
to neither.  `Lexeme.read` reads the lexeme that a text begins with.  It looks
at characters only; where the lexeme stands is not its business, but what stands
before it on its line is, in the form of a `LineMode`.

A lexeme is never empty: it has a first character and `further` ones.
-/

namespace ConfLang

/-- What stands between tokens. -/
inductive TriviaKind where
  | spacing
  | newline
  | comment
  deriving DecidableEq, Repr

/-- What the beginning of a line means for the rest of it. -/
structure LineMode where
  /-- Only blank characters stand before on the line. -/
  atStart : Bool := true
  /-- The line is that of a directive, so that its end is a token. -/
  isDirective : Bool := false
  deriving DecidableEq, Repr

/-- What a lexeme is. -/
inductive LexemeKind where
  | trivia (kind : TriviaKind)
  | token (kind : TokenKind)
  | rejected
  deriving DecidableEq, Repr

/-- A lexeme with the number of characters behind its first one, and with what is
wrong about it. -/
structure Lexeme where
  kind : LexemeKind
  further : Nat := 0
  faults : List Cause := []
  deriving DecidableEq, Repr

namespace Lexeme

/-- The number of characters of a lexeme. -/
def width (lexeme : Lexeme) : Nat :=
  lexeme.further + 1

/-- A faultless token. -/
def ofToken (kind : TokenKind) (further : Nat := 0) : Lexeme :=
  ⟨.token kind, further, []⟩

/-- A symbol of one character. -/
def ofSymbol (sign : Symbol) (further : Nat := 0) : Lexeme :=
  ofToken (.symbol sign) further

/-- A character that is reported and skipped. -/
def reject (cause : Cause) : Lexeme :=
  ⟨.rejected, 0, [cause]⟩

/-! ### Quoted text -/

/-- The token of a quoted text. -/
def quotedToken (quote : Quote) (text : String) : TokenKind :=
  match quote with
  | .name => .name text true
  | .string => .string text

/-- Quoted text behind its opening delimiter. -/
def readQuoted (quote : Quote) (rest : List Char) : Lexeme :=
  let content := quote.scan rest
  { kind := .token (quotedToken quote (String.ofList content.text))
    further := content.width
    faults := if content.closed then [] else [.unterminated quote] }

/-! ### Numbers -/

/-- The largest integer that a literal can have. -/
def maxInteger : Nat := 9223372036854775807

/-- The parts of a numeric literal: digits, the digits behind a point if there are
any, and letters that do not belong there. -/
structure Numeral where
  whole : List Char
  fraction : List Char
  tail : List Char
  deriving DecidableEq, Repr

namespace Numeral

/-- The part of a literal that can be read as a number. -/
def digits (numeral : Numeral) : List Char :=
  if numeral.fraction.isEmpty then numeral.whole
  else numeral.whole ++ '.' :: numeral.fraction

/-- All characters of a literal. -/
def text (numeral : Numeral) : List Char :=
  numeral.digits ++ numeral.tail

/-- The digits behind a point, if a text goes on with a point and a digit. -/
def fractionOf : List Char → List Char
  | '.' :: rest => rest.takeWhile Char.isDigit
  | _ => []

/-- The literal that begins with a digit. -/
def read (first : Char) (rest : List Char) : Numeral :=
  let behindWhole := rest.dropWhile Char.isDigit
  let fraction := fractionOf behindWhole
  let behind := if fraction.isEmpty then behindWhole else behindWhole.drop (fraction.length + 1)
  ⟨first :: rest.takeWhile Char.isDigit, fraction, behind.takeWhile Text.isWordPart⟩

/-- The value of a literal, and what is wrong with that. -/
def value (numeral : Numeral) : TokenKind × List Cause :=
  if numeral.fraction.isEmpty then
    let number := Nat.ofDigitChars 10 numeral.whole 0
    if number ≤ maxInteger then (.integer (Int64.ofNat number), [])
    else
      (.integer (Int64.ofNat maxInteger), [.integerOutOfRange (String.ofList numeral.whole)])
  else (.float (.ofDecimal (.ofDigits numeral.whole numeral.fraction)), [])

/-- What is wrong with the characters of a literal. -/
def malformed (numeral : Numeral) : List Cause :=
  if numeral.tail.isEmpty then [] else [.malformedNumber (String.ofList numeral.text)]

end Numeral

/-- A number from its first digit on.  Letters that follow immediately belong to the
literal and make it malformed. -/
def readNumber (first : Char) (rest : List Char) : Lexeme :=
  let numeral := Numeral.read first rest
  let (kind, faults) := numeral.value
  ⟨.token kind, numeral.text.length - 1, numeral.malformed ++ faults⟩

/-! ### Words and directives -/

/-- A keyword or a bare name from its first letter on. -/
def readWord (first : Char) (rest : List Char) : Lexeme :=
  let letters := rest.takeWhile Text.isWordPart
  let word := String.ofList (first :: letters)
  match Keyword.ofText? word with
  | some keyword => ofToken (.keyword keyword) letters.length
  | none => ofToken (.name word false) letters.length

/-- A directive behind its percent sign: one of the known words, or else a line
that is kept as it stands. -/
def readDirective (rest : List Char) : Lexeme :=
  let letters := rest.takeWhile Text.isWordPart
  match TokenKind.ofDirective? (String.ofList letters) with
  | some kind => ofToken kind letters.length
  | none =>
    let remainder := Text.trimEnd (Text.line (rest.drop letters.length))
    let text := letters ++ remainder
    ofToken (.passage (String.ofList text)) text.length

/-! ### Symbols -/

/-- A symbol that may be doubled or followed by an equals sign. -/
def readPaired (second : Char) (long short : Symbol) (rest : List Char) : Lexeme :=
  if rest.head? = some second then ofSymbol long 1 else ofSymbol short

/-- An operator that must be written twice. -/
def readDoubled (character : Char) (sign : Symbol) (rest : List Char) : Lexeme :=
  if rest.head? = some character then ofSymbol sign 1 else reject (.loneOperator character)

/-- The symbols of one character that begin no longer one. -/
def symbol? : Char → Option Symbol
  | '!' => some .bang
  | '.' => some .dot
  | ',' => some .comma
  | ':' => some .colon
  | '(' => some .openParen
  | ')' => some .closeParen
  | '\x7b' => some .openBrace
  | '\x7d' => some .closeBrace
  | '[' => some .openBracket
  | ']' => some .closeBracket
  | _ => none

/-- A symbol, or a character that is none. -/
def readSymbol (first : Char) (rest : List Char) : Lexeme :=
  match first with
  | '=' => readPaired '=' .equals .assign rest
  | '+' => readPaired '=' .append .plus rest
  | '&' => readDoubled '&' .both rest
  | '|' => readDoubled '|' .either rest
  | _ =>
    match symbol? first with
    | some sign => ofSymbol sign
    | none => reject (.unexpectedCharacter first)

/-! ### The lexeme a text begins with -/

/-- Reads a token that is neither trivia nor the end of a line. -/
def readToken (mode : LineMode) (first : Char) (rest : List Char) : Lexeme :=
  match Quote.ofDelimiter? first with
  | some quote => readQuoted quote rest
  | none =>
    if first.isDigit then readNumber first rest
    else if Text.isWordStart first then readWord first rest
    else if first = '%' then
      if mode.atStart && !mode.isDirective then readDirective rest else reject .strayPercent
    else readSymbol first rest

/-- Reads the lexeme that begins with a character and goes on in the rest of the
text. -/
def read (mode : LineMode) (first : Char) (rest : List Char) : Lexeme :=
  if Text.isSpacing first then
    ⟨.trivia .spacing, (rest.takeWhile Text.isSpacing).length, []⟩
  else if first = '\n' then
    if mode.isDirective then ofToken .endOfLine else ⟨.trivia .newline, 0, []⟩
  else if first = '#' then
    ⟨.trivia .comment, (Text.line rest).length, []⟩
  else readToken mode first rest

end Lexeme

end ConfLang
