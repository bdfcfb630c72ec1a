import ConfLang.Name
import ConfLang.Number.Shortest

/-!
# Tokens

The tokens of the language, and how each of them is called in a message.
-/

namespace ConfLang

/-- How grave a reported problem, or a message of the source itself, is. -/
inductive Severity where
  | error
  | warning
  deriving DecidableEq, Repr

/-- How a severity is written. -/
def Severity.text : Severity → String
  | error => "error"
  | warning => "warning"

/-- What a conditional directive block asks for: that an expression holds, that a
name is defined or not, that a file exists or not. -/
inductive ConditionKind where
  | holds
  | defined
  | undefined
  | fileExists
  | fileMissing
  deriving DecidableEq, Repr

namespace ConditionKind

/-- All kinds of conditions. -/
def all : List ConditionKind :=
  [holds, defined, undefined, fileExists, fileMissing]

/-- The word of the directive that opens a block with such a condition. -/
def word : ConditionKind → String
  | holds => "if"
  | defined => "ifdef"
  | undefined => "ifndef"
  | fileExists => "iffile"
  | fileMissing => "ifnofile"

/-- The directive that opens a block with such a condition. -/
def directive (kind : ConditionKind) : String :=
  "%" ++ kind.word

end ConditionKind

/-- The directives that go on with a conditional block or close it. -/
inductive Mark where
  | elif
  | otherwise
  | endif
  deriving DecidableEq, Repr

namespace Mark

/-- All marks. -/
def all : List Mark :=
  [elif, otherwise, endif]

/-- The word of a mark. -/
def word : Mark → String
  | elif => "elif"
  | otherwise => "else"
  | endif => "endif"

/-- A mark as a directive. -/
def directive (mark : Mark) : String :=
  "%" ++ mark.word

end Mark

/-- Operators and punctuation. -/
inductive Symbol where
  | equals
  | both
  | either
  | bang
  | assign
  | plus
  | append
  | dot
  | comma
  | colon
  | openParen
  | closeParen
  | openBrace
  | closeBrace
  | openBracket
  | closeBracket
  deriving DecidableEq, Repr

/-- The spelling of a symbol. -/
def Symbol.text : Symbol → String
  | equals => "=="
  | both => "&&"
  | either => "||"
  | bang => "!"
  | assign => "="
  | plus => "+"
  | append => "+="
  | dot => "."
  | comma => ","
  | colon => ":"
  | openParen => "("
  | closeParen => ")"
  | openBrace => "\x7b"
  | closeBrace => "\x7d"
  | openBracket => "["
  | closeBracket => "]"

/-- What a token is, without its place.  `name` tells whether the name was quoted;
`passage` is a directive line that is kept as it stands, without its percent sign;
`restOfLine` is raw text and comes only where it is asked for; `endOfLine` ends
the line of a directive. -/
inductive TokenKind where
  | integer (value : Int64)
  | float (value : Binary64)
  | string (text : String)
  | name (text : String) (quoted : Bool)
  | keyword (word : Keyword)
  | opener (kind : ConditionKind)
  | mark (which : Mark)
  | message (severity : Severity)
  | passage (text : String)
  | restOfLine (text : String)
  | symbol (sign : Symbol)
  | endOfLine
  | endOfFile
  deriving DecidableEq, Repr

namespace TokenKind

/-- How a token is called in a message. -/
def text : TokenKind → String
  | integer value => "integer literal " ++ toString value.toInt
  | float value => "float literal " ++ value.text
  | string text => "string literal \"" ++ text ++ "\""
  | name text false => "identifier '" ++ text ++ "'"
  | name text true => "quoted identifier '" ++ text ++ "'"
  | keyword word => "'" ++ word.text ++ "'"
  | opener kind => "'" ++ kind.directive ++ "'"
  | mark which => "'" ++ which.directive ++ "'"
  | message severity => "'%" ++ severity.text ++ "'"
  | passage text => "directive '%" ++ text ++ "'"
  | restOfLine text => "text '" ++ text ++ "'"
  | symbol sign => "'" ++ sign.text ++ "'"
  | endOfLine => "end of line"
  | endOfFile => "end of file"

/-- Whether a token opens a conditional directive block. -/
def isOpener : TokenKind → Bool
  | opener _ => true
  | _ => false

/-- Whether the line of a token goes on as the line of a directive. -/
def startsDirectiveLine : TokenKind → Bool
  | opener _ | mark _ | message _ => true
  | _ => false

/-- The token of a directive with a given word.  Other words have no token of
their own. -/
def ofDirective? (word : String) : Option TokenKind :=
  let openers := ConditionKind.all.map fun kind => (kind.word, opener kind)
  let marks := Mark.all.map fun which => (which.word, mark which)
  let messages := [Severity.error, .warning].map fun severity => (severity.text, message severity)
  (openers ++ marks ++ messages).lookup word

end TokenKind

/-- A token at its place. -/
structure Token where
  kind : TokenKind
  span : Span
  deriving DecidableEq, Repr

end ConfLang
