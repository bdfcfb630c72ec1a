import ConfLang.Text.Position
import ConfLang.Text.Character
import ConfLang.Text.Quoted

/-!
# Names

A name is any text.  It can be written bare if it looks like a word of ASCII
letters, digits and underscores and is no keyword; any other name is written in
apostrophes.  Two identifiers are equal when their names are: how they were
written, and where, does not count.
-/

namespace ConfLang

/-- The reserved words. -/
inductive Keyword where
  | constant
  | group
  | ifWord
  | elseWord
  deriving DecidableEq, Repr

namespace Keyword

/-- All reserved words. -/
def all : List Keyword :=
  [constant, group, ifWord, elseWord]

/-- The spelling of a reserved word. -/
def text : Keyword → String
  | constant => "const"
  | group => "group"
  | ifWord => "if"
  | elseWord => "else"

/-- The reserved word with a given spelling. -/
def ofText? (word : String) : Option Keyword :=
  all.find? (·.text == word)

end Keyword

/-- Whether a text is a word: it starts as one and goes on as one. -/
def isWord : List Char → Bool
  | [] => false
  | first :: rest => Text.isWordStart first && rest.all Text.isWordPart

/-- Whether a name can be written without quotes. -/
def isBareName (name : String) : Bool :=
  isWord name.toList && (Keyword.ofText? name).isNone

/-- A name as it is written in a source. -/
def writtenName (name : String) : String :=
  if isBareName name then name else Quote.name.written name

/-- A name at a place of a source. -/
structure Identifier where
  name : String
  quoted : Bool := false
  span : Span := {}
  deriving DecidableEq, Repr, Inhabited

namespace Identifier

instance : BEq Identifier := ⟨fun first second => first.name == second.name⟩

/-- Whether an identifier can be written without quotes. -/
def isBare (identifier : Identifier) : Bool :=
  isBareName identifier.name

/-- An identifier as it is written in a source. -/
def text (identifier : Identifier) : String :=
  writtenName identifier.name

end Identifier

end ConfLang
