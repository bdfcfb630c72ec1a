import ConfLang.Token

/-!
# What can be wrong with a source

Every problem is a cause with the facts that its message quotes.  The wording is
in one place, `Cause.message`, and so is the class of a problem, `Cause.kind`.
-/

namespace ConfLang

/-- The class of a problem: bad characters, bad order of tokens, or a list of good
tokens that has a bad shape. -/
inductive ProblemKind where
  | lexical
  | grammar
  | structural
  deriving DecidableEq, Repr

/-- How a class of problems is called in a message. -/
def ProblemKind.text : ProblemKind → String
  | lexical => "lexical"
  | grammar => "syntax"
  | structural => "structural"

/-- The pairs of brackets. -/
inductive Bracket where
  | paren
  | brace
  | square
  deriving DecidableEq, Repr

namespace Bracket

/-- The symbol that opens a pair of brackets. -/
def opening : Bracket → Symbol
  | paren => .openParen
  | brace => .openBrace
  | square => .openBracket

/-- The symbol that closes a pair of brackets. -/
def closing : Bracket → Symbol
  | paren => .closeParen
  | brace => .closeBrace
  | square => .closeBracket

end Bracket

/-- What the grammar asks for at a place where something else stands. -/
inductive Expectation where
  | statement
  | expression
  | conditionalDirective
  | constantName
  | groupName
  | targetName
  | testedName (kind : ConditionKind)
  | definedName
  | memberName
  | labelName
  | conditionOpening
  | definedOpening
  | assignmentSign (target : String)
  | constantSign (name : String)
  | labelSign (label : String)
  | blockAfterCondition
  | blockAfterElse
  | blockAfterGroup (name : String)
  | endOfCondition (kind : ConditionKind)
  | endOfElif
  | endOfMessage (severity : Severity)
  deriving DecidableEq, Repr

/-- How an expectation is put into words.  Names are given as they are written in
a source. -/
def Expectation.text : Expectation → String
  | statement => "Expected statement"
  | expression => "Expected expression"
  | conditionalDirective => "Expected '%if' directive"
  | constantName => "Expected identifier after 'const'"
  | groupName => "Expected identifier after 'group'"
  | targetName => "Expected identifier at start of statement"
  | testedName kind => "Expected identifier after '" ++ kind.directive ++ "'"
  | definedName => "Expected identifier in 'defined(...)'"
  | memberName => "Expected identifier after '.'"
  | labelName => "Expected identifier after '.' in named argument"
  | conditionOpening => "Expected '(' after 'if'"
  | definedOpening => "Expected '(' after 'defined'"
  | assignmentSign target => "Expected '=' or '+=' after " ++ writtenName target
  | constantSign name => "Expected '=' in declaration of " ++ writtenName name
  | labelSign label => "Expected '=' after argument name " ++ writtenName label
  | blockAfterCondition => "Expected '\x7b' after if condition"
  | blockAfterElse => "Expected '\x7b' after 'else'"
  | blockAfterGroup name => "Expected '\x7b' after group name " ++ writtenName name
  | endOfCondition kind => "Expected end of line after '" ++ kind.directive ++ "' condition"
  | endOfElif => "Expected end of line after '%elif' condition"
  | endOfMessage severity => "Expected end of line after '%" ++ severity.text ++ "' message"

/-- What is wrong.  A mark that belongs to no conditional directive block is told with
the number of such blocks around it. -/
inductive Cause where
  | unterminated (quote : Quote)
  | malformedNumber (text : String)
  | integerOutOfRange (digits : String)
  | strayPercent
  | loneOperator (character : Char)
  | unexpectedCharacter (character : Char)
  | invalidEncoding (offset : Nat)
  | unexpected (expectation : Expectation) (found : TokenKind)
  | unclosed (bracket : Bracket) (opened : Span) (found : TokenKind)
  | missingEndif (kind : ConditionKind) (opened : Span) (found : TokenKind)
  | strayMark (mark : Mark) (chains : Nat)
  | elifAfterElse
  | duplicateElse
  | unsupportedPlus
  | nestingTooDeep (limit : Nat)
  | tooManyErrors (limit : Nat)
  | duplicateDeclaration (name : String) (first : Span)
  | emptyPath (kind : ConditionKind)
  | extraTokens (mark : Mark)
  | emptyElement (bracket : Bracket)
  | stated (kind : ProblemKind) (message : String)
  deriving DecidableEq, Repr

namespace Cause

/-- The class that a cause belongs to. -/
def kind : Cause → ProblemKind
  | unterminated _ | malformedNumber _ | integerOutOfRange _ | strayPercent | loneOperator _
  | unexpectedCharacter _ | invalidEncoding _ => .lexical
  | emptyElement _ => .structural
  | stated kind _ => kind
  | _ => .grammar

/-- How a cause is put into words. -/
def message : Cause → String
  | unterminated quote => "Unterminated " ++ quote.noun
  | malformedNumber text => "Malformed numeric literal: " ++ text
  | integerOutOfRange digits => "Integer literal out of range: " ++ digits
  | strayPercent => "Unexpected '%': directives must start a line"
  | loneOperator character =>
    let sign := String.singleton character
    "Unexpected character '" ++ sign ++ "', expected '" ++ sign ++ sign ++ "'"
  | unexpectedCharacter character =>
    "Unexpected character: '" ++ String.singleton character ++ "'"
  | invalidEncoding offset =>
    "Invalid UTF-8 at byte " ++ toString offset ++ "; input truncated"
  | unexpected expectation found => expectation.text ++ ", found " ++ found.text
  | unclosed bracket opened found =>
    "Expected '" ++ bracket.closing.text ++ "' to close '" ++ bracket.opening.text ++
      "' opened at " ++ opened.text ++ ", found " ++ found.text
  | missingEndif kind opened found =>
    "Missing '%endif' for '" ++ kind.directive ++ "' opened at " ++ opened.text ++
      ", found " ++ found.text
  | strayMark mark _ => "'" ++ mark.directive ++ "' without matching '%if'"
  | elifAfterElse => "'%elif' after '%else'"
  | duplicateElse => "Duplicate '%else'"
  | unsupportedPlus => "Unsupported operator '+' in expression"
  | nestingTooDeep limit => "Maximum nesting depth of " ++ toString limit ++ " exceeded"
  | tooManyErrors limit => "Too many errors (" ++ toString limit ++ "), parsing stopped"
  | duplicateDeclaration name first =>
    "Duplicate declaration of '" ++ name ++ "' (first declared at " ++ first.text ++ ")"
  | emptyPath kind => "Empty path after '" ++ kind.directive ++ "'"
  | extraTokens mark => "Extra tokens after '" ++ mark.directive ++ "' ignored"
  | emptyElement bracket =>
    "Unexpected ',' in '" ++ bracket.opening.text ++ "' list: empty element"
  | stated _ message => message

end Cause

end ConfLang
