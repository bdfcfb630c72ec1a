import ConfLang.Reading.Basic
import ConfLang.Tree.Expression

/-!
# Reading expressions

An expression is a chain of operands between binary operators; an operand is a
chain of calls and member accesses on something primary, behind any number of
negations.  Chains are read by repetition.  Only what is enclosed, in brackets or
behind a negation, is read by recursion, and that goes down one level of nesting.

`Expression.read level least` reads an expression whose operators bind at least as
tightly as `least`, with `level` levels of nesting left, the current one included.
-/

namespace ConfLang

theorem Operator.precedence_le (operator : Operator) : operator.precedence ≤ 4 := by
  cases operator <;> decide

namespace Reading

variable {α : Type}

/-! ### Binary operators -/

/-- The operator at the current token, if there is one.  A plus sign is none, and can
never follow an operand. -/
def operator? : Reading (Option Operator) := do
  let token ← peek
  if token.kind = .symbol .plus then fail .unsupportedPlus token.span
  else return Operator.ofToken? token.kind

/-- Operands and the operators between them that bind at least as tightly as
`least`.  The right side of an operator takes only operators that bind more tightly,
so equal ones group to the left. -/
def chain (operand : Reading Expression) (least : Nat) : Reading Expression := do
  let first ← operand
  iterate (fun left => do
    match ← operator? with
    | none => return .done left
    | some operator =>
      if _h : least ≤ operator.precedence then
        let _ ← advance
        let right ← chain operand (operator.precedence + 1)
        return .again (.binary operator left right (left.span.through right.span))
      else return .done left) first
termination_by 5 - least
decreasing_by
  have := operator.precedence_le
  omega

/-! ### Lists -/

/-- Skips commas behind a comma of a list, and reports each of them. -/
def extraCommas (bracket : Bracket) : Reading Unit :=
  iterate (fun _ => do
    let token ← peek
    if token.kind = .symbol .comma then
      let _ ← advance
      report (.error (.emptyElement bracket) token.span)
      return .again ()
    else return .done ()) ()

/-- One element of a list, and the comma behind it. -/
def element (bracket : Bracket) (item : Reading α) (items : Array α) :
    Reading (Turn (Array α)) := do
  let kind := (← peek).kind
  if kind = .symbol bracket.closing ∨ kind = .endOfFile ∨ kind = .endOfLine then
    return .done items
  else
    let items := items.push (← item)
    if ← accept (.symbol .comma) then
      extraCommas bracket
      return .again items
    else return .done items

/-- The elements of a list through its closing bracket, and the place of that. -/
def elements (bracket : Bracket) (opened : Span) (item : Reading α) :
    Reading (List α × Span) := do
  let items ← iterate (element bracket item) #[]
  let close ← closing bracket opened
  return (items.toList, close)

/-- An argument of a call. -/
def argument (expression : Reading Expression) : Reading Argument := do
  if ← accept (.symbol .dot) then
    let label ← identifier .labelName
    let _ ← expect .assign (.labelSign label.name)
    return .mk (some label) (← expression)
  else return .mk none (← expression)

/-! ### Operands -/

/-- The question whether a name is defined. -/
def definedQuestion : Reading Expression := do
  let start ← advance
  let opened ← expect .openParen .definedOpening
  let name ← identifier .definedName
  let close ← closing .paren opened
  return .defined name (start.span.through close)

/-- Whether the current token, a name that is not quoted, begins the question whether
a name is defined.  The token behind it is looked at only if that matters. -/
def isDefinedQuestion (name : String) : Reading Bool := do
  if (← get).nesting.inCondition ∧ name = "defined" then
    return (← peekSecond).kind = .symbol .openParen
  else return false

/-- A literal, a name, or an expression in brackets. -/
def primary (inner : Reading Expression) : Reading Expression := do
  let token ← peek
  match token.kind with
  | .integer value =>
    let _ ← advance
    return .integer value token.span
  | .float value =>
    let _ ← advance
    return .float value token.span
  | .string text =>
    let _ ← advance
    return .string text token.span
  | .name text true =>
    let _ ← advance
    return .name ⟨text, true, token.span⟩
  | .name text false =>
    if ← isDefinedQuestion text then definedQuestion
    else
      let _ ← advance
      return .name ⟨text, false, token.span⟩
  | .symbol .openParen =>
    let _ ← advance
    let expression ← nested inner
    let close ← closing .paren token.span
    return .group expression (token.span.through close)
  | .symbol .openBracket =>
    let _ ← advance
    let (expressions, close) ← nested (elements .square token.span inner)
    return .array expressions (token.span.through close)
  | _ => unexpected .expression

/-- One member access or call on what was read so far. -/
def suffix (inner : Reading Expression) (operand : Expression) : Reading (Turn Expression) := do
  let token ← peek
  match token.kind with
  | .symbol .dot =>
    let _ ← advance
    let member ← identifier .memberName
    return .again (.member operand member (operand.span.through member.span))
  | .symbol .openParen =>
    let _ ← advance
    let (arguments, close) ← nested (elements .paren token.span (argument inner))
    return .again (.call operand arguments (operand.span.through close))
  | _ => return .done operand

/-- Something primary with its member accesses and calls. -/
def suffixed (inner : Reading Expression) : Reading Expression := do
  iterate (suffix inner) (← primary inner)

/-- A negation of an operand one level deeper, or else something plain. -/
def negated (operand plain : Reading Expression) : Reading Expression := do
  let token ← peek
  if token.kind = .symbol .bang then
    let _ ← advance
    let operand ← nested operand
    return .negation operand (token.span.through operand.span)
  else plain

/-- An operand of binary operators, with some levels of nesting left. -/
def operand : Nat → Reading Expression
  | 0 => tooDeep
  | level + 1 => negated (operand level) (suffixed (chain (operand level) Operator.lowestPrecedence))

end Reading

/-- Reads an expression whose operators bind at least as tightly as `least`. -/
def Expression.read (level least : Nat) : Reading Expression :=
  Reading.chain (Reading.operand level) least

end ConfLang
