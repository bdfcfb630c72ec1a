import ConfLang.Reading.Conditional

/-!
# Reading statements

The first token of a statement tells its kind.  A statement has no mark of its end:
it ends where the next token cannot go on with it.

The rules of this module take as parameters how to read an expression at the same
level of nesting, and how to read expressions and statements one level deeper.
`Statement.read` ties the knot, by recursion on the levels that are left.
-/

namespace ConfLang

/-- How to read what stands one level deeper. -/
structure Inner where
  expression : Reading Expression
  statement : Reading (Option Statement)

namespace Reading

/-! ### Declarations -/

/-- The type of a constant, if a colon announces one. -/
def declaredType (expression : Reading Expression) : Reading (Option Expression) := do
  if ← accept (.symbol .colon) then return some (← expression)
  else return none

/-- The declaration of a constant. -/
def constant (expression : Reading Expression) : Reading Statement := do
  let start ← advance
  let name ← identifier .constantName
  let type ← declaredType expression
  let _ ← expect .assign (.constantSign name.name)
  let value ← expression
  return .constant name type value (start.span.through value.span)

/-- The declaration of a group. -/
def group (statement : Reading (Option Statement)) : Reading Statement := do
  let start ← advance
  let name ← identifier .groupName
  let body ← block statement (.blockAfterGroup name.name)
  return .group name body (start.span.through body.span)

/-! ### Assignments -/

/-- An assignment.  The form that takes raw text exists only inside a conditional
directive block, and only if the options allow it. -/
def assignment (expression : Reading Expression) : Reading Statement := do
  let target ← identifier .targetName
  let token ← peek
  match token.kind with
  | .symbol .assign =>
    let _ ← advance
    let value ← expression
    return .assign target value (target.span.through value.span)
  | .symbol .append =>
    let _ ← advance
    let value ← expression
    return .append target value (target.span.through value.span)
  | .symbol .plus =>
    let state ← get
    if state.nesting.chains > 0 ∧ state.options.expandingAssign then
      let _ ← advance
      let (text, span) ← rawText
      return .expand target text (target.span.through span)
    else unexpected (.assignmentSign target.name)
  | _ => unexpected (.assignmentSign target.name)

/-! ### Choices -/

/-- The block behind `else`, if there is one. -/
def elseBlock (statement : Reading (Option Statement)) : Reading (Option Body) := do
  if ← accept (.keyword .elseWord) then return some (← block statement .blockAfterElse)
  else return none

/-- A choice between blocks. -/
def choice (expression : Reading Expression) (statement : Reading (Option Statement)) :
    Reading Statement := do
  let start ← advance
  let opened ← expect .openParen .conditionOpening
  let condition ← expression
  let _ ← closing .paren opened
  let thenBody ← block statement .blockAfterCondition
  let elseBody ← elseBlock statement
  let last := (elseBody.getD thenBody).span
  return .choice condition thenBody elseBody (start.span.through last)

/-! ### Directive lines -/

/-- A directive that records a message of the source. -/
def message (severity : Severity) : Reading Statement := do
  let start ← advance
  let (text, span) ← rawText
  endOfLine (.endOfMessage severity)
  return .message severity text (start.span.through span)

/-! ### All statements -/

/-- Reads the statement that the current token begins. -/
def statement (expression : Reading Expression) (inner : Inner) : Reading (Option Statement) := do
  let token ← peek
  match token.kind with
  | .opener kind => conditionalFrom kind token.span inner.expression inner.statement
  | .message severity => some <$> message severity
  | .passage text =>
    let _ ← advance
    return some (.passage text token.span)
  | .mark which => fail (.strayMark which (← get).nesting.chains) token.span
  | .keyword .constant => some <$> constant expression
  | .keyword .group => some <$> group inner.statement
  | .keyword .ifWord => some <$> choice expression inner.statement
  | .name _ _ => some <$> assignment expression
  | _ => unexpected .statement

end Reading

/-- Reads a statement with some levels of nesting left, the current one included.
Nothing is given for a statement that was read and dropped. -/
def Statement.read : Nat → Reading (Option Statement)
  | 0 => Reading.tooDeep
  | level + 1 =>
    Reading.statement (Expression.read (level + 1) Operator.lowestPrecedence)
      ⟨Expression.read level Operator.lowestPrecedence, Statement.read level⟩

end ConfLang
