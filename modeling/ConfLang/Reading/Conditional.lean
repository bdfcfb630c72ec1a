import ConfLang.Reading.Body
import ConfLang.Reading.Expression

/-!
# Reading conditional directive blocks

A conditional directive block opens with a condition on a line of its own and is
closed by its `%endif` only.  In between come its first body, any number of `%elif`
branches, and a last body behind `%else`.  Marks out of order are reported, and what
follows them is read all the same.

If its condition cannot be read, a block is read through its end and then dropped;
a branch with such a condition is dropped alone.
-/

namespace ConfLang.Reading

variable {α : Type}

/-! ### Conditions -/

/-- Reads an expression in which one can ask whether a name is defined. -/
def conditionExpression (expression : Reading Expression) : Reading Expression :=
  between (·.setCondition true) (·.setCondition false) expression

/-- The path behind a directive.  An empty one is kept, with a warning. -/
def path (kind : ConditionKind) (opened : Span) : Reading String := do
  let (text, span) ← rawText
  if text.isEmpty then
    report (.warning (.emptyPath kind) (opened.through span))
  return text

/-- The condition behind the directive that opens a block, without the end of its
line. -/
def conditionOf (kind : ConditionKind) (opened : Span) (expression : Reading Expression) :
    Reading Condition := do
  match kind with
  | .holds => return .holds (← conditionExpression expression)
  | .defined => return .defined (← identifier (.testedName .defined))
  | .undefined => return .undefined (← identifier (.testedName .undefined))
  | .fileExists => return .fileExists (← path .fileExists opened)
  | .fileMissing => return .fileMissing (← path .fileMissing opened)

/-- The condition of a block through the end of its line. -/
def conditionLine (kind : ConditionKind) (opened : Span) (expression : Reading Expression) :
    Reading Condition := do
  let condition ← conditionOf kind opened expression
  endOfLine (.endOfCondition kind)
  return condition

/-- The condition of a further branch through the end of its line. -/
def branchCondition (expression : Reading Expression) : Reading Expression := do
  let condition ← conditionExpression expression
  endOfLine .endOfElif
  return condition

/-- Reads a line.  If it cannot be read, it is reported and skipped. -/
def lineOrSkip (line : Reading α) : Reading (Option α) := do
  match ← attempt line with
  | .ok value => return some value
  | .error problem =>
    report problem.diagnostic
    skipLine
    return none

/-- Finishes the line of a mark.  Anything else on it is skipped, with a warning. -/
def endOfMark (mark : Mark) : Reading Unit := do
  let token ← peek
  match token.kind with
  | .endOfLine => discard advance
  | .endOfFile => return
  | _ =>
    report (.warning (.extraTokens mark) token.span)
    skipLine

/-! ### Branches -/

/-- The branches of a block behind its first body. -/
structure Branches where
  elifs : Array Branch := #[]
  otherwise : Option Body := none

/-- A branch with a condition.  It counts if its condition could be read and the last
body has not come yet. -/
def elifBranch (expression : Reading Expression) (statement : Reading (Option Statement))
    (start : Span) (branches : Branches) : Reading Branches := do
  if branches.otherwise.isSome then
    report (.error .elifAfterElse start)
  let condition ← lineOrSkip (branchCondition expression)
  let body ← branchBody statement
  match condition, branches.otherwise with
  | some condition, none =>
    let branch := Branch.mk condition body (start.through body.span)
    return { branches with elifs := branches.elifs.push branch }
  | _, _ => return branches

/-- The last body.  Of several ones the first counts. -/
def otherwiseBranch (statement : Reading (Option Statement)) (start : Span)
    (branches : Branches) : Reading Branches := do
  if branches.otherwise.isSome then
    report (.error .duplicateElse start)
  endOfMark .otherwise
  let body ← branchBody statement
  return { branches with otherwise := branches.otherwise <|> some body }

/-- One more branch, if the current token begins one. -/
def branch (expression : Reading Expression) (statement : Reading (Option Statement))
    (branches : Branches) : Reading (Turn Branches) := do
  let token ← peek
  match token.kind with
  | .mark .elif =>
    let _ ← advance
    return .again (← elifBranch expression statement token.span branches)
  | .mark .otherwise =>
    let _ ← advance
    return .again (← otherwiseBranch statement token.span branches)
  | _ => return .done branches

/-- The directive that closes a block.  What is wrong if it is missing is the directive
that opened the block. -/
def endif (kind : ConditionKind) (opened : Span) : Reading Span := do
  let token ← peek
  if token.kind = .mark .endif then
    let _ ← advance
    endOfMark .endif
    return token.span
  else
    fail (.missingEndif kind opened token.kind) opened

/-- What a block consists of behind its condition. -/
structure Branching where
  thenBody : Body
  branches : Branches
  /-- The place of the directive that closes the block. -/
  close : Span

/-- Reads a block from behind its condition through its end. -/
def branching (kind : ConditionKind) (opened : Span) (expression : Reading Expression)
    (statement : Reading (Option Statement)) : Reading Branching := do
  let thenBody ← branchBody statement
  let branches ← iterate (branch expression statement) {}
  let close ← endif kind opened
  return { thenBody, branches, close }

/-! ### Blocks -/

/-- Reads a block whose opening directive is the current token. -/
def conditionalFrom (kind : ConditionKind) (opened : Span) (expression : Reading Expression)
    (statement : Reading (Option Statement)) : Reading (Option Statement) := do
  let (condition, parts) ← nested do
    let _ ← advance
    note (.entered kind opened)
    let condition ← lineOrSkip (conditionLine kind opened expression)
    let parts ← between State.openChain State.closeChain
      (branching kind opened expression statement)
    return (condition, parts)
  note (.left kind opened)
  return condition.map fun condition =>
    .conditional condition parts.thenBody parts.branches.elifs.toList parts.branches.otherwise
      (opened.through parts.close)

/-- Reads a conditional directive block.  The block is dropped if its condition could
not be read. -/
def conditional (expression : Reading Expression) (statement : Reading (Option Statement)) :
    Reading (Option Statement) := do
  let token ← peek
  match token.kind with
  | .opener kind => conditionalFrom kind token.span expression statement
  | _ => unexpected .conditionalDirective

end ConfLang.Reading
