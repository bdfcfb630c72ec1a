import ConfLang.Reading.Recovery
import ConfLang.Tree.Statement

/-!
# Reading bodies

A body is read statement by statement.  A statement that cannot be read is reported
and skipped, and leaves nothing in the body.  When the body is complete, names that
it declares more than once are warned about.
-/

namespace ConfLang

/-! ### Names declared twice -/

/-- The places where names were declared first. -/
abbrev FirstDeclarations := List (String × Span)

/-- Looks at one statement of a body: a name that was declared before gives a warning,
any other declared name is remembered. -/
def noteDeclaration (seen : FirstDeclarations) (statement : Statement) :
    FirstDeclarations × Option Diagnostic :=
  match statement.declaredName? with
  | none => (seen, none)
  | some identifier =>
    match seen.lookup identifier.name with
    | some first =>
      (seen, some (.warning (.duplicateDeclaration identifier.name first) identifier.span))
    | none => ((identifier.name, identifier.span) :: seen, none)

/-- The warnings about names that statements declare again, each at the later name. -/
def duplicateWarnings (seen : FirstDeclarations) : List Statement → List Diagnostic
  | [] => []
  | statement :: rest =>
    let (seen, warning) := noteDeclaration seen statement
    warning.toList ++ duplicateWarnings seen rest

namespace Reading

/-- Warns about the names that a body declares more than once. -/
def warnDuplicates (statements : List Statement) : Reading Unit :=
  modify fun state => (duplicateWarnings [] statements).foldl State.report state

/-! ### Statement by statement -/

/-- Reads one more statement of a body, and goes on behind it if it cannot be read. -/
def appendStatement (statement : Reading (Option Statement)) (statements : Array Statement) :
    Reading (Array Statement) := do
  let start := (← get).consumed
  match ← attempt statement with
  | .ok (some statement) => return statements.push statement
  | .ok none => return statements
  | .error problem =>
    report problem.diagnostic
    recover start
    return statements

/-- Reads statements until a body ends. -/
def statementsUntil (atEnd : Reading Bool) (statement : Reading (Option Statement)) :
    Reading (List Statement) := do
  let statements ← iterate (fun statements => do
    if ← atEnd then return .done statements
    else return .again (← appendStatement statement statements)) #[]
  return statements.toList

/-! ### Where a body ends -/

/-- A program ends at the end of the file, or when the reading has stopped. -/
def atEndOfProgram : Reading Bool := do
  let token ← peek
  return token.kind = .endOfFile ∨ (← get).stopped

/-- A block ends in front of a closing brace, too. -/
def atEndOfBlock : Reading Bool := do
  let token ← peek
  return token.kind = .symbol .closeBrace ∨ token.kind = .endOfFile ∨ (← get).stopped

/-- The body of a conditional directive block ends in front of the next directive of
that block, and in front of a brace that closes a block around it.  When the reading
has stopped, no further token is looked at. -/
def atEndOfBranch (inBraces : Bool) : Reading Bool := do
  if (← get).stopped then return true
  else
    match (← peek).kind with
    | .mark _ | .endOfFile => return true
    | .symbol .closeBrace => return inBraces
    | _ => return false

/-! ### Bodies -/

/-- The statements of a whole source. -/
def program (statement : Reading (Option Statement)) : Reading Program := do
  note .started
  let statements ← statementsUntil atEndOfProgram statement
  warnDuplicates statements
  return ⟨statements⟩

/-- A block in braces, with its statements one level deeper. -/
def block (statement : Reading (Option Statement)) (expectation : Expectation) :
    Reading Body := do
  let (opened, statements) ← nested do
    let opened ← expect .openBrace expectation
    let statements ← between State.openBrace State.closeBrace
      (statementsUntil atEndOfBlock statement)
    return (opened, statements)
  warnDuplicates statements
  let close ← closing .brace opened
  return .mk statements (opened.through close)

/-- The place of the statements between two directives; without statements it is empty
and lies in front of the current token. -/
def branchSpan (statements : List Statement) : Reading Span := do
  match statements.head?, statements.getLast? with
  | some first, some last => return first.span.through last.span
  | _, _ => return (← peek).span.origin

/-- The body of a conditional directive block behind its opening directive or behind
one of its marks. -/
def branchBody (statement : Reading (Option Statement)) : Reading Body := do
  let inBraces := (← get).nesting.braces > 0
  let statements ← statementsUntil (atEndOfBranch inBraces) statement
  warnDuplicates statements
  return .mk statements (← branchSpan statements)

end Reading

end ConfLang
