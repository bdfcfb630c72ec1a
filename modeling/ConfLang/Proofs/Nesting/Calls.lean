import ConfLang.Proofs.Bodies.Turn

/-!
# The calls of a reading

The functions that read constructs call one another.  `Call.Makes` says which calls are made
while a call runs, and in which states: each rule stands for one place of the program where a
call is made, and its premises are what was read before that place.  `Call.Counts` says the
same of the places where a counter of the nesting is raised and lowered again.

A caller may begin with any of the public steps, and go on with any of them in the state that
the last one left, whether it failed or not (`Session`).  `Reached` are the calls that are
then made in the end.
-/

namespace ConfLang

open Reading

/-- A call of one of the functions that read constructs, with the levels of nesting that it has
left for what is in it. -/
inductive Call where
  | program (level : Nat)
  | statement (level : Nat)
  | block (level : Nat) (expectation : Expectation)
  | conditional (level : Nat)
  | condition (level : Nat)
  | expression (level least : Nat)
  | operand (level : Nat)

namespace Call

/-- The state in which a call ends, whether it gives a value or fails. -/
def after : Call → State → State
  | program level, s => ((Reading.program (Statement.read level)).run s).2
  | statement level, s => ((Statement.read level).run s).2
  | block level expectation, s => ((Reading.block (Statement.read level) expectation).run s).2
  | conditional level, s =>
    ((Reading.conditional (Expression.read level Operator.lowestPrecedence)
      (Statement.read level)).run s).2
  | condition level, s =>
    ((conditionExpression (Expression.read level Operator.lowestPrecedence)).run s).2
  | expression level least, s => ((Expression.read level least).run s).2
  | operand level, s => ((Reading.operand level).run s).2

/-- Whether a call reads an expression that may belong to the condition of a directive. -/
def isOperand : Call → Bool
  | expression _ _ | operand _ => true
  | _ => false

end Call

/-! ## What is read in front of a call -/

namespace Reading

/-- A constant up to its type. -/
def typeHead : Reading Bool := do
  let _ ← advance
  let _ ← identifier .constantName
  accept (.symbol .colon)

/-- A constant up to its value. -/
def valueHead (expression : Reading Expression) : Reading Span := do
  let _ ← advance
  let name ← identifier .constantName
  let _ ← declaredType expression
  expect .assign (.constantSign name.name)

/-- An assignment through its sign. -/
def assignmentHead : Reading Token := do
  let _ ← identifier .targetName
  advance

/-- A choice up to its condition. -/
def choiceOpening : Reading Span := do
  let _ ← advance
  expect .openParen .conditionOpening

/-- An argument up to its value. -/
def argumentHead : Reading Unit := do
  if ← accept (.symbol .dot) then
    let label ← identifier .labelName
    discard (expect .assign (.labelSign label.name))

/-- A conditional directive block up to its condition. -/
def conditionalOpening (kind : ConditionKind) (opened : Span) : Reading Unit := do
  let _ ← advance
  note (.entered kind opened)

/-- A further branch up to its condition. -/
def elifOpening (branches : Branches) (start : Span) : Reading Unit := do
  let _ ← advance
  if branches.otherwise.isSome then
    report (.error .elifAfterElse start)

/-- What a block in braces reads one construct deeper. -/
def blockInside (statement : Reading (Option Statement)) (expectation : Expectation) :
    Reading (Span × List Statement) := do
  let opened ← expect .openBrace expectation
  let statements ← between State.openBrace State.closeBrace
    (statementsUntil atEndOfBlock statement)
  return (opened, statements)

/-- What a conditional directive block reads one construct deeper. -/
def conditionalInside (kind : ConditionKind) (opened : Span) (expression : Reading Expression)
    (statement : Reading (Option Statement)) : Reading (Option Condition × Branching) := do
  let condition ← conditionalHead kind opened expression
  let parts ← between State.openChain State.closeChain
    (branching kind opened expression statement)
  return (condition, parts)

end Reading

namespace State

/-- One more construct may be nested. -/
def CanNest (s : State) : Prop :=
  s.nesting.depth < s.options.maxNestingDepth

/-- The current token is a sign, and behind it one more construct may be nested. -/
structure Deepens (s : State) (sign : Symbol) : Prop where
  kind : s.peeked.1.kind = .symbol sign
  room : s.advanced.CanNest

/-- An element of a list is read in a state. -/
def BeginsElement (s : State) (bracket : Bracket) : Prop :=
  ¬ (s.peeked.1.kind = .symbol bracket.closing ∨ s.peeked.1.kind = .endOfFile ∨
    s.peeked.1.kind = .endOfLine)

/-- A statement of a body that begins in a state is read in another one. -/
def ReachesStatement (s : State) (enclosure : Enclosure) (level : Nat) (s' : State) : Prop :=
  ∃ statements s₁, Rounds (bodyTurn enclosure.atEnd (Statement.read level)) #[] s statements s₁ ∧
    enclosure.atEnd.run s₁ = (.ok false, s')

/-- A further branch of a conditional directive block may begin in a state. -/
def ReachesBranch (s : State) (level : Nat) (branches : Branches) (s' : State) : Prop :=
  ∃ s₁ thenBody s₂, s.OpensChain (Expression.read level Operator.lowestPrecedence) s₁ ∧
    (branchBody (Statement.read level)).run s₁ = (.ok thenBody, s₂) ∧
    Rounds (branch (Expression.read level Operator.lowestPrecedence) (Statement.read level)) {} s₂
      branches s'

/-- A call or member access may begin in a state. -/
def ReachesSuffix (s : State) (level : Nat) (s' : State) : Prop :=
  ∃ first s₁ operand,
    (primary (Expression.read level Operator.lowestPrecedence)).run s = (.ok first, s₁) ∧
    Rounds (suffix (Expression.read level Operator.lowestPrecedence)) first s₁ operand s'

end State

/-! ## Calls -/

/-- While a call runs that began in a state, another call is made in another state. -/
inductive Call.Makes : Call → State → Call → State → Prop
  | ofProgram {level s s'} : (s.note .started).ReachesStatement .program level s' →
    Makes (.program level) s (.statement level) s'
  -- statements
  | conditional {level s kind} : s.peeked.1.kind = .opener kind →
    Makes (.statement (level + 1)) s (.conditional level) s.peeked.2
  | type {level s s'} : s.peeked.1.kind = .keyword .constant →
    typeHead.run s.peeked.2 = (.ok true, s') →
    Makes (.statement (level + 1)) s (.expression (level + 1) Operator.lowestPrecedence) s'
  | value {level s sign s'} : s.peeked.1.kind = .keyword .constant →
    (valueHead (Expression.read (level + 1) Operator.lowestPrecedence)).run s.peeked.2 =
      (.ok sign, s') →
    Makes (.statement (level + 1)) s (.expression (level + 1) Operator.lowestPrecedence) s'
  | group {level s head s'} : s.peeked.1.kind = .keyword .group →
    groupHead.run s.peeked.2 = (.ok head, s') →
    Makes (.statement (level + 1)) s (.block level (.blockAfterGroup head.2.name)) s'
  | assigned {level s text quoted token s'} : s.peeked.1.kind = .name text quoted →
    assignmentHead.run s.peeked.2 = (.ok token, s') →
    token.kind = .symbol .assign ∨ token.kind = .symbol .append →
    Makes (.statement (level + 1)) s (.expression (level + 1) Operator.lowestPrecedence) s'
  | choice {level s opened s'} : s.peeked.1.kind = .keyword .ifWord →
    choiceOpening.run s.peeked.2 = (.ok opened, s') →
    Makes (.statement (level + 1)) s (.expression (level + 1) Operator.lowestPrecedence) s'
  | thenBlock {level s head s'} : s.peeked.1.kind = .keyword .ifWord →
    (choiceHead (Expression.read (level + 1) Operator.lowestPrecedence)).run s.peeked.2 =
      (.ok head, s') →
    Makes (.statement (level + 1)) s (.block level .blockAfterCondition) s'
  | elseBlock {level s head s₁ thenBody s₂ s'} : s.peeked.1.kind = .keyword .ifWord →
    (choiceHead (Expression.read (level + 1) Operator.lowestPrecedence)).run s.peeked.2 =
      (.ok head, s₁) →
    (Reading.block (Statement.read level) .blockAfterCondition).run s₁ = (.ok thenBody, s₂) →
    (accept (.keyword .elseWord)).run s₂ = (.ok true, s') →
    Makes (.statement (level + 1)) s (.block level .blockAfterElse) s'
  -- bodies
  | ofBlock {level expectation s s₁ s'} : s.OpensBraces expectation s₁ →
    s₁.ReachesStatement .braces level s' →
    Makes (.block level expectation) s (.statement level) s'
  | opening {level s s'} : s.peeked.1.kind = .opener .holds → s.peeked.2.CanNest →
    (conditionalOpening .holds s.peeked.1.span).run s.peeked.2.enter = (.ok (), s') →
    Makes (.conditional level) s (.condition level) s'
  | thenBranch {level s s₁ s'} : s.OpensChain (Expression.read level Operator.lowestPrecedence) s₁ →
    s₁.ReachesStatement (.branch (0 < s₁.nesting.braces)) level s' →
    Makes (.conditional level) s (.statement level) s'
  | elifOpening {level s branches s₁ s'} : s.ReachesBranch level branches s₁ →
    s₁.peeked.1.kind = .mark .elif →
    (elifOpening branches s₁.peeked.1.span).run s₁.peeked.2 = (.ok (), s') →
    Makes (.conditional level) s (.condition level) s'
  | elifBranch {level s branches s₁ condition s₂ s'} : s.ReachesBranch level branches s₁ →
    s₁.peeked.1.kind = .mark .elif →
    (elifHead (Expression.read level Operator.lowestPrecedence) branches s₁.peeked.1.span).run
      s₁.peeked.2 = (.ok condition, s₂) →
    s₂.ReachesStatement (.branch (0 < s₂.nesting.braces)) level s' →
    Makes (.conditional level) s (.statement level) s'
  | otherwiseBranch {level s branches s₁ s₂ s'} : s.ReachesBranch level branches s₁ →
    s₁.peeked.1.kind = .mark .otherwise →
    (otherwiseHead branches s₁.peeked.1.span).run s₁.peeked.2 = (.ok (), s₂) →
    s₂.ReachesStatement (.branch (0 < s₂.nesting.braces)) level s' →
    Makes (.conditional level) s (.statement level) s'
  -- expressions
  | condition {level s} :
    Makes (.condition level) s (.expression level Operator.lowestPrecedence) (s.setCondition true)
  | left {level least s} : Makes (.expression level least) s (.operand level) s
  | right {level least s first s₁ left s₂ s₃ token s'} {operator : Operator} :
    (Reading.operand level).run s = (.ok first, s₁) →
    Rounds (chainTurn (Reading.operand level) least) first s₁ left s₂ →
    operator?.run s₂ = (.ok (some operator), s₃) → least ≤ operator.precedence →
    advance.run s₃ = (.ok token, s') →
    Makes (.expression level least) s (.expression level (operator.precedence + 1)) s'
  | negation {level s} : s.Deepens .bang →
    Makes (.operand (level + 1)) s (.operand level) s.advanced.enter
  | parentheses {level s} : s.Deepens .openParen →
    Makes (.operand (level + 1)) s (.expression level Operator.lowestPrecedence) s.advanced.enter
  | element {level s items s'} : s.Deepens .openBracket →
    Rounds (element .square (Expression.read level Operator.lowestPrecedence)) #[] s.advanced.enter
      items s' → s'.BeginsElement .square →
    Makes (.operand (level + 1)) s (.expression level Operator.lowestPrecedence) s'.peeked.2
  | argument {level s s₁ items s₂ s'} : s.ReachesSuffix level s₁ → s₁.Deepens .openParen →
    Rounds (Reading.element .paren (argument (Expression.read level Operator.lowestPrecedence))) #[]
      s₁.advanced.enter items s₂ → s₂.BeginsElement .paren →
    argumentHead.run s₂.peeked.2 = (.ok (), s') →
    Makes (.operand (level + 1)) s (.expression level Operator.lowestPrecedence) s'

/-! ## Counters -/

/-- The counters of the nesting. -/
inductive Counter where
  | depth
  | braces
  | chains

namespace Counter

def value : Counter → Nesting → Nat
  | depth => Nesting.depth
  | braces => Nesting.braces
  | chains => Nesting.chains

def raise : Counter → State → State
  | depth => State.enter
  | braces => State.openBrace
  | chains => State.openChain

def lower : Counter → State → State
  | depth => State.leave
  | braces => State.closeBrace
  | chains => State.closeChain

end Counter

/-- While a call runs that began in a state, a counter is raised in one state and lowered in
another one. -/
inductive Call.Counts : Call → State → Counter → State → State → Prop
  | block {level expectation s} : s.CanNest →
    Counts (.block level expectation) s .depth s
      ((blockInside (Statement.read level) expectation).run s.enter).2
  | braces {level expectation s opened s₁} : s.CanNest →
    (expect .openBrace expectation).run s.enter = (.ok opened, s₁) →
    Counts (.block level expectation) s .braces s₁
      ((statementsUntil atEndOfBlock (Statement.read level)).run s₁.openBrace).2
  | conditional {level s kind} : s.peeked.1.kind = .opener kind → s.peeked.2.CanNest →
    Counts (.conditional level) s .depth s.peeked.2
      ((conditionalInside kind s.peeked.1.span (Expression.read level Operator.lowestPrecedence)
        (Statement.read level)).run s.peeked.2.enter).2
  | chain {level s kind condition s₁} : s.peeked.1.kind = .opener kind → s.peeked.2.CanNest →
    (conditionalHead kind s.peeked.1.span
      (Expression.read level Operator.lowestPrecedence)).run s.peeked.2.enter =
        (.ok condition, s₁) →
    Counts (.conditional level) s .chains s₁
      ((branching kind s.peeked.1.span (Expression.read level Operator.lowestPrecedence)
        (Statement.read level)).run s₁.openChain).2
  | negation {level s} : s.Deepens .bang →
    Counts (.operand (level + 1)) s .depth s.advanced
      ((Reading.operand level).run s.advanced.enter).2
  | parentheses {level s} : s.Deepens .openParen →
    Counts (.operand (level + 1)) s .depth s.advanced
      ((Expression.read level Operator.lowestPrecedence).run s.advanced.enter).2
  | elements {level s} : s.Deepens .openBracket →
    Counts (.operand (level + 1)) s .depth s.advanced
      ((elements .square s.peeked.1.span
        (Expression.read level Operator.lowestPrecedence)).run s.advanced.enter).2
  | arguments {level s s₁} : s.ReachesSuffix level s₁ → s₁.Deepens .openParen →
    Counts (.operand (level + 1)) s .depth s₁.advanced
      ((elements .paren s₁.peeked.1.span
        (argument (Expression.read level Operator.lowestPrecedence))).run s₁.advanced.enter).2

/-! ## Sessions -/

/-- The calls that a caller can make in a state. -/
inductive State.Offers (s : State) : Call → Prop
  | statement : s.Offers (.statement s.levels)
  | conditional : s.Offers (.conditional (s.levels - 1))
  | expression (least : Nat) : s.Offers (.expression s.levels least)
  | program : s.Offers (.program s.levels)

/-- The states in which a caller that reads a source can make a call. -/
inductive Session (options : Options) (source : String) : State → Prop
  | start : Session options source (.ofSource source options)
  | next {s : State} {call : Call} : Session options source s → s.Offers call →
    Session options source (call.after s)

/-- While a source is read, a call is made in a state. -/
inductive Reached (options : Options) (source : String) : Call → State → Prop
  | begin {s : State} {call : Call} : Session options source s → s.Offers call →
    Reached options source call s
  | make {s s' : State} {call call' : Call} : Reached options source call s →
    call.Makes s call' s' → Reached options source call' s'

end ConfLang
