import ConfLang.Reading.State

/-!
# Steps of a reading

A reading is a step that changes the state and gives a value or fails with a
problem.  A failure keeps the state that was reached: there is no going back in
the source.

Repetition is `iterate`.  It goes on as long as its step asks for more and has
taken something from the source, so it ends whatever the step does.
-/

namespace ConfLang

/-- A step of a parser. -/
abbrev Reading := EStateM Problem State

namespace Reading

variable {α σ : Type}

/-! ### Control -/

/-- Fails with a cause at a place. -/
def fail (cause : Cause) (span : Span) : Reading α :=
  throw ⟨cause, span⟩

/-- Runs a step, and gives its failure as a value. -/
def attempt (reading : Reading α) : Reading (Except Problem α) := fun state =>
  match reading state with
  | .ok value after => .ok (.ok value) after
  | .error problem after => .ok (.error problem) after

/-- Runs a step between two changes of the state.  The second one is made after a
failure, too. -/
def between (opening closing : State → State) (reading : Reading α) : Reading α := do
  modify opening
  let result ← attempt reading
  modify closing
  match result with
  | .ok value => return value
  | .error problem => throw problem

/-- What a round of a repetition asks for. -/
inductive Turn (σ : Type) where
  | again (value : σ)
  | done (value : σ)

/-- Repeats a step as long as it asks for it.  A round that takes nothing from the
source is the last one. -/
def iterate (step : σ → Reading (Turn σ)) (value : σ) : Reading σ := fun state =>
  match step value state with
  | .ok (.done value) after => .ok value after
  | .ok (.again value) after =>
    if after.remaining < state.remaining then iterate step value after
    else .ok value after
  | .error problem after => .error problem after
termination_by state => state.remaining

/-! ### Reports -/

/-- Adds a diagnostic. -/
def report (diagnostic : Diagnostic) : Reading Unit :=
  modify (·.report diagnostic)

/-- Notes an event. -/
def note (event : Event) : Reading Unit :=
  modify (·.note event)

/-! ### Tokens -/

/-- Looks at one more token. -/
def scan : Reading Token :=
  modifyGet State.scan

/-- The current token. -/
def peek : Reading Token := do
  match (← get).lookahead with
  | token :: _ => return token
  | [] => scan

/-- The token behind the current one. -/
def peekSecond : Reading Token := do
  let _ ← peek
  match (← get).lookahead with
  | _ :: token :: _ => return token
  | _ => scan

/-- Takes the current token.  The end of the file stays where it is. -/
def advance : Reading Token := do
  let token ← peek
  unless token.kind = .endOfFile do
    modify (·.take token)
  return token

/-- Takes the rest of the line as raw text.  This is possible only as long as no
token behind the last one was looked at; otherwise there is no raw text. -/
def rawText : Reading (String × Span) := do
  let state ← get
  match state.lookahead with
  | token :: _ => return ("", token.span.origin)
  | [] =>
    let raw := state.cursor.rawLine
    modify (·.takeRaw raw)
    return (raw.text, raw.span)

/-- Whether the current token is of a kind. -/
def isAt (kind : TokenKind) : Reading Bool := do
  return (← peek).kind = kind

/-- Takes the current token if it is of a kind. -/
def accept (kind : TokenKind) : Reading Bool := do
  if ← isAt kind then
    let _ ← advance
    return true
  else
    return false

/-- Fails because something else stands at the current token. -/
def unexpected (expectation : Expectation) : Reading α := do
  let token ← peek
  fail (.unexpected expectation token.kind) token.span

/-- Takes a symbol that has to stand here. -/
def expect (sign : Symbol) (expectation : Expectation) : Reading Span := do
  let token ← peek
  if token.kind = .symbol sign then
    let _ ← advance
    return token.span
  else
    unexpected expectation

/-- Takes a name that has to stand here. -/
def identifier (expectation : Expectation) : Reading Identifier := do
  let token ← peek
  match token.kind with
  | .name text quoted =>
    let _ ← advance
    return ⟨text, quoted, token.span⟩
  | _ => unexpected expectation

/-- Takes the bracket that closes a pair.  What is wrong if it is missing is the
opening one. -/
def closing (bracket : Bracket) (opened : Span) : Reading Span := do
  let token ← peek
  if token.kind = .symbol bracket.closing then
    let _ ← advance
    return token.span
  else
    fail (.unclosed bracket opened token.kind) opened

/-- Takes the end of the line of a directive, which may be the end of the file. -/
def endOfLine (expectation : Expectation) : Reading Unit := do
  match (← peek).kind with
  | .endOfLine => discard advance
  | .endOfFile => return
  | _ => unexpected expectation

/-! ### Nesting -/

/-- Fails because the nesting is too deep at the current token. -/
def tooDeep : Reading α := do
  let token ← peek
  fail (.nestingTooDeep (← get).options.maxNestingDepth) token.span

/-- Runs a step one construct deeper. -/
def nested (reading : Reading α) : Reading α := do
  let state ← get
  if state.nesting.depth < state.options.maxNestingDepth then
    between State.enter State.leave reading
  else
    tooDeep

end Reading

end ConfLang
