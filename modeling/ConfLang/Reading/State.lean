import ConfLang.Token.Cursor

/-!
# The state of a reading

What a parser knows between two steps: where it is in the source, which tokens it
has looked at without taking them, what it has reported, and how deep it is nested.

All reports go through `State.report`.  It counts the errors, and at the limit of
errors it reports one more, which says so, and closes the list of diagnostics for
good.
-/

namespace ConfLang

/-- What a caller can choose about a reading. -/
structure Options where
  /-- How deep parentheses, lists, calls, negations and bodies may be nested. -/
  maxNestingDepth : Nat := 256
  /-- After how many errors to stop; `none` never stops. -/
  maxErrors : Option Nat := some 100
  /-- Whether `name + text` is a statement inside a conditional directive block. -/
  expandingAssign : Bool := true
  deriving DecidableEq, Repr, Inhabited

/-- How much a reader of the log wants to know to see an event. -/
inductive Level where
  | debug
  | trace
  deriving DecidableEq, Repr

/-- How a level is written. -/
def Level.text : Level → String
  | debug => "DEBUG"
  | trace => "TRACE"

/-- What happens during a reading besides diagnostics. -/
inductive Event where
  | started
  | entered (kind : ConditionKind) (span : Span)
  | left (kind : ConditionKind) (opened : Span)
  | skipped (token : Token)
  | limitReached (limit : Nat)
  | finished (statements diagnostics : Nat)
  deriving DecidableEq, Repr

namespace Event

/-- The level of an event. -/
def level : Event → Level
  | started | limitReached _ | finished _ _ => .debug
  | entered _ _ | left _ _ | skipped _ => .trace

/-- How an event is put into words. -/
def message : Event → String
  | started => "parsing program"
  | entered kind span => "entering '" ++ kind.directive ++ "' block at " ++ span.text
  | left kind opened => "leaving '" ++ kind.directive ++ "' block opened at " ++ opened.text
  | skipped token => "recovery skipped " ++ token.kind.text ++ " at " ++ token.span.text
  | limitReached limit => "error limit of " ++ toString limit ++ " reached, stopping"
  | finished statements diagnostics =>
    "parsed " ++ toString statements ++ " top-level statement(s) with " ++ toString diagnostics ++
      " diagnostic(s)"

/-- How an event is written into a log. -/
def text (event : Event) : String :=
  event.level.text ++ " " ++ event.message

end Event

/-- Where a parser is in the nesting of the source. -/
structure Nesting where
  /-- How many nested constructs are open. -/
  depth : Nat := 0
  /-- How many of them are blocks in braces. -/
  braces : Nat := 0
  /-- How many of them are conditional directive blocks behind their condition. -/
  chains : Nat := 0
  /-- Whether the condition of a directive is being read. -/
  inCondition : Bool := false
  deriving DecidableEq, Repr

/-- What a parser knows between two steps. -/
structure State where
  /-- The number of bytes of the source. -/
  size : Nat
  options : Options
  cursor : Cursor
  /-- Tokens that were looked at and not yet taken. -/
  lookahead : List Token := []
  /-- The place of the token taken last. -/
  previous : Span := {}
  /-- How many tokens were taken. -/
  consumed : Nat := 0
  nesting : Nesting := {}
  diagnostics : Array Diagnostic := #[]
  errorCount : Nat := 0
  /-- Whether the limit of errors was reached. -/
  stopped : Bool := false
  log : Array Event := #[]
  deriving DecidableEq, Repr

namespace State

/-- The state before the first step. -/
def ofSource (source : String) (options : Options) : State :=
  { size := source.utf8ByteSize, options, cursor := .ofSource source }

/-- How many bytes of the source lie behind the token taken last. -/
def remaining (state : State) : Nat :=
  state.size - state.previous.stop

/-! ### Reports -/

/-- Notes an event. -/
def note (state : State) (event : Event) : State :=
  { state with log := state.log.push event }

/-- Ends the list of diagnostics because there are too many errors. -/
def stop (state : State) (limit : Nat) : State :=
  { state.note (.limitReached limit) with
    stopped := true
    diagnostics := state.diagnostics.push (.error (.tooManyErrors limit) state.previous) }

/-- Counts an error, and stops at the limit. -/
def countError (state : State) : State :=
  let state := { state with errorCount := state.errorCount + 1 }
  match state.options.maxErrors with
  | some limit => if limit ≤ state.errorCount then state.stop limit else state
  | none => state

/-- Adds a diagnostic, unless the list is closed. -/
def report (state : State) (diagnostic : Diagnostic) : State :=
  if state.stopped then state
  else
    let state := { state with diagnostics := state.diagnostics.push diagnostic }
    if diagnostic.isError then state.countError else state

/-- Adds problems as errors, in order. -/
def reportAll (state : State) (problems : List Problem) : State :=
  problems.foldl (fun state problem => state.report problem.diagnostic) state

/-! ### Tokens -/

/-- Looks at one more token, and reports what is wrong on the way to it. -/
def scan (state : State) : Token × State :=
  let scan := state.cursor.next
  let state := { state with
    cursor := scan.cursor
    lookahead := state.lookahead ++ [scan.token] }
  (scan.token, state.reportAll scan.problems)

/-- Takes the first token that was looked at. -/
def take (state : State) (token : Token) : State :=
  { state with
    lookahead := state.lookahead.tail
    previous := token.span
    consumed := state.consumed + 1 }

/-- Takes raw text up to the end of the line. -/
def takeRaw (state : State) (raw : RawLine) : State :=
  { state with
    cursor := raw.cursor
    previous := raw.span
    consumed := state.consumed + 1 }

/-! ### Nesting -/

/-- Goes one construct deeper. -/
def enter (state : State) : State :=
  { state with nesting := { state.nesting with depth := state.nesting.depth + 1 } }

/-- Comes back from a construct. -/
def leave (state : State) : State :=
  { state with nesting := { state.nesting with depth := state.nesting.depth - 1 } }

/-- Goes inside braces. -/
def openBrace (state : State) : State :=
  { state with nesting := { state.nesting with braces := state.nesting.braces + 1 } }

/-- Comes back from inside braces. -/
def closeBrace (state : State) : State :=
  { state with nesting := { state.nesting with braces := state.nesting.braces - 1 } }

/-- Goes inside a conditional directive block. -/
def openChain (state : State) : State :=
  { state with nesting := { state.nesting with chains := state.nesting.chains + 1 } }

/-- Comes back from inside a conditional directive block. -/
def closeChain (state : State) : State :=
  { state with nesting := { state.nesting with chains := state.nesting.chains - 1 } }

/-- Goes into the condition of a directive, or comes back from it. -/
def setCondition (state : State) (inCondition : Bool) : State :=
  { state with nesting := { state.nesting with inCondition } }

end State

end ConfLang
