import ConfLang.Reading.Statement
import ConfLang.Text.Encoding

/-!
# Reading whole sources

`parse` reads a source with the default options, `parseWith` with given ones, and
`parseEncoded` reads a source that is still encoded.  Reading never fails on a text: the
outcome has whatever could be read, and a diagnostic for everything that could not.

Sources can also be read piece by piece, with the steps `nextStatement`,
`nextConditional`, `nextExpression` and `wholeProgram` on a state.  These steps
report what they recover from, but a failure of their own is up to the caller.
-/

namespace ConfLang

/-- What came of reading a source. -/
structure Outcome where
  program : Program
  diagnostics : List Diagnostic
  log : List Event

namespace Outcome

/-- The errors among the diagnostics. -/
def errors (outcome : Outcome) : List Diagnostic :=
  outcome.diagnostics.filter (·.isError)

/-- The warnings among the diagnostics. -/
def warnings (outcome : Outcome) : List Diagnostic :=
  outcome.diagnostics.filter (!·.isError)

/-- Whether there is an error among the diagnostics. -/
def hasErrors (outcome : Outcome) : Bool :=
  outcome.diagnostics.any (·.isError)

end Outcome

/-- A reading with errors: what could be read all the same, and the diagnostics. -/
structure Failure where
  partialProgram : Program
  diagnostics : List Diagnostic

/-- How a failure is put into words. -/
def Failure.text (failure : Failure) : String :=
  "parsing failed with " ++ toString (failure.diagnostics.countP (·.isError)) ++ " error(s)"

/-- The program, if there was no error. -/
def Outcome.result (outcome : Outcome) : Except Failure Program :=
  if outcome.hasErrors then .error ⟨outcome.program, outcome.diagnostics⟩
  else .ok outcome.program

/-! ### Steps -/

/-- How many levels of nesting are left, the current one included. -/
def State.levels (state : State) : Nat :=
  state.options.maxNestingDepth + 1 - state.nesting.depth

/-- Ends a reading with what was read. -/
def State.finish (state : State) (program : Program) : Outcome :=
  let state := state.note (.finished program.statements.length state.diagnostics.size)
  ⟨program, state.diagnostics.toList, state.log.toList⟩

namespace Reading

variable {α : Type}

/-- The value or the failure of a step, and the state it leaves. -/
def run (reading : Reading α) (state : State) : Except Problem α × State :=
  match reading state with
  | .ok value after => (.ok value, after)
  | .error problem after => (.error problem, after)

/-- Reads the next statement. -/
def nextStatement : Reading (Option Statement) := do
  Statement.read (← get).levels

/-- Reads a conditional directive block, which has to be next. -/
def nextConditional : Reading (Option Statement) := do
  let levels := (← get).levels
  conditional (Expression.read (levels - 1) Operator.lowestPrecedence) (Statement.read (levels - 1))

/-- Reads the next expression. -/
def nextExpression (least : Nat) : Reading Expression := do
  Expression.read (← get).levels least

/-- Reads all statements that are left. -/
def wholeProgram : Reading Program := do
  program (Statement.read (← get).levels)

end Reading

/-! ### Sources -/

/-- Reads a source with the given options.  The step that reads all statements does not
fail, as each statement's failure is reported where it occurs; a failure all the same
would be reported with an empty program. -/
def parseWith (options : Options) (source : String) : Outcome :=
  match Reading.wholeProgram.run (State.ofSource source options) with
  | (.ok program, state) => state.finish program
  | (.error problem, state) => (state.report problem.diagnostic).finish {}

/-- Reads a source with the default options. -/
def parse (source : String) : Outcome :=
  parseWith {} source

/-- An encoded source without a single valid character at its beginning. -/
structure Unreadable where
  /-- The offset of the first invalid byte. -/
  offset : Nat
  deriving DecidableEq, Repr

/-- How an unreadable source is put into words. -/
def Unreadable.text (unreadable : Unreadable) : String :=
  "input is not valid UTF-8 at byte " ++ toString unreadable.offset ++
    "; no token could be read"

/-- Reads an encoded source.  It is cut off in front of the first byte that is not
valid, with a further error there. -/
def parseEncoded (bytes : ByteArray) : Except Unreadable Outcome :=
  let decoded := Text.decode bytes
  let source := String.ofList decoded.characters
  let outcome := parse source
  match decoded.invalidAt with
  | none => .ok outcome
  | some 0 => .error ⟨0⟩
  | some offset =>
    .ok { outcome with
      diagnostics := outcome.diagnostics ++ [.error (.invalidEncoding offset) (.endOf source)] }

end ConfLang
