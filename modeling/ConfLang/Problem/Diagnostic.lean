import ConfLang.Problem.Cause

/-!
# Problems and diagnostics

A problem is a cause at a place.  A diagnostic is a problem that was reported,
with its severity.  Two problems are equal (`==`) when a reader of their messages
cannot tell them apart.
-/

namespace ConfLang

/-- Something that is wrong at a place. -/
structure Problem where
  cause : Cause
  span : Span
  deriving DecidableEq, Repr

namespace Problem

/-- The class of a problem. -/
def kind (problem : Problem) : ProblemKind :=
  problem.cause.kind

/-- The message of a problem. -/
def message (problem : Problem) : String :=
  problem.cause.message

/-- How a problem is shown by itself. -/
def text (problem : Problem) : String :=
  "Parse error at " ++ problem.span.text ++ ": " ++ problem.message

/-- How a problem is shown where only tokens are read. -/
def lexicalText (problem : Problem) : String :=
  "Lexer error at " ++ problem.span.text ++ ": " ++ problem.message

end Problem

/-- A reported problem. -/
structure Diagnostic extends Problem where
  severity : Severity
  deriving DecidableEq, Repr

namespace Diagnostic

/-- A problem reported as an error. -/
def error (cause : Cause) (span : Span) : Diagnostic :=
  ⟨⟨cause, span⟩, .error⟩

/-- A problem reported as a warning. -/
def warning (cause : Cause) (span : Span) : Diagnostic :=
  ⟨⟨cause, span⟩, .warning⟩

/-- Whether a diagnostic is an error. -/
def isError (diagnostic : Diagnostic) : Bool :=
  diagnostic.severity == .error

/-- How a diagnostic is shown. -/
def text (diagnostic : Diagnostic) : String :=
  diagnostic.kind.text ++ " " ++ diagnostic.severity.text ++ " at " ++ diagnostic.span.text ++
    ": " ++ diagnostic.message

instance : BEq Diagnostic where
  beq first second :=
    first.severity == second.severity && first.kind == second.kind &&
      first.message == second.message && first.span == second.span

end Diagnostic

/-- A problem as an error diagnostic. -/
def Problem.diagnostic (problem : Problem) : Diagnostic :=
  ⟨problem, .error⟩

end ConfLang
