import ConfLang.Tree.Expression
import Std.Data.TreeMap

/-!
# Statements

The tree of a program: declarations, assignments, and blocks of statements that
depend on a condition.  A body is a list of statements between braces or between
two directives.

`declarations` is the index of the names that a list of statements declares.
-/

namespace ConfLang

/-- What opens a conditional directive block: an expression, a name or a path. -/
inductive Condition where
  | holds (expression : Expression)
  | defined (name : Identifier)
  | undefined (name : Identifier)
  | fileExists (path : String)
  | fileMissing (path : String)

/-- The kind of a condition. -/
def Condition.kind : Condition → ConditionKind
  | holds _ => .holds
  | defined _ => .defined
  | undefined _ => .undefined
  | fileExists _ => .fileExists
  | fileMissing _ => .fileMissing

mutual

/-- A statement.  `expand` keeps its right side as raw text; `message` records an
error or a warning of the source itself; `passage` is a directive line that is
kept as it stands. -/
inductive Statement where
  | constant (name : Identifier) (type : Option Expression) (value : Expression) (span : Span)
  | group (name : Identifier) (body : Body) (span : Span)
  | assign (target : Identifier) (value : Expression) (span : Span)
  | append (target : Identifier) (value : Expression) (span : Span)
  | expand (target : Identifier) (text : String) (span : Span)
  | choice (condition : Expression) (thenBody : Body) (elseBody : Option Body) (span : Span)
  | conditional (condition : Condition) (thenBody : Body) (branches : List Branch)
    (elseBody : Option Body) (span : Span)
  | message (severity : Severity) (text : String) (span : Span)
  | passage (text : String) (span : Span)

/-- Statements that belong together. -/
inductive Body where
  | mk (statements : List Statement) (span : Span)

/-- A further branch of a conditional directive block, with its own condition. -/
inductive Branch where
  | mk (condition : Expression) (body : Body) (span : Span)

end

instance : Inhabited Statement := ⟨.passage "" {}⟩

instance : Inhabited Body := ⟨.mk [] {}⟩

instance : Inhabited Branch := ⟨.mk default default {}⟩

namespace Body

/-- The statements of a body. -/
def statements : Body → List Statement
  | mk statements _ => statements

/-- The place of a body. -/
def span : Body → Span
  | mk _ span => span

end Body

namespace Branch

/-- The condition of a branch. -/
def condition : Branch → Expression
  | mk condition _ _ => condition

/-- The body of a branch. -/
def body : Branch → Body
  | mk _ body _ => body

/-- The place of a branch. -/
def span : Branch → Span
  | mk _ _ span => span

end Branch

namespace Statement

/-- The place of a statement. -/
def span : Statement → Span
  | constant _ _ _ span | group _ _ span | assign _ _ span | append _ _ span | expand _ _ span
  | choice _ _ _ span | conditional _ _ _ _ span | message _ _ span | passage _ span => span

/-- The name that a statement declares. -/
def declaredName? : Statement → Option Identifier
  | constant name _ _ _ | group name _ _ => some name
  | _ => none

end Statement

/-- The statements of a whole source. -/
structure Program where
  statements : List Statement := []

/-! ### Declarations -/

/-- The declarations of a list of statements by name, in the order of the names.  Of
several declarations of one name the last one counts. -/
def declarations (statements : List Statement) : Std.TreeMap String Statement :=
  statements.foldl (fun index statement =>
    match statement.declaredName? with
    | some identifier => index.insert identifier.name statement
    | none => index) ∅

/-- The declarations of a body. -/
def Body.declarations (body : Body) : Std.TreeMap String Statement :=
  ConfLang.declarations body.statements

/-- The declarations of a program, those inside its statements not included. -/
def Program.declarations (program : Program) : Std.TreeMap String Statement :=
  ConfLang.declarations program.statements

/-! ### Equality -/

/-- Equality of conditions. -/
def Condition.same : Condition → Condition → Bool
  | holds first, holds second => first == second
  | defined first, defined second => first == second
  | undefined first, undefined second => first == second
  | fileExists first, fileExists second => first == second
  | fileMissing first, fileMissing second => first == second
  | _, _ => false

instance : BEq Condition := ⟨Condition.same⟩

mutual

/-- Equality of statements. -/
def Statement.same : Statement → Statement → Bool
  | .constant name type value span, .constant name' type' value' span' =>
    name == name' && type == type' && value == value' && span == span'
  | .group name body span, .group name' body' span' =>
    name == name' && body.same body' && span == span'
  | .assign target value span, .assign target' value' span' =>
    target == target' && value == value' && span == span'
  | .append target value span, .append target' value' span' =>
    target == target' && value == value' && span == span'
  | .expand target text span, .expand target' text' span' =>
    target == target' && text == text' && span == span'
  | .choice condition thenBody elseBody span, .choice condition' thenBody' elseBody' span' =>
    condition == condition' && thenBody.same thenBody' && Body.sameOption elseBody elseBody' &&
      span == span'
  | .conditional condition thenBody branches elseBody span,
    .conditional condition' thenBody' branches' elseBody' span' =>
    condition == condition' && thenBody.same thenBody' && Branch.sameList branches branches' &&
      Body.sameOption elseBody elseBody' && span == span'
  | .message severity text span, .message severity' text' span' =>
    severity == severity' && text == text' && span == span'
  | .passage text span, .passage text' span' => text == text' && span == span'
  | _, _ => false

/-- Equality of bodies. -/
def Body.same : Body → Body → Bool
  | .mk statements span, .mk statements' span' =>
    Statement.sameList statements statements' && span == span'

/-- Equality of optional bodies. -/
def Body.sameOption : Option Body → Option Body → Bool
  | none, none => true
  | some body, some body' => body.same body'
  | _, _ => false

/-- Equality of lists of statements. -/
def Statement.sameList : List Statement → List Statement → Bool
  | [], [] => true
  | first :: rest, first' :: rest' => first.same first' && Statement.sameList rest rest'
  | _, _ => false

/-- Equality of lists of branches. -/
def Branch.sameList : List Branch → List Branch → Bool
  | [], [] => true
  | .mk condition body span :: rest, .mk condition' body' span' :: rest' =>
    condition == condition' && body.same body' && span == span' && Branch.sameList rest rest'
  | _, _ => false

end

instance : BEq Statement := ⟨Statement.same⟩

instance : BEq Program := ⟨fun first second => first.statements == second.statements⟩

end ConfLang
