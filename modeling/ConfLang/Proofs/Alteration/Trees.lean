import ConfLang.Proofs.Alteration.Expression
import ConfLang.Proofs.Recovery.Clauses

/-!
# Trees without some of their branches

A conditional directive block stands for a statement, and each `%elif` in it for a branch.  When the
condition behind one of these directives cannot be read, that statement or that branch is missing
and everything else is there.  Which directives are meant is told by the offsets at which they
begin: a tree is taken `without` them.

A `ConditionLine` is such a directive with what is needed to read the rest of its line.
-/

namespace ConfLang

/-! ## Trees without branches -/

section Without

variable (gone : Nat → Bool)

mutual

/-- A statement without some branches, unless it is itself a block that is gone. -/
def Statement.without? : Statement → Option Statement
  | .group name body span => some (.group name (body.without) span)
  | .choice condition thenBody elseBody span =>
    some (.choice condition thenBody.without (Body.withoutOption elseBody) span)
  | .conditional condition thenBody branches elseBody span =>
    if gone span.start then none
    else
      some (.conditional condition thenBody.without (Branch.withoutList branches)
        (Body.withoutOption elseBody) span)
  | statement => some statement

/-- A body without some branches. -/
def Body.without : Body → Body
  | .mk statements span => .mk (Statement.withoutList statements) span

/-- A body that may be missing, without some branches. -/
def Body.withoutOption : Option Body → Option Body
  | none => none
  | some body => some body.without

/-- Statements without some branches. -/
def Statement.withoutList : List Statement → List Statement
  | [] => []
  | first :: rest => first.without?.toList ++ Statement.withoutList rest

/-- The branches of a block without some of them. -/
def Branch.withoutList : List Branch → List Branch
  | [] => []
  | .mk condition body span :: rest =>
    if gone span.start then Branch.withoutList rest
    else .mk condition body.without span :: Branch.withoutList rest

end

/-- A program without some branches. -/
def Program.without (program : Program) : Program :=
  ⟨Statement.withoutList gone program.statements⟩

end Without

theorem Branch.withoutList_append (gone : Nat → Bool) (first rest : List Branch) :
    withoutList gone (first ++ rest) = withoutList gone first ++ withoutList gone rest := by
  induction first with
  | nil => rfl
  | cons branch first ih =>
      obtain ⟨condition, body, span⟩ := branch
      rw [List.cons_append, withoutList, withoutList, ih]
      split <;> rfl

section Keeping

variable {gone : Nat → Bool}

mutual

/-- When nothing is gone, a statement stays as it is. -/
theorem Statement.without?_of_keeps (hgone : ∀ offset, gone offset = false) :
    ∀ statement : Statement, statement.without? gone = some statement
  | .group _ body _ => by rw [Statement.without?, Body.without_of_keeps hgone body]
  | .choice _ thenBody elseBody _ => by
    rw [Statement.without?, Body.without_of_keeps hgone thenBody,
      Body.withoutOption_of_keeps hgone elseBody]
  | .conditional _ thenBody branches elseBody _ => by
    rw [Statement.without?, if_neg (by simp [hgone]), Body.without_of_keeps hgone thenBody,
      Branch.withoutList_of_keeps hgone branches, Body.withoutOption_of_keeps hgone elseBody]
  | .constant .. | .assign .. | .append .. | .expand .. | .message .. | .passage .. => rfl

theorem Body.without_of_keeps (hgone : ∀ offset, gone offset = false) :
    ∀ body : Body, body.without gone = body
  | .mk statements _ => by rw [Body.without, Statement.withoutList_of_keeps hgone statements]

theorem Body.withoutOption_of_keeps (hgone : ∀ offset, gone offset = false) :
    ∀ body : Option Body, Body.withoutOption gone body = body
  | none => rfl
  | some body => by rw [Body.withoutOption, Body.without_of_keeps hgone body]

theorem Statement.withoutList_of_keeps (hgone : ∀ offset, gone offset = false) :
    ∀ statements : List Statement, Statement.withoutList gone statements = statements
  | [] => rfl
  | first :: rest => by
    rw [Statement.withoutList, Statement.without?_of_keeps hgone first,
      Statement.withoutList_of_keeps hgone rest]
    rfl

theorem Branch.withoutList_of_keeps (hgone : ∀ offset, gone offset = false) :
    ∀ branches : List Branch, Branch.withoutList gone branches = branches
  | [] => rfl
  | .mk _ body _ :: rest => by
    rw [Branch.withoutList, if_neg (by simp [hgone]), Body.without_of_keeps hgone body,
      Branch.withoutList_of_keeps hgone rest]

end

theorem Program.without_of_keeps (hgone : ∀ offset, gone offset = false) (program : Program) :
    program.without gone = program := by
  rw [Program.without, Statement.withoutList_of_keeps hgone]

end Keeping

theorem Statement.unplacedList_append (view : String → String) (first rest : List Statement) :
    unplacedList view (first ++ rest) = unplacedList view first ++ unplacedList view rest := by
  induction first with
  | nil => rfl
  | cons statement first ih => rw [List.cons_append, unplacedList, unplacedList, ih, List.cons_append]

theorem Branch.unplacedList_append (view : String → String) (first rest : List Branch) :
    unplacedList view (first ++ rest) = unplacedList view first ++ unplacedList view rest := by
  induction first with
  | nil => rfl
  | cons branch first ih =>
      obtain ⟨condition, body, span⟩ := branch
      rw [List.cons_append, unplacedList, unplacedList, ih, List.cons_append]

/-! ## Directives with a condition -/

/-- A directive with a condition behind it: one that opens a block of some kind, or an `%elif`.
It begins at some byte, and the rest of its line is read in some nesting. -/
structure ConditionLine where
  kind : Option ConditionKind
  start : Nat
  nesting : Nesting
  deriving DecidableEq, Repr

mutual

/-- The directives with a condition in a statement. -/
def Statement.conditionLines (n : Nesting) : Statement → List ConditionLine
  | .group _ body _ => body.conditionLines n.deeper.inBraces
  | .choice _ thenBody elseBody _ =>
    thenBody.conditionLines n.deeper.inBraces ++ Body.conditionLinesOption n.deeper.inBraces elseBody
  | .conditional condition thenBody branches elseBody span =>
    ⟨condition.kind, span.start, n.deeper⟩ :: (thenBody.conditionLines n.deeper.inChain ++
      Branch.conditionLinesList n.deeper.inChain branches ++
      Body.conditionLinesOption n.deeper.inChain elseBody)
  | _ => []

/-- The directives with a condition in a body. -/
def Body.conditionLines (n : Nesting) : Body → List ConditionLine
  | .mk statements _ => Statement.conditionLinesList n statements

/-- The directives with a condition in a body that may be missing. -/
def Body.conditionLinesOption (n : Nesting) : Option Body → List ConditionLine
  | none => []
  | some body => body.conditionLines n

/-- The directives with a condition in statements. -/
def Statement.conditionLinesList (n : Nesting) : List Statement → List ConditionLine
  | [] => []
  | first :: rest => first.conditionLines n ++ Statement.conditionLinesList n rest

/-- The directives of branches and in their bodies. -/
def Branch.conditionLinesList (n : Nesting) : List Branch → List ConditionLine
  | [] => []
  | .mk _ body span :: rest =>
    ⟨none, span.start, n⟩ :: (body.conditionLines n ++ Branch.conditionLinesList n rest)

end

/-- The directives with a condition in a program. -/
def Program.conditionLines (program : Program) : List ConditionLine :=
  Statement.conditionLinesList {} program.statements

namespace ConditionLine

/-- What stands behind the directive is text of the language, not a path. -/
def IsText (line : ConditionLine) : Prop :=
  line.kind ≠ some .fileExists ∧ line.kind ≠ some .fileMissing

/-- The reading of the rest of the line, its end included. -/
def reading (o : Options) (line : ConditionLine) : Reading Unit :=
  let level := o.maxNestingDepth + 1 - line.nesting.depth
  let expression := Expression.read level Operator.lowestPrecedence
  match line.kind with
  | some kind => discard (Reading.conditionLine kind {} expression)
  | none => discard (Reading.branchCondition expression)

/-- The condition cannot be read from a place on. -/
def Fails (o : Options) (line : ConditionLine) (place : Cursor) : Prop :=
  place.lineValue? o line.nesting (line.reading o) = none

end ConditionLine

end ConfLang
