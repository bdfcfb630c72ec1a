import ConfLang.Tree.Statement

/-!
# How high a tree is

The height of a tree is the largest number of layers on a way from its root to a leaf.  A
layer is what costs one level of nesting to read: a pair of parentheses or brackets, the list
of the arguments of a call, a negation, a block in braces, and a conditional directive block.
The conditions of a directive lie inside the layer of its block.  An empty list or block is a
layer, too.

Operators, members and calls in a row add nothing by themselves: they are read by repetition.
-/

namespace ConfLang

/-! ## Expressions -/

mutual

/-- The height of an expression. -/
def Expression.height : Expression → Nat
  | .array elements _ => Expression.heightList elements + 1
  | .negation operand _ => operand.height + 1
  | .group inner _ => inner.height + 1
  | .binary _ left right _ => max left.height right.height
  | .call callee arguments _ => max callee.height (Argument.heightList arguments + 1)
  | .member object _ _ => object.height
  | .integer _ _ | .float _ _ | .string _ _ | .name _ | .defined _ _ => 0

/-- The height of the highest of some expressions. -/
def Expression.heightList : List Expression → Nat
  | [] => 0
  | first :: rest => max first.height (Expression.heightList rest)

/-- The height of the highest of some arguments. -/
def Argument.heightList : List Argument → Nat
  | [] => 0
  | .mk _ value :: rest => max value.height (Argument.heightList rest)

end

theorem Expression.heightList_le {expressions : List Expression} {bound : Nat} :
    Expression.heightList expressions ≤ bound ↔ ∀ e ∈ expressions, e.height ≤ bound := by
  induction expressions with
  | nil => simp [Expression.heightList]
  | cons first rest ih => rw [Expression.heightList, Nat.max_le, ih, List.forall_mem_cons]

theorem Argument.heightList_le {arguments : List Argument} {bound : Nat} :
    Argument.heightList arguments ≤ bound ↔ ∀ a ∈ arguments, a.value.height ≤ bound := by
  induction arguments with
  | nil => simp [Argument.heightList]
  | cons first rest ih =>
      obtain ⟨label, value⟩ := first
      rw [Argument.heightList, Nat.max_le, ih, List.forall_mem_cons, Argument.value]

/-- The height of the expression that a condition consists of. -/
def Condition.height : Condition → Nat
  | .holds expression => expression.height
  | _ => 0

/-! ## Statements -/

mutual

/-- The height of a statement. -/
def Statement.height : Statement → Nat
  | .constant _ type value _ => max (type.elim 0 Expression.height) value.height
  | .group _ body _ => body.height + 1
  | .assign _ value _ | .append _ value _ => value.height
  | .choice condition thenBody elseBody _ =>
    max condition.height (max thenBody.height (Body.heightOption elseBody) + 1)
  | .conditional condition thenBody branches elseBody _ =>
    max (max condition.height thenBody.height)
      (max (Branch.heightList branches) (Body.heightOption elseBody)) + 1
  | .expand _ _ _ | .message _ _ _ | .passage _ _ => 0

/-- The height of the highest statement of a body. -/
def Body.height : Body → Nat
  | .mk statements _ => Statement.heightList statements

/-- The height of a body that need not be there. -/
def Body.heightOption : Option Body → Nat
  | none => 0
  | some body => body.height

/-- The height of the highest of some statements. -/
def Statement.heightList : List Statement → Nat
  | [] => 0
  | first :: rest => max first.height (Statement.heightList rest)

/-- The height of the highest condition or body of some branches. -/
def Branch.heightList : List Branch → Nat
  | [] => 0
  | .mk condition body _ :: rest => max (max condition.height body.height) (Branch.heightList rest)

end

/-- The height of the highest statement of a program. -/
def Program.height (program : Program) : Nat :=
  Statement.heightList program.statements

theorem Statement.heightList_le {statements : List Statement} {bound : Nat} :
    Statement.heightList statements ≤ bound ↔ ∀ x ∈ statements, x.height ≤ bound := by
  induction statements with
  | nil => simp [Statement.heightList]
  | cons first rest ih => rw [Statement.heightList, Nat.max_le, ih, List.forall_mem_cons]

theorem Branch.heightList_le {branches : List Branch} {bound : Nat} :
    Branch.heightList branches ≤ bound ↔
      ∀ b ∈ branches, b.condition.height ≤ bound ∧ b.body.height ≤ bound := by
  induction branches with
  | nil => simp [Branch.heightList]
  | cons first rest ih =>
      obtain ⟨condition, body, span⟩ := first
      rw [Branch.heightList, Nat.max_le, Nat.max_le, ih, List.forall_mem_cons, Branch.condition,
        Branch.body]

theorem Body.heightOption_le {body : Option Body} {bound : Nat} :
    Body.heightOption body ≤ bound ↔ ∀ b ∈ body, b.height ≤ bound := by
  cases body <;> simp [Body.heightOption]

end ConfLang
