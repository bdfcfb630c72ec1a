import ConfLang.Proofs.Writing.Spelling

/-!
# Trees and their sources

The source of a tree does not show everything about it: where its parts stood, how names were
quoted, and where there were parentheses.  `erased` forgets these, and trees that are the same
without them have the same source.

The source has parentheses of its own instead, around every binary operation and around the
negations that something is called or accessed of.  So it needs more levels of nesting than what
it was read from: as many as `writtenHeight` tells.

Not every tree can be read again from its source.  `IsWritable` says what is needed for that.
The context matters: only a condition can ask whether a name is defined, and only inside a
conditional directive block, and if the options allow it, a text can be assigned.
-/

namespace ConfLang

/-! ## What a source does not show -/

/-- A name alone. -/
def Identifier.erased (name : Identifier) : Identifier :=
  { name := name.name }

mutual

/-- An expression without its places, its parentheses and the ways its names were written. -/
def Expression.erased : Expression → Expression
  | .integer value _ => .integer value {}
  | .float value _ => .float value {}
  | .string text _ => .string text {}
  | .array elements _ => .array (Expression.erasedList elements) {}
  | .name name => .name name.erased
  | .negation operand _ => .negation operand.erased {}
  | .group inner _ => inner.erased
  | .binary operator left right _ => .binary operator left.erased right.erased {}
  | .call callee arguments _ => .call callee.erased (Argument.erasedList arguments) {}
  | .member object member _ => .member object.erased member.erased {}
  | .defined name _ => .defined name.erased {}

/-- The same for a list of expressions. -/
def Expression.erasedList : List Expression → List Expression
  | [] => []
  | first :: rest => first.erased :: Expression.erasedList rest

/-- The same for the arguments of a call. -/
def Argument.erasedList : List Argument → List Argument
  | [] => []
  | .mk label value :: rest =>
    .mk (label.map Identifier.erased) value.erased :: Argument.erasedList rest

end

/-- The same for a condition. -/
def Condition.erased : Condition → Condition
  | .holds expression => .holds expression.erased
  | .defined name => .defined name.erased
  | .undefined name => .undefined name.erased
  | .fileExists path => .fileExists path
  | .fileMissing path => .fileMissing path

mutual

/-- A statement without its places, its parentheses and the ways its names were written. -/
def Statement.erased : Statement → Statement
  | .constant name type value _ =>
    .constant name.erased (type.map Expression.erased) value.erased {}
  | .group name body _ => .group name.erased body.erased {}
  | .assign target value _ => .assign target.erased value.erased {}
  | .append target value _ => .append target.erased value.erased {}
  | .expand target text _ => .expand target.erased text {}
  | .choice condition thenBody elseBody _ =>
    .choice condition.erased thenBody.erased (Body.erasedOption elseBody) {}
  | .conditional condition thenBody branches elseBody _ =>
    .conditional condition.erased thenBody.erased (Branch.erasedList branches)
      (Body.erasedOption elseBody) {}
  | .message severity text _ => .message severity text {}
  | .passage text _ => .passage text {}

/-- The same for a body. -/
def Body.erased : Body → Body
  | .mk statements _ => .mk (Statement.erasedList statements) {}

/-- The same for a body that need not be there. -/
def Body.erasedOption : Option Body → Option Body
  | none => none
  | some body => some body.erased

/-- The same for a list of statements. -/
def Statement.erasedList : List Statement → List Statement
  | [] => []
  | first :: rest => first.erased :: Statement.erasedList rest

/-- The same for branches. -/
def Branch.erasedList : List Branch → List Branch
  | [] => []
  | .mk condition body _ :: rest =>
    .mk condition.erased body.erased {} :: Branch.erasedList rest

end

/-- The same for a program. -/
def Program.erased (program : Program) : Program :=
  ⟨Statement.erasedList program.statements⟩

/-! ### The source stays the same -/

@[simp] theorem Identifier.text_erased (name : Identifier) : name.erased.text = name.text := rfl

theorem Expression.operandSource_erased (e : Expression) (source : String) :
    e.erased.operandSource source = e.operandSource source := by
  match e with
  | .group inner _ => exact operandSource_erased inner source
  | .integer _ _ | .float _ _ | .string _ _ | .array _ _ | .name _ | .negation _ _
  | .binary _ _ _ _ | .call _ _ _ | .member _ _ _ | .defined _ _ => rfl

mutual

theorem Expression.source_erased : ∀ e : Expression, e.erased.source = e.source
  | .integer _ _ | .float _ _ | .string _ _ | .name _ | .defined _ _ => rfl
  | .array elements _ => by
    simp only [Expression.erased, Expression.source, Expression.sources_erased elements]
  | .negation operand _ => by
    simp only [Expression.erased, Expression.source, operand.source_erased]
  | .group inner _ => by
    simp only [Expression.erased, Expression.source, inner.source_erased]
  | .binary _ left right _ => by
    simp only [Expression.erased, Expression.source, left.source_erased, right.source_erased]
  | .call callee arguments _ => by
    simp only [Expression.erased, Expression.source, callee.source_erased,
      Expression.operandSource_erased, Argument.sources_erased arguments]
  | .member object _ _ => by
    simp only [Expression.erased, Expression.source, object.source_erased,
      Expression.operandSource_erased, Identifier.text_erased]

theorem Expression.sources_erased : ∀ elements : List Expression,
    Expression.sources (Expression.erasedList elements) = Expression.sources elements
  | [] => rfl
  | first :: rest => by
    rw [Expression.erasedList, Expression.sources, Expression.sources, first.source_erased,
      Expression.sources_erased rest]

theorem Argument.sources_erased : ∀ arguments : List Argument,
    Argument.sources (Argument.erasedList arguments) = Argument.sources arguments
  | [] => rfl
  | .mk label value :: rest => by
    rw [Argument.erasedList, Argument.sources, Argument.sources, Argument.sources_erased rest]
    cases label <;> simp only [Option.map, Argument.source, value.source_erased, Identifier.text_erased]

end

theorem Condition.source_erased (condition : Condition) :
    condition.erased.source = condition.source := by
  cases condition with
  | holds e => simp only [erased, source, e.source_erased, kind]
  | _ => rfl

mutual

theorem Statement.lines_erased : ∀ statement : Statement, statement.erased.lines = statement.lines
  | .constant _ type value _ => by
    cases type <;> simp only [Statement.erased, Option.map, Statement.lines, Identifier.text_erased,
      Expression.source_erased]
  | .group _ body _ => by
    simp only [Statement.erased, Statement.lines, Identifier.text_erased, body.lines_erased]
  | .assign _ value _ | .append _ value _ => by
    simp only [Statement.erased, Statement.lines, Identifier.text_erased, value.source_erased]
  | .expand _ _ _ | .message _ _ _ | .passage _ _ => rfl
  | .choice condition thenBody elseBody _ => by
    simp only [Statement.erased, Statement.lines, condition.source_erased, thenBody.lines_erased,
      Body.elseLines_erased elseBody]
  | .conditional condition thenBody branches elseBody _ => by
    simp only [Statement.erased, Statement.lines, condition.source_erased, thenBody.lines_erased,
      Branch.lines_erased branches, Body.otherwiseLines_erased elseBody]

theorem Body.lines_erased : ∀ body : Body, body.erased.lines = body.lines
  | .mk statements _ => Statement.linesOf_erased statements

theorem Body.elseLines_erased : ∀ body : Option Body,
    Body.elseLines (Body.erasedOption body) = Body.elseLines body
  | none => rfl
  | some body => by rw [Body.erasedOption, Body.elseLines, Body.elseLines, body.lines_erased]

theorem Body.otherwiseLines_erased : ∀ body : Option Body,
    Body.otherwiseLines (Body.erasedOption body) = Body.otherwiseLines body
  | none => rfl
  | some body => by
    rw [Body.erasedOption, Body.otherwiseLines, Body.otherwiseLines, body.lines_erased]

theorem Statement.linesOf_erased : ∀ statements : List Statement,
    Statement.linesOf (Statement.erasedList statements) = Statement.linesOf statements
  | [] => rfl
  | first :: rest => by
    rw [Statement.erasedList, Statement.linesOf, Statement.linesOf, first.lines_erased,
      Statement.linesOf_erased rest]

theorem Branch.lines_erased : ∀ branches : List Branch,
    Branch.lines (Branch.erasedList branches) = Branch.lines branches
  | [] => rfl
  | .mk condition body _ :: rest => by
    rw [Branch.erasedList, Branch.lines, Branch.lines, condition.source_erased, body.lines_erased,
      Branch.lines_erased rest]

end

/-- Programs that are the same without their places, parentheses and quotes have the same
source. -/
theorem Program.source_erased (program : Program) : program.erased.source = program.source :=
  congrArg unlines (Statement.linesOf_erased program.statements)

/-! ## How high a source is -/

/-- The height of an expression as the operand of a call or of a member access, given its own
height. -/
def Expression.operandHeight (e : Expression) (height : Nat) : Nat :=
  match e.ungrouped with
  | .negation _ _ => height + 1
  | _ => height

mutual

/-- The height of what the source of an expression is read as. -/
def Expression.writtenHeight : Expression → Nat
  | .array elements _ => Expression.writtenHeightList elements + 1
  | .negation operand _ => operand.writtenHeight + 1
  | .group inner _ => inner.writtenHeight
  | .binary _ left right _ => max left.writtenHeight right.writtenHeight + 1
  | .call callee arguments _ =>
    max (callee.operandHeight callee.writtenHeight) (Argument.writtenHeightList arguments + 1)
  | .member object _ _ => object.operandHeight object.writtenHeight
  | .integer _ _ | .float _ _ | .string _ _ | .name _ | .defined _ _ => 0

/-- The same for the highest of some expressions. -/
def Expression.writtenHeightList : List Expression → Nat
  | [] => 0
  | first :: rest => max first.writtenHeight (Expression.writtenHeightList rest)

/-- The same for the highest of some arguments. -/
def Argument.writtenHeightList : List Argument → Nat
  | [] => 0
  | .mk _ value :: rest => max value.writtenHeight (Argument.writtenHeightList rest)

end

theorem Expression.writtenHeightList_le {elements : List Expression} {bound : Nat} :
    Expression.writtenHeightList elements ≤ bound ↔ ∀ e ∈ elements, e.writtenHeight ≤ bound := by
  induction elements with
  | nil => simp [Expression.writtenHeightList]
  | cons first rest ih => simp [Expression.writtenHeightList, ih]

theorem Argument.writtenHeightList_le {arguments : List Argument} {bound : Nat} :
    Argument.writtenHeightList arguments ≤ bound ↔
      ∀ a ∈ arguments, a.value.writtenHeight ≤ bound := by
  induction arguments with
  | nil => simp [Argument.writtenHeightList]
  | cons first rest ih =>
      obtain ⟨label, value⟩ := first
      rw [Argument.writtenHeightList, Nat.max_le, ih, List.forall_mem_cons, Argument.value]

/-- The same for the expression that a condition consists of. -/
def Condition.writtenHeight : Condition → Nat
  | .holds expression => expression.writtenHeight
  | _ => 0

mutual

/-- The height of what the source of a statement is read as. -/
def Statement.writtenHeight : Statement → Nat
  | .constant _ type value _ => max (type.elim 0 Expression.writtenHeight) value.writtenHeight
  | .group _ body _ => body.writtenHeight + 1
  | .assign _ value _ | .append _ value _ => value.writtenHeight
  | .choice condition thenBody elseBody _ =>
    max condition.writtenHeight
      (max thenBody.writtenHeight (Body.writtenHeightOption elseBody) + 1)
  | .conditional condition thenBody branches elseBody _ =>
    max (max condition.writtenHeight thenBody.writtenHeight)
      (max (Branch.writtenHeightList branches) (Body.writtenHeightOption elseBody)) + 1
  | .expand _ _ _ | .message _ _ _ | .passage _ _ => 0

/-- The same for a body. -/
def Body.writtenHeight : Body → Nat
  | .mk statements _ => Statement.writtenHeightList statements

/-- The same for a body that need not be there. -/
def Body.writtenHeightOption : Option Body → Nat
  | none => 0
  | some body => body.writtenHeight

/-- The same for the highest of some statements. -/
def Statement.writtenHeightList : List Statement → Nat
  | [] => 0
  | first :: rest => max first.writtenHeight (Statement.writtenHeightList rest)

/-- The same for the highest condition or body of some branches. -/
def Branch.writtenHeightList : List Branch → Nat
  | [] => 0
  | .mk condition body _ :: rest =>
    max (max condition.writtenHeight body.writtenHeight) (Branch.writtenHeightList rest)

end

/-- The height of what the source of a program is read as. -/
def Program.writtenHeight (program : Program) : Nat :=
  Statement.writtenHeightList program.statements

/-! ## Infinite numbers -/

mutual

/-- Whether no number of an expression is infinite. -/
def Expression.isFinite : Expression → Bool
  | .float value _ => !value.isInfinite
  | .array elements _ => Expression.isFiniteList elements
  | .negation operand _ => operand.isFinite
  | .group inner _ => inner.isFinite
  | .binary _ left right _ => left.isFinite && right.isFinite
  | .call callee arguments _ => callee.isFinite && Argument.isFiniteList arguments
  | .member object _ _ => object.isFinite
  | .integer _ _ | .string _ _ | .name _ | .defined _ _ => true

/-- The same for a list of expressions. -/
def Expression.isFiniteList : List Expression → Bool
  | [] => true
  | first :: rest => first.isFinite && Expression.isFiniteList rest

/-- The same for the arguments of a call. -/
def Argument.isFiniteList : List Argument → Bool
  | [] => true
  | .mk _ value :: rest => value.isFinite && Argument.isFiniteList rest

end

/-- The same for a condition. -/
def Condition.isFinite : Condition → Bool
  | .holds expression => expression.isFinite
  | _ => true

mutual

/-- Whether no number of a statement is infinite. -/
def Statement.isFinite : Statement → Bool
  | .constant _ type value _ => type.all Expression.isFinite && value.isFinite
  | .group _ body _ => body.isFinite
  | .assign _ value _ | .append _ value _ => value.isFinite
  | .choice condition thenBody elseBody _ =>
    condition.isFinite && thenBody.isFinite && Body.isFiniteOption elseBody
  | .conditional condition thenBody branches elseBody _ =>
    condition.isFinite && thenBody.isFinite && Branch.isFiniteList branches &&
      Body.isFiniteOption elseBody
  | .expand _ _ _ | .message _ _ _ | .passage _ _ => true

/-- The same for a body. -/
def Body.isFinite : Body → Bool
  | .mk statements _ => Statement.isFiniteList statements

/-- The same for a body that need not be there. -/
def Body.isFiniteOption : Option Body → Bool
  | none => true
  | some body => body.isFinite

/-- The same for a list of statements. -/
def Statement.isFiniteList : List Statement → Bool
  | [] => true
  | first :: rest => first.isFinite && Statement.isFiniteList rest

/-- The same for branches. -/
def Branch.isFiniteList : List Branch → Bool
  | [] => true
  | .mk condition body _ :: rest =>
    condition.isFinite && body.isFinite && Branch.isFiniteList rest

end

/-- Whether no number of a program is infinite. -/
def Program.isFinite (program : Program) : Bool :=
  Statement.isFiniteList program.statements

/-! ## What can be read again -/

mutual

/-- Whether an expression can be read again from its source, in the condition of a directive or
elsewhere. -/
def Expression.IsWritable (inCondition : Bool) : Expression → Prop
  | .integer value _ => 0 ≤ value
  | .float value _ =>
    value.isNegative = false ∧ value.isNaN = false ∧ value.isInfinite = false
  | .string text _ => Quotable text
  | .array elements _ => Expression.IsWritableList inCondition elements
  | .name name => Quotable name.name
  | .negation operand _ => operand.IsWritable inCondition
  | .group inner _ => inner.IsWritable inCondition
  | .binary _ left right _ => left.IsWritable inCondition ∧ right.IsWritable inCondition
  | .call callee arguments _ =>
    callee.IsWritable inCondition ∧ Argument.IsWritableList inCondition arguments
  | .member object member _ => object.IsWritable inCondition ∧ Quotable member.name
  | .defined name _ => inCondition = true ∧ Quotable name.name

/-- The same for a list of expressions. -/
def Expression.IsWritableList (inCondition : Bool) : List Expression → Prop
  | [] => True
  | first :: rest => first.IsWritable inCondition ∧ Expression.IsWritableList inCondition rest

/-- The same for the arguments of a call. -/
def Argument.IsWritableList (inCondition : Bool) : List Argument → Prop
  | [] => True
  | .mk label value :: rest => (∀ name ∈ label, Quotable name.name) ∧
    value.IsWritable inCondition ∧ Argument.IsWritableList inCondition rest

end

/-- The same for a condition. -/
def Condition.IsWritable : Condition → Prop
  | .holds expression => expression.IsWritable true
  | .defined name | .undefined name => Quotable name.name
  | .fileExists path | .fileMissing path => IsRestOfLine path

mutual

/-- Whether a statement can be read again from its source, if text can be assigned or not, and
inside a conditional directive block or elsewhere. -/
def Statement.IsWritable (expanding inBlock : Bool) : Statement → Prop
  | .constant name type value _ => Quotable name.name ∧
    (∀ e ∈ type, e.IsWritable false) ∧ value.IsWritable false
  | .group name body _ => Quotable name.name ∧ body.IsWritable expanding inBlock
  | .assign target value _ | .append target value _ =>
    Quotable target.name ∧ value.IsWritable false
  | .expand target text _ =>
    inBlock = true ∧ expanding = true ∧ Quotable target.name ∧ IsRestOfLine text
  | .choice condition thenBody elseBody _ => condition.IsWritable false ∧
    thenBody.IsWritable expanding inBlock ∧ Body.IsWritableOption expanding inBlock elseBody
  | .conditional condition thenBody branches elseBody _ => condition.IsWritable ∧
    thenBody.IsWritable expanding true ∧ Branch.IsWritableList expanding branches ∧
      Body.IsWritableOption expanding true elseBody
  | .message _ text _ => IsRestOfLine text
  | .passage text _ => IsPassage text

/-- The same for a body. -/
def Body.IsWritable (expanding inBlock : Bool) : Body → Prop
  | .mk statements _ => Statement.IsWritableList expanding inBlock statements

/-- The same for a body that need not be there. -/
def Body.IsWritableOption (expanding inBlock : Bool) : Option Body → Prop
  | none => True
  | some body => body.IsWritable expanding inBlock

/-- The same for a list of statements. -/
def Statement.IsWritableList (expanding inBlock : Bool) : List Statement → Prop
  | [] => True
  | first :: rest =>
    first.IsWritable expanding inBlock ∧ Statement.IsWritableList expanding inBlock rest

/-- The same for branches. -/
def Branch.IsWritableList (expanding : Bool) : List Branch → Prop
  | [] => True
  | .mk condition body _ :: rest => condition.IsWritable true ∧
    body.IsWritable expanding true ∧ Branch.IsWritableList expanding rest

end

end ConfLang
