import ConfLang.Proofs.Nesting.Balanced

/-!
# Nodes that belong to a context

Two kinds of nodes are made only in a context of their own.  Whether a name is defined is asked
in conditions of directives only, and a text is assigned inside conditional directive blocks
only, if the options allow it.  In a condition, the other way round, nothing is called that is
the bare name `defined`: such a call is the question.

The contexts are kept in the state, where they are entered before and left after what can fail.
So they could be left wrong by a failure, and everything behind it would be read differently.
`Program.belongs` is what a tree shows of this, and it holds of every tree that is read, whatever
was recovered from on the way (`belongs_parseWith`).

## Strategy

`contexts` is a likeness of a run with itself, in which expressions and statements are alike if
they belong to the context that they were read in.  That a condition calls no bare `defined` is
known to the rules of likenesses already: they follow the token that was looked at behind it.
-/

namespace ConfLang

/-! ## Trees in a context -/

mutual

/-- Whether an expression belongs into the condition of a directive, or elsewhere. -/
def Expression.belongs (inCondition : Bool) : Expression → Bool
  | .array elements _ => Expression.belongsList inCondition elements
  | .negation operand _ => operand.belongs inCondition
  | .group inner _ => inner.belongs inCondition
  | .binary _ left right _ => left.belongs inCondition && right.belongs inCondition
  | .call callee arguments _ =>
    !(inCondition && callee.isDefinedWord) && callee.belongs inCondition &&
      Argument.belongsList inCondition arguments
  | .member object _ _ => object.belongs inCondition
  | .defined _ _ => inCondition
  | .integer _ _ | .float _ _ | .string _ _ | .name _ => true

/-- The same for a list of expressions. -/
def Expression.belongsList (inCondition : Bool) : List Expression → Bool
  | [] => true
  | first :: rest => first.belongs inCondition && Expression.belongsList inCondition rest

/-- The same for the arguments of a call. -/
def Argument.belongsList (inCondition : Bool) : List Argument → Bool
  | [] => true
  | .mk _ value :: rest => value.belongs inCondition && Argument.belongsList inCondition rest

end

/-- Whether what a condition consists of belongs into a condition. -/
def Condition.belongs : Condition → Bool
  | .holds expression => expression.belongs true
  | _ => true

mutual

/-- Whether a statement belongs inside a conditional directive block, or elsewhere, if the options
allow texts to be assigned or not. -/
def Statement.belongs (expanding inBlock : Bool) : Statement → Bool
  | .constant _ type value _ => type.all (Expression.belongs false) && value.belongs false
  | .group _ body _ => body.belongs expanding inBlock
  | .assign _ value _ | .append _ value _ => value.belongs false
  | .expand _ _ _ => expanding && inBlock
  | .choice condition thenBody elseBody _ =>
    condition.belongs false && thenBody.belongs expanding inBlock &&
      Body.belongsOption expanding inBlock elseBody
  | .conditional condition thenBody branches elseBody _ =>
    condition.belongs && thenBody.belongs expanding true && Branch.belongsList expanding branches &&
      Body.belongsOption expanding true elseBody
  | .message _ _ _ | .passage _ _ => true

/-- The same for a body. -/
def Body.belongs (expanding inBlock : Bool) : Body → Bool
  | .mk statements _ => Statement.belongsList expanding inBlock statements

/-- The same for a body that need not be there. -/
def Body.belongsOption (expanding inBlock : Bool) : Option Body → Bool
  | none => true
  | some body => body.belongs expanding inBlock

/-- The same for a list of statements. -/
def Statement.belongsList (expanding inBlock : Bool) : List Statement → Bool
  | [] => true
  | first :: rest => first.belongs expanding inBlock && Statement.belongsList expanding inBlock rest

/-- The same for further branches, which are always inside of a block. -/
def Branch.belongsList (expanding : Bool) : List Branch → Bool
  | [] => true
  | .mk condition body _ :: rest =>
    condition.belongs true && body.belongs expanding true && Branch.belongsList expanding rest

end

/-- Whether all nodes of a program are in the contexts that they belong to. -/
def Program.belongs (expanding : Bool) (program : Program) : Bool :=
  Statement.belongsList expanding false program.statements

/-! ## Alike trees -/

/-- Expressions at the same place, the first of which belongs to a context. -/
def Expression.alikeInContext (inCondition : Bool) (first second : Expression) : Lasting :=
  .sure ((second.span = first.span ∧ True) ∧ first.belongs inCondition = true)

/-- Statements at the same place with the same declared name, the first of which belongs to a
context. -/
def Statement.alikeInContext (inBlock : Bool) (first second : Statement) : Lasting where
  holds s := (second.span = first.span ∧ True) ∧ second.declaredName? = first.declaredName? ∧
    first.belongs s.options.expandingAssign inBlock = true
  lasts hgrows h := by
    rw [hgrows.options]
    exact h

variable {inCondition inBlock : Bool} {s : State}

theorem belongs_elements {elements elements' : List Expression}
    (h : Lasting.all (Expression.alikeInContext inCondition) elements elements' s) :
    Expression.belongsList inCondition elements = true := by
  rw [Lasting.all_holds] at h
  induction h with
  | nil => rfl
  | cons hfirst _ ih =>
      rw [Expression.belongsList, Bool.and_eq_true]
      exact ⟨hfirst.2, ih⟩

theorem belongs_arguments {identifier : Identifier → Identifier → Lasting}
    {arguments arguments' : List Argument}
    (h : Lasting.all (.argument identifier (Expression.alikeInContext inCondition)) arguments
      arguments' s) : Argument.belongsList inCondition arguments = true := by
  rw [Lasting.all_holds] at h
  induction h with
  | nil => rfl
  | @cons first _ _ _ hfirst _ ih =>
      obtain ⟨label, value⟩ := first
      rw [Argument.belongsList, Bool.and_eq_true]
      exact ⟨hfirst.2.2, ih⟩

theorem belongs_statements {statements statements' : List Statement}
    (h : Lasting.all (Statement.alikeInContext inBlock) statements statements' s) :
    Statement.belongsList s.options.expandingAssign inBlock statements = true := by
  rw [Lasting.all_holds] at h
  induction h with
  | nil => rfl
  | cons hfirst _ ih =>
      rw [Statement.belongsList, Bool.and_eq_true]
      exact ⟨hfirst.2.2, ih⟩

theorem belongs_body {span : Span → Span → Lasting} {body body' : Body}
    (h : Lasting.body span (Statement.alikeInContext inBlock) body body' s) :
    body.belongs s.options.expandingAssign inBlock = true := by
  obtain ⟨statements, place⟩ := body
  exact belongs_statements h.1

theorem belongs_bodyOption {span : Span → Span → Lasting} {body body' : Option Body}
    (h : Lasting.option (.body span (Statement.alikeInContext inBlock)) body body' s) :
    Body.belongsOption s.options.expandingAssign inBlock body = true := by
  cases body with
  | none => rfl
  | some body =>
      cases body' with
      | none => exact h.elim
      | some body' => exact belongs_body h

theorem belongs_branches {span : Span → Span → Lasting} {branches branches' : List Branch}
    (h : Lasting.all (.branch span (Expression.alikeInContext true) (Statement.alikeInContext true))
      branches branches' s) : Branch.belongsList s.options.expandingAssign branches = true := by
  rw [Lasting.all_holds] at h
  induction h with
  | nil => rfl
  | @cons first _ _ _ hfirst _ ih =>
      obtain ⟨condition, body, place⟩ := first
      rw [Branch.belongsList, Bool.and_eq_true, Bool.and_eq_true]
      exact ⟨⟨hfirst.1.1.2, belongs_body hfirst.1.2⟩, ih⟩

theorem belongs_condition {identifier : Identifier → Identifier → Lasting} {text : String → Prop}
    {condition condition' : Condition}
    (h : Lasting.condition identifier (Expression.alikeInContext true) text condition condition' s) :
    condition.belongs = true := by
  cases condition with
  | holds expression =>
      cases condition' with
      | holds expression' => exact h.2
      | _ => exact h.elim
  | _ => rfl

/-! ## The likeness -/

/-- The same state on both sides but for the log, and trees that belong to the context they were
read in. -/
def contexts : Likeness where
  toStateLikeness := Invariant.anything.likeness.toStateLikeness
  identifier first second := .sure (second = first ∧ True)
  expression := Expression.alikeInContext
  statement := Statement.alikeInContext
  identifier_name h := .inl (congrArg Identifier.name h.1)
  identifier_place h := ⟨congrArg Identifier.span h.1, trivial⟩
  expression_span h := h.1
  statement_span h := h.1
  statement_declared := by
    rintro _ first second s ⟨-, hsame, -⟩
    rw [hsame]
    cases first.declaredName? with
    | none => trivial
    | some name => exact ⟨rfl, trivial⟩
  identifier_of_token := by
    rintro _ _ _ _ _ _ ⟨rfl, -⟩ hkind hkind'
    cases hkind.symm.trans hkind'
    exact ⟨rfl, trivial⟩
  integer htoken _ := ⟨⟨congrArg Token.span htoken.1, trivial⟩, rfl⟩
  float htoken _ := ⟨⟨congrArg Token.span htoken.1, trivial⟩, rfl⟩
  string htoken _ _ := ⟨⟨congrArg Token.span htoken.1, trivial⟩, rfl⟩
  name hname := ⟨⟨congrArg Identifier.span hname.1, trivial⟩, rfl⟩
  array h hspan := ⟨hspan, belongs_elements h⟩
  negation h hspan := ⟨hspan, h.2⟩
  grouped h hspan := ⟨hspan, h.2⟩
  binary hleft hright hspan := by
    refine ⟨hspan, ?_⟩
    rw [Expression.belongs, hleft.2, hright.2]
    rfl
  call := by
    intro c callee₁ callee₂ arguments₁ arguments₂ span₁ span₂ s hword hcallee harguments hspan
    refine ⟨hspan, ?_⟩
    rw [Expression.belongs, hcallee.2, belongs_arguments harguments]
    cases c with
    | false => rfl
    | true => rw [hword rfl]; rfl
  member hobject _ hspan := ⟨hspan, hobject.2⟩
  defined _ hspan := ⟨hspan, rfl⟩
  constant := by
    intro b name₁ name₂ type₁ type₂ value₁ value₂ span₁ span₂ s hname htype hvalue hspan
    refine ⟨hspan, congrArg some hname.1, ?_⟩
    rw [Statement.belongs, hvalue.2, Bool.and_true]
    cases type₁ with
    | none => rfl
    | some type₁ =>
        cases type₂ with
        | none => exact htype.elim
        | some type₂ => exact htype.2
  group hname hbody hspan := ⟨hspan, congrArg some hname.1, belongs_body hbody⟩
  assign _ hvalue hspan := ⟨hspan, rfl, hvalue.2⟩
  append _ hvalue hspan := ⟨hspan, rfl, hvalue.2⟩
  expand hallowed _ _ hspan := by
    refine ⟨hspan, rfl, ?_⟩
    rw [Statement.belongs, hallowed]
    rfl
  choice hcondition hthen helse hspan := by
    refine ⟨hspan, rfl, ?_⟩
    rw [Statement.belongs, hcondition.2, belongs_body hthen, belongs_bodyOption helse]
    rfl
  conditional hcondition hthen hbranches helse hspan := by
    refine ⟨hspan, rfl, ?_⟩
    rw [Statement.belongs, belongs_condition hcondition, belongs_body hthen,
      belongs_branches hbranches, belongs_bodyOption helse]
    rfl
  message _ hspan := ⟨hspan, rfl, rfl⟩
  passage htoken _ := ⟨⟨congrArg Token.span htoken.1, trivial⟩, rfl, rfl⟩

/-! ## What is read -/

open Reading in
theorem belongs_of_run {s after : State} {program : Program} (hnesting : s.nesting = {})
    (hrun : EStateM.run wholeProgram s = .ok program after) :
    program.belongs s.options.expandingAssign = true := by
  have halike : contexts.Alike {} (.sure True) wholeProgram wholeProgram _ :=
    Likeness.alike_wholeProgram (b := false) rfl fun h => absurd h (Nat.lt_irrefl 0)
  have hends := halike s s ⟨⟨⟨s.log, rfl⟩, hnesting, trivial⟩, trivial⟩
  rw [hrun] at hends
  obtain ⟨-, hlater, hstatements⟩ := hends
  rw [← hlater.grows.options]
  exact belongs_statements hstatements

/-- **Nodes stay in their context.**  In the program that is read of any source, with any options
and after any number of errors, it is asked only in the conditions of directives whether a name
is defined, a condition calls nothing that is the bare name `defined`, and a text is assigned only
inside a conditional directive block, and not at all if the options do not allow it. -/
theorem belongs_parseWith (options : Options) (source : String) :
    (parseWith options source).program.belongs options.expandingAssign = true := by
  cases hrun : EStateM.run Reading.wholeProgram (State.ofSource source options) with
  | ok program after =>
      rw [parseWith, Reading.run_of_ok hrun]
      exact belongs_of_run (s := .ofSource source options) rfl hrun
  | error problem after =>
      rw [parseWith, Reading.run_of_error hrun]
      rfl

end ConfLang
