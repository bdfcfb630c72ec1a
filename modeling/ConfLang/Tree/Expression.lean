import ConfLang.Token

/-!
# Expressions

The tree of an expression.  Parentheses are kept as groups but mean nothing by
themselves; `Expression.ungrouped` looks through them.

Trees are compared with `==`, which takes spans into account, compares names
without regard to how they were quoted, and numbers as numbers: the two zeros are
equal, and what is no number equals nothing.
-/

namespace ConfLang

/-- The binary operators.  All of them group to the left. -/
inductive Operator where
  | equals
  | either
  | both
  deriving DecidableEq, Repr

namespace Operator

/-- All operators, the loosest first. -/
def all : List Operator :=
  [equals, either, both]

/-- How tightly an operator binds: `a || b && c` is `a || (b && c)`. -/
def precedence : Operator → Nat
  | equals => 2
  | either => 3
  | both => 4

/-- The least number that can be asked of an operator: all of them bind at least as
tightly. -/
def lowestPrecedence : Nat := 0

/-- The symbol of an operator. -/
def symbol : Operator → Symbol
  | equals => .equals
  | either => .either
  | both => .both

/-- The operator that a token stands for. -/
def ofToken? : TokenKind → Option Operator
  | .symbol .equals => some equals
  | .symbol .either => some either
  | .symbol .both => some both
  | _ => none

end Operator

mutual

/-- An expression.  `defined` asks whether a name is defined, and comes only in the
conditions of directives. -/
inductive Expression where
  | integer (value : Int64) (span : Span)
  | float (value : Binary64) (span : Span)
  | string (text : String) (span : Span)
  | array (elements : List Expression) (span : Span)
  | name (identifier : Identifier)
  | negation (operand : Expression) (span : Span)
  | group (inner : Expression) (span : Span)
  | binary (operator : Operator) (left right : Expression) (span : Span)
  | call (callee : Expression) (arguments : List Argument) (span : Span)
  | member (object : Expression) (member : Identifier) (span : Span)
  | defined (name : Identifier) (span : Span)

/-- An argument of a call, with its label if it has one. -/
inductive Argument where
  | mk (label : Option Identifier) (value : Expression)

end

instance : Inhabited Expression := ⟨.name default⟩

namespace Argument

/-- The label of an argument. -/
def label : Argument → Option Identifier
  | mk label _ => label

/-- The value of an argument. -/
def value : Argument → Expression
  | mk _ value => value

/-- Whether an argument has no label. -/
def isPositional (argument : Argument) : Bool :=
  argument.label.isNone

end Argument

namespace Expression

/-- The place of an expression. -/
def span : Expression → Span
  | integer _ span | float _ span | string _ span | array _ span | negation _ span
  | group _ span | binary _ _ _ span | call _ _ span | member _ _ span | defined _ span => span
  | name identifier => identifier.span

/-- The expression inside any number of parentheses. -/
def ungrouped : Expression → Expression
  | group inner _ => inner.ungrouped
  | expression => expression

end Expression

/-! ### Equality -/

mutual

/-- Equality of expressions. -/
def Expression.same : Expression → Expression → Bool
  | .integer first span, .integer second span' => first == second && span == span'
  | .float first span, .float second span' => first.same second && span == span'
  | .string first span, .string second span' => first == second && span == span'
  | .array first span, .array second span' => Expression.sameList first second && span == span'
  | .name first, .name second => first == second
  | .negation first span, .negation second span' => first.same second && span == span'
  | .group first span, .group second span' => first.same second && span == span'
  | .binary operator left right span, .binary operator' left' right' span' =>
    operator == operator' && left.same left' && right.same right' && span == span'
  | .call callee arguments span, .call callee' arguments' span' =>
    callee.same callee' && Argument.sameList arguments arguments' && span == span'
  | .member object member span, .member object' member' span' =>
    object.same object' && member == member' && span == span'
  | .defined first span, .defined second span' => first == second && span == span'
  | _, _ => false

/-- Equality of lists of expressions. -/
def Expression.sameList : List Expression → List Expression → Bool
  | [], [] => true
  | first :: rest, first' :: rest' => first.same first' && Expression.sameList rest rest'
  | _, _ => false

/-- Equality of lists of arguments. -/
def Argument.sameList : List Argument → List Argument → Bool
  | [], [] => true
  | .mk label value :: rest, .mk label' value' :: rest' =>
    label == label' && value.same value' && Argument.sameList rest rest'
  | _, _ => false

end

instance : BEq Expression := ⟨Expression.same⟩

end ConfLang
