import ConfLang.Tree.Statement

/-!
# Writing a tree as source

Every binary operation is written in parentheses, so explicit groups need no
parentheses of their own.  Only where a call or a member access takes something
that binds looser, the negation, parentheses are written for its sake; and a
callee or object with the name `defined` is quoted, so that a condition does not
take it for the question whether a name is defined.

A statement is written on lines of its own, the statements of a body four spaces
further to the right.
-/

namespace ConfLang

/-- A floating-point literal always has a point. -/
def Binary64.source (number : Binary64) : String :=
  if number.text.toList.contains '.' then number.text else number.text ++ ".0"

/-- An expression as the operand of a call or of a member access, given its own
source. -/
def Expression.operandSource (expression : Expression) (source : String) : String :=
  match expression.ungrouped with
  | .negation _ _ => "(" ++ source ++ ")"
  | .name identifier =>
    if identifier.name = "defined" then Quote.name.written identifier.name else source
  | _ => source

mutual

/-- The source of an expression. -/
def Expression.source : Expression → String
  | .integer value _ => toString value.toInt
  | .float value _ => value.source
  | .string text _ => Quote.string.written text
  | .array elements _ => "[" ++ ", ".intercalate (Expression.sources elements) ++ "]"
  | .name identifier => identifier.text
  | .negation operand _ => "!" ++ operand.source
  | .group inner _ => inner.source
  | .binary operator left right _ =>
    "(" ++ left.source ++ " " ++ operator.symbol.text ++ " " ++ right.source ++ ")"
  | .call callee arguments _ =>
    callee.operandSource callee.source ++
      "(" ++ ", ".intercalate (Argument.sources arguments) ++ ")"
  | .member object member _ => object.operandSource object.source ++ "." ++ member.text
  | .defined name _ => "defined(" ++ name.text ++ ")"

/-- The sources of a list of expressions. -/
def Expression.sources : List Expression → List String
  | [] => []
  | expression :: rest => expression.source :: Expression.sources rest

/-- The source of an argument. -/
def Argument.source : Argument → String
  | .mk (some label) value => "." ++ label.text ++ " = " ++ value.source
  | .mk none value => value.source

/-- The sources of a list of arguments. -/
def Argument.sources : List Argument → List String
  | [] => []
  | argument :: rest => argument.source :: Argument.sources rest

end

/-- The directive that opens a block with a condition. -/
def Condition.source (condition : Condition) : String :=
  condition.kind.directive ++ " " ++
    match condition with
    | .holds expression => expression.source
    | .defined name | .undefined name => name.text
    | .fileExists path | .fileMissing path => path

/-- Lines of a body inside their statement. -/
def indented (lines : List String) : List String :=
  lines.map ("    " ++ ·)

mutual

/-- The lines of a statement. -/
def Statement.lines : Statement → List String
  | .constant name none value _ => ["const " ++ name.text ++ " = " ++ value.source]
  | .constant name (some type) value _ =>
    ["const " ++ name.text ++ ": " ++ type.source ++ " = " ++ value.source]
  | .group name body _ => ("group " ++ name.text ++ " \x7b") :: (indented body.lines ++ ["\x7d"])
  | .assign target value _ => [target.text ++ " = " ++ value.source]
  | .append target value _ => [target.text ++ " += " ++ value.source]
  | .expand target text _ => [target.text ++ " + " ++ text]
  | .choice condition thenBody elseBody _ =>
    ("if (" ++ condition.source ++ ") \x7b") :: (indented thenBody.lines ++ Body.elseLines elseBody)
  | .conditional condition thenBody branches elseBody _ =>
    condition.source :: (indented thenBody.lines ++ Branch.lines branches ++
      Body.otherwiseLines elseBody ++ ["%endif"])
  | .message severity text _ => ["%" ++ severity.text ++ " " ++ text]
  | .passage text _ => ["%" ++ text]

/-- The lines of the statements of a body. -/
def Body.lines : Body → List String
  | .mk statements _ => Statement.linesOf statements

/-- The lines behind the first body of a choice. -/
def Body.elseLines : Option Body → List String
  | none => ["\x7d"]
  | some body => "\x7d else \x7b" :: (indented body.lines ++ ["\x7d"])

/-- The lines of the last body of a conditional block. -/
def Body.otherwiseLines : Option Body → List String
  | none => []
  | some body => "%else" :: indented body.lines

/-- The lines of further branches. -/
def Branch.lines : List Branch → List String
  | [] => []
  | .mk condition body _ :: rest =>
    ("%elif " ++ condition.source) :: (indented body.lines ++ Branch.lines rest)

/-- The lines of a list of statements. -/
def Statement.linesOf : List Statement → List String
  | [] => []
  | statement :: rest => statement.lines ++ Statement.linesOf rest

end

/-- A text made of lines. -/
def unlines (lines : List String) : String :=
  String.join (lines.map (· ++ "\n"))

/-- The source of a statement. -/
def Statement.source (statement : Statement) : String :=
  unlines statement.lines

/-- The source of a program. -/
def Program.source (program : Program) : String :=
  unlines (Statement.linesOf program.statements)

end ConfLang
