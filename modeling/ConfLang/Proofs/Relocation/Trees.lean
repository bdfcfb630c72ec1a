import ConfLang.Outcome

/-!
# Trees and diagnostics at other places

Nothing in a tree depends on the place that it was read at but its spans, and nothing in a
diagnostic but its span and those that its message quotes.  `mapSpans` changes all of them and
leaves the rest as it is.

When a text is put in front of a source, everything in the source is moved by the bytes and the
lines of that text.  If the text ends in a line feed, no column changes (`Span.moved`).
-/

namespace ConfLang

/-- How far something is moved, in bytes and in lines. -/
structure Displacement where
  bytes : Nat
  lines : Nat
  deriving DecidableEq, Repr

/-- How far a source is moved when a text that ends in a line feed is put in front of it. -/
def Displacement.behind (text : String) : Displacement :=
  ⟨text.utf8ByteSize, text.toList.count '\n'⟩

/-- The place that a span is moved to. -/
def Span.moved (displacement : Displacement) (span : Span) : Span :=
  ⟨span.start + displacement.bytes, span.stop + displacement.bytes, span.line + displacement.lines,
    span.column⟩

variable (f : Span → Span)

/-! ## Trees -/

/-- A name at another place. -/
def Identifier.mapSpans (name : Identifier) : Identifier :=
  { name with span := f name.span }

mutual

/-- An expression with other spans. -/
def Expression.mapSpans : Expression → Expression
  | .integer value span => .integer value (f span)
  | .float value span => .float value (f span)
  | .string text span => .string text (f span)
  | .array elements span => .array (Expression.mapSpansList elements) (f span)
  | .name name => .name (name.mapSpans f)
  | .negation operand span => .negation operand.mapSpans (f span)
  | .group inner span => .group inner.mapSpans (f span)
  | .binary operator left right span => .binary operator left.mapSpans right.mapSpans (f span)
  | .call callee arguments span =>
    .call callee.mapSpans (Argument.mapSpansList arguments) (f span)
  | .member object member span => .member object.mapSpans (member.mapSpans f) (f span)
  | .defined name span => .defined (name.mapSpans f) (f span)

/-- Expressions with other spans. -/
def Expression.mapSpansList : List Expression → List Expression
  | [] => []
  | first :: rest => first.mapSpans :: Expression.mapSpansList rest

/-- Arguments of a call with other spans. -/
def Argument.mapSpansList : List Argument → List Argument
  | [] => []
  | .mk label value :: rest =>
    .mk (label.map (Identifier.mapSpans f)) value.mapSpans :: Argument.mapSpansList rest

end

/-- The condition of a directive with other spans. -/
def Condition.mapSpans : Condition → Condition
  | .holds expression => .holds (expression.mapSpans f)
  | .defined name => .defined (name.mapSpans f)
  | .undefined name => .undefined (name.mapSpans f)
  | .fileExists path => .fileExists path
  | .fileMissing path => .fileMissing path

mutual

/-- A statement with other spans. -/
def Statement.mapSpans : Statement → Statement
  | .constant name type value span =>
    .constant (name.mapSpans f) (type.map (Expression.mapSpans f)) (value.mapSpans f) (f span)
  | .group name body span => .group (name.mapSpans f) body.mapSpans (f span)
  | .assign target value span => .assign (target.mapSpans f) (value.mapSpans f) (f span)
  | .append target value span => .append (target.mapSpans f) (value.mapSpans f) (f span)
  | .expand target text span => .expand (target.mapSpans f) text (f span)
  | .choice condition thenBody elseBody span =>
    .choice (condition.mapSpans f) thenBody.mapSpans (Body.mapSpansOption elseBody) (f span)
  | .conditional condition thenBody branches elseBody span =>
    .conditional (condition.mapSpans f) thenBody.mapSpans (Branch.mapSpansList branches)
      (Body.mapSpansOption elseBody) (f span)
  | .message severity text span => .message severity text (f span)
  | .passage text span => .passage text (f span)

/-- A body with other spans. -/
def Body.mapSpans : Body → Body
  | .mk statements span => .mk (Statement.mapSpansList statements) (f span)

/-- Statements with other spans. -/
def Statement.mapSpansList : List Statement → List Statement
  | [] => []
  | first :: rest => first.mapSpans :: Statement.mapSpansList rest

/-- A body that may be missing, with other spans. -/
def Body.mapSpansOption : Option Body → Option Body
  | none => none
  | some body => some body.mapSpans

/-- Branches with other spans. -/
def Branch.mapSpansList : List Branch → List Branch
  | [] => []
  | .mk condition body span :: rest =>
    .mk (condition.mapSpans f) body.mapSpans (f span) :: Branch.mapSpansList rest

end

/-! ## Diagnostics -/

/-- A cause that quotes other places. -/
def Cause.mapSpans : Cause → Cause
  | .unclosed bracket opened found => .unclosed bracket (f opened) found
  | .missingEndif kind opened found => .missingEndif kind (f opened) found
  | .duplicateDeclaration name first => .duplicateDeclaration name (f first)
  | cause => cause

/-- A problem with other spans. -/
def Problem.mapSpans (problem : Problem) : Problem :=
  ⟨problem.cause.mapSpans f, f problem.span⟩

/-- A diagnostic with other spans. -/
def Diagnostic.mapSpans (diagnostic : Diagnostic) : Diagnostic :=
  ⟨diagnostic.toProblem.mapSpans f, diagnostic.severity⟩

variable {f}

/-! ## Lists and parts -/

theorem Expression.mapSpansList_eq (elements : List Expression) :
    Expression.mapSpansList f elements = elements.map (Expression.mapSpans f) := by
  induction elements with
  | nil => rw [mapSpansList, List.map_nil]
  | cons first rest ih => rw [mapSpansList, ih, List.map_cons]

theorem Statement.mapSpansList_eq (statements : List Statement) :
    Statement.mapSpansList f statements = statements.map (Statement.mapSpans f) := by
  induction statements with
  | nil => rw [mapSpansList, List.map_nil]
  | cons first rest ih => rw [mapSpansList, ih, List.map_cons]

@[simp] theorem Expression.span_mapSpans (e : Expression) : (e.mapSpans f).span = f e.span := by
  cases e <;> simp only [mapSpans, span, Identifier.mapSpans]

@[simp] theorem Statement.span_mapSpans (statement : Statement) :
    (statement.mapSpans f).span = f statement.span := by
  cases statement <;> simp only [mapSpans, span]

@[simp] theorem Statement.declaredName?_mapSpans (statement : Statement) :
    (statement.mapSpans f).declaredName? = statement.declaredName?.map (Identifier.mapSpans f) := by
  cases statement <;> simp only [mapSpans, declaredName?, Option.map]

end ConfLang
