import ConfLang.Outcome

/-!
# The grammar

The grammar of the language, as relations between lists of tokens and the trees they
stand for.  It says nothing about how a source is read: no token is looked at before the
others, and the operators are described by their precedence and not by a loop.

What may be nested depends on the room that is left.  A rule that nests takes what may
stand one level deeper as an optional parameter, which is missing when no room is left;
`expression` and `statement` tie the knot by recursion on the room.

Two things depend on the context.  Only in the condition of a directive can one ask
whether a name is defined, and only inside a conditional directive block can a text be
assigned.
-/

namespace ConfLang

/-- The lists of tokens that stand for a tree. -/
abbrev Language (α : Type) := List Token → α → Prop

namespace Grammar

variable {α : Type}

/-! ## Names and lists -/

/-- A name, quoted or not. -/
inductive Name : Language Identifier where
  | name {text quoted span} : Name [⟨.name text quoted, span⟩] ⟨text, quoted, span⟩

/-- Things one after the other. -/
inductive Many (item : Language α) : Language (List α) where
  | nil : Many item [] []
  | cons {first rest a as} : item first a → Many item rest as → Many item (first ++ rest) (a :: as)

/-- Things with commas between them, and possibly one behind the last. -/
inductive Items (item : Language α) : Language (List α) where
  | nil : Items item [] []
  | last {ts a} : item ts a → Items item ts [a]
  | cons {first rest a as comma} : item first a → Items item rest as →
    Items item (first ++ ⟨.symbol .comma, comma⟩ :: rest) (a :: as)

/-! ## Expressions -/

/-- Operations of operators that bind at least as tightly as `least`.  Both sides bind at
least as tightly as the operator, and the right side more tightly. -/
inductive Binary (operand : Language Expression) : Nat → Language Expression where
  | operand {least ts e} : operand ts e → Binary operand least ts e
  | operation {least first rest left right sign} {operator : Operator} :
    least ≤ operator.precedence → Binary operand operator.precedence first left →
    Binary operand (operator.precedence + 1) rest right →
    Binary operand least (first ++ ⟨.symbol operator.symbol, sign⟩ :: rest)
      (.binary operator left right (left.span.through right.span))

/-- An argument of a call, with a label or without. -/
inductive LabelledArgument (expression : Language Expression) : Language Argument where
  | positional {ts e} : expression ts e → LabelledArgument expression ts (.mk none e)
  | labelled {label ts name e dot sign} : Name label name → expression ts e →
    LabelledArgument expression
      (⟨.symbol .dot, dot⟩ :: label ++ ⟨.symbol .assign, sign⟩ :: ts) (.mk (some name) e)

/-- Literals, names, and what is in brackets. -/
inductive Primary (inCondition : Bool) (inner : Option (Language Expression)) :
    Language Expression where
  | integer {value span} : Primary inCondition inner [⟨.integer value, span⟩] (.integer value span)
  | float {value span} : Primary inCondition inner [⟨.float value, span⟩] (.float value span)
  | string {text span} : Primary inCondition inner [⟨.string text, span⟩] (.string text span)
  | name {ts name} : Name ts name → Primary inCondition inner ts (.name name)
  | defined {ts name start opened close} : inCondition = true → Name ts name →
    Primary inCondition inner (⟨.name "defined" false, start⟩ :: ⟨.symbol .openParen, opened⟩ ::
      ts ++ [⟨.symbol .closeParen, close⟩]) (.defined name (start.through close))
  | group {expression ts e opened close} : expression ∈ inner → expression ts e →
    Primary inCondition inner (⟨.symbol .openParen, opened⟩ :: ts ++ [⟨.symbol .closeParen, close⟩])
      (.group e (opened.through close))
  | array {expression ts elements opened close} : expression ∈ inner →
    Items expression ts elements →
    Primary inCondition inner
      (⟨.symbol .openBracket, opened⟩ :: ts ++ [⟨.symbol .closeBracket, close⟩])
      (.array elements (opened.through close))

/-- In a condition, the bare name `defined` cannot be called: that is the question whether
a name is defined. -/
def asksDefined (inCondition : Bool) (ts : List Token) : Prop :=
  inCondition = true ∧ ∃ span, ts = [⟨.name "defined" false, span⟩]

/-- Calls and member accesses. -/
inductive Suffixed (inCondition : Bool) (inner : Option (Language Expression)) :
    Language Expression where
  | primary {ts e} : Primary inCondition inner ts e → Suffixed inCondition inner ts e
  | member {first rest object member dot} : Suffixed inCondition inner first object →
    Name rest member →
    Suffixed inCondition inner (first ++ ⟨.symbol .dot, dot⟩ :: rest)
      (.member object member (object.span.through member.span))
  | call {expression first rest callee arguments opened close} : expression ∈ inner →
    Suffixed inCondition inner first callee → ¬ asksDefined inCondition first →
    Items (LabelledArgument expression) rest arguments →
    Suffixed inCondition inner
      (first ++ ⟨.symbol .openParen, opened⟩ :: rest ++ [⟨.symbol .closeParen, close⟩])
      (.call callee arguments (callee.span.through close))

/-- Operands of binary operators, given those one level deeper. -/
inductive Operand (inCondition : Bool) (inner : Option (Language Expression)) :
    Language Expression where
  | negation {operand ts e sign} : operand ∈ inner → operand ts e →
    Operand inCondition inner (⟨.symbol .bang, sign⟩ :: ts) (.negation e (sign.through e.span))
  | suffixed {ts e} :
    Suffixed inCondition (inner.map fun operand => Binary operand Operator.lowestPrecedence) ts e →
    Operand inCondition inner ts e

/-- Operands with some room for nesting. -/
def operand (inCondition : Bool) : Nat → Language Expression
  | 0 => Operand inCondition none
  | room + 1 => Operand inCondition (some (operand inCondition room))

/-- Expressions with some room for nesting. -/
def expression (inCondition : Bool) (room : Nat) : Language Expression :=
  Binary (operand inCondition room) Operator.lowestPrecedence

/-! ## Bodies -/

/-- A block in braces. -/
inductive Block (statement : Language Statement) : Language Body where
  | block {ts statements opened close} : Many statement ts statements →
    Block statement (⟨.symbol .openBrace, opened⟩ :: ts ++ [⟨.symbol .closeBrace, close⟩])
      (.mk statements (opened.through close))

/-- The body of a directive in front of a token.  Without statements its place is empty and
in front of that token. -/
def directiveBody (statements : List Statement) (next : Token) : Body :=
  .mk statements (match statements.head?, statements.getLast? with
    | some first, some last => first.span.through last.span
    | _, _ => next.span.origin)

/-! ## Conditional directive blocks -/

/-- What stands behind an opening directive on its line. -/
inductive Conditional (expression : Language Expression) : ConditionKind → Language Condition where
  | holds {ts e} : expression ts e → Conditional expression .holds ts (.holds e)
  | defined {ts name} : Name ts name → Conditional expression .defined ts (.defined name)
  | undefined {ts name} : Name ts name → Conditional expression .undefined ts (.undefined name)
  | fileExists {text span} :
    Conditional expression .fileExists [⟨.restOfLine text, span⟩] (.fileExists text)
  | fileMissing {text span} :
    Conditional expression .fileMissing [⟨.restOfLine text, span⟩] (.fileMissing text)

/-- Tokens behind a mark that are ignored: any that do not end the line. -/
def Ignored (ts : List Token) : Prop :=
  ∀ token ∈ ts, token.kind ≠ .endOfLine ∧ ∀ text, token.kind ≠ .restOfLine text

/-- What follows the first body of a block: further branches, a last body, and the end,
whose place is told. -/
inductive Clauses (expression : Language Expression) (statement : Language Statement) :
    List Token → List Branch → Option Body → Span → Prop where
  | endif {ts close line} : Ignored ts →
    Clauses expression statement (⟨.mark .endif, close⟩ :: ts ++ [⟨.endOfLine, line⟩]) [] none close
  | otherwise {ts body statements next rest start line close} : Ignored ts →
    Many statement body statements → Clauses expression statement (next :: rest) [] none close →
    Clauses expression statement
      (⟨.mark .otherwise, start⟩ :: ts ++ ⟨.endOfLine, line⟩ :: body ++ next :: rest)
      [] (some (directiveBody statements next)) close
  | elif {ts e body statements next rest branches last start line close} : expression ts e →
    Many statement body statements →
    Clauses expression statement (next :: rest) branches last close →
    Clauses expression statement
      (⟨.mark .elif, start⟩ :: ts ++ ⟨.endOfLine, line⟩ :: body ++ next :: rest)
      (.mk e (directiveBody statements next)
        (start.through (directiveBody statements next).span) :: branches) last close

/-! ## Statements -/

/-- What may stand one level deeper than a statement: the expressions of conditions, and
the statements inside a conditional directive block or elsewhere. -/
structure Deeper where
  condition : Language Expression
  statement : Bool → Language Statement

/-- Statements inside a conditional directive block or elsewhere. -/
inductive IsStatement (options : Options) (inBlock : Bool) (expression : Language Expression)
    (inner : Option Deeper) : Language Statement where
  | constant {label ts name value start sign} : Name label name → expression ts value →
    IsStatement options inBlock expression inner
      (⟨.keyword .constant, start⟩ :: label ++ ⟨.symbol .assign, sign⟩ :: ts)
      (.constant name none value (start.through value.span))
  | typedConstant {label ts ts' name type value start colon sign} : Name label name →
    expression ts type → expression ts' value →
    IsStatement options inBlock expression inner
      (⟨.keyword .constant, start⟩ :: label ++ ⟨.symbol .colon, colon⟩ :: ts ++
        ⟨.symbol .assign, sign⟩ :: ts')
      (.constant name (some type) value (start.through value.span))
  | group {deeper label ts name body start} : deeper ∈ inner → Name label name →
    Block (deeper.statement inBlock) ts body →
    IsStatement options inBlock expression inner (⟨.keyword .group, start⟩ :: label ++ ts)
      (.group name body (start.through body.span))
  | assign {label ts target value sign} : Name label target → expression ts value →
    IsStatement options inBlock expression inner (label ++ ⟨.symbol .assign, sign⟩ :: ts)
      (.assign target value (target.span.through value.span))
  | append {label ts target value sign} : Name label target → expression ts value →
    IsStatement options inBlock expression inner (label ++ ⟨.symbol .append, sign⟩ :: ts)
      (.append target value (target.span.through value.span))
  | expand {label target text sign place} : inBlock = true → options.expandingAssign = true →
    Name label target →
    IsStatement options inBlock expression inner
      (label ++ [⟨.symbol .plus, sign⟩, ⟨.restOfLine text, place⟩])
      (.expand target text (target.span.through place))
  | choice {deeper ts ts' e body start opened close} : deeper ∈ inner → expression ts e →
    Block (deeper.statement inBlock) ts' body →
    IsStatement options inBlock expression inner
      (⟨.keyword .ifWord, start⟩ :: ⟨.symbol .openParen, opened⟩ :: ts ++
        ⟨.symbol .closeParen, close⟩ :: ts')
      (.choice e body none (start.through body.span))
  | choiceElse {deeper ts ts' ts'' e body other start opened close word} : deeper ∈ inner →
    expression ts e → Block (deeper.statement inBlock) ts' body →
    Block (deeper.statement inBlock) ts'' other →
    IsStatement options inBlock expression inner
      (⟨.keyword .ifWord, start⟩ :: ⟨.symbol .openParen, opened⟩ :: ts ++
        ⟨.symbol .closeParen, close⟩ :: ts' ++ ⟨.keyword .elseWord, word⟩ :: ts'')
      (.choice e body (some other) (start.through other.span))
  | conditional {deeper kind ts condition body statements next rest branches last opened line close} :
    deeper ∈ inner → Conditional deeper.condition kind ts condition →
    Many (deeper.statement true) body statements →
    Clauses deeper.condition (deeper.statement true) (next :: rest) branches last close →
    IsStatement options inBlock expression inner
      (⟨.opener kind, opened⟩ :: ts ++ ⟨.endOfLine, line⟩ :: body ++ next :: rest)
      (.conditional condition (directiveBody statements next) branches last (opened.through close))
  | message {severity text start place line} :
    IsStatement options inBlock expression inner
      [⟨.message severity, start⟩, ⟨.restOfLine text, place⟩, ⟨.endOfLine, line⟩]
      (.message severity text (start.through place))
  | passage {text span} :
    IsStatement options inBlock expression inner [⟨.passage text, span⟩] (.passage text span)

/-- Statements with some room for nesting. -/
def statement (options : Options) : Nat → Bool → Language Statement
  | 0, inBlock => IsStatement options inBlock (expression false 0) none
  | room + 1, inBlock => IsStatement options inBlock (expression false (room + 1))
      (some ⟨expression true room, statement options room⟩)

/-- Whole programs. -/
def IsProgram (options : Options) : Language Program := fun ts program =>
  Many (statement options options.maxNestingDepth false) ts program.statements

end Grammar

end ConfLang
