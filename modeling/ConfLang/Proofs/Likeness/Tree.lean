import ConfLang.Proofs.Likeness.Repetition

/-!
# Trees that are alike

A `Likeness` adds to the likeness of states and tokens when two names, expressions and
statements are alike: made of alike tokens, and otherwise the same.  It may depend on the
context that a tree was read in, which is whether an expression belongs to the condition
of a directive, and whether a statement stands inside a conditional directive block.
-/

namespace ConfLang

namespace Lasting

variable (span : Span → Span → Lasting) (identifier : Identifier → Identifier → Lasting)
  (expression : Expression → Expression → Lasting) (statement : Statement → Statement → Lasting)

/-- Arguments with alike labels and values. -/
def argument (first second : Argument) : Lasting :=
  (option identifier first.label second.label).and (expression first.value second.value)

/-- Bodies of alike statements. -/
def body (first second : Body) : Lasting :=
  (all statement first.statements second.statements).and (span first.span second.span)

/-- Branches with alike conditions and bodies. -/
def branch (first second : Branch) : Lasting :=
  ((expression first.condition second.condition).and
    (body span statement first.body second.body)).and (span first.span second.span)

/-- Conditions of the same kind about alike things. -/
def condition (text : String → Prop) : Condition → Condition → Lasting
  | .holds first, .holds second => expression first second
  | .defined first, .defined second => identifier first second
  | .undefined first, .undefined second => identifier first second
  | .fileExists first, .fileExists second => sure (second = first ∧ text first)
  | .fileMissing first, .fileMissing second => sure (second = first ∧ text first)
  | _, _ => sure False

end Lasting

/-- Whether an expression is the bare name that a condition takes for the question whether a
name is defined if a parenthesis comes next. -/
def Expression.isDefinedWord : Expression → Bool
  | .name identifier => identifier.name == "defined" && !identifier.quoted
  | _ => false

open Lasting in
/-- What it takes for states, tokens and trees to be alike. -/
structure Likeness extends StateLikeness where
  identifier : Identifier → Identifier → Lasting
  /-- The expressions that are alike, in the condition of a directive or elsewhere. -/
  expression : Bool → Expression → Expression → Lasting
  /-- The statements that are alike, inside a conditional directive block or elsewhere. -/
  statement : Bool → Statement → Statement → Lasting
  identifier_name : ∀ {name₁ name₂ s}, identifier name₁ name₂ s → name₂.name = name₁.name ∨ muted s
  identifier_place : ∀ {name₁ name₂ s}, identifier name₁ name₂ s → place name₁.span name₂.span s
  expression_span : ∀ {c e₁ e₂ s}, expression c e₁ e₂ s → span e₁.span e₂.span s
  statement_span : ∀ {b x₁ x₂ s}, statement b x₁ x₂ s → span x₁.span x₂.span s
  statement_declared : ∀ {b x₁ x₂ s}, statement b x₁ x₂ s →
    option identifier x₁.declaredName? x₂.declaredName? s
  identifier_of_token : ∀ {token₁ token₂ s text₁ text₂ quoted}, token token₁ token₂ s →
    token₁.kind = .name text₁ quoted → token₂.kind = .name text₂ quoted →
    identifier ⟨text₁, quoted, token₁.span⟩ ⟨text₂, quoted, token₂.span⟩ s
  integer : ∀ {c token₁ token₂ s value}, token token₁ token₂ s → token₁.kind = .integer value →
    expression c (.integer value token₁.span) (.integer value token₂.span) s
  float : ∀ {c token₁ token₂ s value}, token token₁ token₂ s → token₁.kind = .float value →
    expression c (.float value token₁.span) (.float value token₂.span) s
  string : ∀ {c token₁ token₂ s text₁ text₂}, token token₁ token₂ s → token₁.kind = .string text₁ →
    token₂.kind = .string text₂ →
    expression c (.string text₁ token₁.span) (.string text₂ token₂.span) s
  name : ∀ {c name₁ name₂ s}, identifier name₁ name₂ s →
    expression c (.name name₁) (.name name₂) s
  array : ∀ {c elements₁ elements₂ span₁ span₂ s},
    all (expression c) elements₁ elements₂ s → span span₁ span₂ s →
    expression c (.array elements₁ span₁) (.array elements₂ span₂) s
  negation : ∀ {c e₁ e₂ span₁ span₂ s}, expression c e₁ e₂ s → span span₁ span₂ s →
    expression c (.negation e₁ span₁) (.negation e₂ span₂) s
  grouped : ∀ {c e₁ e₂ span₁ span₂ s}, expression c e₁ e₂ s → span span₁ span₂ s →
    expression c (.group e₁ span₁) (.group e₂ span₂) s
  binary : ∀ {c operator left₁ left₂ right₁ right₂ span₁ span₂ s},
    expression c left₁ left₂ s → expression c right₁ right₂ s → span span₁ span₂ s →
    expression c (.binary operator left₁ right₁ span₁) (.binary operator left₂ right₂ span₂) s
  call : ∀ {c callee₁ callee₂ arguments₁ arguments₂ span₁ span₂ s},
    (c = true → callee₁.isDefinedWord = false) → expression c callee₁ callee₂ s →
    all (argument identifier (expression c)) arguments₁ arguments₂ s → span span₁ span₂ s →
    expression c (.call callee₁ arguments₁ span₁) (.call callee₂ arguments₂ span₂) s
  member : ∀ {c object₁ object₂ member₁ member₂ span₁ span₂ s},
    expression c object₁ object₂ s → identifier member₁ member₂ s → span span₁ span₂ s →
    expression c (.member object₁ member₁ span₁) (.member object₂ member₂ span₂) s
  defined : ∀ {name₁ name₂ span₁ span₂ s}, identifier name₁ name₂ s → span span₁ span₂ s →
    expression true (.defined name₁ span₁) (.defined name₂ span₂) s
  constant : ∀ {b name₁ name₂ type₁ type₂ value₁ value₂ span₁ span₂ s},
    identifier name₁ name₂ s → option (expression false) type₁ type₂ s →
    expression false value₁ value₂ s → span span₁ span₂ s →
    statement b (.constant name₁ type₁ value₁ span₁) (.constant name₂ type₂ value₂ span₂) s
  group : ∀ {b name₁ name₂ body₁ body₂ span₁ span₂ s}, identifier name₁ name₂ s →
    body span (statement b) body₁ body₂ s → span span₁ span₂ s →
    statement b (.group name₁ body₁ span₁) (.group name₂ body₂ span₂) s
  assign : ∀ {b target₁ target₂ value₁ value₂ span₁ span₂ s}, identifier target₁ target₂ s →
    expression false value₁ value₂ s → span span₁ span₂ s →
    statement b (.assign target₁ value₁ span₁) (.assign target₂ value₂ span₂) s
  append : ∀ {b target₁ target₂ value₁ value₂ span₁ span₂ s}, identifier target₁ target₂ s →
    expression false value₁ value₂ s → span span₁ span₂ s →
    statement b (.append target₁ value₁ span₁) (.append target₂ value₂ span₂) s
  expand : ∀ {target₁ target₂ value span₁ span₂} {s : State},
    s.options.expandingAssign = true → identifier target₁ target₂ s → text value →
    span span₁ span₂ s →
    statement true (.expand target₁ value span₁) (.expand target₂ value span₂) s
  choice : ∀ {b e₁ e₂ then₁ then₂ else₁ else₂ span₁ span₂ s}, expression false e₁ e₂ s →
    body span (statement b) then₁ then₂ s → option (body span (statement b)) else₁ else₂ s →
    span span₁ span₂ s →
    statement b (.choice e₁ then₁ else₁ span₁) (.choice e₂ then₂ else₂ span₂) s
  conditional : ∀ {b c₁ c₂ then₁ then₂ branches₁ branches₂ else₁ else₂ span₁ span₂ s},
    condition identifier (expression true) text c₁ c₂ s →
    body span (statement true) then₁ then₂ s →
    all (branch span (expression true) (statement true)) branches₁ branches₂ s →
    option (body span (statement true)) else₁ else₂ s → span span₁ span₂ s →
    statement b (.conditional c₁ then₁ branches₁ else₁ span₁)
      (.conditional c₂ then₂ branches₂ else₂ span₂) s
  message : ∀ {b severity value span₁ span₂ s}, text value → span span₁ span₂ s →
    statement b (.message severity value span₁) (.message severity value span₂) s
  passage : ∀ {b token₁ token₂ s value}, token token₁ token₂ s → token₁.kind = .passage value →
    statement b (.passage value token₁.span) (.passage value token₂.span) s

namespace Likeness

variable (L : Likeness)

theorem identifier_span {name₁ name₂ : Identifier} {s : State} (h : L.identifier name₁ name₂ s) :
    L.span name₁.span name₂.span s :=
  L.place_span (L.identifier_place h)

/-- Arguments that are alike. -/
abbrev argument (c : Bool) : Argument → Argument → Lasting :=
  .argument L.identifier (L.expression c)

/-- Bodies that are alike. -/
abbrev body (b : Bool) : Body → Body → Lasting :=
  .body L.span (L.statement b)

/-- Branches that are alike. -/
abbrev branch : Branch → Branch → Lasting :=
  .branch L.span (L.expression true) (L.statement true)

/-- Conditions that are alike. -/
abbrev condition : Condition → Condition → Lasting :=
  .condition L.identifier (L.expression true) L.text

end Likeness

end ConfLang
