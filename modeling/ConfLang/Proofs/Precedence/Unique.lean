import ConfLang.Proofs.Grammar.Coverage.Expression
import ConfLang.Proofs.Precedence.Traversal

/-!
# A list of tokens stands for one tree

`Proper` are the trees over a list of tokens that are grouped as operators bind and that belong to a
context.  There is at most one for each list of tokens (`isUnique`).

## Strategy

The induction is on one of the two trees, and each node of it is found again in the other tree from
the tokens alone.  Here the brackets decide, through what `Bracketed` says of prefixes.

* If there is an operator outside of brackets, both trees are operations, and their operator is the
  last of the loosest ones (`Halves.unique`).
* Otherwise an exclamation mark in front tells that both are negations.
* Otherwise the last token tells what both are, but for the closing parenthesis.  That ends a group
  if it closes a parenthesis in front of everything, and otherwise a call or a question.  In a
  condition these differ by what stands in front of the parenthesis, and elsewhere nothing is asked.
-/

namespace ConfLang.Grammar

/-- The trees over some tokens that are grouped as operators bind, in the condition of a directive
or elsewhere. -/
structure Proper (inCondition : Bool) (ts : List Token) (e : Expression) : Prop where
  traversal : Traversal ts e
  respects : e.respectsPrecedence = true
  belongs : e.belongs inCondition = true

variable {inCondition : Bool} {ts : List Token} {e e' : Expression}

/-! ## Operations -/

/-- Tokens around an operator that is the last of the loosest ones outside of brackets. -/
structure Halves (operator : Operator) (first rest : List Token) : Prop where
  left : Bracketed (fun kind => ∀ other ∈ Operator.ofToken? kind,
    operator.precedence ≤ other.precedence) first
  right : Bracketed (fun kind => ∀ other ∈ Operator.ofToken? kind,
    operator.precedence < other.precedence) rest

/-- The operator of one pair of halves is not in the left half of another one. -/
theorem Halves.not_longer {operator operator' : Operator} {first rest more rest' : List Token}
    {sign sign' : Span}
    (h : Halves operator first (more ++ ⟨.symbol operator'.symbol, sign'⟩ :: rest))
    (h' : Halves operator' (first ++ ⟨.symbol operator.symbol, sign⟩ :: more) rest') : False := by
  have hfirst := h.left.rise_eq
  have hmore := h'.left.rise_eq
  rw [rise_append, rise_cons, rise_operator, hfirst] at hmore
  have hle := h'.left.next hfirst (rise_operator operator) operator
    (Operator.ofToken?_symbol operator)
  have hless := h.right.next (by omega) (rise_operator operator') operator'
    (Operator.ofToken?_symbol operator')
  omega

theorem Halves.unique {operator operator' : Operator} {first rest first' rest' : List Token}
    {sign sign' : Span} (h : Halves operator first rest) (h' : Halves operator' first' rest')
    (hts : first ++ ⟨.symbol operator.symbol, sign⟩ :: rest =
      first' ++ ⟨.symbol operator'.symbol, sign'⟩ :: rest') :
    first = first' ∧ operator = operator' ∧ rest = rest' := by
  obtain ⟨hfirst, htail⟩ : first = first' ∧ _ := by
    refine eq_of_fronts hts (fun token more hfirst htail => ?_) fun token more hfirst htail => ?_
    all_goals
      obtain ⟨rfl, rfl⟩ := List.cons.inj htail
      subst hfirst
    · exact h.not_longer h'
    · exact h'.not_longer h
  obtain ⟨hsign, hrest⟩ := List.cons.inj htail
  have hoperator := congrArg (fun token => Operator.ofToken? token.kind) hsign
  simp only [Operator.ofToken?_symbol, Option.some.injEq] at hoperator
  exact ⟨hfirst, hoperator, hrest⟩

/-- Where the tree is an operation, its operator is the last of the loosest ones. -/
theorem halves {operator : Operator} {left right : Expression} {span : Span}
    {first rest : List Token} (hleft : Traversal first left) (hright : Traversal rest right)
    (h : (Expression.binary operator left right span).respectsPrecedence = true) :
    Halves operator first rest := by
  simp only [Expression.respectsPrecedence, Bool.and_eq_true, Option.all_eq_true,
    decide_eq_true_eq] at h
  obtain ⟨⟨⟨hle, hless⟩, hleft'⟩, hright'⟩ := h
  refine ⟨hleft.bracketed.imp fun kind hbare other hother => ?_,
    hright.bracketed.imp fun kind hbare other hother => ?_⟩
  · obtain ⟨top, htop, htop'⟩ := Expression.exists_operator hleft' (hbare.2 other hother)
    exact (hle top htop).trans htop'
  · obtain ⟨top, htop, htop'⟩ := Expression.exists_operator hright' (hbare.2 other hother)
    exact (hless top htop).trans_le htop'

/-! ## The parts of a tree -/

theorem Traversal.length_pos (h : Traversal ts e) : 0 < ts.length := by
  obtain ⟨token, rest, rfl, -⟩ := h.begins
  exact Nat.succ_pos _

namespace Proper

theorem operation {operator : Operator} {left right : Expression} {span : Span}
    (h : Proper inCondition ts (.binary operator left right span)) :
    ∃ first sign rest, ts = first ++ ⟨.symbol operator.symbol, sign⟩ :: rest ∧
      span = left.span.through right.span ∧ Halves operator first rest ∧
      Proper inCondition first left ∧ Proper inCondition rest right := by
  obtain ⟨htraversal, hrespects, hbelongs⟩ := h
  cases htraversal with
  | binary hleft hright =>
      have hhalves := halves hleft hright hrespects
      simp only [Expression.respectsPrecedence, Expression.belongs, Bool.and_eq_true]
        at hrespects hbelongs
      exact ⟨_, _, _, rfl, rfl, hhalves, ⟨hleft, hrespects.1.2, hbelongs.1⟩,
        ⟨hright, hrespects.2, hbelongs.2⟩⟩

theorem negation {operand : Expression} {span : Span}
    (h : Proper inCondition ts (.negation operand span)) :
    ∃ sign rest, ts = ⟨.symbol .bang, sign⟩ :: rest ∧ span = sign.through operand.span ∧
      Proper inCondition rest operand := by
  obtain ⟨htraversal, hrespects, hbelongs⟩ := h
  cases htraversal with
  | negation h =>
      simp only [Expression.respectsPrecedence, Bool.and_eq_true] at hrespects
      exact ⟨_, _, rfl, rfl, h, hrespects.2, hbelongs⟩

theorem member {object : Expression} {label : Identifier} {span : Span}
    (h : Proper inCondition ts (.member object label span)) :
    ∃ first dot place, ts = first ++ [⟨.symbol .dot, dot⟩, ⟨.name label.name label.quoted, place⟩] ∧
      label.span = place ∧ span = object.span.through place ∧ Proper inCondition first object := by
  obtain ⟨htraversal, hrespects, hbelongs⟩ := h
  cases htraversal with
  | member h hname =>
      cases hname
      simp only [Expression.respectsPrecedence, Bool.and_eq_true] at hrespects
      exact ⟨_, _, _, rfl, rfl, rfl, h, hrespects.2, hbelongs⟩

theorem group {inner : Expression} {span : Span} (h : Proper inCondition ts (.group inner span)) :
    ∃ opened inside close,
      ts = ⟨.symbol .openParen, opened⟩ :: inside ++ [⟨.symbol .closeParen, close⟩] ∧
      span = opened.through close ∧ Proper inCondition inside inner := by
  obtain ⟨htraversal, hrespects, hbelongs⟩ := h
  cases htraversal with
  | group h => exact ⟨_, _, _, rfl, rfl, h, hrespects, hbelongs⟩

theorem array {elements : List Expression} {span : Span}
    (h : Proper inCondition ts (.array elements span)) :
    ∃ opened inside close,
      ts = ⟨.symbol .openBracket, opened⟩ :: inside ++ [⟨.symbol .closeBracket, close⟩] ∧
      span = opened.through close ∧ Row (Proper inCondition) inside elements := by
  obtain ⟨htraversal, hrespects, hbelongs⟩ := h
  rw [Expression.respectsPrecedence, Expression.respectsPrecedenceList_iff] at hrespects
  rw [Expression.belongs, Expression.belongsList_iff] at hbelongs
  cases htraversal with
  | array h =>
      exact ⟨_, _, _, rfl, rfl, h.imp fun e he ts h => ⟨h, hrespects e he, hbelongs e he⟩⟩

theorem call {callee : Expression} {arguments : List Argument} {span : Span}
    (h : Proper inCondition ts (.call callee arguments span)) :
    ∃ first opened inside close,
      ts = first ++ ⟨.symbol .openParen, opened⟩ :: inside ++ [⟨.symbol .closeParen, close⟩] ∧
      span = callee.span.through close ∧ Proper inCondition first callee ∧
      (inCondition = true → callee.isDefinedWord = false) ∧
      Row (LabelledArgument (Proper inCondition)) inside arguments := by
  obtain ⟨htraversal, hrespects, hbelongs⟩ := h
  simp only [Expression.respectsPrecedence, Bool.and_eq_true, Argument.respectsPrecedenceList_iff]
    at hrespects
  simp only [Expression.belongs, Bool.and_eq_true, Argument.belongsList_iff] at hbelongs
  cases htraversal with
  | call h harguments =>
      refine ⟨_, _, _, _, rfl, rfl, ⟨h, hrespects.1.2, hbelongs.1.2⟩, ?_, ?_⟩
      · rintro rfl
        simpa using hbelongs.1.1
      · refine harguments.imp fun a ha ts h => ?_
        have hvalue {ts : List Token} (h : Traversal ts a.value) : Proper inCondition ts a.value :=
          ⟨h, hrespects.2 a ha, hbelongs.2 a ha⟩
        cases h with
        | positional h => exact .positional (hvalue h)
        | labelled hname h => exact .labelled hname (hvalue h)

end Proper

theorem separable_proper : Separable (Proper inCondition) where
  bracketed h := h.traversal.bracketed.imp fun _ hbare => hbare.1
  begins h := by
    obtain ⟨token, rest, rfl, hbegins, -⟩ := h.traversal.begins
    refine ⟨token, rest, rfl, fun hkind => ?_⟩
    rw [hkind] at hbegins
    cases hbegins

theorem separable_argument : Separable (LabelledArgument (Proper inCondition)) where
  bracketed h := h.bracketed (fun _ h => separable_proper.bracketed h) fun _ hkind _ => hkind
  begins h := by
    cases h with
    | positional h => exact separable_proper.begins h
    | labelled => exact ⟨_, _, rfl, by simp⟩

/-- Arguments close all their brackets. -/
theorem bracketed_arguments {arguments : List Argument}
    (h : Row (LabelledArgument (Proper inCondition)) ts arguments) :
    Bracketed (fun _ => True) ts :=
  h.bracketed fun _ _ _ h => (separable_argument.bracketed h).imp fun _ _ => trivial

/-! ## One node of a tree -/

/-- No other tree stands for the same tokens. -/
def IsUnique (inCondition : Bool) (e : Expression) : Prop :=
  ∀ ⦃ts e'⦄, Proper inCondition ts e → Proper inCondition ts e' → e = e'

/-- An operator outside of brackets tells that a tree is an operation. -/
theorem Proper.exists_operation {operator : Operator} {sign : Span} {first rest : List Token}
    (h : Proper inCondition (first ++ ⟨.symbol operator.symbol, sign⟩ :: rest) e)
    (hfirst : rise first = 0) :
    ∃ operator' left right span, e = .binary operator' left right span := by
  have hbare := h.traversal.bracketed.next hfirst (rise_operator operator)
  obtain ⟨top, htop, -⟩ :=
    Expression.exists_operator h.respects (hbare.2 operator (Operator.ofToken?_symbol operator))
  cases e with
  | binary operator' left right span => exact ⟨_, _, _, _, rfl⟩
  | _ => cases htop

theorem isUnique_operation {operator : Operator} {left right : Expression} {span : Span}
    (hleft : IsUnique inCondition left) (hright : IsUnique inCondition right) :
    IsUnique inCondition (.binary operator left right span) := by
  intro ts e' h h'
  obtain ⟨first, sign, rest, rfl, rfl, hhalves, hfirst, hrest⟩ := h.operation
  obtain ⟨operator', left', right', span', rfl⟩ := h'.exists_operation hhalves.left.rise_eq
  obtain ⟨first', sign', rest', hts, rfl, hhalves', hfirst', hrest'⟩ := h'.operation
  obtain ⟨rfl, rfl, rfl⟩ := hhalves.unique hhalves' hts
  rw [hleft hfirst hfirst', hright hrest hrest']

/-- Whether a tree is an operation can be told from its tokens. -/
theorem Proper.operator?_eq_none (h : Proper inCondition ts e) (h' : Proper inCondition ts e')
    (hnone : e.operator? = none) : e'.operator? = none := by
  cases e' with
  | binary operator left right span =>
      obtain ⟨first, sign, rest, rfl, -, hhalves, -⟩ := h'.operation
      obtain ⟨_, _, _, _, rfl⟩ := h.exists_operation hhalves.left.rise_eq
      cases hnone
  | _ => rfl

theorem isUnique_negation {operand : Expression} {span : Span}
    (hoperand : IsUnique inCondition operand) :
    IsUnique inCondition (.negation operand span) := by
  intro ts e' h h'
  have hnone := h.operator?_eq_none h' rfl
  obtain ⟨sign, rest, rfl, rfl, hrest⟩ := h.negation
  -- what can be called without parentheses does not begin with an exclamation mark
  by_cases hsuffixable : e'.isSuffixable = true
  · obtain ⟨token, more, hts, -, hprimary⟩ := h'.traversal.begins
    cases hts
    cases hprimary h'.respects hsuffixable
  cases e' with
  | negation operand' span' =>
      obtain ⟨sign', rest', hts, rfl, hrest'⟩ := h'.negation
      cases hts
      rw [hoperand hrest hrest']
  | binary => cases hnone
  | _ => exact (hsuffixable rfl).elim

/-- Whether a tree can be called without parentheses can be told from its tokens. -/
theorem Proper.isSuffixable (h : Proper inCondition ts e) (h' : Proper inCondition ts e')
    (hsuffixable : e.isSuffixable = true) : e'.isSuffixable = true := by
  have hnone := h.operator?_eq_none h' (Expression.operator?_of_isSuffixable hsuffixable)
  cases e' with
  | binary => cases hnone
  | negation operand span =>
      obtain ⟨sign, rest, rfl, -⟩ := h'.negation
      obtain ⟨token, more, hts, -, hprimary⟩ := h.traversal.begins
      cases hts
      cases hprimary h.respects hsuffixable
  | _ => rfl

/-- The expression that a token is by itself. -/
def leaf? (token : Token) : Option Expression :=
  match token.kind with
  | .integer value => some (.integer value token.span)
  | .float value => some (.float value token.span)
  | .string text => some (.string text token.span)
  | .name text quoted => some (.name ⟨text, quoted, token.span⟩)
  | _ => none

theorem Traversal.leaf {token : Token} (h : Traversal [token] e) : leaf? token = some e := by
  generalize hts : [token] = ts at h
  have hlength := congrArg List.length hts
  cases h with
  | integer | float | string =>
      cases hts
      rfl
  | name h =>
      cases h
      cases hts
      rfl
  | negation h =>
      have := h.length_pos
      simp only [List.length_cons, List.length_nil] at hlength
      omega
  | member h hname =>
      cases hname
      simp at hlength
  | binary hleft hright =>
      have := hleft.length_pos
      have := hright.length_pos
      simp only [List.length_cons, List.length_nil, List.length_append] at hlength
      omega
  | _ =>
      simp only [List.length_cons, List.length_nil, List.length_append] at hlength
      omega

/-- One token stands for one tree. -/
theorem Proper.eq_of_leaf {token : Token} (h : Proper inCondition [token] e)
    (h' : Proper inCondition [token] e') : e = e' :=
  Option.some.inj (h.traversal.leaf.symm.trans h'.traversal.leaf)

/-- The bracket that an expression ends with. -/
def closer? : Expression → Option Bracket
  | .array _ _ => some .square
  | .group _ _ | .call _ _ _ | .defined _ _ => some .paren
  | _ => none

/-- The last of several tokens tells what kind of node something is that can be called without
parentheses. -/
theorem Traversal.ends {before : List Token} {last : Token} (h : Traversal (before ++ [last]) e)
    (hsuffixable : e.isSuffixable = true) (hbefore : before ≠ []) :
    (∃ bracket ∈ closer? e, last.kind = .symbol bracket.closing) ∨
      (∃ text quoted, last.kind = .name text quoted) ∧
        ∃ object label span, e = .member object label span := by
  generalize hts : before ++ [last] = ts at h
  have hsingle {token : Token} : before ++ [last] ≠ [token] := by
    cases before with
    | nil => exact absurd rfl hbefore
    | cons => simp
  cases h with
  | integer | float | string => exact (hsingle hts).elim
  | name h =>
      cases h
      exact (hsingle hts).elim
  | negation | binary => cases hsuffixable
  | member h hname =>
      cases hname
      obtain ⟨-, hlast⟩ := List.append_inj' (hts.trans (List.append_cons _ _ _)) rfl
      cases hlast
      exact .inr ⟨⟨_, _, rfl⟩, _, _, _, rfl⟩
  | _ =>
      obtain ⟨-, hlast⟩ := List.append_inj' hts rfl
      cases hlast
      exact .inl ⟨_, rfl, rfl⟩

theorem isUnique_member {object : Expression} {label : Identifier} {span : Span}
    (hobject : IsUnique inCondition object) :
    IsUnique inCondition (.member object label span) := by
  intro ts e' h h'
  have hsuffixable := h.isSuffixable h' rfl
  obtain ⟨first, dot, place, rfl, hplace, rfl, hfirst⟩ := h.member
  rw [List.append_cons] at h'
  rcases h'.traversal.ends hsuffixable (by simp) with
    ⟨bracket, -, hlast⟩ | ⟨-, object', label', span', rfl⟩
  · cases hlast
  · obtain ⟨first', dot', place', hts, hplace', rfl, hfirst'⟩ := h'.member
    rw [← List.append_cons] at hts
    obtain ⟨rfl, hlast⟩ := List.append_inj' hts rfl
    obtain ⟨name, quoted, span⟩ := label
    obtain ⟨name', quoted', span'⟩ := label'
    cases hlast
    cases hplace
    cases hplace'
    rw [hobject hfirst hfirst']

theorem isUnique_array {elements : List Expression} {span : Span}
    (helements : ∀ e ∈ elements, IsUnique inCondition e) :
    IsUnique inCondition (.array elements span) := by
  intro ts e' h h'
  have hsuffixable := h.isSuffixable h' rfl
  obtain ⟨opened, inside, close, rfl, rfl, hinside⟩ := h.array
  rcases h'.traversal.ends hsuffixable (by simp) with
    ⟨bracket, hbracket, hlast⟩ | ⟨⟨_, _, hlast⟩, -⟩
  · cases e' with
    | array elements' span' =>
        obtain ⟨opened', inside', close', hts, rfl, hinside'⟩ := h'.array
        obtain ⟨hfront, hclose⟩ := List.append_inj' hts rfl
        cases hfront
        cases hclose
        rw [hinside.unique separable_proper hinside' fun e he ts e' h h' => helements e he h h']
    | _ => cases hbracket <;> cases hlast
  · cases hlast

/-- What ends with a closing parenthesis is a group, a call or a question. -/
theorem Proper.of_closeParen {before : List Token} {close : Span}
    (h : Proper inCondition (before ++ [⟨.symbol .closeParen, close⟩]) e)
    (hsuffixable : e.isSuffixable = true) (hbefore : before ≠ []) :
    (∃ inner span, e = .group inner span) ∨
      (∃ callee arguments span, e = .call callee arguments span) ∨
        ∃ name span, e = .defined name span := by
  rcases h.traversal.ends hsuffixable hbefore with ⟨bracket, hbracket, hlast⟩ | ⟨⟨_, _, hlast⟩, -⟩
  · cases e with
    | group inner span => exact .inl ⟨_, _, rfl⟩
    | call callee arguments span => exact .inr (.inl ⟨_, _, _, rfl⟩)
    | defined name span => exact .inr (.inr ⟨_, _, rfl⟩)
    | _ => cases hbracket <;> cases hlast
  · cases hlast

/-- What closes all its brackets does not begin with a bracket that is closed only behind it. -/
theorem Bracketed.not_enclosed {bare bare' : TokenKind → Prop} {first inside more : List Token}
    {opened : Token} (hfirst : Bracketed bare first) (hinside : Bracketed bare' inside)
    (hopened : opened.kind.rise = 1) (hne : first ≠ []) (hts : opened :: inside = first ++ more) :
    False := by
  cases first with
  | nil => exact hne rfl
  | cons token rest =>
      cases hts
      have hrise := hfirst.rise_eq
      have hnonneg := hinside.rise_nonneg
      rw [rise_cons, hopened] at hrise
      omega

theorem Proper.ne_nil (h : Proper inCondition ts e) : ts ≠ [] := by
  rintro rfl
  exact Nat.lt_irrefl 0 h.traversal.length_pos

theorem isUnique_group {inner : Expression} {span : Span} (hinner : IsUnique inCondition inner) :
    IsUnique inCondition (.group inner span) := by
  intro ts e' h h'
  have hsuffixable := h.isSuffixable h' rfl
  obtain ⟨opened, inside, close, rfl, rfl, hinside⟩ := h.group
  rcases h'.of_closeParen hsuffixable (by simp) with ⟨inner', span', rfl⟩ |
    ⟨callee, arguments, span', rfl⟩ | ⟨name, span', rfl⟩
  · obtain ⟨opened', inside', close', hts, rfl, hinside'⟩ := h'.group
    obtain ⟨hfront, hclose⟩ := List.append_inj' hts rfl
    cases hfront
    cases hclose
    rw [hinner hinside hinside']
  · obtain ⟨first, opened', inside', close', hts, -, hfirst, -⟩ := h'.call
    obtain ⟨hfront, -⟩ := List.append_inj' hts rfl
    -- the callee would have to close the parenthesis that the group begins with
    exact (hfirst.traversal.bracketed.not_enclosed hinside.traversal.bracketed rfl hfirst.ne_nil
      hfront).elim
  · obtain ⟨htraversal, -, -⟩ := h'
    generalize hts : ⟨.symbol .openParen, opened⟩ :: inside ++ [⟨.symbol .closeParen, close⟩] = ts
      at htraversal
    cases htraversal
    cases hts

theorem Bracketed.not_opened {bare bare' inner : TokenKind → Prop}
    {first inside more : List Token} {opened : Token} (hfirst : Bracketed bare first)
    (hlonger : Bracketed bare' (first ++ opened :: more))
    (hinside : Bracketed inner (more ++ inside)) (hopened : opened.kind.rise = 1) : False := by
  have hrise := hlonger.rise_eq
  have hnonneg := hinside.rise_nonneg
  rw [rise_append, rise_cons, hfirst.rise_eq, hopened] at hrise
  omega

/-- The parenthesis that the arguments of a call begin with is the one that the last parenthesis
closes. -/
theorem Bracketed.unique_front {bare bare' inner inner' : TokenKind → Prop}
    {first first' inside inside' : List Token} {opened opened' : Token}
    (hfirst : Bracketed bare first) (hinside : Bracketed inner inside)
    (hfirst' : Bracketed bare' first') (hinside' : Bracketed inner' inside')
    (hopened : opened.kind.rise = 1) (hopened' : opened'.kind.rise = 1)
    (hts : first ++ opened :: inside = first' ++ opened' :: inside') :
    first = first' ∧ opened = opened' ∧ inside = inside' := by
  obtain ⟨hfirst, htail⟩ : first = first' ∧ _ := by
    refine eq_of_fronts hts (fun token more hmore htail => ?_) fun token more hmore htail => ?_
    all_goals
      obtain ⟨rfl, rfl⟩ := List.cons.inj htail
      subst hmore
    · exact hfirst.not_opened hfirst' hinside hopened
    · exact hfirst'.not_opened hfirst hinside' hopened'
  exact ⟨hfirst, List.cons.inj htail⟩

theorem Proper.defined {name : Identifier} {span : Span}
    (h : Proper inCondition ts (.defined name span)) :
    inCondition = true ∧ ∃ start opened place close,
      ts = [⟨.name "defined" false, start⟩, ⟨.symbol .openParen, opened⟩,
        ⟨.name name.name name.quoted, place⟩] ++ [⟨.symbol .closeParen, close⟩] ∧
      name.span = place ∧ span = start.through close := by
  obtain ⟨htraversal, -, hbelongs⟩ := h
  cases htraversal with
  | defined h =>
      cases h
      exact ⟨hbelongs, _, _, _, _, rfl, rfl, rfl⟩

/-- In a condition, the bare word `defined` is not called. -/
theorem Proper.not_call_of_defined {callee : Expression} {arguments : List Argument}
    {name : Identifier} {span span' : Span} (h : Proper inCondition ts (.defined name span))
    (h' : Proper inCondition ts (.call callee arguments span')) : False := by
  obtain ⟨hcondition, start, opened, place, close, rfl, -⟩ := h.defined
  -- the arguments have the same brackets as the question, so the callee is the word before them
  obtain ⟨first, opened', inside, close', hts, -, hfirst, hword, hinside⟩ := h'.call
  obtain ⟨hfront, -⟩ := List.append_inj' hts rfl
  have hname {text : String} {quoted : Bool} {span : Span} :
      Bracketed (fun _ => True) [⟨.name text quoted, span⟩] := .bare rfl trivial .nil
  obtain ⟨rfl, -⟩ := hname.unique_front hname hfirst.traversal.bracketed
    (bracketed_arguments hinside) rfl rfl hfront
  cases hfirst.traversal.leaf
  cases hword hcondition

theorem isUnique_defined {name : Identifier} {span : Span} :
    IsUnique inCondition (.defined name span) := by
  intro ts e' h h'
  have hsuffixable := h.isSuffixable h' rfl
  obtain ⟨-, start, opened, place, close, rfl, hplace, rfl⟩ := id h.defined
  rcases h'.of_closeParen hsuffixable (by simp) with ⟨inner, span', rfl⟩ |
    ⟨callee, arguments, span', rfl⟩ | ⟨name', span', rfl⟩
  · obtain ⟨opened', inside, close', hts, -⟩ := h'.group
    cases hts
  · exact (h.not_call_of_defined h').elim
  · obtain ⟨-, start', opened', place', close', hts, hplace', rfl⟩ := h'.defined
    obtain ⟨text, quoted, span⟩ := name
    obtain ⟨text', quoted', span'⟩ := name'
    cases hplace
    cases hplace'
    cases hts
    rfl

theorem isUnique_argument {argument : Argument} (hvalue : IsUnique inCondition argument.value)
    {argument' : Argument} (h : LabelledArgument (Proper inCondition) ts argument)
    (h' : LabelledArgument (Proper inCondition) ts argument') : argument = argument' := by
  -- an expression does not begin with a dot
  have hdot {dot : Span} {rest : List Token} {e : Expression}
      (h : Proper inCondition (⟨.symbol .dot, dot⟩ :: rest) e) : False := by
    obtain ⟨token, more, hts, hbegins, -⟩ := h.traversal.begins
    cases hts
    cases hbegins
  cases h with
  | positional h =>
      cases h' with
      | positional h' => exact congrArg (Argument.mk none) (hvalue h h')
      | labelled => exact (hdot h).elim
  | labelled hname h =>
      cases hname
      generalize hts : _ :: [_] ++ _ :: _ = ts at h'
      cases h' with
      | positional h' =>
          subst hts
          exact (hdot h').elim
      | labelled hname' h' =>
          cases hname'
          cases hts
          exact congrArg (Argument.mk _) (hvalue h h')

theorem isUnique_call {callee : Expression} {arguments : List Argument} {span : Span}
    (hcallee : IsUnique inCondition callee)
    (harguments : ∀ a ∈ arguments, IsUnique inCondition a.value) :
    IsUnique inCondition (.call callee arguments span) := by
  intro ts e' h h'
  have hsuffixable := h.isSuffixable h' rfl
  obtain ⟨first, opened, inside, close, rfl, rfl, hfirst, -, hinside⟩ := id h.call
  rcases h'.of_closeParen hsuffixable (by simp) with ⟨inner, span', rfl⟩ |
    ⟨callee', arguments', span', rfl⟩ | ⟨name', span', rfl⟩
  · obtain ⟨opened', inside', close', hts, -, hinside'⟩ := h'.group
    obtain ⟨hfront, -⟩ := List.append_inj' hts rfl
    exact (hfirst.traversal.bracketed.not_enclosed hinside'.traversal.bracketed rfl hfirst.ne_nil
      hfront.symm).elim
  · obtain ⟨first', opened', inside', close', hts, rfl, hfirst', -, hinside'⟩ := h'.call
    obtain ⟨hfront, hclose⟩ := List.append_inj' hts rfl
    obtain ⟨rfl, -, rfl⟩ := hfirst.traversal.bracketed.unique_front (bracketed_arguments hinside)
      hfirst'.traversal.bracketed (bracketed_arguments hinside') rfl rfl hfront
    cases hclose
    have harguments' : arguments = arguments' :=
      hinside.unique separable_argument hinside' fun a ha ts a' h h' =>
        isUnique_argument (harguments a ha) h h'
    rw [hcallee hfirst hfirst', harguments']
  · exact (h'.not_call_of_defined h).elim

/-! ## Main result -/

/-- **A list of tokens stands for at most one tree** that is grouped as operators bind and belongs
to a context. -/
theorem isUnique (inCondition : Bool) (e : Expression) : IsUnique inCondition e := by
  induction e using Expression.induction with
  | integer | float | string =>
      intro ts e' h h'
      obtain ⟨htraversal, -, -⟩ := id h
      cases htraversal
      exact h.eq_of_leaf h'
  | name =>
      intro ts e' h h'
      obtain ⟨htraversal, -, -⟩ := id h
      cases htraversal with
      | name hname =>
          cases hname
          exact h.eq_of_leaf h'
  | defined => exact isUnique_defined
  | group inner span ih => exact isUnique_group ih
  | array elements span ih => exact isUnique_array ih
  | negation operand span ih => exact isUnique_negation ih
  | member object label span ih => exact isUnique_member ih
  | call callee arguments span ih iharguments => exact isUnique_call ih iharguments
  | binary operator left right span ihleft ihright => exact isUnique_operation ihleft ihright

end ConfLang.Grammar
