import ConfLang.Proofs.Grammar.Words
import ConfLang.Proofs.Precedence.Brackets
import ConfLang.Proofs.Precedence.Tree

/-!
# The tokens of a tree

A tree is read off its tokens from left to right.  `Traversal` says which tokens these are, for
trees of any shape, so it leaves open how operators are grouped.  The lists in a tree may have been
written with more commas than they need.

The tokens of a tree close all brackets that they open, and outside of these are its operators and
no others (`Traversal.bracketed`).
-/

namespace ConfLang.Grammar

variable {ts : List Token}

/-! ## Expressions -/

/-- The tokens of an expression from left to right.  Places are those that a reader gives: from the
first token of a node through the last one. -/
inductive Traversal : Language Expression where
  | integer {value span} : Traversal [⟨.integer value, span⟩] (.integer value span)
  | float {value span} : Traversal [⟨.float value, span⟩] (.float value span)
  | string {text span} : Traversal [⟨.string text, span⟩] (.string text span)
  | name {ts name} : Name ts name → Traversal ts (.name name)
  | defined {ts name start opened close} : Name ts name →
    Traversal (⟨.name "defined" false, start⟩ :: ⟨.symbol .openParen, opened⟩ ::
      ts ++ [⟨.symbol .closeParen, close⟩]) (.defined name (start.through close))
  | group {ts e opened close} : Traversal ts e →
    Traversal (⟨.symbol .openParen, opened⟩ :: ts ++ [⟨.symbol .closeParen, close⟩])
      (.group e (opened.through close))
  | array {ts elements opened close} : Row Traversal ts elements →
    Traversal (⟨.symbol .openBracket, opened⟩ :: ts ++ [⟨.symbol .closeBracket, close⟩])
      (.array elements (opened.through close))
  | negation {ts e sign} : Traversal ts e →
    Traversal (⟨.symbol .bang, sign⟩ :: ts) (.negation e (sign.through e.span))
  | member {first rest object member dot} : Traversal first object → Name rest member →
    Traversal (first ++ ⟨.symbol .dot, dot⟩ :: rest)
      (.member object member (object.span.through member.span))
  | call {first ts callee arguments opened close} : Traversal first callee →
    Row (LabelledArgument Traversal) ts arguments →
    Traversal (first ++ ⟨.symbol .openParen, opened⟩ :: ts ++ [⟨.symbol .closeParen, close⟩])
      (.call callee arguments (callee.span.through close))
  | binary {first rest left right sign} {operator : Operator} : Traversal first left →
    Traversal rest right →
    Traversal (first ++ ⟨.symbol operator.symbol, sign⟩ :: rest)
      (.binary operator left right (left.span.through right.span))

/-- What tokens of an expression are outside of brackets: no commas, and no operators but its
own. -/
def IsBare (e : Expression) (kind : TokenKind) : Prop :=
  kind ≠ .symbol .comma ∧ ∀ operator ∈ Operator.ofToken? kind, operator ∈ e.outside

theorem rise_operator (operator : Operator) : (TokenKind.symbol operator.symbol).rise = 0 := by
  cases operator <;> rfl

theorem Name.bracketed {name : Identifier} {bare : TokenKind → Prop} (h : Name ts name)
    (hbare : ∀ text quoted, bare (.name text quoted)) : Bracketed bare ts := by
  cases h
  exact .bare rfl (hbare _ _) .nil

theorem LabelledArgument.bracketed {language : Language Expression} {argument : Argument}
    (h : LabelledArgument language ts argument) {bare : TokenKind → Prop}
    (hvalue : ∀ ts, language ts argument.value → Bracketed bare ts)
    (hbare : ∀ kind, kind ≠ .symbol .comma → Operator.ofToken? kind = none → bare kind) :
    Bracketed bare ts := by
  cases h with
  | positional h => exact hvalue _ h
  | labelled hname h =>
      have hlabel := hname.bracketed fun _ _ => hbare _ (by simp) rfl
      exact .bare rfl (hbare _ (by simp) rfl)
        (hlabel.append (.bare rfl (hbare _ (by simp) rfl) (hvalue _ h)))

/-- The tokens of an expression close all brackets that they open, and outside of these are its
operators and no others. -/
theorem Traversal.bracketed {e : Expression} (h : Traversal ts e) : Bracketed (IsBare e) ts := by
  induction e using Expression.induction generalizing ts with
  | integer | float | string =>
      cases h
      exact .bare rfl ⟨by simp, by simp [Operator.ofToken?]⟩ .nil
  | name =>
      cases h with
      | name h => exact h.bracketed fun _ _ => ⟨by simp, by simp [Operator.ofToken?]⟩
  | defined =>
      cases h with
      | defined h =>
          have hname : Bracketed (fun _ => True) _ := h.bracketed fun _ _ => trivial
          exact .bare rfl ⟨by simp, by simp [Operator.ofToken?]⟩ (.brackets rfl rfl hname .nil)
  | group inner span ih =>
      cases h with
      | group h => exact .brackets rfl rfl ((ih h).imp fun _ _ => trivial) .nil
  | array elements span ih =>
      cases h with
      | array h =>
          have hinside := h.bracketed fun e he ts h => (ih e he h).imp fun _ _ => trivial
          exact .brackets rfl rfl hinside .nil
  | negation operand span ih =>
      cases h with
      | negation h => exact .bare rfl ⟨by simp, by simp [Operator.ofToken?]⟩ (ih h)
  | member object label span ih =>
      cases h with
      | member h hname =>
          have hlabel : Bracketed (IsBare object) _ := hname.bracketed fun _ _ =>
            ⟨by simp, by simp [Operator.ofToken?]⟩
          exact (ih h).append (.bare rfl ⟨by simp, by simp [Operator.ofToken?]⟩ hlabel)
  | call callee arguments span ih iharguments =>
      cases h with
      | call h harguments =>
          have hinside := harguments.bracketed fun a ha ts h => h.bracketed
            (fun ts h => (iharguments a ha h).imp fun _ _ => trivial) fun _ _ _ => trivial
          rw [List.append_assoc]
          exact (ih h).append (.brackets rfl rfl hinside .nil)
  | binary operator left right span ihleft ihright =>
      cases h with
      | binary hleft hright =>
          have hsign {span : Span} :
              IsBare (.binary operator left right span) (.symbol operator.symbol) := by
            refine ⟨by cases operator <;> simp [Operator.symbol], fun other hother => ?_⟩
            cases operator <;> cases hother <;> simp [Expression.outside]
          -- An operator outside of the brackets of one side is one of the whole expression.
          have hmore {span : Span} {part : Expression}
              (hpart : ∀ other ∈ part.outside, other ∈ left.outside ++ operator :: right.outside)
              (kind : TokenKind) (h : IsBare part kind) :
              IsBare (.binary operator left right span) kind :=
            ⟨h.1, fun other hother => hpart other (h.2 other hother)⟩
          refine ((ihleft hleft).imp (hmore ?_)).append
            (.bare (rise_operator operator) hsign ((ihright hright).imp (hmore ?_)))
          · exact fun other h => List.mem_append_left _ h
          · exact fun other h => List.mem_append_right _ (List.mem_cons_of_mem _ h)

/-- The first token of an expression tells that it is one, and that it is no negation if it can be
called without parentheses. -/
theorem Traversal.begins {e : Expression} (h : Traversal ts e) :
    ∃ token rest, ts = token :: rest ∧ token.kind.beginsExpression = true ∧
      (e.respectsPrecedence = true → e.isSuffixable = true → token.kind.beginsPrimary = true) := by
  induction e using Expression.induction generalizing ts with
  | negation operand span ih =>
      cases h
      exact ⟨_, _, rfl, rfl, fun _ h => nomatch h⟩
  | binary operator left right span ih _ =>
      cases h with
      | binary h =>
          obtain ⟨token, rest, rfl, hbegins, -⟩ := ih h
          exact ⟨token, _, rfl, hbegins, fun _ h => nomatch h⟩
  | member object label span ih =>
      cases h with
      | member h =>
          obtain ⟨token, rest, rfl, hbegins, hprimary⟩ := ih h
          refine ⟨token, _, rfl, hbegins, fun hrespects _ => ?_⟩
          simp only [Expression.respectsPrecedence, Bool.and_eq_true] at hrespects
          exact hprimary hrespects.2 hrespects.1
  | call callee arguments span ih _ =>
      cases h with
      | call h =>
          obtain ⟨token, rest, rfl, hbegins, hprimary⟩ := ih h
          refine ⟨token, _, rfl, hbegins, fun hrespects _ => ?_⟩
          simp only [Expression.respectsPrecedence, Bool.and_eq_true] at hrespects
          exact hprimary hrespects.1.2 hrespects.1.1
  | name =>
      cases h with
      | name h =>
          cases h
          exact ⟨_, _, rfl, rfl, fun _ _ => rfl⟩
  | _ =>
      cases h
      exact ⟨_, _, rfl, rfl, fun _ _ => rfl⟩

end ConfLang.Grammar
