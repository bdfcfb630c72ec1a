import Mathlib.Data.List.Chain
import ConfLang.Proofs.Grammar.Words
import ConfLang.Proofs.Recovery.Language

/-!
# Bodies are balanced

A body of the grammar opens and closes its blocks one inside the other.  So its tokens are
balanced, with two exceptions: raw text, which is read as other tokens where it is not asked
for, and what is ignored behind a mark, which may be anything.  A body without those can stand
inside a construct that is skipped.
-/

namespace ConfLang.Grammar

/-- Among some tokens there is no raw text, and the line of a mark ends behind it. -/
structure Tidy (ts : List Token) : Prop where
  noText : ∀ token ∈ ts, ∀ text, token.kind ≠ .restOfLine text
  lines : ts.IsChain fun mark next =>
    mark.kind = .mark .otherwise ∨ mark.kind = .mark .endif → next.kind = .endOfLine

variable {inBlock : Bool} {ts xs ys : List Token}

theorem Tidy.left (h : Tidy (xs ++ ys)) : Tidy xs :=
  ⟨fun token hmem => h.noText token (List.mem_append_left ys hmem), h.lines.left_of_append⟩

theorem Tidy.right (h : Tidy (xs ++ ys)) : Tidy ys :=
  ⟨fun token hmem => h.noText token (List.mem_append_right xs hmem), h.lines.right_of_append⟩

theorem Tidy.tail {token : Token} (h : Tidy (token :: ts)) : Tidy ts := by
  have hsplit : Tidy ([token] ++ ts) := h
  exact hsplit.right

/-- Nothing is ignored on a tidy line of a mark. -/
theorem Tidy.eq_nil_of_ignored {which : Mark} {close line : Span}
    (h : Tidy (⟨.mark which, close⟩ :: ts ++ ⟨.endOfLine, line⟩ :: ys)) (hignored : Ignored ts)
    (hwhich : which ≠ .elif) : ts = [] := by
  cases ts with
  | nil => rfl
  | cons token rest =>
      have hline : token.kind = .endOfLine :=
        (List.isChain_cons_cons.mp h.lines).1 (by cases which <;> simp_all)
      exact absurd hline (hignored token List.mem_cons_self).1

/-! ## Balanced lists -/

theorem isQuiet_of_isPlain {kind : TokenKind} (h : kind.isPlain = true) : kind.isQuiet = true := by
  cases kind with
  | symbol sign => cases sign <;> first | rfl | simp [TokenKind.isPlain] at h
  | _ => first | rfl | simp [TokenKind.isPlain] at h

theorem Balanced.append (hxs : Balanced inBlock xs) (hys : Balanced inBlock ys) :
    Balanced inBlock (xs ++ ys) := by
  induction hxs with
  | nil => exact hys
  | quiet hquiet _ ih => exact .quiet hquiet (ih hys)
  | mark hwhich _ ih => exact .mark hwhich (ih hys)
  | braces hinside _ _ ih =>
      rw [List.append_assoc]
      exact .braces hinside (ih hys)
  | chain hinside _ _ ih =>
      rw [List.append_assoc]
      exact .chain hinside (ih hys)

theorem balanced_of_plain (h : ∀ token ∈ ts, token.kind.isPlain = true) : Balanced inBlock ts := by
  induction ts with
  | nil => exact .nil
  | cons token rest ih =>
      rw [List.forall_mem_cons] at h
      exact .quiet (isQuiet_of_isPlain h.1) (ih h.2)

theorem balanced_name {name : Identifier} (h : Name ts name) : Balanced inBlock ts :=
  balanced_of_plain (worded_name.plain h)

theorem balanced_expression {inCondition : Bool} {room : Nat} {e : Expression}
    (h : expression inCondition room ts e) : Balanced inBlock ts :=
  balanced_of_plain ((worded_expression inCondition room).plain h)

/-- Bodies of the language are balanced if they are tidy. -/
def BalancedStatement (language : Language Statement) : Prop :=
  ∀ ⦃ts a⦄, language ts a → Tidy ts → ∀ inBlock, Balanced inBlock ts

variable {language : Language Statement} {statements : List Statement}

theorem balanced_many (hstatement : BalancedStatement language) (h : Many language ts statements)
    (htidy : Tidy ts) (inBlock : Bool) : Balanced inBlock ts := by
  induction h with
  | nil => exact .nil
  | cons h _ ih => exact (hstatement h htidy.left inBlock).append (ih htidy.right)

theorem balanced_block (hstatement : BalancedStatement language) {body : Body}
    (h : Block language ts body) (htidy : Tidy ts) (inBlock : Bool) : Balanced inBlock ts := by
  obtain ⟨h⟩ := h
  exact .braces (balanced_many hstatement h htidy.left.tail inBlock) .nil

/-- The clauses of a block are balanced up to the mark that closes it, and behind it. -/
theorem balanced_clauses {condition : Language Expression} (hstatement : BalancedStatement language)
    (hcondition : ∀ ⦃ts e⦄, condition ts e → ∀ inBlock, Balanced inBlock ts)
    {branches : List Branch} {last : Option Body} {place : Span}
    (h : Clauses condition language ts branches last place) (htidy : Tidy ts) :
    ∃ inside close rest, ts = inside ++ ⟨.mark .endif, close⟩ :: rest ∧ Balanced true inside ∧
      ∀ inBlock, Balanced inBlock rest := by
  have hline {line : Span} {inBlock : Bool} {behind : List Token} (h : Balanced inBlock behind) :
      Balanced inBlock (⟨.endOfLine, line⟩ :: behind) := .quiet rfl h
  induction h with
  | endif hignored =>
      obtain rfl := htidy.eq_nil_of_ignored hignored (by simp)
      exact ⟨[], _, _, rfl, .nil, fun _ => hline .nil⟩
  | otherwise hignored hbody _ ih =>
      obtain ⟨inside, close, rest, hrest, hinside, hbehind⟩ := ih htidy.right
      obtain rfl := htidy.left.eq_nil_of_ignored hignored (by simp)
      have hhead := balanced_many hstatement hbody htidy.left.tail.tail true
      refine ⟨_ ++ inside, close, rest, by rw [hrest, ← List.append_assoc], ?_, hbehind⟩
      exact .append (.mark (by simp) (hline hhead)) hinside
  | elif hcond hbody _ ih =>
      obtain ⟨inside, close, rest, hrest, hinside, hbehind⟩ := ih htidy.right
      have hhead := balanced_many hstatement hbody htidy.left.right.tail true
      refine ⟨_ ++ inside, close, rest, by rw [hrest, ← List.append_assoc], ?_, hbehind⟩
      exact .append (.mark (by simp) ((hcondition hcond true).append (hline hhead))) hinside

/-- What stands behind an opening directive on its line is balanced. -/
theorem balanced_conditional {room : Nat} {kind : ConditionKind} {condition : Condition}
    (h : Conditional (expression true room) kind ts condition) (htidy : Tidy ts) :
    Balanced inBlock ts := by
  cases h with
  | holds h => exact balanced_expression h
  | defined h | undefined h => exact balanced_name h
  | fileExists | fileMissing => exact absurd rfl (htidy.noText _ List.mem_cons_self _)

/-! ## Statements -/

theorem balanced_anyStatement {options : Options} {inBlock : Bool} {room : Nat}
    {inner : Option Deeper}
    (hinner : ∀ deeper ∈ inner, (∃ room, deeper.condition = expression true room) ∧
      ∀ inBlock, BalancedStatement (deeper.statement inBlock)) :
    BalancedStatement (IsStatement options inBlock (expression false room) inner) := by
  intro ts a h htidy b
  cases h with
  | constant hname h =>
      exact .append (.quiet rfl (balanced_name hname)) (.quiet rfl (balanced_expression h))
  | typedConstant hname htype h =>
      exact .append (.append (.quiet rfl (balanced_name hname))
        (.quiet rfl (balanced_expression htype))) (.quiet rfl (balanced_expression h))
  | group hd hname h =>
      have hblock := balanced_block ((hinner _ hd).2 inBlock) h htidy.right b
      exact .append (.quiet rfl (balanced_name hname)) hblock
  | assign hname h | append hname h =>
      exact .append (balanced_name hname) (.quiet rfl (balanced_expression h))
  | expand =>
      -- tidy tokens hold no raw text
      exact absurd rfl (htidy.right.noText _ (List.mem_cons_of_mem _ List.mem_cons_self) _)
  | choice hd he h =>
      have hblock := balanced_block ((hinner _ hd).2 inBlock) h htidy.right.tail b
      exact .append (.quiet rfl (.quiet rfl (balanced_expression he))) (.quiet rfl hblock)
  | choiceElse hd he h h' =>
      have hblock := balanced_block ((hinner _ hd).2 inBlock) h htidy.left.right.tail b
      have hother := balanced_block ((hinner _ hd).2 inBlock) h' htidy.right.tail b
      exact .append (.append (.quiet rfl (.quiet rfl (balanced_expression he)))
        (.quiet rfl hblock)) (.quiet rfl hother)
  | conditional hd hcond hbody hclauses =>
      obtain ⟨⟨room, hcondition⟩, hstatement⟩ := hinner _ hd
      rw [hcondition] at hcond hclauses
      have hhead : Balanced true _ := balanced_conditional hcond htidy.left.left.tail
      have hbody' := balanced_many (hstatement true) hbody htidy.left.right.tail true
      obtain ⟨inside, close, rest, hrest, hinside, hbehind⟩ :=
        balanced_clauses (hstatement true) (fun _ _ h _ => balanced_expression h) hclauses htidy.right
      rw [hrest, ← List.append_assoc]
      exact .chain ((hhead.append (.quiet rfl hbody')).append hinside) (hbehind b)
  | message =>
      exact absurd rfl (htidy.noText _ (List.mem_cons_of_mem _ List.mem_cons_self) _)
  | passage => exact .quiet rfl .nil

theorem balanced_statement (options : Options) (room : Nat) (inBlock : Bool) :
    BalancedStatement (statement options room inBlock) := by
  induction room generalizing inBlock with
  | zero => exact balanced_anyStatement nofun
  | succ room ih =>
      refine balanced_anyStatement fun deeper hdeeper => ?_
      obtain rfl := Option.mem_some.mp hdeeper
      exact ⟨⟨room, rfl⟩, ih⟩

/-- A body is balanced if nothing in it is raw text or ignored. -/
theorem balanced_body {options : Options} {room : Nat} {inBlock : Bool}
    (h : Many (statement options room inBlock) ts statements) (htidy : Tidy ts) (b : Bool) :
    Balanced b ts :=
  balanced_many (balanced_statement options room inBlock) h htidy b

end ConfLang.Grammar
