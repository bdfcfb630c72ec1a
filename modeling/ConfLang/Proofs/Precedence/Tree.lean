import ConfLang.Proofs.Context

/-!
# Trees that are grouped as operators bind

The tokens of `a || b && c` are those of two trees, and the precedences of the operators tell which
of them is meant.  `Expression.respectsPrecedence` says of the shape of a tree that its operators
are grouped so.  It looks at the children of each node only; what it means for all operators outside
of brackets is that the topmost one is the loosest of them (`Expression.exists_operator`).
-/

namespace ConfLang

/-! ## Induction over expressions -/

/-- To prove something of all expressions, it may be used of the parts of each. -/
@[elab_as_elim]
theorem Expression.induction {motive : Expression → Prop}
    (integer : ∀ value span, motive (.integer value span))
    (float : ∀ value span, motive (.float value span))
    (string : ∀ text span, motive (.string text span))
    (array : ∀ elements span, (∀ e ∈ elements, motive e) → motive (.array elements span))
    (name : ∀ identifier, motive (.name identifier))
    (negation : ∀ operand span, motive operand → motive (.negation operand span))
    (group : ∀ inner span, motive inner → motive (.group inner span))
    (binary : ∀ operator left right span, motive left → motive right →
      motive (.binary operator left right span))
    (call : ∀ callee arguments span, motive callee → (∀ a ∈ arguments, motive a.value) →
      motive (.call callee arguments span))
    (member : ∀ object member span, motive object → motive (.member object member span))
    (defined : ∀ name span, motive (.defined name span)) (e : Expression) : motive e := by
  induction hsize : sizeOf e using Nat.strongRecOn generalizing e with
  | ind size ih =>
      subst hsize
      have ih' (part : Expression) (h : sizeOf part < sizeOf e) : motive part := ih _ h part rfl
      cases e with
      | integer value span => exact integer value span
      | float value span => exact float value span
      | string text span => exact string text span
      | name identifier => exact name identifier
      | defined identifier span => exact defined identifier span
      | array elements span =>
          refine array elements span fun e he => ih' e ?_
          have := List.sizeOf_lt_of_mem he
          simp only [Expression.array.sizeOf_spec]
          omega
      | negation operand span => exact negation operand span (ih' operand (by simp; omega))
      | group inner span => exact group inner span (ih' inner (by simp; omega))
      | binary operator left right span =>
          exact binary operator left right span (ih' left (by simp; omega))
            (ih' right (by simp; omega))
      | member object label span => exact member object label span (ih' object (by simp; omega))
      | call callee arguments span =>
          refine call callee arguments span (ih' callee (by simp; omega)) fun a ha => ih' a.value ?_
          have := List.sizeOf_lt_of_mem ha
          obtain ⟨label, value⟩ := a
          simp only [Argument.mk.sizeOf_spec, Expression.call.sizeOf_spec, Argument.value] at *
          omega

/-! ## The shape of a tree -/

namespace Expression

/-- The operator of an expression that is an operation. -/
def operator? : Expression → Option Operator
  | binary operator _ _ _ => some operator
  | _ => none

/-- Whether an expression can be called, or a member of it be accessed, without parentheses. -/
def isSuffixable : Expression → Bool
  | negation _ _ | binary _ _ _ _ => false
  | _ => true

/-- The operators of an expression that are outside of all brackets. -/
def outside : Expression → List Operator
  | binary operator left right _ => left.outside ++ operator :: right.outside
  | negation operand _ => operand.outside
  | call callee _ _ => callee.outside
  | member object _ _ => object.outside
  | _ => []

end Expression

mutual

/-- Whether operators are grouped as they bind.  An operator does not bind more tightly than one in
its left side, and it binds less tightly than any in its right side.  Negations, calls and member
accesses bind more tightly than all operators, and negations less tightly than the others. -/
def Expression.respectsPrecedence : Expression → Bool
  | .binary operator left right _ =>
    left.operator?.all (fun inner => operator.precedence ≤ inner.precedence) &&
      right.operator?.all (fun inner => operator.precedence < inner.precedence) &&
      left.respectsPrecedence && right.respectsPrecedence
  | .negation operand _ => operand.operator?.isNone && operand.respectsPrecedence
  | .call callee arguments _ =>
    callee.isSuffixable && callee.respectsPrecedence && Argument.respectsPrecedenceList arguments
  | .member object _ _ => object.isSuffixable && object.respectsPrecedence
  | .array elements _ => Expression.respectsPrecedenceList elements
  | .group inner _ => inner.respectsPrecedence
  | .integer _ _ | .float _ _ | .string _ _ | .name _ | .defined _ _ => true

/-- The same for a list of expressions. -/
def Expression.respectsPrecedenceList : List Expression → Bool
  | [] => true
  | first :: rest => first.respectsPrecedence && Expression.respectsPrecedenceList rest

/-- The same for the arguments of a call. -/
def Argument.respectsPrecedenceList : List Argument → Bool
  | [] => true
  | .mk _ value :: rest => value.respectsPrecedence && Argument.respectsPrecedenceList rest

end

theorem Expression.respectsPrecedenceList_iff {elements : List Expression} :
    Expression.respectsPrecedenceList elements = true ↔
      ∀ e ∈ elements, e.respectsPrecedence = true := by
  induction elements with
  | nil => simp [Expression.respectsPrecedenceList]
  | cons first rest ih => simp [Expression.respectsPrecedenceList, ih]

theorem Argument.respectsPrecedenceList_iff {arguments : List Argument} :
    Argument.respectsPrecedenceList arguments = true ↔
      ∀ a ∈ arguments, a.value.respectsPrecedence = true := by
  induction arguments with
  | nil => simp [Argument.respectsPrecedenceList]
  | cons first rest ih =>
      obtain ⟨label, value⟩ := first
      simp [Argument.respectsPrecedenceList, Argument.value, ih]

theorem Expression.belongsList_iff {inCondition : Bool} {elements : List Expression} :
    Expression.belongsList inCondition elements = true ↔
      ∀ e ∈ elements, e.belongs inCondition = true := by
  induction elements with
  | nil => simp [Expression.belongsList]
  | cons first rest ih => simp [Expression.belongsList, ih]

theorem Argument.belongsList_iff {inCondition : Bool} {arguments : List Argument} :
    Argument.belongsList inCondition arguments = true ↔
      ∀ a ∈ arguments, a.value.belongs inCondition = true := by
  induction arguments with
  | nil => simp [Argument.belongsList]
  | cons first rest ih =>
      obtain ⟨label, value⟩ := first
      simp [Argument.belongsList, Argument.value, ih]

theorem Expression.operator?_of_isSuffixable {e : Expression} (h : e.isSuffixable = true) :
    e.operator? = none := by
  cases e with
  | binary => cases h
  | _ => rfl

/-- The operator of an operation is the loosest of those outside of brackets; other expressions have
none there. -/
theorem Expression.exists_operator {e : Expression} (h : e.respectsPrecedence = true)
    {operator : Operator} (hmem : operator ∈ e.outside) :
    ∃ top ∈ e.operator?, top.precedence ≤ operator.precedence := by
  induction e using Expression.induction with
  | binary top left right span ihleft ihright =>
      refine ⟨top, rfl, ?_⟩
      simp only [respectsPrecedence, Bool.and_eq_true, Option.all_eq_true, decide_eq_true_eq] at h
      obtain ⟨⟨⟨hleft, hright⟩, hleft'⟩, hright'⟩ := h
      rcases List.mem_append.mp hmem with hmem | hmem
      · obtain ⟨inner, hinner, hle⟩ := ihleft hleft' hmem
        exact (hleft inner hinner).trans hle
      rcases List.mem_cons.mp hmem with rfl | hmem
      · exact Nat.le_refl _
      · obtain ⟨inner, hinner, hle⟩ := ihright hright' hmem
        exact (hright inner hinner).le.trans hle
  | negation operand span ih =>
      simp only [respectsPrecedence, Bool.and_eq_true, Option.isNone_iff_eq_none] at h
      obtain ⟨top, htop, -⟩ := ih h.2 hmem
      simp [h.1] at htop
  | call callee arguments span ih _ =>
      simp only [respectsPrecedence, Bool.and_eq_true] at h
      obtain ⟨top, htop, -⟩ := ih h.1.2 hmem
      simp [operator?_of_isSuffixable h.1.1] at htop
  | member object label span ih =>
      simp only [respectsPrecedence, Bool.and_eq_true] at h
      obtain ⟨top, htop, -⟩ := ih h.2 hmem
      simp [operator?_of_isSuffixable h.1] at htop
  | _ => cases hmem

end ConfLang
