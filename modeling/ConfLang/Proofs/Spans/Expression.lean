import ConfLang.Proofs.Spans.Lays

/-!
# Expressions lay their trees

The rules of `Lays` for the readings of expressions, in the order of their definitions, and the
induction over the levels of nesting that ties the knot.
-/

namespace ConfLang.Reading

variable {source : String} {before : List SpanTree} {α : Type}

/-! ## Operators -/

/-- A reading of an expression lays the tree of the expression. -/
def LaysExpression (source : String) (expression : Reading Expression) : Prop :=
  Lays source [] expression fun e => [e.spanTree]

section Operands

variable {operand inner : Reading Expression} [Obeys (laying source).Kept operand]
  [Obeys (laying source).Kept inner]

theorem lays_chain (h : LaysExpression source operand) (least : Nat) :
    LaysExpression source (chain operand least) := by
  induction hmeasure : 5 - least using Nat.strongRecOn generalizing least with
  | ind measure ih =>
      subst hmeasure
      rw [chain_eq]
      refine Lays.bind h fun first =>
        Lays.iterate (fun left => [left.spanTree]) (fun left => ?_) first
      refine lays_after operator? fun operator => ?_
      cases operator with
      | none => exact lays_pure fun _ _ => id
      | some operator =>
          simp only
          split
          · have hless : 5 - (operator.precedence + 1) < 5 - least := by
              have := operator.precedence_le
              omega
            refine lays_after advance fun _ => (ih _ hless _ rfl).frame.bind fun right => ?_
            exact lays_pure fun _ _ hrow => hrow.enclose _ rfl rfl (by simp) (by simp)
          · exact lays_pure fun _ _ => id

end Operands

/-! ## Lists -/

theorem lays_elements {item : Reading α} [Obeys (laying source).Kept item]
    {trees : List α → List SpanTree} (hnil : trees [] = [])
    (hitem : ∀ items, Lays source (trees items) item fun a => trees (items ++ [a]))
    (bracket : Bracket) (opened : Span) :
    Lays source [] (elements bracket opened item) fun list => trees list.1 ++ [.leaf list.2] := by
  have helement (items : Array α) : Lays source (trees items.toList) (element bracket item items)
      fun turn => trees turn.value.toList := by
    unfold element
    refine lays_after peek fun token => ?_
    simp only
    split
    · exact lays_pure fun _ _ => id
    · refine (hitem items.toList).bind fun a => lays_after (accept _) fun isThere => ?_
      split
      · exact lays_after (extraCommas bracket) fun _ => lays_pure fun _ _ hrow => by
          rwa [Turn.value, Array.toList_push]
      · exact lays_pure fun _ _ hrow => by rwa [Turn.value, Array.toList_push]
  have hiterate := Lays.iterate (fun items => trees items.toList) helement #[]
  rw [hnil] at hiterate
  unfold elements
  exact hiterate.bind fun items => (lays_closing bracket opened).bind fun close =>
    lays_pure fun _ _ => id

section Operands

variable {operand inner : Reading Expression} [Obeys (laying source).Kept operand]
  [Obeys (laying source).Kept inner]

theorem lays_expressions (h : LaysExpression source inner) (bracket : Bracket) (opened : Span) :
    Lays source [] (elements bracket opened inner) fun list =>
      Expression.spanTrees list.1 ++ [.leaf list.2] := by
  refine lays_elements rfl (fun items => ?_) bracket opened
  simp only [Expression.spanTrees_append]
  exact h.frame

theorem lays_argument (h : LaysExpression source inner) :
    Lays source [] (argument inner) fun a => Argument.spanTrees [a] := by
  unfold argument
  refine lays_after (accept _) fun isThere => ?_
  split
  · refine (lays_identifier _).bind fun label => lays_after (expect _ _) fun _ => ?_
    exact h.frame.bind fun value => lays_pure fun _ _ => id
  · exact h.bind fun value => lays_pure fun _ _ => id

theorem lays_arguments (h : LaysExpression source inner) (bracket : Bracket) (opened : Span) :
    Lays source [] (elements bracket opened (argument inner)) fun list =>
      Argument.spanTrees list.1 ++ [.leaf list.2] := by
  refine lays_elements rfl (fun items => ?_) bracket opened
  simp only [Argument.spanTrees_append]
  exact (lays_argument h).frame

/-! ## Operands -/

theorem lays_definedQuestion : LaysExpression source definedQuestion := by
  unfold LaysExpression definedQuestion
  refine lays_advance.bind fun start => lays_after (expect _ _) fun opened => ?_
  refine (lays_identifier _).bind fun name => (lays_closing _ _).bind fun close => ?_
  refine lays_pure fun _ _ hrow => hrow.enclose _ rfl rfl rfl ?_
  exact .cons _ (.cons_cons _ (.cons _ .slnil))

theorem lays_primary (h : LaysExpression source inner) : LaysExpression source (primary inner) := by
  unfold LaysExpression
  rw [primary_eq]
  refine lays_peek fun token => ?_
  have hleaf {e : Expression} (he : e.spanTree = .leaf token.span) :
      LaysAt source token [] (advance >>= fun _ => pure e) fun e => [e.spanTree] :=
    laysAt_take (lays_pure fun _ _ hrow => by rwa [he])
  refine primaryAt_cases (motive := fun f => LaysAt source token [] f fun e => [e.spanTree]) ?integer
    ?float ?string ?quoted ?bare ?group ?array ?other
  case integer | float | string | quoted => exact fun _ _ => hleaf rfl
  case bare =>
    intro text _
    refine laysAt_isDefinedQuestion text fun asks => ?_
    split
    · exact lays_definedQuestion.at
    · exact hleaf rfl
  case group =>
    intro _
    refine laysAt_take (h.nested.frame.bind fun e => (lays_closing _ _).bind fun close => ?_)
    refine lays_pure fun _ _ hrow => hrow.enclose _ rfl rfl rfl ?_
    exact .cons _ (.cons_cons _ (.cons _ .slnil))
  case array =>
    intro _
    refine laysAt_take ((lays_expressions h .square token.span).nested.frame.bind fun list => ?_)
    refine lays_pure fun _ _ hrow => hrow.enclose (.leaf list.2) rfl ?_ rfl ?_
    · rw [← List.append_assoc, List.getLast?_concat]
    · simp
  case other => exact lays_unexpected.at

theorem lays_suffix (h : LaysExpression source inner) (operand : Expression) :
    Lays source [operand.spanTree] (suffix inner operand) fun turn => [turn.value.spanTree] := by
  unfold suffix
  refine lays_peek fun token => ?_
  split
  · refine laysAt_take ((lays_identifier _).bind fun member => ?_)
    refine lays_pure fun _ _ hrow => hrow.enclose _ rfl rfl (by simp; rfl) ?_
    exact .cons_cons _ (.cons _ (.cons_cons _ .slnil))
  · refine laysAt_take ((lays_arguments h .paren token.span).nested.frame.bind fun list => ?_)
    refine lays_pure fun _ _ hrow => hrow.enclose (.leaf list.2) rfl ?_ ?_ ?_
    · rw [← List.append_assoc, List.getLast?_concat]
    · simp
      rfl
    · simp
  · exact Lays.at (lays_pure fun _ _ hrow => hrow)

theorem lays_suffixed (h : LaysExpression source inner) : LaysExpression source (suffixed inner) :=
  (lays_primary h).bind fun first =>
    Lays.iterate (fun operand => [operand.spanTree]) (lays_suffix h) first

theorem lays_negated {plain : Reading Expression} (h : LaysExpression source operand)
    (hplain : LaysExpression source plain) : LaysExpression source (negated operand plain) := by
  unfold LaysExpression negated
  refine lays_peek fun token => ?_
  split
  · refine laysAt_take (h.nested.frame.bind fun e => ?_)
    refine lays_pure fun _ _ hrow => hrow.enclose _ rfl rfl (by simp; rfl) ?_
    exact .cons _ (.refl _)
  · exact hplain.at

end Operands

theorem lays_operand (level : Nat) : LaysExpression source (operand level) := by
  induction level with
  | zero =>
      intro s hs first hbefore e s' hrun
      rw [operand, tooDeep_run] at hrun
      cases hrun
  | succ level ih =>
      have := obeys_operand (P := (laying source).Kept) level
      exact lays_negated ih (lays_suffixed (lays_chain ih _))

end ConfLang.Reading

namespace ConfLang

theorem Expression.lays_read {source : String} (level least : Nat) :
    Reading.LaysExpression source (Expression.read level least) :=
  have := Reading.obeys_operand (P := (laying source).Kept) level
  Reading.lays_chain (Reading.lays_operand level) least

end ConfLang
