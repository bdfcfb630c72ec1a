import ConfLang.Proofs.Grammar.Coverage.Body
import ConfLang.Proofs.Grammar.Derivation.Expression

/-!
# What is read as a body is derived

A statement that fails is reported, so a body that was read without an error has all its
statements, one behind the other.
-/

namespace ConfLang

/-- One more thing behind others. -/
theorem Grammar.Many.snoc {α : Type} {item : Language α} {ts ts' : List Token} {as : List α} {a : α}
    (h : Many item ts as) (ha : item ts' a) : Many item (ts ++ ts') (as ++ [a]) := by
  induction h with
  | nil =>
      have hone := Many.cons ha .nil
      rwa [List.append_nil] at hone
  | cons hfirst _ ih =>
      rw [List.append_assoc]
      exact .cons hfirst ih

namespace Reading

open Grammar

variable {α : Type} {o : Options} {n : Nesting} {c c' : Cursor} {k : Nat}

/-- A reading reads nothing but statements of a language, and drops none. -/
def DerivesStatement (o : Options) (n : Nesting) (f : Reading (Option Statement))
    (language : Language Statement) : Prop :=
  ∀ ⦃c k⦄, k ≤ 1 → Yields o n c k f 1 fun a c' =>
    ∃ statement, a = some statement ∧ Derived language c statement c'

/-! ## Where a body ends -/

/-- A body ends in front of certain tokens, if nothing wrong stands in front of the next one. -/
def EndsClean (o : Options) (n : Nesting) (atEnd : Reading Bool) (stops : TokenKind → Bool) :
    Prop :=
  ∀ ⦃c k⦄, k ≤ 1 → Yields o n c k atEnd 1 fun stop c' =>
    stop = stops c.next.token.kind ∧ c.next.problems = [] ∧ c' = c

theorem endsClean_program : EndsClean o n atEndOfProgram TokenKind.stopsProgram := by
  intro c k hk
  refine yields_peek_clean inferInstance hk fun hclean => yields_get fun _ _ _ hstopped => ?_
  simp only [hstopped, Bool.false_eq_true, or_false]
  exact yields_pure ⟨rfl, hclean, rfl⟩

theorem endsClean_block : EndsClean o n atEndOfBlock TokenKind.stopsBlock := by
  intro c k hk
  refine yields_peek_clean inferInstance hk fun hclean => yields_get fun _ _ _ hstopped => ?_
  simp only [hstopped, Bool.false_eq_true, or_false]
  exact yields_pure ⟨rfl, hclean, rfl⟩

theorem endsClean_branch (inBraces : Bool) :
    EndsClean o n (atEndOfBranch inBraces) (TokenKind.stopsBranch inBraces) := by
  intro c k hk
  refine yields_get fun _ _ _ hstopped => ?_
  rw [hstopped, if_neg Bool.false_ne_true]
  refine yields_peek_clean (fun _ => by split <;> infer_instance) hk fun hclean => ?_
  cases c.next.token.kind with
  | symbol sign => cases sign <;> exact yields_pure ⟨rfl, hclean, rfl⟩
  | _ => exact yields_pure ⟨rfl, hclean, rfl⟩

/-! ## Statement by statement -/

section Bodies

variable {statement : Reading (Option Statement)} {language : Language Statement}
  {atEnd : Reading Bool} {stops : TokenKind → Bool}

theorem yields_appendStatement (hstatement : DerivesStatement o n statement language)
    (items : Array Statement) (hk : k ≤ 1) :
    Yields o n c k (appendStatement statement items) 1 fun items' c' =>
      ∃ a, items' = items.push a ∧ Derived language c a c' := by
  unfold appendStatement
  refine yields_get fun _ _ _ _ => (hstatement hk).attempt ?_ ?_ fun problem => ?_
  · intro a
    cases a <;> infer_instance
  · rintro _ c' ⟨a, rfl, ha⟩
    exact yields_pure ⟨a, rfl, ha⟩
  · exact spoils_report rfl

theorem yields_bodyTurn [Adds statement] (hatEnd : EndsClean o n atEnd stops)
    (hopening : Opening language) (hstatement : DerivesStatement o n statement language) {items : Array Statement}
    {middle : Cursor} (h : Derived (Many language) c items.toList middle) :
    Yields o n middle 1 (bodyTurn atEnd statement items) 1
      (Turned (fun items' c' => Derived (Many language) c items'.toList c')
        (fun items' c' => Derived (Many language) c items'.toList c' ∧
          stops c'.next.token.kind = true ∧ c'.next.problems = []) middle) := by
  unfold bodyTurn
  refine (hatEnd (Nat.le_refl 1)).bind inferInstance ?_
  rintro _ _ ⟨rfl, hclean, rfl⟩
  split
  · rename_i hstop
    exact yields_pure ⟨h, hstop, hclean⟩
  · refine (yields_appendStatement hstatement items (Nat.le_refl 1)).bind inferInstance ?_
    rintro _ c' ⟨a, rfl, ts', ha, hscan'⟩
    obtain ⟨ts, has, hscan⟩ := h
    obtain ⟨_, -, -, hless⟩ := hopening.shows ha hscan'
    refine yields_pure ⟨⟨_, ?_, hscan.append hscan'⟩, hless⟩
    rw [Array.toList_push]
    exact has.snoc ha

variable [Adds statement]

theorem yields_statementsUntil [Adds atEnd] (hatEnd : EndsClean o n atEnd stops)
    (hopening : Opening language) (hstatement : DerivesStatement o n statement language)
    (hk : k ≤ 1) : Yields o n c k (statementsUntil atEnd statement) 1 fun as c' =>
      Derived (Many language) c as c' ∧ stops c'.next.token.kind = true ∧
        c'.next.problems = [] := by
  have (items : Array Statement) : Adds (bodyTurn atEnd statement items) := by
    unfold bodyTurn
    infer_instance
  rw [statementsUntil_eq]
  refine Yields.bind (Yields.weaken (Yields.iterate this
    (fun items middle h => yields_bodyTurn hatEnd hopening hstatement h) ⟨[], .nil, .nil⟩) hk
    (Nat.le_refl 1)) inferInstance ?_
  exact fun items c' h => yields_pure h

omit [Adds statement] in
theorem yields_branchSpan (statements : List Statement) (hk : k ≤ 1) :
    Yields o n c k (branchSpan statements) 1 fun span c' =>
      Body.mk statements span = directiveBody statements c.next.token ∧ c' = c := by
  unfold branchSpan directiveBody
  cases statements.head? with
  | none => exact yields_peek hk (yields_pure ⟨rfl, rfl⟩)
  | some first =>
      cases statements.getLast? with
      | none => exact yields_peek hk (yields_pure ⟨rfl, rfl⟩)
      | some last => exact (yields_pure ⟨rfl, rfl⟩).weaken (Nat.le_refl k) hk

/-- The body of a directive is placed by its statements, or else by the token behind it. -/
theorem yields_branchBody (hopening : Opening language)
    (hstatement : DerivesStatement o n statement language) (hk : k ≤ 1) :
    Yields o n c k (branchBody statement) 1 fun body c' =>
      ∃ statements, Derived (Many language) c statements c' ∧
        body = directiveBody statements c'.next.token := by
  unfold branchBody
  refine yields_get fun _ _ _ _ => ?_
  refine (yields_statementsUntil (endsClean_branch _) hopening hstatement hk).bind
    inferInstance ?_
  rintro statements c' ⟨h, -⟩
  refine Yields.of_leads ((gives_warnDuplicates statements).bind .refl) ?_
  refine (yields_branchSpan statements (Nat.le_refl 1)).bind inferInstance ?_
  rintro span _ ⟨hspan, rfl⟩
  exact yields_pure ⟨statements, h, hspan⟩

end Bodies

/-! ## Blocks -/

/-- What may stand one level deeper is derived. -/
structure DerivesDeeper (o : Options) (n : Nesting) (inner : Inner) (deeper : Deeper) : Prop where
  opening : ∀ inBlock, Opening (deeper.statement inBlock)
  worded : Worded TokenKind.beginsExpression deeper.condition
  statement : ∀ m : Nesting, m.depth = n.depth + 1 → m.inCondition = false →
    DerivesStatement o m inner.statement (deeper.statement (decide (0 < m.chains)))
  condition : ∀ m : Nesting, m.depth = n.depth + 1 → m.inCondition = true →
    Derives o m inner.expression deeper.condition

/-- Something may stand one level deeper if there is room for it, and it is derived. -/
def DerivesBelow (o : Options) (n : Nesting) (inner : Inner) (deeper : Option Deeper) : Prop :=
  n.depth < o.maxNestingDepth → ∃ d ∈ deeper, DerivesDeeper o n inner d

theorem yields_block {inner : Inner} [Adds inner.statement] {deeper : Option Deeper}
    (hinner : DerivesBelow o n inner deeper) (hcondition : n.inCondition = false)
    {expectation : Expectation} (hk : k ≤ 1) :
    Yields o n c k (block inner.statement expectation) 0 fun body c' =>
      ∃ d ∈ deeper, Derived (Block (d.statement (decide (0 < n.chains)))) c body c' := by
  have hinside : Yields o n c k (nested do
      let opened ← expect .openBrace expectation
      let statements ← between State.openBrace State.closeBrace
        (statementsUntil atEndOfBlock inner.statement)
      return (opened, statements)) 1 fun result c' =>
        c.Shows ⟨.symbol .openBrace, result.1⟩ ∧ ∃ d ∈ deeper,
          Derived (Many (d.statement (decide (0 < n.chains)))) c.next.cursor result.2 c' := by
    have : Adds (between State.openBrace State.closeBrace
        (statementsUntil atEndOfBlock inner.statement)) :=
      adds_between (fun s => s.grows_renest _) fun s => s.grows_renest _
    refine (Yields.nested fun hdepth => ?_).imp fun _ _ h => h.2
    obtain ⟨d, hd, hderives⟩ := hinner hdepth
    refine (yields_expect hk).bind inferInstance ?_
    rintro opened _ ⟨hopened, rfl⟩
    refine Yields.bind (Yields.between (fun _ => State.openBrace_eq) (fun _ => State.closeBrace_eq)
      (fun s => s.grows_renest _)
      (yields_statementsUntil endsClean_block (hderives.opening _)
        (hderives.statement n.deeper.inBraces rfl hcondition) (Nat.zero_le 1))) inferInstance ?_
    exact fun statements c' h => yields_pure ⟨hopened, d, hd, h.1⟩
  unfold block
  refine hinside.bind (fun _ => inferInstance) ?_
  rintro ⟨opened, statements⟩ middle ⟨hopened, d, hd, ts, h, hscan⟩
  refine Yields.of_leads ((gives_warnDuplicates statements).bind .refl) ?_
  refine (yields_closing (Nat.le_refl 1)).bind inferInstance ?_
  rintro close _ ⟨hclose, rfl⟩
  exact yields_pure ⟨d, hd, _, .block h, hopened.scans (hscan.append (hclose.scans .nil))⟩

end Reading

end ConfLang
