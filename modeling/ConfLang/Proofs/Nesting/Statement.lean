import ConfLang.Proofs.Nesting.Within

/-!
# Statements fit into the limit of nesting

The rules of `Within` for bodies, conditional directive blocks and statements, in the order of
their definitions, and the induction over the levels of nesting that ties the knot.
-/

namespace ConfLang.Reading

variable {α : Type} {limit depth bound : Nat} {expression expression' : Reading Expression}
  {statement statement' : Reading (Option Statement)}

/-- A statement that is given is no higher than a bound. -/
def UpTo (bound : Nat) (result : Option Statement) : Prop :=
  ∀ x ∈ result, x.height ≤ bound

/-! ## Bodies -/

theorem within_appendStatement (h : Within limit depth statement statement' (UpTo bound))
    {statements : Array Statement} (hstatements : ∀ x ∈ statements, x.height ≤ bound) :
    Within limit depth (appendStatement statement statements) (appendStatement statement' statements)
      fun statements => ∀ x ∈ statements, x.height ≤ bound := by
  unfold appendStatement
  refine within_get fun s => h.attempt.bind fun result hresult => ?_
  match result with
  | .ok (some statement) =>
      refine within_pure fun x hx => ?_
      rcases Array.mem_push.mp hx with hx | rfl
      · exact hstatements x hx
      · exact hresult _ rfl x rfl
  | .ok none => exact within_pure hstatements
  | .error problem =>
      exact within_after (report _) fun _ => within_after (recover _) fun _ => within_pure hstatements

theorem within_statementsUntil (h : Within limit depth statement statement' (UpTo bound))
    (atEnd : Reading Bool) [Obeys balance.Kept atEnd] [Adds atEnd] :
    Within limit depth (statementsUntil atEnd statement) (statementsUntil atEnd statement')
      (Statement.heightList · ≤ bound) := by
  rw [statementsUntil_eq, statementsUntil_eq]
  have hturn (statements : Array Statement) (hstatements : ∀ x ∈ statements, x.height ≤ bound) :
      Within limit depth (bodyTurn atEnd statement statements) (bodyTurn atEnd statement' statements)
        (Turn.Holds fun statements => ∀ x ∈ statements, x.height ≤ bound) := by
    refine within_after atEnd fun isEnd => ?_
    split
    · exact within_pure hstatements
    · exact (within_appendStatement h hstatements).bind fun statements hstatements =>
        within_pure hstatements
  refine (Within.iterate hturn (by simp)).bind fun statements hstatements => within_pure ?_
  exact Statement.heightList_le.mpr fun x hx => hstatements x (Array.mem_toList_iff.mp hx)

/-- Statements are nested one step deeper, and no higher than what is left there. -/
def DeeperStatement (limit depth : Nat) (statement statement' : Reading (Option Statement)) : Prop :=
  depth < limit → Within limit (depth + 1) statement statement' (UpTo (limit - (depth + 1)))

theorem within_block (h : DeeperStatement limit depth statement statement')
    (expectation : Expectation) :
    Within limit depth (block statement expectation) (block statement' expectation)
      (·.height + 1 ≤ limit - depth) := by
  unfold block
  refine (Within.nested (Q := fun read => Statement.heightList read.2 ≤ limit - (depth + 1))
    fun hdepth => ?_).bind ?_
  · refine within_after (expect _ _) fun opened => ?_
    have hstatements := (within_statementsUntil (h hdepth) atEndOfBlock).between
      State.openBrace State.closeBrace (fun s hs => ⟨hs.limit, hs.depth⟩) fun s hs => ⟨hs.limit, hs.depth⟩
    exact hstatements.bind fun statements hstatements => within_pure hstatements
  · rintro ⟨opened, statements⟩ ⟨hdepth, hstatements⟩
    refine within_after (warnDuplicates _) fun _ => within_after (closing _ _) fun close => ?_
    refine within_pure ?_
    simp only [Body.height] at hstatements ⊢
    omega

theorem within_branchBody (h : Within limit depth statement statement' (UpTo bound)) :
    Within limit depth (branchBody statement) (branchBody statement') (·.height ≤ bound) := by
  unfold branchBody
  refine within_get fun s => (within_statementsUntil h _).bind fun statements hstatements => ?_
  exact within_after (warnDuplicates _) fun _ => within_after (branchSpan _) fun _ =>
    within_pure hstatements

/-! ## Conditional directive blocks -/

theorem within_conditionExpression
    (h : Within limit depth expression expression' (·.height ≤ bound)) :
    Within limit depth (conditionExpression expression) (conditionExpression expression')
      (·.height ≤ bound) :=
  h.between _ _ (fun _ hs => ⟨hs.limit, hs.depth⟩) fun _ hs => ⟨hs.limit, hs.depth⟩

theorem within_conditionLine (h : Within limit depth expression expression' (·.height ≤ bound))
    (kind : ConditionKind) (opened : Span) :
    Within limit depth (conditionLine kind opened expression)
      (conditionLine kind opened expression') (·.height ≤ bound) := by
  unfold conditionLine
  refine Within.bind (Q := (·.height ≤ bound)) ?_ fun condition hcondition =>
    within_after (endOfLine _) fun _ => within_pure hcondition
  unfold conditionOf
  cases kind with
  | holds => exact (within_conditionExpression h).bind fun e he => within_pure he
  | defined | undefined =>
      exact within_after (identifier _) fun name => within_pure (Nat.zero_le _)
  | fileExists | fileMissing =>
      exact within_after (path _ _) fun text => within_pure (Nat.zero_le _)

theorem within_branchCondition (h : Within limit depth expression expression' (·.height ≤ bound)) :
    Within limit depth (branchCondition expression) (branchCondition expression')
      (·.height ≤ bound) :=
  (within_conditionExpression h).bind fun _ hcondition =>
    within_after (endOfLine _) fun _ => within_pure hcondition

theorem within_lineOrSkip {line line' : Reading α} {Q : α → Prop}
    (h : Within limit depth line line' Q) :
    Within limit depth (lineOrSkip line) (lineOrSkip line') fun read => ∀ a ∈ read, Q a := by
  unfold lineOrSkip
  refine h.attempt.bind fun result hresult => ?_
  cases result with
  | ok a =>
      refine within_pure ?_
      rintro _ ⟨⟩
      exact hresult a rfl
  | error problem =>
      exact within_after (report _) fun _ => within_after skipLine fun _ => within_pure nofun

/-- The branches of a block are no higher than a bound. -/
structure Branches.UpTo (bound : Nat) (branches : Branches) : Prop where
  elifs : ∀ b ∈ branches.elifs, b.condition.height ≤ bound ∧ b.body.height ≤ bound
  otherwise : ∀ body ∈ branches.otherwise, body.height ≤ bound

section Branches

variable (hexpression : Within limit depth expression expression' (·.height ≤ bound))
  (hstatement : Within limit depth statement statement' (UpTo bound))

theorem Branches.UpTo.withElif {branches : Branches} (h : branches.UpTo bound) {start : Span}
    {condition : Option Expression} {body : Body} (hcondition : ∀ e ∈ condition, e.height ≤ bound)
    (hbody : body.height ≤ bound) : (branches.withElif start condition body).UpTo bound := by
  unfold Branches.withElif
  split
  · refine ⟨fun b hb => ?_, h.otherwise⟩
    rcases Array.mem_push.mp hb with hb | rfl
    · exact h.elifs b hb
    · exact ⟨hcondition _ rfl, hbody⟩
  · exact h

theorem Branches.UpTo.withOtherwise {branches : Branches} (h : branches.UpTo bound) {body : Body}
    (hbody : body.height ≤ bound) :
    Branches.UpTo bound { branches with otherwise := branches.otherwise <|> some body } := by
  refine ⟨h.elifs, fun last hlast => ?_⟩
  obtain ⟨elifs, _ | first⟩ := branches
  · cases hlast
    exact hbody
  · cases hlast
    exact h.otherwise _ rfl

include hexpression in
theorem within_elifHead (branches : Branches) (start : Span) :
    Within limit depth (elifHead expression branches start) (elifHead expression' branches start)
      fun condition => ∀ e ∈ condition, e.height ≤ bound := by
  unfold elifHead
  have hrest := within_lineOrSkip (within_branchCondition hexpression)
  refine within_after advance fun _ => ?_
  split
  · exact within_after (report _) fun _ => hrest
  · exact hrest

include hexpression hstatement in
theorem within_branch {branches : Branches} (hbranches : branches.UpTo bound) :
    Within limit depth (branch expression statement branches)
      (branch expression' statement' branches) (Turn.Holds (Branches.UpTo bound)) := by
  rw [branch_eq, branch_eq]
  refine within_after peek fun token => ?_
  unfold branchAt
  split
  · refine (within_elifHead hexpression branches _).bind fun condition hcondition => ?_
    refine (within_branchBody hstatement).bind fun body hbody => within_pure ?_
    exact hbranches.withElif hcondition hbody
  · refine within_after (otherwiseHead _ _) fun _ => ?_
    refine (within_branchBody hstatement).bind fun body hbody => within_pure ?_
    exact hbranches.withOtherwise hbody
  · exact within_pure hbranches

include hexpression hstatement in
theorem within_branching (kind : ConditionKind) (opened : Span) :
    Within limit depth (branching kind opened expression statement)
      (branching kind opened expression' statement') fun parts =>
        parts.thenBody.height ≤ bound ∧ parts.branches.UpTo bound := by
  unfold branching
  refine (within_branchBody hstatement).bind fun thenBody hbody => ?_
  refine (Within.iterate (fun branches hbranches => within_branch hexpression hstatement hbranches)
    ⟨by simp, by simp⟩).bind fun branches hbranches => ?_
  exact within_after (endif _ _) fun close => within_pure ⟨hbody, hbranches⟩

end Branches

/-- Expressions and statements are nested one step deeper, and no higher than what is left
there. -/
structure DeeperInner (limit depth : Nat) (inner inner' : Inner) : Prop where
  expression : Deeper limit depth inner.expression inner'.expression
  statement : DeeperStatement limit depth inner.statement inner'.statement

variable {inner inner' : Inner}

theorem within_conditionalFrom (h : DeeperInner limit depth inner inner') (kind : ConditionKind)
    (opened : Span) :
    Within limit depth (conditionalFrom kind opened inner.expression inner.statement)
      (conditionalFrom kind opened inner'.expression inner'.statement) (UpTo (limit - depth)) := by
  rw [conditionalFrom_eq, conditionalFrom_eq]
  refine (Within.nested (Q := fun read => (∀ c ∈ read.1, c.height ≤ limit - (depth + 1)) ∧
    read.2.thenBody.height ≤ limit - (depth + 1) ∧ read.2.branches.UpTo (limit - (depth + 1)))
    fun hdepth => ?_).bind ?_
  · unfold conditionalHead
    simp only [bind_assoc]
    refine within_after advance fun _ => within_after (note _) fun _ => ?_
    refine (within_lineOrSkip (within_conditionLine (h.expression hdepth) kind opened)).bind
      fun condition hcondition => ?_
    have hparts := (within_branching (h.expression hdepth) (h.statement hdepth) kind opened).between
      State.openChain State.closeChain (fun s hs => ⟨hs.limit, hs.depth⟩) fun s hs => ⟨hs.limit, hs.depth⟩
    exact hparts.bind fun parts hparts => within_pure ⟨hcondition, hparts⟩
  · rintro ⟨condition, parts⟩ ⟨hdepth, hcondition, hbody, hbranches⟩
    refine within_after (note _) fun _ => within_pure ?_
    cases condition with
    | none => exact nofun
    | some condition =>
        rintro _ ⟨⟩
        have hcondition := hcondition condition rfl
        have helifs : Branch.heightList parts.branches.elifs.toList ≤ limit - (depth + 1) :=
          Branch.heightList_le.mpr fun b hb => hbranches.elifs b (Array.mem_toList_iff.mp hb)
        have hlast : Body.heightOption parts.branches.otherwise ≤ limit - (depth + 1) :=
          Body.heightOption_le.mpr hbranches.otherwise
        have hbody : parts.thenBody.height ≤ limit - (depth + 1) := hbody
        simp only [Statement.height]
        omega

/-! ## Statements -/

theorem within_constant (h : Within limit depth expression expression' (·.height ≤ bound)) :
    Within limit depth (constant expression) (constant expression') (·.height ≤ bound) := by
  unfold constant declaredType
  refine within_after advance fun start => within_after (identifier _) fun name => ?_
  refine Within.bind (Q := fun type => type.elim 0 Expression.height ≤ bound) ?_ fun type htype => ?_
  · refine within_after (accept _) fun isThere => ?_
    split
    · exact h.bind fun e he => within_pure he
    · exact within_pure (Nat.zero_le _)
  · refine within_after (expect _ _) fun _ => h.bind fun value hvalue => within_pure ?_
    exact Nat.max_le.mpr ⟨htype, hvalue⟩

theorem within_assignment (h : Within limit depth expression expression' (·.height ≤ bound)) :
    Within limit depth (assignment expression) (assignment expression') (·.height ≤ bound) := by
  unfold assignment
  refine within_after (identifier _) fun target => within_after peek fun token => ?_
  split
  · exact within_after advance fun _ => h.bind fun value hvalue => within_pure hvalue
  · exact within_after advance fun _ => h.bind fun value hvalue => within_pure hvalue
  · refine within_get fun s => ?_
    split
    · exact within_after advance fun _ => within_after rawText fun raw => within_pure (Nat.zero_le _)
    · exact within_unexpected
  · exact within_unexpected

theorem within_group (h : DeeperStatement limit depth statement statement') :
    Within limit depth (group statement) (group statement') (·.height ≤ limit - depth) := by
  unfold group
  refine within_after advance fun start => within_after (identifier _) fun name => ?_
  exact (within_block h _).bind fun body hbody => within_pure hbody

theorem within_choice (hexpression : Within limit depth expression expression' (·.height ≤ limit - depth))
    (h : DeeperStatement limit depth statement statement') :
    Within limit depth (choice expression statement) (choice expression' statement')
      (·.height ≤ limit - depth) := by
  unfold choice elseBlock
  refine within_after advance fun start => within_after (expect _ _) fun opened => ?_
  refine hexpression.bind fun condition hcondition => within_after (closing _ _) fun _ => ?_
  refine (within_block h _).bind fun thenBody hthen => ?_
  refine Within.bind (Q := fun body => Body.heightOption body + 1 ≤ limit - depth) ?_
    fun elseBody helse => within_pure ?_
  · refine within_after (accept _) fun isThere => ?_
    split
    · exact (within_block h _).bind fun body hbody => within_pure hbody
    · exact within_pure (Nat.le_trans (Nat.le_add_left _ _) hthen)
  · simp only [Statement.height]
    omega

theorem within_message (severity : Severity) :
    Within limit depth (message severity) (message severity) (·.height ≤ limit - depth) := by
  unfold message
  refine within_after advance fun start => within_after rawText fun raw => ?_
  exact within_after (endOfLine _) fun _ => within_pure (Nat.zero_le _)

theorem within_statement
    (hexpression : Within limit depth expression expression' (·.height ≤ limit - depth))
    (h : DeeperInner limit depth inner inner') :
    Within limit depth (Reading.statement expression inner) (Reading.statement expression' inner')
      (UpTo (limit - depth)) := by
  have hsome {f g : Reading Statement} (hf : Within limit depth f g (·.height ≤ limit - depth)) :
      Within limit depth (some <$> f) (some <$> g) (UpTo (limit - depth)) := by
    refine hf.map fun x hx => ?_
    rintro _ ⟨⟩
    exact hx
  unfold Reading.statement
  refine within_after peek fun token => ?_
  split
  · exact within_conditionalFrom h _ _
  · exact hsome (within_message _)
  · refine within_after advance fun _ => within_pure ?_
    rintro _ ⟨⟩
    exact Nat.zero_le _
  · exact within_get fun s => within_fail
  · exact hsome (within_constant hexpression)
  · exact hsome (within_group h.statement)
  · exact hsome (within_choice hexpression h.statement)
  · exact hsome (within_assignment hexpression)
  · exact within_unexpected

end ConfLang.Reading

namespace ConfLang

open Reading

variable {limit depth : Nat}

/-- Below the limit of nesting, a statement is read in the same way whatever the levels beyond
the limit are, and is no higher than what is left of the limit. -/
theorem Statement.within_read {level level' : Nat} (h : limit < level + depth)
    (h' : limit < level' + depth) (hdepth : depth ≤ limit) :
    Within limit depth (Statement.read level) (Statement.read level') (UpTo (limit - depth)) := by
  induction level generalizing level' depth with
  | zero => omega
  | succ level ih =>
      cases level' with
      | zero => omega
      | succ level' =>
          refine within_statement (Expression.within_read h h' hdepth _) ⟨fun hless => ?_,
            fun hless => ih (by omega) (by omega) hless⟩
          exact Expression.within_read (by omega) (by omega) hless _

theorem within_program {level level' : Nat} (h : limit < level) (h' : limit < level') :
    Within limit 0 (program (Statement.read level)) (program (Statement.read level'))
      (·.height ≤ limit) := by
  unfold program
  refine within_after (note _) fun _ => ?_
  refine (within_statementsUntil (Statement.within_read h h' (Nat.zero_le _)) _).bind
    fun statements hstatements => ?_
  exact within_after (warnDuplicates _) fun _ => within_pure hstatements

end ConfLang
