import ConfLang.Proofs.Likeness.Conditional

/-!
# Reading statements alike

Every statement begins by taking a token.  The states before that need not be alike, as
long as those behind the token are: the rules for statements take the first step as a
premise.  Between alike states this first step is always alike, and by induction over
the levels of nesting so are all statements.
-/

namespace ConfLang.Likeness

open Reading StateLikeness

variable {L : Likeness} {n : Nesting} {K : Lasting} {b : Bool}
  {related : State → State → Prop} {expression expression' : Reading Expression}
  {statement statement' : Reading (Option Statement)}

/-! ## Declarations -/

theorem alike_declaredType
    (h : ∀ K, L.Alike n K expression expression' (L.expression false)) :
    L.Alike n K (declaredType expression) (declaredType expression')
      (.option (L.expression false)) := by
  unfold declaredType
  refine (alike_accept rfl).bind_same fun isThere => ?_
  split
  · exact (h _).bind fun _ _ => alike_pure fun s hs => hs.2
  · exact alike_pure (a := none) (b := none) fun _ _ => trivial

theorem alike_constant (hstart : L.AlikeFrom related n advance advance L.token)
    (h : ∀ K, L.Alike n K expression expression' (L.expression false)) :
    L.AlikeFrom related n (Reading.constant expression) (Reading.constant expression')
      (L.statement b) := by
  unfold Reading.constant
  refine hstart.bind fun start start' => (alike_identifier _).bind fun name name' => ?_
  refine (alike_declaredType h).bind fun type type' => ?_
  refine Alike.bind (alike_expectAs _ fun s hs => ?_) fun _ _ => (h _).bind fun value value' => ?_
  · exact (L.identifier_name hs.1.2).imp_left (congrArg Expectation.constantSign)
  refine alike_pure fun s hs => ?_
  obtain ⟨⟨⟨⟨hstart, hname⟩, htype⟩, -⟩, hvalue⟩ := hs
  exact L.constant hname htype hvalue (L.span_through (L.token_span hstart) (L.expression_span hvalue))

theorem alike_group (hstart : L.AlikeFrom related n advance advance L.token)
    (h : ∀ K, L.Alike n.deeper.inBraces K statement statement' (.option (L.statement b))) :
    L.AlikeFrom related n (Reading.group statement) (Reading.group statement') (L.statement b) := by
  unfold Reading.group
  refine hstart.bind fun start start' => (alike_identifier _).bind fun name name' => ?_
  refine Alike.bind (alike_blockAs h fun s hs => ?_) fun body body' => alike_pure fun s hs => ?_
  · exact (L.identifier_name hs.2).imp_left (congrArg Expectation.blockAfterGroup)
  obtain ⟨⟨hstart, hname⟩, hbody⟩ := hs
  exact L.group hname hbody (L.span_through (L.token_span hstart) hbody.2)

/-! ## Assignments -/

theorem alike_assignment
    (hstart : L.AlikeFrom related n (Reading.identifier .targetName)
      (Reading.identifier .targetName) L.identifier)
    (hchain : 0 < n.chains → b = true)
    (h : ∀ K, L.Alike n K expression expression' (L.expression false)) :
    L.AlikeFrom related n (assignment expression) (assignment expression') (L.statement b) := by
  unfold assignment
  refine hstart.bind fun target target' => alike_peek.bind fun token₁ token₂ => ?_
  have hunexpected : L.Alike n ((L.identifier target target').and (L.token token₁ token₂))
      (unexpected (.assignmentSign target.name)) (unexpected (.assignmentSign target'.name))
      (L.statement b) :=
    alike_unexpectedAs fun s hs =>
      (L.identifier_name hs.1).imp_left (congrArg Expectation.assignmentSign)
  refine .of_kind (fun s hs => hs.2) (fun hkind => ?_) (fun _ _ hkind hkind' => ?_)
    fun _ _ hkind hkind' => ?_
  · rw [hkind]
    split
    · refine alike_advance.bind fun _ _ => (h _).bind fun value value' => alike_pure fun s hs => ?_
      obtain ⟨⟨⟨htarget, -⟩, -⟩, hvalue⟩ := hs
      exact L.assign htarget hvalue
        (L.span_through (L.identifier_span htarget) (L.expression_span hvalue))
    · refine alike_advance.bind fun _ _ => (h _).bind fun value value' => alike_pure fun s hs => ?_
      obtain ⟨⟨⟨htarget, -⟩, -⟩, hvalue⟩ := hs
      exact L.append htarget hvalue
        (L.span_through (L.identifier_span htarget) (L.expression_span hvalue))
    · refine alike_get fun s t hst _ => ?_
      rw [L.options hst, (L.nesting hst).1, (L.nesting hst).2]
      split
      -- Raw text is assigned in conditional directive blocks only, and in both runs or in neither.
      · rename_i hallowed
        refine alike_advance.bind fun _ _ => alike_rawText.bind fun raw raw' => ?_
        obtain ⟨text, span⟩ := raw
        obtain ⟨text', span'⟩ := raw'
        refine .of_known (fun s' hs' => hs'.2.1.1) ?_
        rintro rfl
        refine alike_pure fun s' hs' => ?_
        obtain ⟨⟨⟨⟨htarget, -⟩, hgrows⟩, -⟩, ⟨-, htext⟩, hspan⟩ := hs'
        obtain rfl := hchain hallowed.1
        refine L.expand ?_ htarget htext (L.span_through (L.identifier_span htarget) hspan)
        rw [hgrows.options, hallowed.2]
      · exact hunexpected.weaken (fun s hs => hs.1) fun _ _ _ _ hv => hv
    · exact hunexpected
  all_goals
    rw [hkind, hkind']
    exact hunexpected

/-! ## Choices -/

theorem alike_elseBlock
    (h : ∀ K, L.Alike n.deeper.inBraces K statement statement' (.option (L.statement b))) :
    L.Alike n K (elseBlock statement) (elseBlock statement') (.option (L.body b)) := by
  unfold elseBlock
  refine (alike_accept rfl).bind_same fun isThere => ?_
  split
  · exact (alike_block h _).bind fun _ _ => alike_pure fun s hs => hs.2
  · exact alike_pure (a := none) (b := none) fun _ _ => trivial

theorem alike_choice (hstart : L.AlikeFrom related n advance advance L.token)
    (hexpression : ∀ K, L.Alike n K expression expression' (L.expression false))
    (h : ∀ K, L.Alike n.deeper.inBraces K statement statement' (.option (L.statement b))) :
    L.AlikeFrom related n (Reading.choice expression statement)
      (Reading.choice expression' statement') (L.statement b) := by
  unfold Reading.choice
  refine hstart.bind fun start start' => (alike_expect _ _).bind fun opened opened' => ?_
  refine (hexpression _).bind fun condition condition' => ?_
  refine Alike.bind (alike_closing .paren fun s hs => hs.1.2) fun _ _ => ?_
  refine (alike_block h _).bind fun thenBody thenBody' => ?_
  refine (alike_elseBlock h).bind fun elseBody elseBody' => alike_pure fun s hs => ?_
  obtain ⟨⟨⟨⟨⟨hstart, -⟩, hcondition⟩, -⟩, hthen⟩, helse⟩ := hs
  refine L.choice hcondition hthen helse (L.span_through (L.token_span hstart) ?_)
  revert helse
  cases elseBody <;> cases elseBody' <;> simp only [Lasting.option]
  · exact fun _ => hthen.2
  · exact False.elim
  · exact False.elim
  · exact fun helse => helse.2

/-! ## Directive lines -/

theorem alike_message (severity : Severity)
    (hstart : L.AlikeFrom related n advance advance L.token) :
    L.AlikeFrom related n (Reading.message severity) (Reading.message severity)
      (L.statement b) := by
  unfold Reading.message
  refine hstart.bind fun start start' => alike_rawText.bind fun raw raw' => ?_
  obtain ⟨text, span⟩ := raw
  obtain ⟨text', span'⟩ := raw'
  refine .of_known (fun s hs => hs.2.1.1) ?_
  rintro rfl
  refine (alike_endOfLine _).bind_same fun _ => alike_pure fun s hs => ?_
  exact L.message hs.2.1.2 (L.span_through (L.token_span hs.1) hs.2.2)

/-! ## All statements -/

/-- Statements that are read alike wherever no condition is being read. -/
def StatementsAlike (L : Likeness) (statement statement' : Reading (Option Statement)) : Prop :=
  ∀ (n : Nesting) (K : Lasting) (b : Bool), n.inCondition = false →
    (0 < n.chains → b = true) →
    L.Alike n K statement statement' (.option (L.statement b))

/-- Expressions that are read alike everywhere. -/
def ExpressionsAlike (L : Likeness) (expression expression' : Reading Expression) : Prop :=
  ∀ (n : Nesting) (K : Lasting),
    L.Alike n K expression expression' (L.expression n.inCondition)

theorem alike_statement {inner inner' : Inner} (hn : n.inCondition = false)
    (hchain : 0 < n.chains → b = true) (hexpression : L.ExpressionsAlike expression expression')
    (hinner : L.ExpressionsAlike inner.expression inner'.expression)
    (hstatement : L.StatementsAlike inner.statement inner'.statement) :
    L.Alike n K (Reading.statement expression inner) (Reading.statement expression' inner')
      (.option (L.statement b)) := by
  have hplain : ∀ K, L.Alike n K expression expression' (L.expression false) := by
    intro K
    rw [← hn]
    exact hexpression n K
  have hblock : ∀ K, L.Alike n.deeper.inBraces K inner.statement inner'.statement
      (.option (L.statement b)) :=
    fun K => hstatement _ K b hn hchain
  unfold Reading.statement
  refine alike_peek.bind fun token₁ token₂ => .of_kind (fun s hs => hs.2) (fun hkind => ?_)
    (fun _ _ hkind hkind' => ?_) fun _ _ hkind hkind' => ?_
  · rw [hkind]
    split
    · rename_i hopener
      refine alike_conditionalFrom hn (S := fun s t => L.state n.deeper s t ∧
        L.token token₁ token₂ s) (fun s t hst => ?_) (fun s t hst => ?_) (fun s t hst => .inr hst.1)
        ?_ ?_ ?_
      · exact ⟨(L.nesting hst.1).1, (L.nesting hst.1).2, L.options hst.1⟩
      · rw [State.enter, State.enter, (L.nesting hst.1).1, (L.nesting hst.1).2]
        exact ⟨L.renest n.deeper hst.1, (L.token _ _).lasts (s.grows_renest _) hst.2.2⟩
      · exact (alike_advance (K := L.token token₁ token₂)).weaken (fun s hs => hs)
          fun _ _ s hs _ => L.token_place hs (by simp [hopener])
      · intro m K hm
        rw [← hm]
        exact hinner m K
      · exact fun K => hstatement _ K true hn fun _ => rfl
    · exact Alike.map (alike_message _ alike_advance) fun _ _ _ hv => hv
    · rename_i text htext
      exact alike_advance.bind fun _ _ => alike_pure fun s hs => L.passage hs.1.2 htext
    · refine alike_get fun s t hst _ => ?_
      rw [(L.nesting hst).1, (L.nesting hst).2]
      exact alike_fail (fun s' hs' => L.token_span hs'.1.2) fun _ _ => .inl rfl
    · exact Alike.map (alike_constant alike_advance hplain) fun _ _ _ hv => hv
    · exact Alike.map (alike_group alike_advance hblock) fun _ _ _ hv => hv
    · exact Alike.map (alike_choice alike_advance hplain hblock) fun _ _ _ hv => hv
    · exact Alike.map (alike_assignment (alike_identifier _) hchain hplain) fun _ _ _ hv => hv
    · exact alike_unexpected _
  · rw [hkind, hkind']
    exact Alike.map (alike_assignment (alike_identifier _) hchain hplain) fun _ _ _ hv => hv
  · rw [hkind, hkind']
    exact alike_unexpected _

theorem alike_read (level : Nat) :
    L.StatementsAlike (Statement.read level) (Statement.read level) := by
  induction level with
  | zero => exact fun _ _ _ _ _ => alike_tooDeep
  | succ level ih =>
      intro n K b hn hchain
      exact alike_statement hn hchain (fun _ _ => alike_expression _ _)
        (fun _ _ => alike_expression _ _) ih

/-- All statements that are left are read alike. -/
theorem alike_wholeProgram (hn : n.inCondition = false) (hchain : 0 < n.chains → b = true) :
    L.Alike n K wholeProgram wholeProgram fun first second =>
      .all (L.statement b) first.statements second.statements := by
  unfold wholeProgram
  refine alike_get fun s t hst _ => ?_
  have hlevels : t.levels = s.levels := by
    rw [State.levels, State.levels, L.options hst, (L.nesting hst).1, (L.nesting hst).2]
  rw [hlevels]
  exact alike_program fun K => alike_read _ n K b hn hchain

end ConfLang.Likeness
