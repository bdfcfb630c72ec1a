import ConfLang.Proofs.Grammar.Exact
import ConfLang.Proofs.Precedence.Climbing

/-!
# Readings without warnings

What a reading sees of a state does not tell which warnings there are (`State.Sees`), so to be
given a value says nothing about them.  Some readings never warn: those of expressions do not, as
following the tokens shows, and neither does the line of a condition.  Others warn about what stands
somewhere, so it depends on the place that they begin at whether they do.

`GivesQuietly` is `Gives` without warnings.  It has the same rules.
-/

namespace ConfLang.Reading

variable {α β σ : Type} {o : Options} {n m : Nesting} {c c' c'' : Cursor} {k k' k'' : Nat}
  {f : Reading α} {a : α}

/-! ## Readings that never warn -/

/-- From a state in order, a reading that gives a value leads to one again, and adds no warning. -/
def Quiet (f : Reading α) : Prop :=
  ∀ s : State, s.Ordered → ∀ a s', EStateM.run f s = .ok a s' →
    s'.Ordered ∧ s'.warnings = s.warnings

theorem quiet_pure (a : α) : Quiet (pure a) := by
  rintro s hs _ _ ⟨⟩
  exact ⟨hs, rfl⟩

theorem quiet_fail (cause : Cause) (span : Span) : Quiet (fail cause span : Reading α) := by
  intro s hs a s' hrun
  cases hrun

theorem Quiet.bind {g : α → Reading β} (hf : Quiet f) (hg : ∀ a, Quiet (g a)) :
    Quiet (f >>= g) := by
  intro s hs b s' hrun
  obtain ⟨a, middle, hfirst, hlast⟩ := ok_of_run_bind hrun
  obtain ⟨hmiddle, hsame⟩ := hf s hs a middle hfirst
  obtain ⟨hs', hsame'⟩ := hg a middle hmiddle b s' hlast
  exact ⟨hs', hsame'.trans hsame⟩

/-- A reading that follows the tokens adds no warning. -/
theorem Consumes.quiet {Q : Bool → List Token → α → List Token → Prop}
    (h : ∀ inCondition ahead, Consumes inCondition ahead f (Q inCondition ahead)) : Quiet f := by
  intro s hs a s' hrun
  obtain ⟨rest, hpasses, -⟩ := h s.nesting.inCondition s.upcoming s ⟨hs, rfl, rfl⟩ a s' hrun
  exact ⟨hpasses.awaits.ordered, hpasses.warnings⟩

theorem quiet_get : Quiet (get : Reading State) := by
  rintro s hs _ _ ⟨⟩
  exact ⟨hs, rfl⟩

theorem quiet_note (event : Event) : Quiet (note event) := by
  rintro s hs _ _ ⟨⟩
  exact ⟨⟨hs.size, hs.tokens⟩, rfl⟩

theorem quiet_peek : Quiet peek := by
  intro s hs a s' hrun
  rw [run_peek] at hrun
  cases hrun
  exact ⟨(continues_peeked hs).ordered, s.warnings_peeked⟩

theorem quiet_advance : Quiet advance := by
  intro s hs a s' hrun
  have hordered := (continues_of_run hs (run_of_ok hrun)).ordered
  rw [run_advance] at hrun
  cases hrun
  exact ⟨hordered, s.warnings_advanced⟩

theorem quiet_between (opening closing : Nesting → Nesting) (h : Quiet f) :
    Quiet (between (State.renest opening) (State.renest closing) f) := by
  intro s hs a s' hrun
  rw [run_between] at hrun
  cases hinside : EStateM.run f (s.renest opening) with
  | error problem middle =>
      rw [hinside] at hrun
      cases hrun
  | ok a middle =>
      rw [hinside] at hrun
      cases hrun
      obtain ⟨hmiddle, hsame⟩ := h (s.renest opening) ⟨hs.size, hs.tokens⟩ _ middle hinside
      exact ⟨⟨hmiddle.size, hmiddle.tokens⟩, hsame⟩

theorem quiet_endOfLine (expectation : Expectation) : Quiet (endOfLine expectation) := by
  refine quiet_peek.bind fun token => ?_
  split
  · exact quiet_advance.bind fun _ => quiet_pure ()
  · exact quiet_pure ()
  · exact quiet_peek.bind fun _ => quiet_fail _ _

theorem quiet_expression (level least : Nat) : Quiet (Expression.read level least) :=
  Consumes.quiet fun inCondition ahead => consumes_expression inCondition level least ahead

theorem quiet_conditionLine (opened : Span) (level : Nat) :
    Quiet (conditionLine .holds opened (Expression.read level Operator.lowestPrecedence)) := by
  have hcondition : Quiet (conditionExpression (Expression.read level Operator.lowestPrecedence)) :=
    quiet_between Nesting.conditional (fun nesting => { nesting with inCondition := false })
      (quiet_expression level _)
  refine (hcondition.bind fun _ => quiet_pure _).bind fun _ => ?_
  exact (quiet_endOfLine _).bind fun _ => quiet_pure _

theorem quiet_atEndOfProgram : Quiet atEndOfProgram :=
  quiet_peek.bind fun _ => quiet_get.bind fun _ => quiet_pure _

theorem quiet_atEndOfBranch (inBraces : Bool) : Quiet (atEndOfBranch inBraces) := by
  refine quiet_get.bind fun s => ?_
  split
  · exact quiet_pure true
  · refine quiet_peek.bind fun token => ?_
    split <;> exact quiet_pure _

theorem quiet_warnDuplicates {statements : List Statement}
    (h : duplicateWarnings [] statements = []) : Quiet (warnDuplicates statements) := by
  rintro s hs _ _ ⟨⟩
  simp only [h, List.foldl_nil]
  exact ⟨hs, trivial⟩

/-! ## Values without warnings -/

/-- Between two cursors, a reading gives a value, nothing goes wrong, and there is no warning. -/
def GivesQuietly (o : Options) (n : Nesting) (c : Cursor) (k : Nat) (f : Reading α) (c' : Cursor)
    (k' : Nat) (a : α) : Prop :=
  ∀ j ≤ k, ∀ s : State, s.Sees o n j c → s.Ordered →
    ∃ j' ≤ k', ∃ s' : State, s'.Sees o n j' c' ∧ s'.Ordered ∧ s'.warnings = s.warnings ∧
      EStateM.run f s = .ok a s'

theorem Gives.quietly (h : Gives o n c k f c' k' a) (hquiet : Quiet f) :
    GivesQuietly o n c k f c' k' a := by
  intro j hj s hs hordered
  obtain ⟨j', hj', s', hs', hrun⟩ := h j hj s hs
  obtain ⟨hordered', hsame⟩ := hquiet s hordered a s' hrun
  exact ⟨j', hj', s', hs', hordered', hsame, hrun⟩

theorem givesQuietly_pure : GivesQuietly o n c k (pure a) c k a :=
  gives_pure.quietly (quiet_pure a)

theorem GivesQuietly.bind {g : α → Reading β} {b : β} (hf : GivesQuietly o n c k f c' k' a)
    (hg : GivesQuietly o n c' k' (g a) c'' k'' b) : GivesQuietly o n c k (f >>= g) c'' k'' b := by
  intro j hj s hs hordered
  obtain ⟨j', hj', s', hs', hordered', hsame, hrun⟩ := hf j hj s hs hordered
  obtain ⟨j'', hj'', s'', hs'', hordered'', hsame', hrun'⟩ := hg j' hj' s' hs' hordered'
  refine ⟨j'', hj'', s'', hs'', hordered'', hsame'.trans hsame, ?_⟩
  rw [EStateM.run_bind, hrun]
  exact hrun'

theorem GivesQuietly.bind_pure {g : α → β} (hf : GivesQuietly o n c k f c' k' a) :
    GivesQuietly o n c k (f >>= fun a => pure (g a)) c' k' (g a) :=
  hf.bind givesQuietly_pure

theorem givesQuietly_get {g : State → Reading β} {b : β}
    (h : ∀ s : State, s.options = o → s.nesting = n → GivesQuietly o n c k (g s) c' k' b) :
    GivesQuietly o n c k (get >>= g) c' k' b :=
  fun j hj s hs => h s hs.options hs.nesting j hj s hs

theorem GivesQuietly.attempt (hf : GivesQuietly o n c k f c' k' a) :
    GivesQuietly o n c k (attempt f) c' k' (.ok a) := by
  intro j hj s hs hordered
  obtain ⟨j', hj', s', hs', hordered', hsame, hrun⟩ := hf j hj s hs hordered
  exact ⟨j', hj', s', hs', hordered', hsame, by rw [run_attempt, hrun]⟩

theorem GivesQuietly.between {opening closing : State → State}
    (hopening : ∀ s : State, s.nesting = n → opening s = { s with nesting := m })
    (hclosing : ∀ s : State, s.nesting = m → closing s = { s with nesting := n })
    (hf : GivesQuietly o m c k f c' k' a) :
    GivesQuietly o n c k (between opening closing f) c' k' a := by
  intro j hj s hs hordered
  obtain ⟨j', hj', s', hs', hordered', hsame, hrun⟩ :=
    hf j hj _ (hs.renest m) ⟨hordered.size, hordered.tokens⟩
  refine ⟨j', hj', _, hs'.renest n, ⟨hordered'.size, hordered'.tokens⟩, hsame, ?_⟩
  rw [run_between, hopening s hs.nesting, hrun]
  exact congrArg (EStateM.Result.ok a) (hclosing s' hs'.nesting)

theorem GivesQuietly.nested (hdepth : n.depth < o.maxNestingDepth)
    (hf : GivesQuietly o n.deeper c k f c' k' a) : GivesQuietly o n c k (nested f) c' k' a := by
  refine givesQuietly_get fun _ hoptions hnesting => ?_
  rw [hoptions, hnesting, if_pos hdepth]
  exact hf.between (fun _ => State.enter_eq) fun _ => State.leave_eq

theorem GivesQuietly.iterate_again {step : σ → Reading (Turn σ)} {value value' result : σ}
    (hstep : GivesQuietly o n c k (step value) c' k' (.again value')) (hless : c'.left < c.left)
    (hrest : GivesQuietly o n c' k' (iterate step value') c'' k'' result) :
    GivesQuietly o n c k (iterate step value) c'' k'' result := by
  intro j hj s hs hordered
  obtain ⟨j', hj', s', hs', hordered', hsame, hrun⟩ := hstep j hj s hs hordered
  obtain ⟨j'', hj'', s'', hs'', hordered'', hsame', hrun'⟩ := hrest j' hj' s' hs' hordered'
  refine ⟨j'', hj'', s'', hs'', hordered'', hsame'.trans hsame, ?_⟩
  rw [run_iterate, hrun]
  simp only [hs.remaining, hs'.remaining, hless, if_true, hrun']

theorem GivesQuietly.iterate_done {step : σ → Reading (Turn σ)} {value value' : σ}
    (hstep : GivesQuietly o n c k (step value) c' k' (.done value')) :
    GivesQuietly o n c k (iterate step value) c' k' value' := by
  intro j hj s hs hordered
  obtain ⟨j', hj', s', hs', hordered', hsame, hrun⟩ := hstep j hj s hs hordered
  exact ⟨j', hj', s', hs', hordered', hsame, by rw [run_iterate, hrun]⟩

theorem givesQuietly_shown {token : Token} (h : c.Shows token) (hk : k ≤ 1) :
    GivesQuietly o n c k peek c 1 token :=
  (gives_shown h hk).quietly quiet_peek

theorem givesQuietly_advance {token : Token} (h : c.Shows token) (hk : k ≤ 1) :
    GivesQuietly o n c k advance c.next.cursor 0 token :=
  ((gives_advance h).weaken hk (Nat.le_refl 0)).quietly quiet_advance

theorem GivesQuietly.ofSource {source : String}
    (hf : GivesQuietly o {} (.ofSource source) 0 f c' k' a) :
    ∃ j ≤ k', ∃ s' : State, s'.Sees o {} j c' ∧ s'.warnings = [] ∧
      EStateM.run f (.ofSource source o) = .ok a s' := by
  obtain ⟨j, hj, s', hs', -, hsame, hrun⟩ := hf 0 (Nat.le_refl 0) _ (State.sees_ofSource o source)
    (State.ordered_ofSource o source)
  exact ⟨j, hj, s', hs', hsame, hrun⟩

/-- At the end of a source, where nothing was wrong and nothing was warned about, there are no
diagnostics. -/
theorem silent_of_sees {s : State} {j : Nat} (h : s.Sees o n j c) (hj : j ≤ 1)
    (hend : c.AtEnd) (hwarnings : s.warnings = []) : s.diagnostics = #[] := by
  -- what is not yet reported lies in front of the next token, and there it is the end
  have herrors : s.errors = [] := by
    obtain rfl | rfl := Nat.le_one_iff_eq_zero_or_eq_one.mp hj
    · exact h.errors
    · simpa [Cursor.pending, hend.2] using h.errors
  rw [State.warnings, List.filter_eq_nil_iff] at hwarnings
  rw [State.errors, List.filter_eq_nil_iff] at herrors
  refine Array.toList_eq_nil_iff.mp (List.eq_nil_iff_forall_not_mem.mpr fun diagnostic hmem => ?_)
  exact hwarnings diagnostic hmem (by simpa using herrors diagnostic hmem)

/-! ## A block without statements -/

section Block

variable {kind : ConditionKind} {opened close line : Span} {expression : Reading Expression}
  {statement : Reading (Option Statement)} {condition : Condition}

theorem givesQuietly_branchBody {which : Mark} (hmark : c.Shows ⟨.mark which, close⟩) (hk : k ≤ 1) :
    GivesQuietly o n c k (branchBody statement) c 1 (.mk [] close.origin) := by
  refine givesQuietly_get fun s _ _ => ?_
  have hturn : GivesQuietly o n c k
      (bodyTurn (atEndOfBranch (decide (s.nesting.braces > 0))) statement #[]) c 1 (.done #[]) := by
    have hatEnd := (endsAt_branch (o := o) (n := n) (decide (s.nesting.braces > 0)) hmark.clear
      hk).quietly (quiet_atEndOfBranch _)
    rw [hmark.token] at hatEnd
    exact hatEnd.bind givesQuietly_pure
  refine GivesQuietly.bind hturn.iterate_done.bind_pure ?_
  refine ((gives_warnDuplicates []).quietly (quiet_warnDuplicates rfl)).bind ?_
  exact (givesQuietly_shown hmark (Nat.le_refl 1)).bind_pure.bind_pure

theorem givesQuietly_branching (hmark : c.Shows ⟨.mark .endif, close⟩)
    (hline : c.next.cursor.Shows ⟨.endOfLine, line⟩) (hk : k ≤ 1) :
    GivesQuietly o n c k (branching kind opened expression statement) c.next.cursor.next.cursor 0
      ⟨.mk [] close.origin, {}, close⟩ := by
  have hbranch : GivesQuietly o n c 1 (branch expression statement {}) c 1 (.done {}) :=
    (givesQuietly_shown hmark (Nat.le_refl 1)).bind givesQuietly_pure
  refine (givesQuietly_branchBody hmark hk).bind (hbranch.iterate_done.bind ?_)
  have hendOfMark : GivesQuietly o n c.next.cursor 0 (endOfMark .endif) c.next.cursor.next.cursor 0
      () :=
    (givesQuietly_shown hline (Nat.zero_le 1)).bind
      (givesQuietly_advance hline (Nat.le_refl 1)).bind_pure
  refine GivesQuietly.bind_pure ((givesQuietly_shown hmark (Nat.le_refl 1)).bind ?_)
  rw [if_pos rfl]
  exact (givesQuietly_advance hmark (Nat.le_refl 1)).bind hendOfMark.bind_pure

theorem givesQuietly_conditionalFrom (hdepth : n.depth < o.maxNestingDepth) {behind : Cursor}
    (hopened : c.Shows ⟨.opener kind, opened⟩)
    (hcondition : GivesQuietly o n.deeper c.next.cursor 0 (conditionLine kind opened expression)
      behind 1 condition)
    (hmark : behind.Shows ⟨.mark .endif, close⟩)
    (hline : behind.next.cursor.Shows ⟨.endOfLine, line⟩) (hk : k ≤ 1) :
    GivesQuietly o n c k (conditionalFrom kind opened expression statement)
      behind.next.cursor.next.cursor 0 (some (.conditional condition (.mk [] close.origin) [] none
        (opened.through close))) := by
  have hnote {n : Nesting} {c : Cursor} {k : Nat} (event : Event) :
      GivesQuietly o n c k (note event) c k () := (gives_note event).quietly (quiet_note event)
  have hhead : GivesQuietly o n.deeper c k (conditionalHead kind opened expression) behind 1
      (some condition) :=
    (givesQuietly_advance hopened hk).bind ((hnote _).bind (hcondition.attempt.bind givesQuietly_pure))
  have hchain : GivesQuietly o n.deeper behind 1 (between State.openChain State.closeChain
      (branching kind opened expression statement)) behind.next.cursor.next.cursor 0 _ :=
    (givesQuietly_branching hmark hline (Nat.le_refl 1)).between (fun _ => State.openChain_eq)
      fun _ => State.closeChain_eq
  rw [conditionalFrom_eq]
  exact GivesQuietly.bind (GivesQuietly.nested hdepth (hhead.bind hchain.bind_pure))
    ((hnote _).bind givesQuietly_pure)

theorem givesQuietly_program {last : Cursor} {token : Token} {item : Statement}
    (hshows : c.Shows token)
    (hstatement : GivesQuietly o n c 1 statement last 0 (some item)) (hend : last.AtEnd)
    (hless : last.left < c.left) (hnamed : item.declaredName? = none) :
    GivesQuietly o n c 0 (program statement) last 1 ⟨[item]⟩ := by
  have hatEnd {c : Cursor} (hclear : c.Clear o) : GivesQuietly o n c 0 atEndOfProgram c 1
      c.next.token.kind.stopsProgram :=
    (endsAt_program hclear (Nat.zero_le 1)).quietly quiet_atEndOfProgram
  -- the first turn reads the statement, and the second one finds the end of the source
  have hagain : GivesQuietly o n c 0 (bodyTurn atEndOfProgram statement #[]) last 0
      (.again #[item]) := by
    have hgoes : c.next.token.kind.stopsProgram = false := by
      simpa [TokenKind.stopsProgram, hshows.token] using hshows.kind
    refine (hatEnd hshows.clear).bind ?_
    rw [hgoes, if_neg Bool.false_ne_true]
    exact GivesQuietly.bind_pure (givesQuietly_get fun _ _ _ =>
      hstatement.attempt.bind givesQuietly_pure)
  have hdone : GivesQuietly o n last 0 (bodyTurn atEndOfProgram statement #[item]) last 1
      (.done #[item]) := by
    have hstops : last.next.token.kind.stopsProgram = true := by
      simp [TokenKind.stopsProgram, hend.1]
    refine (hatEnd (.inr hend.2)).bind ?_
    rw [hstops, if_pos rfl]
    exact givesQuietly_pure
  have hnone : duplicateWarnings [] [item] = [] := by
    simp [duplicateWarnings, noteDeclaration, hnamed]
  refine ((gives_note _).quietly (quiet_note _)).bind ?_
  refine GivesQuietly.bind (hagain.iterate_again hless hdone.iterate_done).bind_pure ?_
  exact ((gives_warnDuplicates [item]).quietly (quiet_warnDuplicates hnone)).bind_pure

end Block

end ConfLang.Reading
