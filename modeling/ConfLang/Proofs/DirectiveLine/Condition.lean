import ConfLang.Proofs.DirectiveLine.Run

/-!
# Conditions stay on their line

Whatever stands behind a directive on its line, and however the reading of a condition ends there:
it never takes the end of the line, and all that it reports is on the line.  Expressions are gone
through construct by construct, as they are read.  A token is taken only after it was looked at, and
none of those that are taken ends a line.

What follows is that such a line is read, or skipped, exactly through its line feed
(`Finishes.lineOrSkip`).
-/

namespace ConfLang.Reading

variable {α β : Type} {o : Options} {n : Nesting} {behind c : Cursor} {k : Nat}

theorem fail_bind (cause : Cause) (span : Span) (rest : α → Reading β) :
    (fail cause span : Reading α) >>= rest = fail cause span := rfl

theorem unexpected_bind (expectation : Expectation) (rest : α → Reading β) :
    (unexpected expectation : Reading α) >>= rest = unexpected expectation := by
  simp only [unexpected, bind_assoc, fail_bind]

section Steps

variable (hlimit : o.maxErrors = none)

include hlimit

/-! ## Tokens that are asked for -/

/-- The place of a symbol that has to stand on the line is on the line. -/
theorem staysOn_expect {sign : Symbol} {expectation : Expectation} {rest : Span → Reading α}
    (hrest : ∀ span : Span, span.Above behind → StaysOn o n behind (rest span)) :
    StaysOn o n behind (expect sign expectation >>= rest) := by
  unfold expect
  rw [bind_assoc]
  refine staysOn_peek hlimit fun c hline => ?_
  split
  · rename_i hkind
    rw [bind_assoc]
    refine stays_advance hlimit hline (Nat.le_succ 1) (by simp [hkind]) ?_
    rw [pure_bind]
    exact hrest _ hline.next.token
  · rw [unexpected_bind]
    exact (staysOn_unexpected hlimit expectation).here hline

theorem staysOn_identifier (expectation : Expectation) :
    StaysOn o n behind (identifier expectation) := by
  refine staysOn_peek hlimit fun c hline => ?_
  split
  · rename_i hkind
    exact stays_advance hlimit hline (Nat.le_succ 1) (by simp [hkind]) staysOn_pure
  · exact (staysOn_unexpected hlimit expectation).here hline

theorem staysOn_closing (bracket : Bracket) {opened : Span} (hopened : opened.Above behind) :
    StaysOn o n behind (closing bracket opened) := by
  refine staysOn_peek hlimit fun c hline => ?_
  split
  · rename_i hkind
    exact stays_advance hlimit hline (Nat.le_succ 1) (by simp [hkind]) staysOn_pure
  · exact (staysOn_fail hopened).here hline

theorem staysOn_accept {kind : TokenKind} (hkind : kind ≠ .endOfLine) :
    StaysOn o n behind (accept kind) := by
  unfold accept isAt
  simp only [bind_assoc, pure_bind, decide_eq_true_eq]
  refine staysOn_peek hlimit fun c hline => ?_
  split
  · rename_i hsame
    exact stays_advance hlimit hline (Nat.le_succ 1) (hsame ▸ hkind) staysOn_pure
  · exact staysOn_pure.here hline

/-! ## Operators -/

theorem staysOn_chain {operand : Reading Expression} (h : StaysOn o n behind operand)
    (least : Nat) :
    StaysOn o n behind (chain operand least) := by
  induction hmeasure : 5 - least using Nat.strongRecOn generalizing least with
  | ind measure ih =>
      subst hmeasure
      rw [chain_eq]
      refine h.bind fun first => StaysOn.iterate (fun left => ?_) first
      unfold chainTurn operator?
      rw [bind_assoc]
      refine staysOn_peek hlimit fun c hline => ?_
      split
      · exact (staysOn_fail hline.next.token).here hline
      · rw [pure_bind]
        split
        · exact staysOn_pure.here hline
        · rename_i operator hoperator
          split
          · refine stays_advance hlimit hline (Nat.le_succ 1) ?_ ?_
            · intro hend
              simp [hend, Operator.ofToken?] at hoperator
            · have hless : 5 - (operator.precedence + 1) < 5 - least := by
                have := operator.precedence_le
                omega
              exact (ih _ hless _ rfl).bind fun right => staysOn_pure
          · exact staysOn_pure.here hline

/-! ## Lists -/

theorem staysOn_extraCommas (bracket : Bracket) : StaysOn o n behind (extraCommas bracket) := by
  refine StaysOn.iterate (fun _ => ?_) ()
  refine staysOn_peek hlimit fun c hline => ?_
  split
  · rename_i hkind
    refine stays_advance hlimit hline (Nat.le_succ 1) (by simp [hkind]) ?_
    have hspan : (⟨.emptyElement bracket, c.next.token.span⟩ : Problem).span.Above behind :=
      hline.next.token
    exact (staysOn_report hlimit hspan).bind fun _ => staysOn_pure
  · exact staysOn_pure.here hline

theorem staysOn_element {item : Reading α} (h : StaysOn o n behind item) (bracket : Bracket)
    (items : Array α) : StaysOn o n behind (element bracket item items) := by
  refine staysOn_peek hlimit fun c hline => ?_
  dsimp only
  split
  · exact staysOn_pure.here hline
  · refine (h.bind fun value => ?_).here hline
    refine (staysOn_accept hlimit (by simp)).bind fun taken => ?_
    split
    · exact (staysOn_extraCommas hlimit bracket).bind fun _ => staysOn_pure
    · exact staysOn_pure

theorem staysOn_elements {item : Reading α} (h : StaysOn o n behind item) (bracket : Bracket)
    {opened : Span} (hopened : opened.Above behind) :
    StaysOn o n behind (elements bracket opened item) :=
  (StaysOn.iterate (fun items => staysOn_element hlimit h bracket items) #[]).bind fun _ =>
    (staysOn_closing hlimit bracket hopened).bind fun _ => staysOn_pure

theorem staysOn_argument {expression : Reading Expression} (h : StaysOn o n behind expression) :
    StaysOn o n behind (argument expression) := by
  refine (staysOn_accept hlimit (by simp)).bind fun taken => ?_
  split
  · exact (staysOn_identifier hlimit _).bind fun label =>
      staysOn_expect hlimit fun _ _ => h.bind fun _ => staysOn_pure
  · exact h.bind fun _ => staysOn_pure

/-! ## Operands -/

/-- Behind a name a further token may have been looked at. -/
theorem stays_definedQuestion (hline : c.LineTo behind) (hk : k ≤ 2)
    (hkind : c.next.token.kind ≠ .endOfLine) : Stays o n behind c k definedQuestion :=
  stays_advance hlimit hline hk hkind (staysOn_expect hlimit fun _ hopened =>
    (staysOn_identifier hlimit _).bind fun _ =>
      (staysOn_closing hlimit .paren hopened).bind fun _ => staysOn_pure)

theorem comes_isDefinedQuestion (name : String) (hline : c.LineTo behind)
    (hkind : c.next.token.kind ≠ .endOfLine) :
    ∃ problems k' asks, Comes o n c 1 (isDefinedQuestion name) problems c k' (.ok asks) ∧ k' ≤ 2 ∧
      ∀ problem ∈ problems, problem.span.Above behind := by
  obtain ⟨hend, -⟩ | ⟨-, -, hnext⟩ := hline.next.cursor
  · exact absurd hend hkind
  by_cases hasks : n.inCondition = true ∧ name = "defined"
  · refine ⟨_, 2, _, Comes.of_get (g := peekSecond >>= fun token =>
      pure (decide (token.kind = .symbol .openParen))) (fun s _ hnesting => ?_)
      (comes_peekSecond hlimit).bind_pure, Nat.le_refl 2, hnext.next.problems⟩
    rw [hnesting, if_pos hasks]
  · refine ⟨[], 1, false, Comes.of_get (g := pure false) (fun s _ hnesting => ?_) comes_pure,
      Nat.le_succ 1, fun _ hmem => absurd hmem List.not_mem_nil⟩
    rw [hnesting, if_neg hasks]

theorem staysOn_primary {inner : Reading Expression} (h : StaysOn o n.deeper behind inner) :
    StaysOn o n behind (primary inner) := by
  rw [primary_eq]
  refine staysOn_peek hlimit fun c hline => ?_
  have htake {kind : TokenKind} {rest : Token → Reading Expression}
      (hkind : c.next.token.kind = kind) (hne : kind ≠ .endOfLine)
      (hrest : StaysOn o n behind (rest c.next.token)) :
      Stays o n behind c 1 (advance >>= rest) :=
    stays_advance hlimit hline (Nat.le_succ 1) (hkind ▸ hne) hrest
  refine primaryAt_cases (motive := Stays o n behind c 1) ?integer ?float ?string ?quoted ?bare
    ?group ?array ?other
  case integer | float | string | quoted =>
    exact fun _ hkind => htake hkind (by simp) staysOn_pure
  case bare =>
    intro text hkind
    have hne : c.next.token.kind ≠ .endOfLine := by simp [hkind]
    obtain ⟨problems, k', asks, hcomes, hk, hproblems⟩ :=
      comes_isDefinedQuestion (n := n) hlimit text hline hne
    refine hcomes.stays_bind hproblems ?_
    split
    · exact stays_definedQuestion hlimit hline hk hne
    · exact stays_advance hlimit hline hk hne staysOn_pure
  case group =>
    exact fun hkind => htake hkind (by simp) ((h.nested hlimit).bind fun _ =>
      (staysOn_closing hlimit .paren hline.next.token).bind fun _ => staysOn_pure)
  case array =>
    exact fun hkind => htake hkind (by simp)
      (((staysOn_elements hlimit h .square hline.next.token).nested hlimit).bind fun _ =>
        staysOn_pure)
  case other => exact (staysOn_unexpected hlimit _).here hline

theorem staysOn_suffixed {inner : Reading Expression} (h : StaysOn o n.deeper behind inner) :
    StaysOn o n behind (suffixed inner) := by
  refine (staysOn_primary hlimit h).bind fun first => StaysOn.iterate (fun operand => ?_) first
  refine staysOn_peek hlimit fun c hline => ?_
  split
  · rename_i hkind
    exact stays_advance hlimit hline (Nat.le_succ 1) (by simp [hkind])
      ((staysOn_identifier hlimit _).bind fun _ => staysOn_pure)
  · rename_i hkind
    exact stays_advance hlimit hline (Nat.le_succ 1) (by simp [hkind])
      (((staysOn_elements hlimit (staysOn_argument hlimit h) .paren hline.next.token).nested
        hlimit).bind fun _ => staysOn_pure)
  · exact staysOn_pure.here hline

theorem staysOn_operand (level : Nat) : StaysOn o n behind (operand level) := by
  induction level generalizing n with
  | zero => exact staysOn_tooDeep hlimit
  | succ level ih =>
      refine staysOn_peek hlimit fun c hline => ?_
      split
      · rename_i hkind
        exact stays_advance hlimit hline (Nat.le_succ 1) (by simp [hkind])
          ((ih.nested hlimit).bind fun _ => staysOn_pure)
      · exact (staysOn_suffixed hlimit (staysOn_chain hlimit ih _)).here hline

theorem staysOn_expression (level least : Nat) :
    StaysOn o n behind (Expression.read level least) :=
  staysOn_chain hlimit (staysOn_operand hlimit level) least

/-! ## The end of the line -/

/-- The end of the line is the next token, or another token stands in front of it. -/
theorem finishes_endOfLine (expectation : Expectation) (hline : c.LineTo behind) (hk : k ≤ 1) :
    Finishes o n behind c k (endOfLine expectation) := by
  have hpeek := comes_peek (n := n) (c := c) (k := k) hlimit
  rw [Nat.max_eq_right hk] at hpeek
  refine hpeek.finishes_bind (above_of_unseen hline) ?_
  obtain ⟨hkind, hnext⟩ | ⟨hkind, hend, -⟩ := hline.next.cursor
  · have hadvance := comes_advance (n := n) (c := c) (k := 1) hlimit (by simp [hkind])
    rw [hnext] at hadvance
    rw [hkind]
    exact .read (hadvance.map (g := Function.const Token ())) (above_of_unseen hline)
  · split
    · exact absurd ‹_› hkind
    · exact absurd ‹_› hend
    · exact .failed ((comes_peek hlimit).bind comes_fail) (Nat.le_refl 1) hline
        (by simpa using above_of_unseen hline) hline.next.token

/-- What is left of the line is skipped, its line feed included. -/
theorem comes_skipLine (hline : c.LineTo behind) (hk : k ≤ 1) : ∃ problems,
    Comes o n c k skipLine problems behind 0 (.ok ()) ∧
      ∀ problem ∈ problems, problem.span.Above behind := by
  suffices hiterate : ∃ problems, Comes o n c k (iterate (fun _ => lineTurn) ()) problems behind 0
      (.ok ()) ∧ ∀ problem ∈ problems, problem.span.Above behind by
    obtain ⟨problems, hcomes, hproblems⟩ := hiterate
    exact ⟨problems, hcomes.map, hproblems⟩
  induction hmeasure : c.left using Nat.strongRecOn generalizing c k with
  | ind measure ih =>
      subst hmeasure
      have hpeek := comes_peek (n := n) (c := c) (k := k) hlimit
      rw [Nat.max_eq_right hk] at hpeek
      have hseen : c.unseen 1 = [] := rfl
      obtain ⟨hkind, hnext⟩ | ⟨hkind, hend, hnext⟩ := hline.next.cursor
      · have hadvance := comes_advance (n := n) (c := c) (k := 1) hlimit (by simp [hkind])
        rw [hnext, hseen] at hadvance
        refine ⟨c.unseen k ++ [], .iterate_done (hpeek.bind ?_), ?_⟩
        · rw [hkind]
          exact hadvance.bind_pure
        · rw [List.append_nil]
          exact above_of_unseen hline
      · have hadvance := comes_advance (n := n) (c := c) (k := 1) hlimit hend
        rw [hseen] at hadvance
        obtain ⟨problems, hrest, hproblems⟩ :=
          ih _ (Cursor.left_next_lt hend) hnext (Nat.zero_le 1) rfl
        refine ⟨(c.unseen k ++ []) ++ problems, .iterate_again (hpeek.bind ?_)
          (Cursor.left_next_lt hend) hrest, ?_⟩
        · split
          · exact absurd ‹_› hend
          · exact absurd ‹_› hkind
          · exact hadvance.bind_pure
        · rw [List.append_nil]
          exact fun problem hmem => (List.mem_append.mp hmem).elim
            (above_of_unseen hline problem) (hproblems problem)

end Steps

/-! ## Lines with a condition -/

theorem staysOn_conditionExpression {expression : Reading Expression}
    (hcondition : n.inCondition = false) (h : StaysOn o n.conditional behind expression) :
    StaysOn o n behind (conditionExpression expression) :=
  StaysOn.between Nesting.conditional (fun nesting => { nesting with inCondition := false })
    (by rw [Nesting.conditional, ← hcondition]) h

/-- The line of a further branch is read through its end or fails, whatever stands on it. -/
theorem finishes_branchCondition (hlimit : o.maxErrors = none) (hcondition : n.inCondition = false)
    (level : Nat) (hline : c.LineTo behind) (hk : k ≤ 1) : Finishes o n behind c k
      (branchCondition (Expression.read level Operator.lowestPrecedence)) :=
  Stays.finishes_bind (staysOn_conditionExpression hcondition (staysOn_expression hlimit level _) hk
    hline) fun _ _ _ hk' hline' => (finishes_endOfLine hlimit _ hline' hk').bind_pure

end ConfLang.Reading

/-! ## What a line is read as -/

namespace ConfLang

/-- A state that begins at a place of a source, in which nothing was reported. -/
def State.beginning (options : Options) (nesting : Nesting) (place : Cursor) : State :=
  { size := place.position.offset + place.left
    options
    cursor := place
    previous := { stop := place.position.offset }
    nesting }

theorem State.sees_beginning (o : Options) (n : Nesting) (c : Cursor) :
    (State.beginning o n c).Sees o n 0 c :=
  ⟨rfl, rfl, rfl, rfl, rfl, rfl, rfl, rfl⟩

namespace Cursor

variable {α : Type}

/-- What a line is read as from a place on, if it can be read. -/
def lineValue? (place : Cursor) (o : Options) (n : Nesting) (line : Reading α) : Option α :=
  (line.run (.beginning o n place)).1.toOption

/-- What is reported when a line is read from a place on, or skipped. -/
def lineProblems (place : Cursor) (o : Options) (n : Nesting) (line : Reading α) : List Problem :=
  ((Reading.lineOrSkip line).run (.beginning o n place)).2.errors.map Diagnostic.toProblem

end Cursor

namespace Reading

variable {α : Type} {o : Options} {n : Nesting} {behind c c' : Cursor} {k' : Nat}
  {line : Reading α} {a : α} {problems : List Problem}

theorem Comes.lineValue?_eq {result : Except Problem α}
    (h : Comes o n c 0 line problems c' k' result) : c.lineValue? o n line = result.toOption := by
  obtain ⟨t, hrun, -⟩ := h _ (State.sees_beginning o n c).isAt
  rw [Cursor.lineValue?, hrun]

theorem Comes.lineProblems_eq {result : Except Problem (Option α)}
    (h : Comes o n c 0 (lineOrSkip line) problems c' k' result) :
    c.lineProblems o n line = problems := by
  obtain ⟨t, hrun, -, herrors⟩ := h _ (State.sees_beginning o n c).isAt
  rw [Cursor.lineProblems, hrun, herrors, List.map_append, List.map_map]
  exact List.map_id _

theorem Comes.lineOrSkip_ok (h : Comes o n c 0 line problems c' k' (.ok a)) :
    Comes o n c 0 (lineOrSkip line) problems c' k' (.ok (some a)) := by
  rw [← List.append_nil problems]
  exact Comes.bind h.attempt comes_pure

/-- What is left of a line that could not be read is skipped behind the report. -/
theorem Comes.lineOrSkip_error {problem : Problem} {more : List Problem}
    (hlimit : o.maxErrors = none)
    (h : Comes o n c 0 line problems c' k' (.error problem))
    (hskip : Comes o n c' k' skipLine more behind 0 (.ok ())) :
    Comes o n c 0 (lineOrSkip line) (problems ++ ([problem] ++ more)) behind 0 (.ok none) :=
  Comes.bind h.attempt ((comes_report hlimit problem).bind hskip.bind_pure)

/-- A line that is read, or else skipped, is left behind.  All that is reported is on it. -/
theorem Finishes.lineOrSkip (hlimit : o.maxErrors = none) (h : Finishes o n behind c 0 line) :
    Comes o n c 0 (lineOrSkip line) (c.lineProblems o n line) behind 0
        (.ok (c.lineValue? o n line)) ∧
      ∀ problem ∈ c.lineProblems o n line, problem.span.Above behind := by
  cases h with
  | read hcomes hproblems =>
      -- The line was read through its end, so there is nothing to skip.
      have hvalue := hcomes.lineOrSkip_ok
      rw [hvalue.lineProblems_eq, hcomes.lineValue?_eq]
      exact ⟨hvalue, hproblems⟩
  | failed hcomes hk hline hproblems hproblem =>
      obtain ⟨more, hskip, hmore⟩ := comes_skipLine hlimit hline hk
      have hvalue := hcomes.lineOrSkip_error hlimit hskip
      rw [hvalue.lineProblems_eq, hcomes.lineValue?_eq]
      refine ⟨hvalue, ?_⟩
      simp only [List.forall_mem_append, List.forall_mem_singleton]
      exact ⟨hproblems, hproblem, hmore⟩

/-- A line on which nothing goes wrong is read as what the reading gives. -/
theorem Finishes.of_gives (h : Finishes o n behind c 0 line) (hgives : Gives o n c 0 line c' k' a) :
    c.lineValue? o n line = some a ∧ c.lineProblems o n line = [] := by
  obtain ⟨j, -, t, ht, hrun⟩ := hgives 0 (Nat.le_refl 0) _ (State.sees_beginning o n c)
  have hrun := run_of_ok hrun
  cases h with
  | failed hcomes =>
      obtain ⟨_, hfailed, -⟩ := hcomes _ (State.sees_beginning o n c).isAt
      rw [hrun] at hfailed
      cases hfailed
  | read hcomes =>
      obtain ⟨_, hread, hat, herrors⟩ := hcomes _ (State.sees_beginning o n c).isAt
      rw [hrun] at hread
      cases hread
      obtain ⟨rfl, -⟩ := hat.eq_of_sees ht
      rw [ht.errors, (State.sees_beginning o n c).errors] at herrors
      rw [hcomes.lineValue?_eq, hcomes.lineOrSkip_ok.lineProblems_eq]
      exact ⟨rfl, by simpa [Cursor.pending] using herrors.symm⟩

/-- What a line is read as without errors fits what the reading yields. -/
theorem Finishes.of_yields {Q : α → Cursor → Prop} (hlimit : o.maxErrors = none)
    (h : Finishes o n behind c 0 line) (hyields : Yields o n c 0 line k' Q)
    (hvalue : c.lineValue? o n line = some a) (hproblems : c.lineProblems o n line = []) :
    Q a behind := by
  cases h with
  | failed hcomes =>
      rw [hcomes.lineValue?_eq] at hvalue
      cases hvalue
  | read hcomes =>
      rw [hcomes.lineValue?_eq] at hvalue
      rw [hcomes.lineOrSkip_ok.lineProblems_eq] at hproblems
      cases hvalue
      subst hproblems
      obtain ⟨t, hrun, hat, herrors⟩ := hcomes _ (State.sees_beginning o n c).isAt
      obtain ⟨j, -, place, hplace, hfits⟩ := hyields hlimit 0 (Nat.le_refl 0) _
        (State.sees_beginning o n c) a t (ok_of_run hrun) ⟨hat.stopped, herrors⟩
      obtain ⟨-, rfl⟩ := hat.eq_of_sees hplace
      exact hfits

end Reading

end ConfLang
