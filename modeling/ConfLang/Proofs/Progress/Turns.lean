import ConfLang.Proofs.Limit.Statements
import ConfLang.Proofs.Progress.Order

/-!
# Every turn takes a token

A repetition asks for another turn only after it has taken a token that is not the end of the
file.  Most of them take the token that they have looked at to decide whether to go on.  The
turns of a body read a statement, which may fail at its first token; then skipping takes at
least that one.
-/

namespace ConfLang

open Reading

variable {α β σ : Type} {s s' : State}

/-! ## Readings that take the current token -/

theorem State.consumed_peeked (s : State) : s.peeked.2.consumed = s.consumed := by
  cases h : s.lookahead with
  | nil => rw [peeked_of_nil h, scan_eq, foldl_report_frame, looked]
  | cons token rest => rw [peeked_of_cons h]

theorem State.consumed_advanced (h : s.peeked.1.kind ≠ .endOfFile) :
    s.advanced.consumed = s.consumed + 1 := by
  rw [advanced, if_neg h, take, consumed_peeked]

namespace Reading

/-- A reading gives a value only after it has taken the current token. -/
class Takes (f : Reading α) : Prop where
  takes : ∀ {s a s'}, s.Looks → f.run s = (.ok a, s') → s.consumed < s'.consumed

theorem grows_of_run {f : Reading α} [Adds f] {result : Except Problem α}
    (h : f.run s = (result, s')) : s.Grows s' := by
  have hgrows := (Obeys.obeys (P := growth.Kept) (f := f) s).1
  rwa [h] at hgrows

instance : Takes advance where
  takes := by
    rintro s a s' ⟨token, rest, hfirst, hkind⟩ hrun
    rw [run_of_ok (run_advance s)] at hrun
    cases hrun
    rw [State.consumed_advanced (by rwa [State.peeked_of_cons hfirst])]
    exact Nat.lt_succ_self _

theorem takes_bind {f : Reading α} {rest : α → Reading β} (hf : Takes f)
    (hrest : ∀ a, Adds (rest a)) : Takes (f >>= rest) where
  takes {s b s'} hlooks hrun := by
    rw [bind_run] at hrun
    cases hfirst : f.run s with
    | mk result middle =>
        rw [hfirst] at hrun
        cases result with
        | ok a =>
            have hgrows := grows_of_run hrun
            exact Nat.lt_of_lt_of_le (hf.takes hlooks hfirst) hgrows.consumed
        | error problem => cases hrun

instance {f : Reading α} {rest : α → Reading β} [Takes f] [∀ a, Adds (rest a)] :
    Takes (f >>= rest) :=
  takes_bind inferInstance inferInstance

instance {f : Reading α} {g : α → β} [Takes f] : Takes (g <$> f) := by
  rw [← bind_pure_comp]
  infer_instance

instance {cause : Cause} {span : Span} : Takes (fail cause span : Reading α) where
  takes _ hrun := nomatch hrun

theorem takes_peek {rest : Token → Reading α} (h : ∀ token, Takes (rest token)) :
    Takes (peek >>= rest) where
  takes {s a s'} hlooks hrun := by
    obtain ⟨token, tokens, hfirst, -⟩ := id hlooks
    rw [bind_run, run_of_ok (run_peek s), State.peeked_of_cons hfirst] at hrun
    exact (h token).takes hlooks hrun

theorem takes_get {rest : State → Reading α} (h : ∀ s, Takes (rest s)) : Takes (get >>= rest) where
  takes {s _ _} hlooks hrun := (h s).takes hlooks hrun

instance {expectation : Expectation} : Takes (unexpected expectation : Reading α) :=
  takes_peek fun _ => inferInstance

instance {f : Reading α} [Takes f] : Takes (nested f) where
  takes {s a s'} hlooks hrun := by
    rw [nested_run] at hrun
    split at hrun
    · rw [between_run] at hrun
      cases hinside : f.run s.enter with
      | mk result middle =>
          rw [hinside] at hrun
          obtain ⟨rfl, rfl⟩ := Prod.mk.inj hrun
          have hlooks' : s.enter.Looks := hlooks
          change s.enter.consumed < middle.consumed
          exact Takes.takes hlooks' hinside
    · -- What is too deep gives no value at all.
      rw [tooDeep_run] at hrun
      cases hrun

instance {expectation : Expectation} : Takes (identifier expectation) := by
  refine takes_peek fun token => ?_
  split <;> infer_instance

theorem takes_iterate {step : σ → Reading (Turn σ)} {value : σ} [∀ value, Adds (step value)]
    (h : Takes (step value)) : Takes (iterate step value) where
  takes {s a s'} hlooks hrun := by
    rw [iterate_run] at hrun
    have hafter (turn : Turn σ) : Adds (afterTurn step s.remaining turn) := by
      cases turn with
      | done value' => exact inferInstanceAs (Adds (pure value'))
      | again value' =>
          have (state : State) : Adds (if state.remaining < s.remaining then iterate step value'
              else pure value') := inferInstance
          exact ⟨Course.kept_bind Course.kept_get fun state => (this state).obeys⟩
    exact Takes.takes hlooks hrun

/-! ## Statements -/

section Statements

variable {expression : Reading Expression} {statement : Reading (Option Statement)}
  [Adds expression] [Adds statement]

instance {severity : Severity} : Takes (message severity) := by
  unfold message
  infer_instance

instance : Takes (constant expression) := by
  unfold constant
  infer_instance

instance : Takes (group statement) := by
  unfold group
  infer_instance

instance : Takes (choice expression statement) := by
  unfold choice
  infer_instance

instance : Takes (assignment expression) := by
  refine takes_bind inferInstance fun _ => obeys_bind fun _ => ?_
  split
  · infer_instance
  · infer_instance
  · exact obeys_get (fun _ => rfl) fun _ => inferInstance
  · infer_instance

instance {kind : ConditionKind} {opened : Span} :
    Takes (conditionalInside kind opened expression statement) := by
  have : Adds (between State.openChain State.closeChain
      (branching kind opened expression statement)) :=
    adds_between (fun s => s.grows_renest _) fun s => s.grows_renest _
  have : Takes (conditionalHead kind opened expression) := by
    unfold conditionalHead
    infer_instance
  unfold conditionalInside
  infer_instance

instance {kind : ConditionKind} {opened : Span} :
    Takes (conditionalFrom kind opened expression statement) := by
  rw [conditionalFrom_eq]
  exact takes_bind (f := nested (conditionalInside kind opened expression statement))
    inferInstance fun _ => inferInstance

end Statements

/-- A statement begins with a token that it takes. -/
instance {level : Nat} : Takes (Statement.read level) := by
  cases level with
  | zero => exact takes_peek fun _ => takes_get fun _ => inferInstance
  | succ level =>
      refine takes_peek fun token => ?_
      split
      case h_4 => exact takes_get fun _ => inferInstance
      all_goals infer_instance

/-! ## Skipping -/

theorem takes_skipTurn {skipping : Skipping} (h : skipping.forced = true) :
    Takes (skipTurn skipping) := by
  refine takes_peek fun token => takes_get fun s => ?_
  rw [h, Bool.not_true, Bool.false_and, if_neg Bool.false_ne_true]
  infer_instance

/-- Skipping takes a token if nothing was taken before. -/
theorem takes_recover {a : Unit} (hlooks : s.Looks)
    (hrun : (recover s.consumed).run s = (.ok a, s')) : s.consumed < s'.consumed := by
  rw [recover_run, beq_self_eq_true] at hrun
  have hskip : Takes (skipTurn { forced := true }) := takes_skipTurn rfl
  have := takes_iterate hskip
  exact Takes.takes hlooks hrun

/-! ## One more statement -/

theorem peek_bind_run_peeked (rest : Token → Reading α) (s : State) :
    (peek >>= rest).run s.peeked.2 = (peek >>= rest).run s := by
  rw [bind_run, bind_run, run_of_ok (run_peek s), run_of_ok (run_peek s.peeked.2), s.peeked_peeked]

theorem read_run_peeked (level : Nat) (s : State) :
    (Statement.read level).run s.peeked.2 = (Statement.read level).run s := by
  cases level with
  | zero => exact peek_bind_run_peeked _ s
  | succ level => exact peek_bind_run_peeked _ s

theorem continues_of_run {f : Reading α} [Obeys order.Kept f] {result : Except Problem α}
    (hs : s.Ordered) (h : f.run s = (result, s')) : s'.Continues s := by
  have hcontinues := (Obeys.obeys (P := order.Kept) (f := f) s).1 hs
  rwa [h] at hcontinues

theorem continues_peeked (hs : s.Ordered) : s.peeked.2.Continues s :=
  continues_of_run hs (run_of_ok (run_peek s))

/-- Reading one more statement of a body takes a token, whether the statement is kept, or
dropped, or cannot be read. -/
theorem appendStatement_progress (level : Nat) (statements : Array Statement) (hs : s.Ordered)
    (hkind : s.peeked.1.kind ≠ .endOfFile) : ∃ statements' s',
      (appendStatement (Statement.read level) statements).run s = (.ok statements', s') ∧
        s'.Continues s.peeked.2 ∧ s.peeked.2.consumed < s'.consumed := by
  obtain ⟨statements', s', hrun⟩ := succeeds_appendStatement (Statement.read level) statements s
  refine ⟨statements', s', hrun, ?_⟩
  rw [appendStatement_run, ← read_run_peeked, ← s.consumed_peeked, ← appendStatement_run] at hrun
  have hordered := (continues_peeked hs).ordered
  refine ⟨continues_of_run hordered hrun, ?_⟩
  have hlooks := State.looks_peeked hkind
  generalize s.peeked.2 = t at hrun hordered hlooks ⊢
  rw [appendStatement_run] at hrun
  cases hread : (Statement.read level).run t with
  | mk result after =>
      rw [hread] at hrun
      rcases result with problem | (_ | value)
      · -- The statement could not be read: that is reported, and what follows is skipped.
        simp only [bind_run] at hrun
        have hafter := continues_of_run hordered hread
        have hreported : (after.report problem.diagnostic).Continues after :=
          order.report after problem.diagnostic trivial hafter.ordered
        have hcontinues := hafter.trans hreported
        obtain ⟨_, last, hrecover⟩ := succeeds_recover t.consumed (after.report problem.diagnostic)
        rw [hrecover] at hrun
        obtain ⟨-, rfl⟩ := Prod.mk.inj hrun
        by_cases hsame : (after.report problem.diagnostic).consumed = t.consumed
        · -- The current token was not taken.  So it is still there, and is skipped.
          obtain ⟨token, rest, hfirst, hkind⟩ := hlooks
          rcases hcontinues.current token rest hfirst with ⟨-, rest', hfirst'⟩ | ⟨hmore, -⟩
          · rw [← hsame] at hrecover ⊢
            exact takes_recover ⟨token, rest', hfirst', hkind⟩ hrecover
          · exact absurd hsame (Nat.ne_of_gt hmore)
        · have hless := hcontinues.consumed
          have hgrows := (grows_of_run hrecover).consumed
          omega
      -- Otherwise it was read, and it is dropped or kept.
      · obtain ⟨-, rfl⟩ := Prod.mk.inj hrun
        exact Takes.takes hlooks hread
      · obtain ⟨-, rfl⟩ := Prod.mk.inj hrun
        exact Takes.takes hlooks hread

/-! ## Turns -/

/-- Whenever a turn asks for another one, less is left of the source. -/
def Progresses (turn : Reading (Turn σ)) : Prop :=
  ∀ s value s', s.Ordered → turn.run s = (.ok (.again value), s') →
    s'.Ordered ∧ s'.remaining < s.remaining

theorem progress_of_taken (hs : s.Ordered) (hkind : s.peeked.1.kind ≠ .endOfFile)
    (hcontinues : s'.Continues s.peeked.2) (htaken : s.peeked.2.consumed < s'.consumed) :
    s'.Ordered ∧ s'.remaining < s.remaining := by
  have hpeeked := continues_peeked hs
  obtain ⟨rest, hfirst⟩ := s.lookahead_peeked
  have hless := hcontinues.remaining_lt hpeeked.ordered hfirst hkind htaken
  have hprevious := hpeeked.previous
  have hsize := hpeeked.size
  refine ⟨hcontinues.ordered, ?_⟩
  simp only [State.remaining] at hless ⊢
  omega

/-- A turn that has looked at the current token asks for another one only after it has taken
that token. -/
def AsksBehind (token : Token) (turn : Reading (Turn σ)) : Prop :=
  ∀ s rest value s', s.lookahead = token :: rest → turn.run s = (.ok (.again value), s') →
    token.kind ≠ .endOfFile ∧ s.consumed < s'.consumed

theorem asksBehind_done (token : Token) (value : σ) :
    AsksBehind token (pure (.done value) : Reading (Turn σ)) := by
  intro s rest value' s' _ hrun
  cases hrun

theorem asksBehind_fail (token : Token) (cause : Cause) (span : Span) :
    AsksBehind token (fail cause span : Reading (Turn σ)) := by
  intro s rest value s' _ hrun
  cases hrun

theorem asksBehind_of_takes {token : Token} (turn : Reading (Turn σ)) [Takes turn]
    (hkind : token.kind ≠ .endOfFile) : AsksBehind token turn := by
  intro s rest value s' hfirst hrun
  exact ⟨hkind, Takes.takes ⟨token, rest, hfirst, hkind⟩ hrun⟩

theorem asksBehind_get {token : Token} {rest : State → Reading (Turn σ)}
    (h : ∀ s, AsksBehind token (rest s)) : AsksBehind token (get >>= rest) :=
  fun s _ _ _ hfirst hrun => h s s _ _ _ hfirst hrun

theorem progresses_of_peek {turn : Reading (Turn σ)} [Obeys order.Kept turn]
    {rest : Token → Reading (Turn σ)} (hturn : turn = peek >>= rest)
    (h : ∀ token, AsksBehind token (rest token)) : Progresses turn := by
  intro s value s' hs hrun
  have hrest : (rest s.peeked.1).run s.peeked.2 = (.ok (.again value), s') := by
    rwa [hturn, bind_run, run_of_ok (run_peek s)] at hrun
  obtain ⟨tokens, hfirst⟩ := s.lookahead_peeked
  obtain ⟨hkind, htaken⟩ := h s.peeked.1 _ _ _ _ hfirst hrest
  rw [hturn, ← peek_bind_run_peeked, ← hturn] at hrun
  exact progress_of_taken hs hkind (continues_of_run (continues_peeked hs).ordered hrun) htaken

/-! ### Skipping -/

theorem progresses_skipTurn (skipping : Skipping) : Progresses (skipTurn skipping) := by
  refine progresses_of_peek rfl fun token => asksBehind_get fun state => ?_
  by_cases hstops : (!skipping.forced && skipping.stopsAt state.previous token) = true
  · rw [if_pos hstops]
    exact asksBehind_done token skipping
  rw [if_neg hstops]
  by_cases hend : token.kind = .endOfFile
  · simp only [hend, if_true]
    intro s rest value s' _ hrun
    rw [bind_run, run_of_ok (run_advance s)] at hrun
    cases hrun
  · exact asksBehind_of_takes _ hend

theorem progresses_lineTurn : Progresses lineTurn := by
  refine progresses_of_peek rfl fun token => ?_
  split
  · exact asksBehind_done token ()
  · rename_i hkind
    exact asksBehind_of_takes _ (by simp [hkind])
  · rename_i hkind _
    exact asksBehind_of_takes _ hkind

/-! ### Lists -/

/-- One turn of skipping commas behind a comma of a list. -/
def commaTurn (bracket : Bracket) : Reading (Turn Unit) := do
  let token ← peek
  if token.kind = .symbol .comma then
    let _ ← advance
    report (.error (.emptyElement bracket) token.span)
    return .again ()
  else return .done ()

theorem extraCommas_eq (bracket : Bracket) :
    extraCommas bracket = iterate (fun _ => commaTurn bracket) () := rfl

instance {bracket : Bracket} {P : Law} [Composes P] : Obeys P (commaTurn bracket) := by
  have (span : Span) : Obeys P (report (.error (.emptyElement bracket) span)) := obeys_report rfl
  unfold commaTurn
  infer_instance

theorem progresses_commaTurn (bracket : Bracket) : Progresses (commaTurn bracket) := by
  refine progresses_of_peek rfl fun token => ?_
  by_cases hkind : token.kind = .symbol .comma
  · rw [if_pos hkind]
    exact asksBehind_of_takes _ (by rw [hkind]; exact nofun)
  · rw [if_neg hkind]
    exact asksBehind_done token ()

theorem accept_run (kind : TokenKind) (s : State) : (accept kind).run s =
    if s.peeked.1.kind = kind then (.ok true, s.advanced) else (.ok false, s.peeked.2) := by
  have hat : (isAt kind).run s = (.ok (decide (s.peeked.1.kind = kind)), s.peeked.2) := by
    rw [isAt, bind_run, run_of_ok (run_peek s)]
    rfl
  rw [accept, bind_run, hat]
  by_cases h : s.peeked.1.kind = kind
  · have hadvance := run_of_ok (run_advance s.peeked.2)
    rw [State.advanced, s.peeked_peeked, ← State.advanced] at hadvance
    simp only [h, decide_true, if_true, bind_run, hadvance]
    rfl
  · simp only [h, decide_false, Bool.false_eq_true, if_false]
    rfl

theorem progresses_element {bracket : Bracket} {item : Reading α} [Obeys order.Kept item]
    [Adds item] (items : Array α) : Progresses (element bracket item items) := by
  refine progresses_of_peek rfl fun token => ?_
  by_cases hends : token.kind = .symbol bracket.closing ∨ token.kind = .endOfFile ∨
      token.kind = .endOfLine
  · rw [if_pos hends]
    exact asksBehind_done token items
  rw [if_neg hends]
  intro s rest value s' _ hrun
  refine ⟨fun hkind => hends (.inr (.inl hkind)), ?_⟩
  -- the comma behind the item is taken in any case
  rw [bind_run] at hrun
  cases hitem : item.run s with
  | mk result middle =>
      rw [hitem] at hrun
      cases result with
      | error problem => cases hrun
      | ok value' =>
          have hgrows := (grows_of_run hitem).consumed
          simp only [bind_run, accept_run] at hrun
          by_cases hcomma : middle.peeked.1.kind = .symbol .comma
          · have htaken := State.consumed_advanced (s := middle) (by rw [hcomma]; exact nofun)
            rw [if_pos hcomma] at hrun
            simp only [if_true] at hrun
            have hmore := (grows_of_run hrun).consumed
            omega
          · rw [if_neg hcomma] at hrun
            cases hrun

/-! ### Expressions -/

theorem progresses_suffix {inner : Reading Expression} [Obeys order.Kept inner] [Adds inner]
    (operand : Expression) : Progresses (suffix inner operand) := by
  refine progresses_of_peek rfl fun token => ?_
  split
  · rename_i hkind
    exact asksBehind_of_takes _ (by simp [hkind])
  · rename_i hkind
    exact asksBehind_of_takes _ (by simp [hkind])
  · exact asksBehind_done token operand

theorem progresses_chainTurn {operand : Reading Expression} [Obeys order.Kept operand]
    [Adds operand] (least : Nat) (left : Expression) :
    Progresses (chainTurn operand least left) := by
  refine progresses_of_peek (bind_assoc _ _ _) fun token => ?_
  by_cases hplus : token.kind = .symbol .plus
  · rw [if_pos hplus]
    exact asksBehind_fail token _ _
  rw [if_neg hplus, pure_bind]
  cases hoperator : Operator.ofToken? token.kind with
  | none => exact asksBehind_done token left
  | some operator =>
      have hkind : token.kind ≠ .endOfFile := by
        intro hkind
        rw [hkind] at hoperator
        cases hoperator
      by_cases hleast : least ≤ operator.precedence
      · simp only [if_pos hleast]
        exact asksBehind_of_takes _ hkind
      · simp only [if_neg hleast]
        exact asksBehind_done token left

/-! ### Bodies -/

theorem progresses_branch {expression : Reading Expression}
    {statement : Reading (Option Statement)} [Obeys order.Kept expression]
    [Obeys order.Kept statement] [Adds expression] [Adds statement] (branches : Branches) :
    Progresses (branch expression statement branches) := by
  refine progresses_of_peek rfl fun token => ?_
  split
  · rename_i hkind
    exact asksBehind_of_takes _ (by simp [hkind])
  · rename_i hkind
    exact asksBehind_of_takes _ (by simp [hkind])
  · exact asksBehind_done token branches

theorem atEnd_run_false {enclosure : Enclosure} (h : enclosure.atEnd.run s = (.ok false, s')) :
    s.peeked.1.kind ≠ .endOfFile ∧ s' = s.peeked.2 := by
  have hpeek := run_of_ok (run_peek s)
  cases enclosure with
  | program =>
      rw [Enclosure.atEnd, atEndOfProgram, bind_run, hpeek] at h
      change (Except.ok (decide _), _) = _ at h
      obtain ⟨hend, rfl⟩ := Prod.mk.inj h
      have hend := of_decide_eq_false (Except.ok.inj hend)
      exact ⟨fun hkind => hend (.inl hkind), rfl⟩
  | braces =>
      rw [Enclosure.atEnd, atEndOfBlock, bind_run, hpeek] at h
      change (Except.ok (decide _), _) = _ at h
      obtain ⟨hend, rfl⟩ := Prod.mk.inj h
      have hend := of_decide_eq_false (Except.ok.inj hend)
      exact ⟨fun hkind => hend (.inr (.inl hkind)), rfl⟩
  | branch inBraces =>
      change (if s.stopped = true then pure true else peek >>= _ : Reading Bool).run s = _ at h
      split at h
      · cases h
      rw [bind_run, hpeek] at h
      simp only at h
      split at h
      · cases h
      · cases h
      · rename_i hkind
        obtain ⟨-, rfl⟩ := Prod.mk.inj h
        exact ⟨by simp [hkind], rfl⟩
      · rename_i hkind _
        obtain ⟨-, rfl⟩ := Prod.mk.inj h
        exact ⟨hkind, rfl⟩

theorem progresses_bodyTurn (enclosure : Enclosure) (level : Nat) (statements : Array Statement) :
    Progresses (bodyTurn enclosure.atEnd (Statement.read level) statements) := by
  intro s value s' hs hrun
  rw [bodyTurn, bind_run] at hrun
  cases hend : enclosure.atEnd.run s with
  | mk result middle =>
      rw [hend] at hrun
      rcases result with problem | (_ | _)
      · cases hrun
      · obtain ⟨hkind, rfl⟩ := atEnd_run_false hend
        have hordered := (continues_peeked hs).ordered
        obtain ⟨statements', last, happend, hcontinues, htaken⟩ :=
          appendStatement_progress level statements hordered (by rwa [s.peeked_peeked])
        rw [s.peeked_peeked] at hcontinues htaken
        simp only [Bool.false_eq_true, if_false, bind_run, happend] at hrun
        obtain ⟨-, rfl⟩ := Prod.mk.inj hrun
        exact progress_of_taken hs hkind hcontinues htaken
      · cases hrun

end Reading

end ConfLang
