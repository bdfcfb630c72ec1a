import ConfLang.Proofs.Likeness.Expression

/-!
# Reading bodies alike

What is skipped after a problem, and where a body ends, depends on kinds of tokens and on
whether a token stands on the line of the one before it.  The second question is asked only
once a token was taken, so it does not matter what the place of the last token is before that.

The statements of a body are collected behind others, which need not be alike.
-/

namespace ConfLang.Likeness

open Reading StateLikeness

variable {L : Likeness} {n : Nesting} {K : Lasting}

/-! ## Going on after a problem -/

theorem alike_skipLine : L.Alike n K skipLine skipLine same := by
  unfold skipLine
  refine Alike.map (V := same) ?_ fun _ _ _ _ => rfl
  refine (Alike.iterate (K := K) (V := same) (fun _ _ => ?_) ?_ ?_ () ()).weaken
    (fun s hs => ⟨hs, rfl⟩) fun _ _ _ _ hv => hv
  · refine alike_peek.bind fun token₁ token₂ => .of_kind (fun s hs => hs.2) (fun hkind => ?_)
      (fun _ _ hkind hkind' => ?_) fun _ _ hkind hkind' => ?_
    · rw [hkind]
      split
      · exact alike_pure fun _ _ => rfl
      · exact alike_advance.bind fun _ _ => alike_pure fun _ _ => rfl
      · exact alike_advance.bind fun _ _ => alike_pure fun _ _ => rfl
    all_goals
      rw [hkind, hkind']
      exact alike_advance.bind fun _ _ => alike_pure fun _ _ => rfl
  all_goals
    refine watches_of_peek (fun _ => rfl) fun {_ token _ _ _} hkind => ?_
    simp only [hkind]
    intro hdone
    cases hdone

/-- Skipping that does not depend on the place of the last token, or takes place behind a
token. -/
def skippingAlike (first second : Skipping) : Lasting :=
  (same first second).and (.given (first.forced = false) .begun)

theorem stopsAt_alike {s t : State} (hst : L.state n s t) (skipping : Skipping)
    (hbegun : 0 < s.consumed) {token₁ token₂ : Token} (htoken : L.token token₁ token₂ s) :
    skipping.stopsAt t.previous token₂ = skipping.stopsAt s.previous token₁ := by
  have hline := L.line hst hbegun htoken
  have hsame : (token₂.span.line != t.previous.line) = (token₁.span.line != s.previous.line) := by
    simp only [bne, Bool.beq_eq_decide_eq, hline]
  have hkinds := L.token_kind htoken
  unfold Skipping.stopsAt
  generalize token₁.kind = kind₁, token₂.kind = kind₂ at hkinds
  cases hkinds with
  | same kind =>
      split <;> try rfl
      rw [hsame]
  | name _ => exact congrArg (skipping.isOutermost && ·) hsame
  | string _ => rfl

theorem skip_alike {like : String → String → Prop} {kind₁ kind₂ : TokenKind}
    (h : kind₁.Like like kind₂) (skipping : Skipping) : skipping.skip kind₂ = skipping.skip kind₁ := by
  cases h <;> rfl

theorem alike_skipTurn (first second : Skipping) :
    L.Alike n (K.and (skippingAlike first second)) (skipTurn first) (skipTurn second)
      (turned skippingAlike) := by
  refine .of_known (fun s hs => hs.2.1) ?_
  rintro rfl
  intro s t ⟨hst, hs⟩
  obtain ⟨hst', hlater, htoken⟩ := alike_peeked hst
  have hskipping := (skippingAlike second second).lasts hlater.grows hs.2
  have hstops : (!second.forced && second.stopsAt t.peeked.2.previous t.peeked.1) =
      (!second.forced && second.stopsAt s.peeked.2.previous s.peeked.1) := by
    cases hforced : second.forced with
    | true => rfl
    | false => rw [stopsAt_alike hst' second (hskipping.2 hforced) htoken]
  rw [run_skipTurn, run_skipTurn, hstops, skip_alike (L.token_kind htoken),
    if_congr (endOfFile_iff htoken) rfl rfl]
  split
  · exact ⟨hst', hlater, hskipping⟩
  · have hadvance := alike_advance_begun (K := .sure True) _ _ ⟨hst', trivial⟩
    rw [run_advance, run_advance, State.peeked_peeked, State.peeked_peeked] at hadvance
    obtain ⟨hafter, hlater', -, hbegun⟩ := hadvance
    have hnoted : Later s.peeked.2 t.peeked.2 (s.peeked.2.advanced.note (.skipped s.peeked.1))
        (t.peeked.2.advanced.note (.skipped t.peeked.1)) :=
      hlater'.trans ⟨State.precedes_note _ _, State.precedes_note _ _⟩
    refine ⟨L.note _ _ hafter, hlater.trans hnoted, ?_⟩
    split
    · exact (skippingAlike second second).lasts hnoted.grows hskipping
    · rename_i hkind
      exact ⟨rfl, fun _ => hbegun hkind⟩

theorem watches_skipTurn : Watches skipTurn skipTurn := by
  refine ⟨fun {skipping s skipping' s'} hrun => ?_⟩
  rw [run_skipTurn] at hrun ⊢
  rw [State.peeked_peeked]
  refine ⟨fun hkind => ?_, hrun⟩
  simp only [hkind, if_true] at hrun
  split at hrun <;> cases hrun

theorem alike_skipTurns (first second : Skipping) :
    L.Alike n (K.and (skippingAlike first second)) (iterate skipTurn first)
      (iterate skipTurn second) skippingAlike :=
  .iterate alike_skipTurn watches_skipTurn watches_skipTurn first second

/-- Recovery, if it is known alike whether anything was taken since it was looked last. -/
theorem alike_recover {start start' : Nat}
    (hstart : ∀ s t, L.state n s t → K s →
      start ≤ s.consumed ∧ (s.consumed = start ↔ t.consumed = start')) :
    L.Alike n K (recover start) (recover start') same := by
  unfold recover
  refine alike_get fun s t hst hs => ?_
  obtain ⟨hle, hsame⟩ := hstart s t hst hs
  have hforced : (t.consumed == start') = (s.consumed == start) := by
    rw [Bool.beq_eq_decide_eq, Bool.beq_eq_decide_eq, decide_eq_decide, hsame]
  simp only [hforced]
  refine Alike.map (V := skippingAlike) ?_ fun _ _ _ _ => rfl
  refine (alike_skipTurns (K := K) _ _).weaken ?_ fun _ _ _ _ hv => hv
  intro s' hs'
  refine ⟨hs'.1, rfl, fun hconsumed => ?_⟩
  simp only [beq_eq_false_iff_ne] at hconsumed
  exact Lasting.begun.lasts hs'.2 (by rw [Lasting.begun_holds]; omega)

/-! ## Names declared twice -/

/-- Names with alike places. -/
def seenAlike (L : Likeness) (first second : FirstDeclarations) : Lasting :=
  .all (fun entry entry' => (Lasting.sure (entry'.1 = entry.1)).and (L.place entry.2 entry'.2))
    first second

/-- Diagnostics of the same severity with alike problems. -/
def diagnosticAlike (L : Likeness) (first second : Diagnostic) : Lasting :=
  (L.problem first.toProblem second.toProblem).and (.sure (second.severity = first.severity))

theorem seenAlike_lookup {seen seen' : FirstDeclarations} {s : State}
    (h : L.seenAlike seen seen' s) (name : String) :
    Lasting.option L.place (seen.lookup name) (seen'.lookup name) s := by
  simp only [seenAlike, Lasting.all_holds] at h
  induction h with
  | nil => trivial
  | @cons entry entry' rest rest' hentry _ ih =>
      obtain ⟨hname, hspan⟩ := hentry
      rw [Lasting.sure_holds] at hname
      rw [List.lookup_cons, List.lookup_cons, hname]
      split
      · exact hspan
      · exact ih

theorem noteDeclaration_alike {b : Bool} {seen seen' : FirstDeclarations}
    {statement statement' : Statement} {s : State} (hcounts : ¬ L.muted s)
    (hseen : L.seenAlike seen seen' s) (hstatement : L.statement b statement statement' s) :
    L.seenAlike (noteDeclaration seen statement).1 (noteDeclaration seen' statement').1 s ∧
      Lasting.option L.diagnosticAlike (noteDeclaration seen statement).2
        (noteDeclaration seen' statement').2 s := by
  have hdeclared := L.statement_declared hstatement
  unfold noteDeclaration
  cases hfirst : statement.declaredName? <;> cases hsecond : statement'.declaredName? <;>
    simp only [hfirst, hsecond, Lasting.option] at hdeclared ⊢
  · exact ⟨hseen, trivial⟩
  · exact hdeclared.elim
  · exact hdeclared.elim
  · rename_i name name'
    have hlookup := seenAlike_lookup hseen name.name
    rw [(L.identifier_name hdeclared).resolve_right hcounts]
    cases hplace : seen.lookup name.name <;> cases hplace' : seen'.lookup name.name <;>
      simp only [hplace, hplace', Lasting.option] at hlookup ⊢
    · exact ⟨.cons ⟨rfl, L.identifier_place hdeclared⟩ hseen, trivial⟩
    · exact hlookup.elim
    · exact hlookup.elim
    · exact ⟨hseen, ⟨L.identifier_span hdeclared, .inl ⟨_, hlookup, rfl⟩⟩, rfl⟩

theorem duplicateWarnings_alike {b : Bool} {statements statements' : List Statement} {s : State}
    (hcounts : ¬ L.muted s) (h : Lasting.all (L.statement b) statements statements' s) :
    ∀ {seen seen' : FirstDeclarations}, L.seenAlike seen seen' s →
      Lasting.all L.diagnosticAlike (duplicateWarnings seen statements)
        (duplicateWarnings seen' statements') s := by
  rw [Lasting.all_holds] at h
  induction h with
  | nil => exact fun _ => .nil
  | cons hstatement _ ih =>
      intro seen seen' hseen
      obtain ⟨hseen', hwarning⟩ := noteDeclaration_alike hcounts hseen hstatement
      exact List.rel_append (Lasting.all_toList hwarning) (ih hseen')

theorem alike_foldl_report {diagnostics diagnostics' : List Diagnostic} {s t : State}
    (hst : L.state n s t) (h : Lasting.all L.diagnosticAlike diagnostics diagnostics' s) :
    L.state n (diagnostics.foldl State.report s) (diagnostics'.foldl State.report t) := by
  rw [Lasting.all_holds] at h
  induction diagnostics generalizing diagnostics' s t with
  | nil =>
      obtain rfl := List.forall₂_nil_left_iff.mp h
      exact hst
  | cons diagnostic rest ih =>
      obtain ⟨diagnostic', rest', ⟨hproblem, hseverity⟩, hrest, rfl⟩ :=
        List.forall₂_cons_left_iff.mp h
      have hgrows := s.grows_report diagnostic
      rw [List.foldl_cons, List.foldl_cons]
      exact ih (L.report hst hproblem.1 hproblem.2 hseverity)
        (hrest.imp fun _ _ => (L.diagnosticAlike _ _).lasts hgrows)

/-- Where it does not count what is reported, there may be any warnings on both sides. -/
theorem alike_foldl_warnings {warnings warnings' : List Diagnostic} {s t : State}
    (hmuted : L.muted s) (hst : L.state n s t)
    (hwarnings : ∀ diagnostic ∈ warnings, diagnostic.isError = false)
    (hwarnings' : ∀ diagnostic ∈ warnings', diagnostic.isError = false) :
    L.state n (warnings.foldl State.report s) (warnings'.foldl State.report t) := by
  induction warnings generalizing s with
  | nil =>
      clear hwarnings
      induction warnings' generalizing t with
      | nil => exact hst
      | cons warning rest ih =>
          rw [List.forall_mem_cons] at hwarnings'
          exact ih hwarnings'.2 (L.warning warning hmuted hst hwarnings'.1).2
  | cons warning rest ih =>
      rw [List.forall_mem_cons] at hwarnings
      exact ih (L.muted.lasts (s.grows_report warning) hmuted)
        (L.warning warning hmuted hst hwarnings.1).1 hwarnings.2

theorem alike_warnDuplicates {b : Bool} {statements statements' : List Statement}
    (h : ∀ s, K s → Lasting.all (L.statement b) statements statements' s) :
    L.Alike n K (warnDuplicates statements) (warnDuplicates statements')
      (fun _ _ => .sure True) := by
  refine alike_modify fun s t hst hs =>
    ⟨?_, State.precedes_foldl_report _ _, State.precedes_foldl_report _ _⟩
  by_cases hmuted : L.muted s
  · exact alike_foldl_warnings hmuted hst (isError_duplicateWarnings _ _)
      (isError_duplicateWarnings _ _)
  · exact alike_foldl_report hst (duplicateWarnings_alike hmuted (h s hs) .nil)

/-! ## Statement by statement -/

variable {b : Bool} {statement statement' : Reading (Option Statement)}

/-- What was collected behind two bases, which need not be alike. -/
def appended (L : Likeness) (b : Bool) (base base' : List Statement)
    (first second : Array Statement) : Lasting where
  holds s := ∃ statements statements', first.toList = base ++ statements ∧
    second.toList = base' ++ statements' ∧ Lasting.all (L.statement b) statements statements' s
  lasts hgrows := by
    rintro ⟨statements, statements', hfirst, hsecond, h⟩
    exact ⟨statements, statements', hfirst, hsecond, (Lasting.all _ _ _).lasts hgrows h⟩

variable {base base' : List Statement}

theorem appended_nil {first second : Array Statement} (s : State) :
    L.appended b first.toList second.toList first second s :=
  ⟨[], [], by simp, by simp, .nil⟩

theorem appended_push {first second : Array Statement} {x x' : Statement} {s : State}
    (h : L.appended b base base' first second s) (hx : L.statement b x x' s) :
    L.appended b base base' (first.push x) (second.push x') s := by
  obtain ⟨statements, statements', hfirst, hsecond, hstatements⟩ := h
  refine ⟨statements ++ [x], statements' ++ [x'], ?_, ?_, List.rel_append hstatements (.cons hx .nil)⟩
  · rw [Array.toList_push, hfirst, List.append_assoc]
  · rw [Array.toList_push, hsecond, List.append_assoc]

theorem appended_base {first second : Array Statement} {s : State}
    (h : L.appended b [] [] first second s) :
    Lasting.all (L.statement b) first.toList second.toList s := by
  obtain ⟨statements, statements', hfirst, hsecond, hstatements⟩ := h
  rw [hfirst, hsecond]
  exact hstatements

/-- The states before a statement need not be alike if those behind it are, and if it is
known alike whether anything was taken in between. -/
theorem alike_appendStatementFrom {related : State → State → Prop} {first second : Array Statement}
    (h : L.AlikeFrom related n statement statement' (.option (L.statement b)))
    (hconsumed : ∀ {s t s' t'}, related s t → L.state n s' t' →
      (s'.consumed = s.consumed ↔ t'.consumed = t.consumed))
    (hvalue : ∀ {s t}, related s t → L.appended b base base' first second s) :
    L.AlikeFrom related n (appendStatement statement first) (appendStatement statement' second)
      (L.appended b base base') := by
  intro s t hst
  have hknown : (fun s' : State => L.appended b base base' first second s') s := hvalue hst
  unfold appendStatement
  rw [EStateM.run_bind, EStateM.run_bind, EStateM.run_get, EStateM.run_get]
  refine AlikeFrom.bind (R := fun s' t' => s' = s ∧ t' = t)
    (V := fun result result' => (Lasting.since s).and
      ((L.appended b base base' first second).and
        (L.attempted (.option (L.statement b)) result result')))
    ?_ (fun result result' => ?_) s t ⟨rfl, rfl⟩
  · rintro _ _ ⟨rfl, rfl⟩
    exact (h.attempt _ _ hst).imp fun _ _ s' hgrows hresult =>
      ⟨hgrows, (L.appended b base base' first second).lasts hgrows hknown, hresult⟩
  · match result, result' with
    | .ok none, .ok none => exact alike_pure fun s' hs' => hs'.2.1
    | .ok (some x), .ok (some x') =>
        exact alike_pure fun s' hs' => appended_push hs'.2.1 hs'.2.2
    | .ok none, .ok (some _) => exact .of_known (fun s' hs' => hs'.2.2) False.elim
    | .ok (some _), .ok none => exact .of_known (fun s' hs' => hs'.2.2) False.elim
    | .ok _, .error _ => exact .of_known (fun s' hs' => hs'.2.2) False.elim
    | .error _, .ok _ => exact .of_known (fun s' hs' => hs'.2.2) False.elim
    | .error problem, .error problem' =>
        refine Alike.bind (alike_report (fun s' hs' => hs'.2.2) (by rfl)) fun _ _ => ?_
        refine Alike.bind (alike_recover fun s' t' hst' hs' => ?_) fun _ _ => ?_
        · exact ⟨hs'.1.1.consumed, hconsumed hst hst'⟩
        · exact alike_pure fun s' hs' => hs'.1.1.2.1

theorem alike_appendStatement
    (h : ∀ K, L.Alike n K statement statement' (.option (L.statement b)))
    (first second : Array Statement) :
    L.Alike n (K.and (L.appended b base base' first second)) (appendStatement statement first)
      (appendStatement statement' second) (L.appended b base base') :=
  alike_appendStatementFrom (h _) (fun hst hst' => L.consumed hst.1 hst') fun hst => hst.2.2

/-- One turn of reading statements until a body ends. -/
theorem alike_statementTurn {atEnd atEnd' : Reading Bool}
    (hend : ∀ K, L.Alike n K atEnd atEnd' same)
    (h : ∀ K, L.Alike n K statement statement' (.option (L.statement b)))
    (first second : Array Statement) :
    L.Alike n (K.and (L.appended b base base' first second))
      (bodyTurn atEnd statement first) (bodyTurn atEnd' statement' second)
      (turned (L.appended b base base')) := by
  refine (hend _).bind_same fun isEnd => ?_
  split
  · exact alike_pure fun s hs => hs.2
  · exact (alike_appendStatement h first second).bind fun _ _ => alike_pure fun s hs => hs.2

theorem alike_goOn (h : ∀ K, L.Alike n K statement statement' (.option (L.statement b)))
    (first second : Array Statement) :
    L.Alike n (K.and (L.appended b base base' first second))
      (Turn.again <$> appendStatement statement first)
      (Turn.again <$> appendStatement statement' second) (turned (L.appended b base base')) :=
  (alike_appendStatement h first second).map fun _ _ _ hv => hv

theorem alike_statementTurns {atEnd atEnd' : Reading Bool}
    (hend : ∀ K, L.Alike n K atEnd atEnd' same)
    (hwatches : WatchesEnd atEnd) (hwatches' : WatchesEnd atEnd')
    (h : ∀ K, L.Alike n K statement statement' (.option (L.statement b)))
    (first second : Array Statement) :
    L.Alike n (K.and (L.appended b base base' first second))
      (iterate (bodyTurn atEnd statement) first) (iterate (bodyTurn atEnd' statement') second)
      (L.appended b base base') :=
  .iterate_behind (V := L.appended b base base') (alike_statementTurn hend h)
    (alike_goOn h) (watches_bodyTurn hwatches) (watches_bodyTurn hwatches') first second

theorem alike_statementsUntil {atEnd atEnd' : Reading Bool}
    (hend : ∀ K, L.Alike n K atEnd atEnd' same)
    (hwatches : WatchesEnd atEnd) (hwatches' : WatchesEnd atEnd')
    (h : ∀ K, L.Alike n K statement statement' (.option (L.statement b))) :
    L.Alike n K (statementsUntil atEnd statement) (statementsUntil atEnd' statement')
      (.all (L.statement b)) := by
  rw [statementsUntil_eq, statementsUntil_eq]
  refine Alike.bind (V := L.appended b [] []) ?_ fun first second => ?_
  · have hturns : L.Alike n (K.and (L.appended b [] [] #[] #[])) _ _ (L.appended b [] []) :=
      alike_statementTurns hend hwatches hwatches' h #[] #[]
    exact hturns.weaken (fun s hs => ⟨hs, appended_nil s⟩) fun _ _ _ _ hv => hv
  · exact alike_pure fun s hs => appended_base hs.2

/-! ## Where a body ends -/

theorem alike_atEndOfProgram : L.Alike n K atEndOfProgram atEndOfProgram same := by
  unfold atEndOfProgram
  refine alike_peek.bind fun token₁ token₂ => .of_kind_iff .endOfFile rfl
    (fun s hs => hs.2) fun hend => ?_
  refine alike_get fun s t hst _ => alike_pure fun s' hs' => ?_
  simp only [same, Lasting.sure_holds, hend, L.stopped hst]

theorem alike_atEndOfBlock : L.Alike n K atEndOfBlock atEndOfBlock same := by
  unfold atEndOfBlock
  refine alike_peek.bind fun token₁ token₂ => .of_kind_iff (.symbol .closeBrace) rfl
    (fun s hs => hs.2) fun hclose => .of_kind_iff .endOfFile rfl (fun s hs => hs.2)
      fun hend => ?_
  refine alike_get fun s t hst _ => alike_pure fun s' hs' => ?_
  simp only [same, Lasting.sure_holds, hclose, hend, L.stopped hst]

theorem alike_atEndOfBranch (inBraces : Bool) :
    L.Alike n K (atEndOfBranch inBraces) (atEndOfBranch inBraces) same := by
  unfold atEndOfBranch
  refine alike_get fun s t hst _ => ?_
  rw [L.stopped hst]
  split
  · exact alike_pure fun _ _ => rfl
  · refine alike_peek.bind fun token₁ token₂ => .of_kind (fun s hs => hs.2) (fun hkind => ?_)
      (fun _ _ hkind hkind' => ?_) fun _ _ hkind hkind' => ?_
    · rw [hkind]
      split <;> exact alike_pure fun _ _ => rfl
    all_goals
      rw [hkind, hkind']
      exact alike_pure fun _ _ => rfl

/-! ## Bodies -/

theorem alike_program
    (h : ∀ K, L.Alike n K statement statement' (.option (L.statement b))) :
    L.Alike n K (program statement) (program statement') fun first second =>
      .all (L.statement b) first.statements second.statements := by
  unfold program
  refine (alike_note _ _).bind fun _ _ => ?_
  refine (alike_statementsUntil (fun _ => alike_atEndOfProgram) watchesEnd_program watchesEnd_program
    h).bind fun xs xs' => ?_
  refine Alike.bind (alike_warnDuplicates (b := b) fun s hs => hs.2) fun _ _ => ?_
  exact alike_pure fun s hs => hs.1.2

theorem alike_blockAs
    (h : ∀ K, L.Alike n.deeper.inBraces K statement statement' (.option (L.statement b)))
    {expectation expectation' : Expectation}
    (hexpectation : ∀ s, K s → expectation' = expectation ∨ L.muted s) :
    L.Alike n K (block statement expectation) (block statement' expectation') (L.body b) := by
  unfold block
  refine Alike.bind (V := fun first second =>
    (L.place first.1 second.1).and (.all (L.statement b) first.2 second.2)) ?_ fun first second => ?_
  · refine Alike.nested ((alike_expectAs _ hexpectation).bind fun opened opened' => ?_)
    refine Alike.bind (Alike.between (m := n.deeper.inBraces) ?_ ?_
      (alike_statementsUntil (fun _ => alike_atEndOfBlock) watchesEnd_block watchesEnd_block h)) fun xs xs' => ?_
    · exact fun s hs => State.openBrace_eq hs
    · exact fun s hs => State.closeBrace_eq hs
    · exact alike_pure fun s hs => ⟨hs.1.2, hs.2⟩
  · refine Alike.bind (alike_warnDuplicates (b := b) fun s hs => hs.2.2) fun _ _ => ?_
    refine Alike.bind (alike_closing .brace fun s hs => hs.1.2.1) fun close close' => ?_
    refine alike_pure fun s hs => ?_
    obtain ⟨⟨⟨-, hopened, hstatements⟩, -⟩, hclose⟩ := hs
    exact ⟨hstatements, L.span_through (L.place_span hopened) hclose⟩

theorem alike_block
    (h : ∀ K, L.Alike n.deeper.inBraces K statement statement' (.option (L.statement b)))
    (expectation : Expectation) :
    L.Alike n K (block statement expectation) (block statement' expectation) (L.body b) :=
  alike_blockAs h fun _ _ => .inl rfl

theorem alike_branchSpan {statements statements' : List Statement}
    (h : ∀ s, K s → Lasting.all (L.statement b) statements statements' s) :
    L.Alike n K (branchSpan statements) (branchSpan statements') L.span := by
  refine .of_known (fun s hs => (h s hs).length_eq) fun hlength => ?_
  unfold branchSpan
  match statements, statements' with
  | [], [] =>
      exact alike_peek.bind fun _ _ => alike_pure fun s hs => L.span_origin (L.token_span hs.2)
  | first :: rest, first' :: rest' =>
      simp only [List.head?_cons, List.getLast?_eq_some_getLast (List.cons_ne_nil _ _)]
      refine alike_pure fun s hs => ?_
      have hfirst := (List.forall₂_cons.mp (h s hs)).1
      have hlast := Lasting.all_getLast (h s hs) (List.cons_ne_nil _ _) (List.cons_ne_nil _ _)
      exact L.span_through (L.statement_span hfirst) (L.statement_span hlast)
  | [], _ :: _ => simp at hlength
  | _ :: _, [] => simp at hlength

theorem alike_branchBody
    (h : ∀ K, L.Alike n K statement statement' (.option (L.statement b))) :
    L.Alike n K (branchBody statement) (branchBody statement') (L.body b) := by
  unfold branchBody
  refine alike_get fun s t hst _ => ?_
  rw [(L.nesting hst).1, (L.nesting hst).2]
  refine (alike_statementsUntil (fun _ => alike_atEndOfBranch _) watchesEnd_branch watchesEnd_branch
    h).bind fun xs xs' => ?_
  refine Alike.bind (alike_warnDuplicates (b := b) fun s hs => hs.2) fun _ _ => ?_
  refine Alike.bind (alike_branchSpan (b := b) fun s hs => hs.1.2) fun span span' => ?_
  exact alike_pure fun s hs => ⟨hs.1.1.2, hs.2⟩

end ConfLang.Likeness
