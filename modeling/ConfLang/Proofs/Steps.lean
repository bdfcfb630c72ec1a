import ConfLang.Proofs.Growth

/-!
# What single steps of a reading do

The equations of the steps that all readings are made of, each as the result of running
the step in a state.  Proofs about readings use these equations and the ones of the
library for the monad; they need not look into the steps again.
-/

namespace ConfLang.Reading

variable {α σ : Type}

theorem run_fail (cause : Cause) (span : Span) (s : State) :
    EStateM.run (fail cause span : Reading α) s = .error ⟨cause, span⟩ s := rfl

theorem run_note (event : Event) (s : State) : EStateM.run (note event) s = .ok () (s.note event) := rfl

theorem run_report (diagnostic : Diagnostic) (s : State) :
    EStateM.run (report diagnostic) s = .ok () (s.report diagnostic) := rfl

theorem run_scan (s : State) : EStateM.run scan s = .ok s.scan.1 s.scan.2 := rfl

/-- What gives a value in two steps gives one in each. -/
theorem ok_of_run_bind {f : Reading α} {rest : α → Reading σ} {s s' : State} {b : σ}
    (h : EStateM.run (f >>= rest) s = .ok b s') :
    ∃ a middle, EStateM.run f s = .ok a middle ∧ EStateM.run (rest a) middle = .ok b s' := by
  rw [EStateM.run_bind] at h
  cases hf : EStateM.run f s with
  | ok a middle =>
      rw [hf] at h
      exact ⟨a, middle, rfl, h⟩
  | error problem middle =>
      rw [hf] at h
      cases h

theorem run_attempt (f : Reading α) (s : State) :
    EStateM.run (attempt f) s = match EStateM.run f s with
      | .ok value after => .ok (.ok value) after
      | .error problem after => .ok (.error problem) after := rfl

theorem run_between (opening closing : State → State) (f : Reading α) (s : State) :
    EStateM.run (between opening closing f) s = match EStateM.run f (opening s) with
      | .ok value after => .ok value (closing after)
      | .error problem after => .error problem (closing after) := by
  simp only [between, EStateM.run_bind, EStateM.run_modify, run_attempt]
  cases EStateM.run f (opening s) <;> rfl

/-- A repetition does its step once, and goes on if that took something. -/
theorem run_iterate (step : σ → Reading (Turn σ)) (value : σ) (s : State) :
    EStateM.run (iterate step value) s = match EStateM.run (step value) s with
      | .ok (.done value') after => .ok value' after
      | .ok (.again value') after =>
        if after.remaining < s.remaining then EStateM.run (iterate step value') after
        else .ok value' after
      | .error problem after => .error problem after := by
  simp only [EStateM.run]
  exact iterate.eq_1 step value s

end ConfLang.Reading

/-! ## Nesting -/

namespace ConfLang

/-- The nesting inside one more construct. -/
def Nesting.deeper (nesting : Nesting) : Nesting :=
  { nesting with depth := nesting.depth + 1 }

/-- The nesting inside one more pair of braces. -/
def Nesting.inBraces (nesting : Nesting) : Nesting :=
  { nesting with braces := nesting.braces + 1 }

/-- The nesting inside one more conditional directive block. -/
def Nesting.inChain (nesting : Nesting) : Nesting :=
  { nesting with chains := nesting.chains + 1 }

/-- The nesting inside the condition of a directive. -/
def Nesting.conditional (nesting : Nesting) : Nesting :=
  { nesting with inCondition := true }

namespace State

variable {s : State} {n : Nesting}

theorem enter_eq (h : s.nesting = n) : s.enter = { s with nesting := n.deeper } := h ▸ rfl

theorem leave_eq (h : s.nesting = n.deeper) : s.leave = { s with nesting := n } := by
  simp [leave, h, Nesting.deeper]

theorem openBrace_eq (h : s.nesting = n) : s.openBrace = { s with nesting := n.inBraces } :=
  h ▸ rfl

theorem closeBrace_eq (h : s.nesting = n.inBraces) : s.closeBrace = { s with nesting := n } := by
  simp [closeBrace, h, Nesting.inBraces]

theorem openChain_eq (h : s.nesting = n) : s.openChain = { s with nesting := n.inChain } :=
  h ▸ rfl

theorem closeChain_eq (h : s.nesting = n.inChain) : s.closeChain = { s with nesting := n } := by
  simp [closeChain, h, Nesting.inChain]

theorem setCondition_true_eq (h : s.nesting = n) :
    s.setCondition true = { s with nesting := n.conditional } := h ▸ rfl

theorem setCondition_false_eq (hcondition : n.inCondition = false)
    (h : s.nesting = n.conditional) : s.setCondition false = { s with nesting := n } := by
  simp [setCondition, h, Nesting.conditional, ← hcondition]

end State

end ConfLang

/-! ## Tokens -/

namespace ConfLang.State

/-- The current token, and the state after looking at it. -/
def peeked (s : State) : Token × State :=
  match s.lookahead with
  | token :: _ => (token, s)
  | [] => s.scan

theorem peeked_of_cons {s : State} {token : Token} {rest : List Token}
    (h : s.lookahead = token :: rest) : s.peeked = (token, s) := by
  simp [peeked, h]

theorem peeked_of_nil {s : State} (h : s.lookahead = []) : s.peeked = s.scan := by
  simp [peeked, h]

/-- A report touches nothing but the diagnostics, their count, and the log. -/
theorem report_frame (s : State) (diagnostic : Diagnostic) : s.report diagnostic =
    { s with
      diagnostics := (s.report diagnostic).diagnostics
      errorCount := (s.report diagnostic).errorCount
      stopped := (s.report diagnostic).stopped
      log := (s.report diagnostic).log } := by
  unfold report
  split
  · rfl
  · simp only
    split
    · unfold countError
      simp only
      split
      · split <;> rfl
      · rfl
    · rfl

theorem foldl_report_frame (diagnostics : List Diagnostic) (s : State) :
    diagnostics.foldl report s =
      { s with
        diagnostics := (diagnostics.foldl report s).diagnostics
        errorCount := (diagnostics.foldl report s).errorCount
        stopped := (diagnostics.foldl report s).stopped
        log := (diagnostics.foldl report s).log } := by
  induction diagnostics generalizing s with
  | nil => rfl
  | cons diagnostic rest ih =>
      rw [List.foldl_cons, ih, report_frame]

theorem lookahead_foldl_report (diagnostics : List Diagnostic) (s : State) :
    (diagnostics.foldl report s).lookahead = s.lookahead := by
  rw [foldl_report_frame]

/-- The state with one more token looked at, before what is wrong on the way to it is
reported. -/
def looked (s : State) : State :=
  { s with
    cursor := s.cursor.next.cursor
    lookahead := s.lookahead ++ [s.cursor.next.token] }

theorem scan_eq (s : State) : s.scan =
    (s.cursor.next.token, (s.cursor.next.problems.map Problem.diagnostic).foldl report s.looked) := by
  rw [scan, reportAll, List.foldl_map]
  rfl

theorem lookahead_scan (s : State) : s.scan.2.lookahead = s.lookahead ++ [s.scan.1] := by
  rw [scan_eq, lookahead_foldl_report]
  rfl

/-- Looking at the current token leaves it in front of all tokens that were looked at. -/
theorem lookahead_peeked (s : State) : ∃ rest, s.peeked.2.lookahead = s.peeked.1 :: rest := by
  cases h : s.lookahead with
  | nil => exact ⟨[], by rw [peeked_of_nil h, lookahead_scan, h, List.nil_append]⟩
  | cons token rest => exact ⟨rest, by rw [peeked_of_cons h, h]⟩

theorem grows_peeked (s : State) : s.Grows s.peeked.2 := by
  cases h : s.lookahead with
  | nil =>
      rw [peeked_of_nil h]
      exact s.grows_scan
  | cons token rest => rw [peeked_of_cons h]

theorem nesting_peeked (s : State) : s.peeked.2.nesting = s.nesting := by
  cases h : s.lookahead with
  | nil =>
      rw [peeked_of_nil h, scan_eq, foldl_report_frame]
      rfl
  | cons token rest => rw [peeked_of_cons h]

/-- Looking twice is looking once. -/
theorem peeked_peeked (s : State) : s.peeked.2.peeked = s.peeked := by
  obtain ⟨rest, hrest⟩ := s.lookahead_peeked
  rw [peeked_of_cons hrest]

/-- The state after taking the current token. -/
def advanced (s : State) : State :=
  if s.peeked.1.kind = .endOfFile then s.peeked.2 else s.peeked.2.take s.peeked.1

end ConfLang.State

namespace ConfLang.Reading

theorem run_peek (s : State) : EStateM.run peek s = .ok s.peeked.1 s.peeked.2 := by
  rw [peek, EStateM.run_bind, EStateM.run_get]
  cases h : s.lookahead with
  | nil => simp only [State.peeked_of_nil h, h, run_scan]
  | cons token rest => simp only [State.peeked_of_cons h, h, EStateM.run_pure]

theorem run_advance (s : State) : EStateM.run advance s = .ok s.peeked.1 s.advanced := by
  simp only [advance, EStateM.run_bind, run_peek, State.advanced]
  by_cases h : s.peeked.1.kind = .endOfFile
  · simp [h]
  · simp only [h, if_false]
    rfl

/-- Behind the current token one more is looked at, and nothing is taken. -/
theorem run_peekSecond {s : State} {token : Token} {rest : List Token}
    (h : s.lookahead = token :: rest) :
    ∃ second s', EStateM.run peekSecond s = .ok second s' ∧
      (∃ rest', s'.lookahead = token :: second :: rest') ∧
      (rest = [] ∧ s' = s.scan.2 ∨ s' = s ∧ ∃ rest', rest = second :: rest') := by
  simp only [peekSecond, EStateM.run_bind, run_peek, State.peeked_of_cons h, EStateM.run_get, h]
  cases rest with
  | nil =>
      refine ⟨_, _, run_scan s, ⟨[], ?_⟩, .inl ⟨rfl, rfl⟩⟩
      rw [State.lookahead_scan, h, List.singleton_append]
  | cons second rest' => exact ⟨second, s, rfl, ⟨rest', h⟩, .inr ⟨rfl, rest', rfl⟩⟩

/-- Raw text is read from the source unless a token was looked at already. -/
theorem run_rawText_of_nil {s : State} (h : s.lookahead = []) :
    EStateM.run rawText s =
      .ok (s.cursor.rawLine.text, s.cursor.rawLine.span) (s.takeRaw s.cursor.rawLine) := by
  rw [rawText, EStateM.run_bind, EStateM.run_get]
  simp only [h, EStateM.run_bind, EStateM.run_modify, EStateM.run_pure]

theorem run_rawText_of_cons {s : State} {token : Token} {rest : List Token}
    (h : s.lookahead = token :: rest) :
    EStateM.run rawText s = .ok ("", token.span.origin) s := by
  rw [rawText, EStateM.run_bind, EStateM.run_get]
  simp only [h, EStateM.run_pure]

/-- A round of skipping, after the current token was looked at. -/
theorem run_skipTurn (skipping : Skipping) (s : State) :
    EStateM.run (skipTurn skipping) s =
      if !skipping.forced && skipping.stopsAt s.peeked.2.previous s.peeked.1 then
        .ok (.done skipping) s.peeked.2
      else .ok (if s.peeked.1.kind = .endOfFile then .done skipping
          else .again (skipping.skip s.peeked.1.kind))
        (s.peeked.2.advanced.note (.skipped s.peeked.1)) := by
  simp only [skipTurn, EStateM.run_bind, run_peek, EStateM.run_get]
  split
  · rfl
  · simp only [EStateM.run_bind, run_advance, run_note]
    split <;> rfl

end ConfLang.Reading

/-! ## Chains of operators -/

namespace ConfLang.Reading

/-- One turn of reading a chain: an operator that binds tightly enough, and its right side. -/
def chainTurn (operand : Reading Expression) (least : Nat) (left : Expression) :
    Reading (Turn Expression) := do
  match ← operator? with
  | none => return .done left
  | some operator =>
    if least ≤ operator.precedence then
      let _ ← advance
      let right ← chain operand (operator.precedence + 1)
      return .again (.binary operator left right (left.span.through right.span))
    else return .done left

theorem chain_eq (operand : Reading Expression) (least : Nat) :
    chain operand least = operand >>= iterate (chainTurn operand least) := by
  rw [chain]
  rfl

end ConfLang.Reading

/-! ## Primary expressions -/

namespace ConfLang.Reading

/-- The rest of a primary expression, once its first token was looked at. -/
def primaryAt (inner : Reading Expression) (token : Token) : Reading Expression :=
  match token.kind with
  | .integer value => do
    let _ ← advance
    return .integer value token.span
  | .float value => do
    let _ ← advance
    return .float value token.span
  | .string text => do
    let _ ← advance
    return .string text token.span
  | .name text true => do
    let _ ← advance
    return .name ⟨text, true, token.span⟩
  | .name text false => do
    if ← isDefinedQuestion text then definedQuestion
    else
      let _ ← advance
      return .name ⟨text, false, token.span⟩
  | .symbol .openParen => do
    let _ ← advance
    let expression ← nested inner
    let close ← closing .paren token.span
    return .group expression (token.span.through close)
  | .symbol .openBracket => do
    let _ ← advance
    let (expressions, close) ← nested (elements .square token.span inner)
    return .array expressions (token.span.through close)
  | _ => unexpected .expression

theorem primary_eq (inner : Reading Expression) : primary inner = peek >>= primaryAt inner := rfl

/-- The kinds of tokens that a primary expression can begin with. -/
theorem primaryAt_cases {inner : Reading Expression} {token : Token}
    {motive : Reading Expression → Prop}
    (integer : ∀ value, token.kind = .integer value →
      motive (advance >>= fun _ => pure (.integer value token.span)))
    (float : ∀ value, token.kind = .float value →
      motive (advance >>= fun _ => pure (.float value token.span)))
    (string : ∀ text, token.kind = .string text →
      motive (advance >>= fun _ => pure (.string text token.span)))
    (quoted : ∀ text, token.kind = .name text true →
      motive (advance >>= fun _ => pure (.name ⟨text, true, token.span⟩)))
    (bare : ∀ text, token.kind = .name text false →
      motive (isDefinedQuestion text >>= fun asks => if asks = true then definedQuestion
        else advance >>= fun _ => pure (.name ⟨text, false, token.span⟩)))
    (group : token.kind = .symbol .openParen →
      motive (advance >>= fun _ => nested inner >>= fun e => closing .paren token.span >>=
        fun close => pure (.group e (token.span.through close))))
    (array : token.kind = .symbol .openBracket →
      motive (advance >>= fun _ => nested (elements .square token.span inner) >>=
        fun list => pure (.array list.1 (token.span.through list.2))))
    (other : motive (unexpected .expression)) : motive (primaryAt inner token) := by
  obtain ⟨kind, span⟩ := token
  cases kind with
  | integer value => exact integer value rfl
  | float value => exact float value rfl
  | string text => exact string text rfl
  | name text isQuoted =>
      cases isQuoted with
      | true => exact quoted text rfl
      | false => exact bare text rfl
  | symbol sign =>
      cases sign with
      | openParen => exact group rfl
      | openBracket => exact array rfl
      | _ => exact other
  | _ => exact other

end ConfLang.Reading

/-! ## Statements -/

namespace ConfLang.Reading

/-- The rest of a statement, once its first token was looked at. -/
def statementAt (expression : Reading Expression) (inner : Inner) (token : Token) :
    Reading (Option Statement) :=
  match token.kind with
  | .opener kind => conditionalFrom kind token.span inner.expression inner.statement
  | .message severity => some <$> message severity
  | .passage text => do
    let _ ← advance
    return some (.passage text token.span)
  | .mark which => do
    fail (.strayMark which (← get).nesting.chains) token.span
  | .keyword .constant => some <$> constant expression
  | .keyword .group => some <$> group inner.statement
  | .keyword .ifWord => some <$> choice expression inner.statement
  | .name _ _ => some <$> assignment expression
  | _ => unexpected .statement

theorem statement_eq (expression : Reading Expression) (inner : Inner) :
    statement expression inner = peek >>= statementAt expression inner := rfl

/-- The kinds of tokens that a statement can begin with. -/
theorem statementAt_cases {expression : Reading Expression} {inner : Inner} {token : Token}
    {motive : Reading (Option Statement) → Prop}
    (opener : ∀ kind, token.kind = .opener kind →
      motive (conditionalFrom kind token.span inner.expression inner.statement))
    (message : ∀ severity, token.kind = .message severity →
      motive (some <$> Reading.message severity))
    (passage : ∀ text, token.kind = .passage text →
      motive (advance >>= fun _ => pure (some (.passage text token.span))))
    (mark : ∀ which, token.kind = .mark which →
      motive (get >>= fun s => fail (.strayMark which s.nesting.chains) token.span))
    (constant : token.kind = .keyword .constant → motive (some <$> Reading.constant expression))
    (group : token.kind = .keyword .group → motive (some <$> Reading.group inner.statement))
    (choice : token.kind = .keyword .ifWord →
      motive (some <$> Reading.choice expression inner.statement))
    (assignment : ∀ text quoted, token.kind = .name text quoted →
      motive (some <$> Reading.assignment expression))
    (other : motive (unexpected .statement)) : motive (statementAt expression inner token) := by
  obtain ⟨kind, span⟩ := token
  cases kind with
  | opener kind => exact opener kind rfl
  | message severity => exact message severity rfl
  | passage text => exact passage text rfl
  | mark which => exact mark which rfl
  | keyword word =>
      cases word with
      | constant => exact constant rfl
      | group => exact group rfl
      | ifWord => exact choice rfl
      | elseWord => exact other
  | name text quoted => exact assignment text quoted rfl
  | _ => exact other

/-- A conditional directive block up to its first body. -/
def conditionalHead (kind : ConditionKind) (opened : Span) (expression : Reading Expression) :
    Reading (Option Condition) := do
  let _ ← advance
  note (.entered kind opened)
  lineOrSkip (conditionLine kind opened expression)

theorem conditionalFrom_eq (kind : ConditionKind) (opened : Span) (expression : Reading Expression)
    (statement : Reading (Option Statement)) : conditionalFrom kind opened expression statement =
      nested (conditionalHead kind opened expression >>= fun condition =>
        between State.openChain State.closeChain (branching kind opened expression statement) >>=
          fun parts => pure (condition, parts)) >>= fun read =>
      note (.left kind opened) >>= fun _ => pure (read.1.map fun condition =>
        .conditional condition read.2.thenBody read.2.branches.elifs.toList
          read.2.branches.otherwise (opened.through read.2.close)) := by
  simp only [conditionalFrom, conditionalHead, bind_assoc]

end ConfLang.Reading

/-! ## Names declared twice -/

namespace ConfLang

theorem exists_of_mem_duplicateWarnings {seen : FirstDeclarations} {statements : List Statement}
    {diagnostic : Diagnostic} (h : diagnostic ∈ duplicateWarnings seen statements) :
    ∃ name first span, diagnostic = .warning (.duplicateDeclaration name first) span := by
  induction statements generalizing seen with
  | nil => cases h
  | cons statement rest ih =>
      simp only [duplicateWarnings] at h
      rcases List.mem_append.mp h with hfirst | hrest
      · unfold noteDeclaration at hfirst
        split at hfirst
        · cases hfirst
        · split at hfirst
          · exact ⟨_, _, _, List.mem_singleton.mp hfirst⟩
          · cases hfirst
      · exact ih hrest

/-- Names that are declared again are never worse than a warning. -/
theorem isError_duplicateWarnings (seen : FirstDeclarations) (statements : List Statement) :
    ∀ diagnostic ∈ duplicateWarnings seen statements, diagnostic.isError = false := by
  intro diagnostic hmem
  obtain ⟨_, _, _, rfl⟩ := exists_of_mem_duplicateWarnings hmem
  rfl

end ConfLang

/-! ## Lines and programs -/

namespace ConfLang.Reading

/-- One turn of skipping the rest of a line. -/
def lineTurn : Reading (Turn Unit) := do
  match (← peek).kind with
  | .endOfFile => return .done ()
  | .endOfLine =>
    let _ ← advance
    return .done ()
  | _ =>
    let _ ← advance
    return .again ()

theorem skipLine_eq : skipLine = discard (iterate (fun _ => lineTurn) ()) := rfl

/-- A statement that fails is reported, and what follows is skipped. -/
theorem run_appendStatement (statement : Reading (Option Statement))
    (statements : Array Statement) (s : State) :
    EStateM.run (appendStatement statement statements) s = match EStateM.run statement s with
      | .ok (some value) after => .ok (statements.push value) after
      | .ok none after => .ok statements after
      | .error problem after =>
        match EStateM.run (recover s.consumed) (after.report problem.diagnostic) with
        | .ok _ last => .ok statements last
        | .error problem last => .error problem last := by
  simp only [appendStatement, EStateM.run_bind, EStateM.run_get, run_attempt]
  cases EStateM.run statement s with
  | ok value after => cases value <;> rfl
  | error problem after =>
      simp only [EStateM.run_bind, run_report]
      cases EStateM.run (recover s.consumed) (after.report problem.diagnostic) <;> rfl

/-- One turn of reading the statements of a body. -/
def bodyTurn (atEnd : Reading Bool) (statement : Reading (Option Statement))
    (statements : Array Statement) : Reading (Turn (Array Statement)) := do
  if ← atEnd then return .done statements
  else return .again (← appendStatement statement statements)

theorem statementsUntil_eq (atEnd : Reading Bool) (statement : Reading (Option Statement)) :
    statementsUntil atEnd statement =
      iterate (bodyTurn atEnd statement) #[] >>= fun statements => pure statements.toList := rfl

/-- One turn of reading the statements of a program. -/
def programTurn (level : Nat) : Array Statement → Reading (Turn (Array Statement)) :=
  bodyTurn atEndOfProgram (Statement.read level)

theorem run_programTurn (level : Nat) (statements : Array Statement) (s : State) :
    EStateM.run (programTurn level statements) s =
      if s.peeked.1.kind = .endOfFile ∨ s.peeked.2.stopped = true then
        .ok (.done statements) s.peeked.2
      else match EStateM.run (appendStatement (Statement.read level) statements) s.peeked.2 with
        | .ok statements' after => .ok (.again statements') after
        | .error problem after => .error problem after := by
  simp only [programTurn, bodyTurn, atEndOfProgram, EStateM.run_bind, run_peek, EStateM.run_get,
    EStateM.run_pure, decide_eq_true_eq]
  split
  · rfl
  · rw [EStateM.run_bind]
    cases EStateM.run (appendStatement _ statements) s.peeked.2 <;> rfl

/-- A program is read turn by turn, and then its declarations are looked at. -/
theorem run_wholeProgram (s : State) : EStateM.run wholeProgram s =
    match EStateM.run (iterate (programTurn s.levels) #[]) (s.note .started) with
    | .ok statements after =>
      .ok ⟨statements.toList⟩ ((duplicateWarnings [] statements.toList).foldl State.report after)
    | .error problem after => .error problem after := by
  simp only [wholeProgram, program, statementsUntil_eq, ← programTurn.eq_1, EStateM.run_bind,
    EStateM.run_get, run_note]
  cases EStateM.run (iterate (programTurn s.levels) #[]) (s.note .started) <;> rfl

end ConfLang.Reading

namespace ConfLang

/-- The state in which the first statement of a source is read. -/
def State.started (options : Options) (source : String) : State :=
  (State.ofSource source options).note .started

/-- How the turns of reading the statements of a source end. -/
def programRun (options : Options) (source : String) :
    EStateM.Result Problem State (Array Statement) :=
  EStateM.run (Reading.iterate (Reading.programTurn (options.maxNestingDepth + 1)) #[])
    (State.started options source)

/-- The outcome of a source comes from the last turn, and from the warnings about its
declarations. -/
theorem parseWith_eq (options : Options) (source : String) : parseWith options source =
    match programRun options source with
    | .ok statements after =>
      ((duplicateWarnings [] statements.toList).foldl State.report after).finish
        ⟨statements.toList⟩
    | .error problem after => (after.report problem.diagnostic).finish {} := by
  have hrun := Reading.run_wholeProgram (State.ofSource source options)
  change _ = (match programRun options source with
    | .ok statements after => _
    | .error problem after => _) at hrun
  cases hprogram : programRun options source with
  | ok statements after | error problem after =>
      rw [hprogram] at hrun
      simp only [EStateM.run] at hrun
      simp only [parseWith, Reading.run, hrun]

theorem parseWith_of_run {options : Options} {source : String} {statements : Array Statement}
    {after : State} (h : programRun options source = .ok statements after) :
    parseWith options source =
      ((duplicateWarnings [] statements.toList).foldl State.report after).finish
        ⟨statements.toList⟩ := by
  rw [parseWith_eq, h]

theorem parseWith_of_run_error {options : Options} {source : String} {problem : Problem}
    {after : State} (h : programRun options source = .error problem after) :
    parseWith options source = (after.report problem.diagnostic).finish {} := by
  rw [parseWith_eq, h]

end ConfLang
