import ConfLang.Proofs.Steps

/-!
# Laws of readings

Many facts about readings are true of all of them for one reason: the steps have the
property, and what is put together from readings that have it has it again.  A `Law` is
such a property, and this file goes through the readings of the library once for all laws.
To prove a law of all readings it is enough to prove it of the steps.

Not every law holds of all readings, so there are classes of laws.

* A law that `Joins` holds of what is put together from the current token and raw text.  Not all
  of these laws let a reading look at any number of tokens.
* A law that `Composes`, too, lets a primary expression look behind a name, and holds of all
  readings that neither ask whether the reading has stopped nor tell a mark that belongs to no
  block.  Where it is kept by every look at a token (`Scans`), it composes if it joins.
* A law that `AsksStop`, too, holds of bodies, which end when the reading has stopped.
* A law that `TellsStray`, too, holds of statements.
* A law that `AsksLevels`, too, holds of the readings that a caller may begin with.

What a reading does depends on the state, but neither on what was reported or noted, nor on
the limit of errors.  `State.bare` is the rest of a state.  On the limit of nesting depends
only the step that goes deeper, `nested`; nothing else looks at more than `State.outline`.
-/

namespace ConfLang

/-- All of a state that a reading looks at, but for the question whether it has stopped. -/
def State.bare (s : State) : State :=
  { s with
    options := { s.options with maxErrors := none }
    diagnostics := #[]
    errorCount := 0
    stopped := false
    log := #[] }

/-- All of a state that is looked at by the steps that do not go deeper. -/
def State.outline (s : State) : State :=
  { s.bare with options := { s.bare.options with maxNestingDepth := 0 } }

/-- A change of the nesting. -/
def State.renest (change : Nesting → Nesting) (s : State) : State :=
  { s with nesting := change s.nesting }

/-- Two nestings of as many constructs, blocks in braces, and conditional directive blocks.  The
first is not in a condition if the second is not. -/
structure Nesting.LevelWith (first second : Nesting) : Prop where
  depth : first.depth = second.depth
  braces : first.braces = second.braces
  chains : first.chains = second.chains
  outside : second.inCondition = false → first.inCondition = false

/-- The nesting outside of the innermost construct. -/
def Nesting.outer (nesting : Nesting) : Nesting :=
  { nesting with depth := nesting.depth - 1 }

theorem Nesting.LevelWith.outer {n n' : Nesting} (h : n'.LevelWith n.deeper) :
    n'.outer.LevelWith n :=
  ⟨Nat.sub_eq_of_eq_add h.depth, h.braces, h.chains, h.outside⟩

/-- A mark that belongs to no conditional directive block. -/
def Cause.isStray : Cause → Bool
  | .strayMark _ _ => true
  | _ => false

/-- Neither a mark that belongs to no conditional directive block, nor found by the scanner. -/
def Cause.isPlain (cause : Cause) : Bool :=
  !cause.isStray && cause.kind != .lexical

theorem Cause.isStray_of_isPlain {cause : Cause} (h : cause.isPlain = true) :
    cause.isStray = false := by
  simp only [isPlain, Bool.and_eq_true, Bool.not_eq_true'] at h
  exact h.1

theorem Cause.kind_of_isPlain {cause : Cause} (h : cause.isPlain = true) :
    cause.kind ≠ .lexical := by
  simp only [isPlain, Bool.and_eq_true, bne_iff_ne] at h
  exact h.2

namespace Reading

/-- A property that readings may have. -/
abbrev Law := ∀ ⦃α : Type⦄, Reading α → Prop

/-- The steps that look at no token but the current one have a property, and it is kept by the
ways to put readings together.  A failure that is reported is not looked at otherwise. -/
class Joins (P : Law) : Prop where
  pure : ∀ {α : Type} (a : α), P (pure a : Reading α)
  bind : ∀ {α β : Type} {f : Reading α} {rest : α → Reading β}, P f → (∀ a, P (rest a)) → P (f >>= rest)
  get : ∀ {α : Type} {rest : State → Reading α}, (∀ s, rest s.outline = rest s) →
    (∀ s, P (rest s)) → P (get >>= rest)
  nested : ∀ {α : Type} {f : Reading α}, P f → P (nested f)
  tooDeep : ∀ {α : Type}, P (tooDeep : Reading α)
  fail : ∀ {α : Type} (cause : Cause) (span : Span), cause.isPlain = true →
    P (fail cause span : Reading α)
  note : ∀ event, P (note event)
  report : ∀ diagnostic : Diagnostic, diagnostic.cause.isPlain = true → P (report diagnostic)
  handle : ∀ {α β : Type} {f : Reading α} {rest : α → Reading β} {other : Reading β}, P f →
    (∀ a, P (rest a)) → P other → P (attempt f >>= fun result => match result with
      | .ok a => rest a
      | .error problem => Reading.report problem.diagnostic >>= fun _ => other)
  between : ∀ {α : Type} (opening closing : Nesting → Nesting) {f : Reading α},
    (∀ n n', n'.LevelWith (opening n) → (closing n').LevelWith n) → P f →
    P (between (State.renest opening) (State.renest closing) f)
  iterate : ∀ {σ : Type} {step : σ → Reading (Turn σ)}, (∀ value, P (step value)) →
    ∀ value, P (iterate step value)
  peek : P peek
  advance : P advance
  rawText : P rawText

/-- One more token may be looked at in any state. -/
class Scans (P : Law) : Prop where
  scan : P scan

/-- The property is kept, too, where a primary expression looks at the token behind a name. -/
class Composes (P : Law) : Prop extends Joins P where
  primary : ∀ {inner : Reading Expression}, P inner → P (primary inner)

/-- It may be asked whether the reading has stopped. -/
class AsksStop (P : Law) : Prop where
  asks : ∀ {α : Type} {rest : Bool → Reading α}, (∀ stopped, P (rest stopped)) →
    P (get >>= fun s => rest s.stopped)

/-- It may be told that a mark belongs to no block. -/
class TellsStray (P : Law) : Prop where
  tells : ∀ {α : Type} (mark : Mark) (chains : Nat) (span : Span),
    P (Reading.fail (.strayMark mark chains) span : Reading α)

/-- It may be asked how many levels of nesting are left. -/
class AsksLevels (P : Law) : Prop where
  asks : ∀ {α : Type} {rest : Nat → Reading α}, (∀ levels, P (rest levels)) →
    P (get >>= fun s => rest s.levels)

variable {α β σ : Type}

/-- A reading has a property. -/
class Obeys (P : Law) (f : Reading α) : Prop where
  obeys : P f

section Joined

variable {P : Law} [Joins P]

/-! ## Steps -/

instance {a : α} : Obeys P (pure a : Reading α) := ⟨Joins.pure a⟩

instance {event : Event} : Obeys P (note event) := ⟨Joins.note event⟩

theorem obeys_fail {cause : Cause} {span : Span} (h : cause.isPlain = true) :
    Obeys P (fail cause span : Reading α) := ⟨Joins.fail cause span h⟩

theorem obeys_report {diagnostic : Diagnostic} (h : diagnostic.cause.isPlain = true) :
    Obeys P (report diagnostic) := ⟨Joins.report diagnostic h⟩

theorem obeys_bind {f : Reading α} {rest : α → Reading β} [Obeys P f]
    (hrest : ∀ a, Obeys P (rest a)) : Obeys P (f >>= rest) :=
  ⟨Joins.bind Obeys.obeys fun a => (hrest a).obeys⟩

theorem obeys_get {rest : State → Reading α} (houtline : ∀ s, rest s.outline = rest s)
    (hrest : ∀ s, Obeys P (rest s)) : Obeys P (get >>= rest) :=
  ⟨Joins.get houtline fun s => (hrest s).obeys⟩

instance {f : Reading α} {rest : α → Reading β} [Obeys P f] [∀ a, Obeys P (rest a)] :
    Obeys P (f >>= rest) :=
  obeys_bind inferInstance

instance {f : Reading α} {g : α → β} [Obeys P f] : Obeys P (g <$> f) := by
  rw [← bind_pure_comp]
  infer_instance

instance {f : Reading α} [Obeys P f] : Obeys P (discard f) :=
  inferInstanceAs (Obeys P (Function.const α PUnit.unit <$> f))

instance {condition : Prop} [Decidable condition] {f g : Reading α} [Obeys P f] [Obeys P g] :
    Obeys P (if condition then f else g) := by
  split <;> infer_instance

theorem obeys_handle (f : Reading α) (rest : α → Reading β) (other : Reading β) [Obeys P f]
    [∀ a, Obeys P (rest a)] [Obeys P other] :
    Obeys P (attempt f >>= fun result => match result with
      | .ok a => rest a
      | .error problem => report problem.diagnostic >>= fun _ => other) :=
  ⟨Joins.handle Obeys.obeys (fun _ => Obeys.obeys) Obeys.obeys⟩

theorem obeys_between (opening closing : Nesting → Nesting) {f : Reading α} [Obeys P f]
    (hback : ∀ n n', n'.LevelWith (opening n) → (closing n').LevelWith n) :
    Obeys P (between (State.renest opening) (State.renest closing) f) :=
  ⟨Joins.between opening closing hback Obeys.obeys⟩

instance {step : σ → Reading (Turn σ)} [∀ value, Obeys P (step value)] {value : σ} :
    Obeys P (iterate step value) :=
  ⟨Joins.iterate (fun _ => Obeys.obeys) value⟩

theorem obeys_foldl_report {diagnostics : List Diagnostic}
    (h : ∀ diagnostic ∈ diagnostics, diagnostic.cause.isPlain = true) :
    Obeys P (modify fun state => diagnostics.foldl State.report state : Reading PUnit) := by
  induction diagnostics with
  | nil => exact inferInstanceAs (Obeys P (pure PUnit.unit))
  | cons diagnostic rest ih =>
      rw [List.forall_mem_cons] at h
      have := obeys_report (P := P) h.1
      have := ih h.2
      exact inferInstanceAs (Obeys P (report diagnostic >>= fun _ =>
        (modify fun state => rest.foldl State.report state : Reading PUnit)))

/-! ## Tokens -/

instance : Obeys P peek := ⟨Joins.peek⟩

instance : Obeys P advance := ⟨Joins.advance⟩

instance : Obeys P rawText := ⟨Joins.rawText⟩

instance {kind : TokenKind} : Obeys P (isAt kind) := by
  unfold isAt
  infer_instance

instance {kind : TokenKind} : Obeys P (accept kind) := by
  unfold accept
  infer_instance

instance {expectation : Expectation} : Obeys P (unexpected expectation : Reading α) :=
  obeys_bind fun _ => obeys_fail rfl

instance {sign : Symbol} {expectation : Expectation} : Obeys P (expect sign expectation) := by
  unfold expect
  infer_instance

instance {expectation : Expectation} : Obeys P (identifier expectation) := by
  refine obeys_bind fun _ => ?_
  split <;> infer_instance

instance {bracket : Bracket} {opened : Span} : Obeys P (closing bracket opened) := by
  refine obeys_bind fun token => ?_
  have : Obeys P (fail (.unclosed bracket opened token.kind) opened : Reading Span) :=
    obeys_fail rfl
  infer_instance

instance {expectation : Expectation} : Obeys P (endOfLine expectation) := by
  refine obeys_bind fun _ => ?_
  split <;> infer_instance

instance : Obeys P (tooDeep : Reading α) := ⟨Joins.tooDeep⟩

instance {f : Reading α} [Obeys P f] : Obeys P (nested f) := ⟨Joins.nested Obeys.obeys⟩

/-! ## Expressions -/

instance : Obeys P operator? := by
  refine obeys_bind fun token => ?_
  have : Obeys P (fail .unsupportedPlus token.span : Reading (Option Operator)) := obeys_fail rfl
  infer_instance

theorem obeys_chainTurn {operand : Reading Expression} {least : Nat} {left : Expression}
    (h : ∀ operator : Operator, least ≤ operator.precedence →
      Obeys P (chain operand (operator.precedence + 1))) :
    Obeys P (chainTurn operand least left) := by
  refine obeys_bind fun operator => ?_
  cases operator with
  | none => infer_instance
  | some operator =>
      simp only
      split
      · rename_i hleast
        have := h operator hleast
        infer_instance
      · infer_instance

theorem obeys_chain {operand : Reading Expression} [Obeys P operand] (least : Nat) :
    Obeys P (chain operand least) := by
  induction hmeasure : 5 - least using Nat.strongRecOn generalizing least with
  | ind measure ih =>
      subst hmeasure
      have (left : Expression) : Obeys P (chainTurn operand least left) := by
        refine obeys_chainTurn fun operator hleast => ih _ ?_ _ rfl
        have := operator.precedence_le
        omega
      rw [chain_eq]
      infer_instance

instance {operand : Reading Expression} [Obeys P operand] {least : Nat} :
    Obeys P (chain operand least) := obeys_chain least

instance {operand : Reading Expression} [Obeys P operand] {least : Nat} {left : Expression} :
    Obeys P (chainTurn operand least left) := obeys_chainTurn fun _ _ => inferInstance

instance {bracket : Bracket} : Obeys P (extraCommas bracket) := by
  have (span : Span) : Obeys P (report (.error (.emptyElement bracket) span)) := obeys_report rfl
  unfold extraCommas
  infer_instance

instance {bracket : Bracket} {item : Reading α} [Obeys P item] {items : Array α} :
    Obeys P (element bracket item items) := by
  unfold element
  infer_instance

instance {bracket : Bracket} {opened : Span} {item : Reading α} [Obeys P item] :
    Obeys P (elements bracket opened item) := by
  unfold elements
  infer_instance

instance {expression : Reading Expression} [Obeys P expression] :
    Obeys P (argument expression) := by
  unfold argument
  infer_instance

instance : Obeys P definedQuestion := by
  unfold definedQuestion
  infer_instance

section Scanning

variable [Scans P]

instance : Obeys P scan := ⟨Scans.scan⟩

instance : Obeys P peekSecond := by
  refine obeys_bind fun _ => obeys_get (fun _ => rfl) fun _ => ?_
  split <;> infer_instance

instance {name : String} : Obeys P (isDefinedQuestion name) :=
  obeys_get (fun _ => rfl) fun _ => inferInstance

/-- A law that is kept by every look at a token is kept where one is looked at behind a name. -/
theorem composes_of_scans : Composes P where
  primary {inner} hinner := by
    have : Obeys P inner := ⟨hinner⟩
    have (token : Token) : Obeys P (primaryAt inner token) := by
      apply primaryAt_cases <;> intros <;> infer_instance
    exact Joins.bind Joins.peek fun token => (this token).obeys

end Scanning

end Joined

variable {P : Law} [Composes P]

instance {inner : Reading Expression} [Obeys P inner] : Obeys P (primary inner) :=
  ⟨Composes.primary Obeys.obeys⟩

instance {inner : Reading Expression} [Obeys P inner] {operand : Expression} :
    Obeys P (suffix inner operand) := by
  refine obeys_bind fun _ => ?_
  split <;> infer_instance

instance {inner : Reading Expression} [Obeys P inner] : Obeys P (suffixed inner) := by
  unfold suffixed
  infer_instance

instance {operand plain : Reading Expression} [Obeys P operand] [Obeys P plain] :
    Obeys P (negated operand plain) := by
  unfold negated
  infer_instance

theorem obeys_operand (level : Nat) : Obeys P (operand level) := by
  induction level with
  | zero => exact inferInstanceAs (Obeys P tooDeep)
  | succ level ih => exact inferInstanceAs (Obeys P (negated _ _))

instance {level least : Nat} : Obeys P (Expression.read level least) :=
  have := obeys_operand (P := P) level
  inferInstanceAs (Obeys P (chain _ _))

/-! ## Lines of directives -/

instance {expression : Reading Expression} [Obeys P expression] :
    Obeys P (conditionExpression expression) :=
  obeys_between Nesting.conditional (fun nesting => { nesting with inCondition := false })
    fun _ _ h => ⟨h.depth, h.braces, h.chains, fun _ => rfl⟩

instance {kind : ConditionKind} {opened : Span} : Obeys P (path kind opened) := by
  have (span : Span) : Obeys P (report (.warning (.emptyPath kind) span)) := obeys_report rfl
  unfold path
  infer_instance

instance {kind : ConditionKind} {opened : Span} {expression : Reading Expression}
    [Obeys P expression] : Obeys P (conditionOf kind opened expression) := by
  cases kind <;> (unfold conditionOf; infer_instance)

instance {kind : ConditionKind} {opened : Span} {expression : Reading Expression}
    [Obeys P expression] : Obeys P (conditionLine kind opened expression) := by
  unfold conditionLine
  infer_instance

instance {expression : Reading Expression} [Obeys P expression] :
    Obeys P (branchCondition expression) := by
  unfold branchCondition
  infer_instance

instance : Obeys P lineTurn := by
  refine obeys_bind fun _ => ?_
  split <;> infer_instance

instance : Obeys P skipLine := by
  rw [skipLine_eq]
  infer_instance

instance {line : Reading α} [Obeys P line] : Obeys P (lineOrSkip line) := by
  have : Obeys P (skipLine >>= fun _ => pure none : Reading (Option α)) := inferInstance
  exact obeys_handle line (fun value => pure (some value)) _

instance {mark : Mark} : Obeys P (endOfMark mark) := by
  refine obeys_bind fun token => ?_
  have : Obeys P (report (.warning (.extraTokens mark) token.span)) := obeys_report rfl
  split <;> infer_instance

instance {kind : ConditionKind} {opened : Span} : Obeys P (endif kind opened) := by
  refine obeys_bind fun token => ?_
  have : Obeys P (fail (.missingEndif kind opened token.kind) opened : Reading Span) :=
    obeys_fail rfl
  infer_instance

/-! ## Simple statements -/

section Simple

variable {expression : Reading Expression} [Obeys P expression]

instance : Obeys P (declaredType expression) := by
  unfold declaredType
  infer_instance

instance : Obeys P (constant expression) := by
  unfold constant
  infer_instance

instance : Obeys P (assignment expression) := by
  refine obeys_bind fun _ => obeys_bind fun _ => ?_
  split
  · infer_instance
  · infer_instance
  · exact obeys_get (fun _ => rfl) fun _ => inferInstance
  · infer_instance

instance {severity : Severity} : Obeys P (message severity) := by
  unfold message
  infer_instance

end Simple

/-! ## Bodies -/

instance {skipping : Skipping} : Obeys P (skipTurn skipping) :=
  obeys_bind fun _ => obeys_get (fun _ => rfl) fun _ => inferInstance

instance {start : Nat} : Obeys P (recover start) :=
  obeys_get (fun _ => rfl) fun _ => inferInstance

theorem isPlain_duplicateWarnings (seen : FirstDeclarations) (statements : List Statement) :
    ∀ diagnostic ∈ duplicateWarnings seen statements, diagnostic.cause.isPlain = true := by
  intro diagnostic hmem
  obtain ⟨_, _, _, rfl⟩ := exists_of_mem_duplicateWarnings hmem
  rfl

instance {statements : List Statement} : Obeys P (warnDuplicates statements) :=
  obeys_foldl_report (isPlain_duplicateWarnings [] statements)

instance {statements : List Statement} : Obeys P (branchSpan statements) := by
  unfold branchSpan
  split <;> infer_instance

section Bodies

variable [AsksStop P] {statement : Reading (Option Statement)} [Obeys P statement]
  {expression : Reading Expression} [Obeys P expression]

omit [Composes P] in
theorem obeys_asks (rest : Bool → Reading α) (hrest : ∀ stopped, Obeys P (rest stopped)) :
    Obeys P (get >>= fun s => rest s.stopped) :=
  ⟨AsksStop.asks fun stopped => (hrest stopped).obeys⟩

instance : Obeys P atEndOfProgram :=
  obeys_bind fun token => obeys_asks (fun stopped =>
    pure (decide (token.kind = .endOfFile ∨ stopped = true))) fun _ => inferInstance

instance : Obeys P atEndOfBlock :=
  obeys_bind fun token => obeys_asks (fun stopped =>
    pure (decide (token.kind = .symbol .closeBrace ∨ token.kind = .endOfFile ∨ stopped = true)))
    fun _ => inferInstance

instance {inBraces : Bool} : Obeys P (atEndOfBranch inBraces) := by
  refine obeys_asks (fun stopped => if stopped = true then pure true else peek >>= _)
    fun stopped => ?_
  have : Obeys P (peek >>= fun token => match token.kind with
      | .mark _ | .endOfFile => pure true
      | .symbol .closeBrace => pure inBraces
      | _ => pure false : Reading Bool) := by
    refine obeys_bind fun _ => ?_
    split <;> infer_instance
  infer_instance

omit [AsksStop P] in
instance {statements : Array Statement} : Obeys P (appendStatement statement statements) := by
  refine obeys_get (fun _ => rfl) fun s => ?_
  have (value : Option Statement) : Obeys P (match value with
      | some statement => pure (statements.push statement)
      | none => pure statements : Reading (Array Statement)) := by
    split <;> infer_instance
  convert obeys_handle (P := P) statement (fun value => match value with
      | some statement => pure (statements.push statement)
      | none => pure statements)
    (recover s.consumed >>= fun _ => pure statements) using 3 with result
  rcases result with _ | ⟨_ | _⟩ <;> rfl

omit [AsksStop P] in
instance {atEnd : Reading Bool} [Obeys P atEnd] : Obeys P (statementsUntil atEnd statement) := by
  unfold statementsUntil
  infer_instance

instance {expectation : Expectation} : Obeys P (block statement expectation) := by
  have : Obeys P (between State.openBrace State.closeBrace
      (statementsUntil atEndOfBlock statement)) :=
    obeys_between Nesting.inBraces (fun nesting => { nesting with braces := nesting.braces - 1 })
      fun _ _ h => ⟨h.depth, Nat.sub_eq_of_eq_add h.braces, h.chains, h.outside⟩
  unfold block
  infer_instance

instance : Obeys P (branchBody statement) :=
  obeys_get (fun _ => rfl) fun _ => inferInstance

/-! ## Conditional directive blocks -/

instance {start : Span} {branches : Branches} :
    Obeys P (elifBranch expression statement start branches) := by
  unfold elifBranch
  have (condition : Option Expression) (body : Body) : Obeys P (match condition, branches.otherwise with
      | some condition, none =>
        pure { branches with
          elifs := branches.elifs.push (.mk condition body (start.through body.span)) }
      | _, _ => pure branches : Reading Branches) := by
    split <;> infer_instance
  have : Obeys P (report (.error .elifAfterElse start)) := obeys_report rfl
  infer_instance

instance {start : Span} {branches : Branches} :
    Obeys P (otherwiseBranch statement start branches) := by
  have : Obeys P (report (.error .duplicateElse start)) := obeys_report rfl
  unfold otherwiseBranch
  infer_instance

instance {branches : Branches} : Obeys P (branch expression statement branches) := by
  refine obeys_bind fun _ => ?_
  split <;> infer_instance

instance {kind : ConditionKind} {opened : Span} :
    Obeys P (branching kind opened expression statement) := by
  unfold branching
  infer_instance

instance {kind : ConditionKind} {opened : Span} :
    Obeys P (conditionalFrom kind opened expression statement) := by
  have : Obeys P (between State.openChain State.closeChain
      (branching kind opened expression statement)) :=
    obeys_between Nesting.inChain (fun nesting => { nesting with chains := nesting.chains - 1 })
      fun _ _ h => ⟨h.depth, h.braces, Nat.sub_eq_of_eq_add h.chains, h.outside⟩
  unfold conditionalFrom
  infer_instance

/-! ## Statements -/

instance : Obeys P (group statement) := by
  unfold group
  infer_instance

instance : Obeys P (elseBlock statement) := by
  unfold elseBlock
  infer_instance

instance : Obeys P (choice expression statement) := by
  unfold choice
  infer_instance

theorem obeys_statement [TellsStray P] {inner : Inner} [Obeys P inner.expression]
    [Obeys P inner.statement] : Obeys P (Reading.statement expression inner) := by
  rw [statement_eq]
  refine obeys_bind fun token => ?_
  apply statementAt_cases
  case mark => exact fun _ _ => obeys_get (fun _ => rfl) fun _ => ⟨TellsStray.tells _ _ _⟩
  all_goals intros; infer_instance

end Bodies

section Statements

variable [AsksStop P] [TellsStray P]

theorem obeys_read (level : Nat) : Obeys P (Statement.read level) := by
  induction level with
  | zero => exact inferInstanceAs (Obeys P tooDeep)
  | succ level ih =>
      exact @obeys_statement P _ _ _ _ _ ⟨_, _⟩ (inferInstanceAs (Obeys P (Expression.read level _))) ih

instance {level : Nat} : Obeys P (Statement.read level) := obeys_read level

instance {level : Nat} : Obeys P (program (Statement.read level)) := by
  unfold program
  infer_instance

end Statements

/-! ## What a caller may begin with -/

section Callers

variable [AsksLevels P]

omit [Composes P] in
theorem obeys_levels (rest : Nat → Reading α) (hrest : ∀ levels, Obeys P (rest levels)) :
    Obeys P (get >>= fun s => rest s.levels) :=
  ⟨AsksLevels.asks fun levels => (hrest levels).obeys⟩

instance {least : Nat} : Obeys P (nextExpression least) :=
  obeys_levels (Expression.read · least) fun _ => inferInstance

variable [AsksStop P] [TellsStray P]

instance {expression : Reading Expression} {statement : Reading (Option Statement)}
    [Obeys P expression] [Obeys P statement] : Obeys P (conditional expression statement) := by
  refine obeys_bind fun _ => ?_
  split <;> infer_instance

instance : Obeys P nextStatement :=
  obeys_levels Statement.read fun _ => inferInstance

instance : Obeys P nextConditional :=
  obeys_levels (fun levels =>
    conditional (Expression.read (levels - 1) Operator.lowestPrecedence)
      (Statement.read (levels - 1))) fun _ => inferInstance

instance : Obeys P wholeProgram :=
  obeys_levels (fun levels => program (Statement.read levels)) fun _ => inferInstance

end Callers

end Reading

end ConfLang
