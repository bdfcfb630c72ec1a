import ConfLang.Proofs.Declarations.Index
import ConfLang.Proofs.LineEndings.Program
import ConfLang.Proofs.Limit.Statements
import ConfLang.Proofs.Spans.Lays
import ConfLang.Proofs.Writing.Quiet

/-!
# Where names are declared again

The pass that warns about names that are declared again runs at three places: behind the
statements of a program, of a block, and of a branch of a conditional directive block.  The lists
of statements that it sees there are gone once a statement or a block is dropped; but whatever is
dropped is an error, so without errors they are the bodies of the tree that is returned.

## Strategy

`Repeats f W` says that whenever `f` gives a value and no error was reported by then, the warnings
that it has added are among those that `W` allows for the value.  Most readings add none.  A body
adds those of its statements, and then its own (`repeats_warnDuplicates`).  So the warnings come in
the order in which the bodies of the tree end (`Program.bodies`).
-/

namespace ConfLang

/-- Whether a diagnostic is about a name that is declared again. -/
def Diagnostic.isRepetition (diagnostic : Diagnostic) : Bool :=
  match diagnostic.cause with
  | .duplicateDeclaration _ _ => true
  | _ => false

/-- The diagnostics about names that are declared again. -/
def State.repetitions (state : State) : List Diagnostic :=
  state.diagnostics.toList.filter (·.isRepetition)

/-! ## Bodies -/

mutual

/-- The bodies inside a statement, in the order in which they end. -/
def Statement.bodies : Statement → List Body
  | .group _ body _ => body.bodies
  | .choice _ thenBody elseBody _ => thenBody.bodies ++ Body.bodiesOption elseBody
  | .conditional _ thenBody branches elseBody _ =>
    thenBody.bodies ++ Branch.bodiesList branches ++ Body.bodiesOption elseBody
  | _ => []

/-- A body behind the bodies inside of it. -/
def Body.bodies : Body → List Body
  | .mk statements span => Statement.bodiesList statements ++ [.mk statements span]

/-- The bodies of a body that may be missing. -/
def Body.bodiesOption : Option Body → List Body
  | none => []
  | some body => body.bodies

/-- The bodies of branches. -/
def Branch.bodiesList : List Branch → List Body
  | [] => []
  | .mk _ body _ :: rest => body.bodies ++ Branch.bodiesList rest

/-- The bodies inside of statements. -/
def Statement.bodiesList : List Statement → List Body
  | [] => []
  | first :: rest => first.bodies ++ Statement.bodiesList rest

end

/-- The bodies of a program, in the order in which they end. -/
def Program.bodies (program : Program) : List Body :=
  Statement.bodiesList program.statements

/-- What is to be said about the declarations of several bodies. -/
def Body.repetitionsList (bodies : List Body) : List Diagnostic :=
  bodies.flatMap fun body => repetitions body.statements

/-- What is to be said about the declarations of a program, inside its statements first. -/
def Program.repetitions (program : Program) : List Diagnostic :=
  Body.repetitionsList program.bodies ++ ConfLang.repetitions program.statements

theorem Body.repetitionsList_append (first second : List Body) :
    repetitionsList (first ++ second) = repetitionsList first ++ repetitionsList second :=
  List.flatMap_append

theorem Statement.bodiesList_concat (statements : List Statement) (statement : Statement) :
    bodiesList (statements ++ [statement]) = bodiesList statements ++ statement.bodies := by
  induction statements with
  | nil => exact List.append_nil _
  | cons first rest ih => rw [List.cons_append, bodiesList, bodiesList, ih, List.append_assoc]

theorem Branch.bodiesList_concat (branches : List Branch) (condition : Expression) (body : Body)
    (span : Span) :
    bodiesList (branches ++ [.mk condition body span]) = bodiesList branches ++ body.bodies := by
  induction branches with
  | nil => exact List.append_nil _
  | cons first rest ih =>
      obtain ⟨_, _, _⟩ := first
      rw [List.cons_append, bodiesList, bodiesList, ih, List.append_assoc]

/-- What is said about the statements that were read so far, and inside of them. -/
def Statement.toldInside (statements : Array Statement) : List Diagnostic :=
  Body.repetitionsList (Statement.bodiesList statements.toList)

/-- What is said about the branches of a block that were read so far. -/
def Reading.Branches.toldInside (branches : Reading.Branches) : List Diagnostic :=
  Body.repetitionsList (Branch.bodiesList branches.elifs.toList ++
    Body.bodiesOption branches.otherwise)

/-! ## Reports -/

namespace State

variable {s s' : State}

/-- Where no error is among them, all diagnostics are warnings. -/
theorem diagnostics_of_fine (h : s.Fine) : s.diagnostics.toList = s.warnings := by
  have hnone := List.filter_eq_nil_iff.mp h.errors
  refine (List.filter_eq_self.mpr fun diagnostic hmem => ?_).symm
  simpa using hnone diagnostic hmem

theorem repetitions_of_warnings (hs : s.Fine) (hs' : s'.Fine) (h : s'.warnings = s.warnings) :
    s'.repetitions = s.repetitions := by
  rw [repetitions, repetitions, diagnostics_of_fine hs, diagnostics_of_fine hs', h]

/-- A warning is added to what was told. -/
theorem repetitions_warning (h : s.Fine) {diagnostic : Diagnostic}
    (hwarning : diagnostic.isError = false) :
    (s.report diagnostic).Fine ∧ (s.report diagnostic).repetitions =
      s.repetitions ++ [diagnostic].filter (·.isRepetition) := by
  have hreport : s.report diagnostic =
      { s with diagnostics := s.diagnostics.push diagnostic } := by
    rw [report, if_neg (by simp [h.stopped]), if_neg (by simp [hwarning])]
  rw [hreport]
  refine ⟨⟨h.stopped, ?_⟩, ?_⟩
  · have herrors := h.errors
    unfold errors at herrors ⊢
    simp [herrors, hwarning]
  · simp only [repetitions, Array.toList_push, List.filter_append]

theorem repetitions_foldl_report (h : s.Fine) {diagnostics : List Diagnostic}
    (hwarnings : ∀ diagnostic ∈ diagnostics, diagnostic.isError = false) :
    (diagnostics.foldl report s).repetitions =
      s.repetitions ++ diagnostics.filter (·.isRepetition) := by
  induction diagnostics generalizing s with
  | nil => exact (List.append_nil _).symm
  | cons diagnostic rest ih =>
      rw [List.forall_mem_cons] at hwarnings
      obtain ⟨hfine, hone⟩ := repetitions_warning h hwarnings.1
      rw [List.foldl_cons, ih hfine hwarnings.2, hone, List.append_assoc, ← List.filter_append,
        List.singleton_append]

end State

namespace Reading

variable {α β σ : Type} {f : Reading α} {W : α → List Diagnostic → Prop}

/-- Whenever a reading gives a value, and no error was reported by then, what it has told about
names that are declared again fits the value. -/
def Repeats (f : Reading α) (W : α → List Diagnostic → Prop) : Prop :=
  ∀ s : State, s.Ordered → ∀ a s', EStateM.run f s = .ok a s' → s'.Fine →
    ∃ told, s'.repetitions = s.repetitions ++ told ∧ W a told

/-! ## Rules -/

theorem Repeats.imp {V : α → List Diagnostic → Prop} (hf : Repeats f V)
    (himp : ∀ a told, V a told → W a told) : Repeats f W := by
  intro s hs a s' hrun hfine
  obtain ⟨told, htold, hV⟩ := hf s hs a s' hrun hfine
  exact ⟨told, htold, himp a told hV⟩

theorem repeats_pure {a : α} (h : W a []) : Repeats (pure a) W := by
  rintro s - _ _ ⟨⟩ -
  exact ⟨[], (List.append_nil _).symm, h⟩

theorem repeats_fail {cause : Cause} {span : Span} : Repeats (fail cause span : Reading α) W := by
  intro s _ a s' hrun
  simp [run_fail] at hrun

/-- What was told on the way to a failure does not count. -/
theorem repeats_of_spoils (hf : Spoils f) : Repeats f W :=
  fun s _ a s' hrun hfine => absurd hfine (hf s a s' hrun)

theorem Repeats.bind [Obeys order.Kept f] {rest : α → Reading β}
    {X : β → List Diagnostic → Prop} (hf : Repeats f W) (hadds : ∀ a, Adds (rest a))
    (hrest : ∀ a told, W a told → Repeats (rest a) fun b more => X b (told ++ more)) :
    Repeats (f >>= rest) X := by
  intro s hs b s' hrun hfine
  obtain ⟨a, middle, hfirst, hlast⟩ := ok_of_run_bind hrun
  obtain ⟨told, htold, hW⟩ := hf s hs a middle hfirst (hfine.of_grows (Adds.of_ok hlast))
  have hmiddle := (continues_of_run hs (run_of_ok hfirst)).ordered
  obtain ⟨more, hmore, hX⟩ := hrest a told hW middle hmiddle b s' hlast hfine
  exact ⟨told ++ more, by rw [hmore, htold, List.append_assoc], hX⟩

theorem Repeats.map [Obeys order.Kept f] {g : α → β} {X : β → List Diagnostic → Prop}
    (hf : Repeats f W) (himp : ∀ a told, W a told → X (g a) told) : Repeats (g <$> f) X := by
  rw [← bind_pure_comp]
  refine hf.bind inferInstance fun a told h => repeats_pure ?_
  rw [List.append_nil]
  exact himp a told h

theorem repeats_get {rest : State → Reading α} (h : ∀ s, Repeats (rest s) W) :
    Repeats (get >>= rest) W :=
  fun s hs => h s s hs

/-- A reading without warnings tells nothing. -/
theorem Quiet.repeats [Adds f] (hf : Quiet f) : Repeats f fun _ told => told = [] := by
  intro s hs a s' hrun hfine
  have hsame := (hf s hs a s' hrun).2
  have hbefore := hfine.of_grows (Adds.of_ok hrun)
  exact ⟨[], by rw [State.repetitions_of_warnings hbefore hfine hsame, List.append_nil], rfl⟩

/-- Behind a reading without warnings everything is as it was. -/
theorem Quiet.repeats_bind [Adds f] [Obeys order.Kept f] {rest : α → Reading β}
    {X : β → List Diagnostic → Prop} (hf : Quiet f) (hadds : ∀ a, Adds (rest a))
    (hrest : ∀ a, Repeats (rest a) X) : Repeats (f >>= rest) X := by
  refine hf.repeats.bind hadds ?_
  rintro a _ rfl
  exact hrest a

theorem repeats_between (opening closing : Nesting → Nesting) (hf : Repeats f W) :
    Repeats (between (State.renest opening) (State.renest closing) f) W := by
  intro s hs a s' hrun hfine
  rw [run_between] at hrun
  cases hinside : EStateM.run f (s.renest opening) with
  | error problem middle =>
      rw [hinside] at hrun
      cases hrun
  | ok b middle =>
      rw [hinside] at hrun
      cases hrun
      exact hf (s.renest opening) ⟨hs.size, hs.tokens⟩ _ middle hinside ⟨hfine.1, hfine.2⟩

theorem repeats_nested (hf : Repeats f W) : Repeats (nested f) W := by
  refine repeats_get fun s => ?_
  split
  · exact repeats_between Nesting.deeper Nesting.outer hf
  · intro s _ a s' hrun
    have herror := tooDeep_run (α := α) s
    rw [run_of_ok hrun] at herror
    cases herror

/-- A failure of an attempt is an error, so it need not be looked at if that is reported. -/
theorem Repeats.attempt [Obeys order.Kept f] {rest : Except Problem α → Reading β}
    {X : β → List Diagnostic → Prop} (hf : Repeats f W) (hadds : ∀ a, Adds (rest (.ok a)))
    (hok : ∀ a told, W a told → Repeats (rest (.ok a)) fun b more => X b (told ++ more))
    (herror : ∀ problem, Spoils (rest (.error problem))) : Repeats (attempt f >>= rest) X := by
  intro s hs b s' hrun hfine
  rw [EStateM.run_bind, run_attempt] at hrun
  cases hf' : EStateM.run f s with
  | error problem middle =>
      rw [hf'] at hrun
      exact absurd hfine (herror problem middle b s' hrun)
  | ok a middle =>
      rw [hf'] at hrun
      obtain ⟨told, htold, hW⟩ := hf s hs a middle hf' (hfine.of_grows (Adds.of_ok hrun))
      have hmiddle := (continues_of_run hs (run_of_ok hf')).ordered
      obtain ⟨more, hmore, hX⟩ := hok a told hW middle hmiddle b s' hrun hfine
      exact ⟨told ++ more, by rw [hmore, htold, List.append_assoc], hX⟩

/-- A repetition tells what its turns tell. -/
theorem Repeats.iterate {step : σ → Reading (Turn σ)} [∀ value, Adds (step value)]
    [∀ value, Obeys order.Kept (step value)] (known : σ → List Diagnostic)
    (hstep : ∀ value, Repeats (step value) fun turn told => known turn.value = known value ++ told)
    (value : σ) : Repeats (iterate step value) fun last told => known last = known value ++ told := by
  intro s
  induction hmeasure : s.remaining using Nat.strongRecOn generalizing value s with
  | ind measure ih =>
      subst hmeasure
      intro hs last s' hrun hfine
      rw [run_iterate] at hrun
      cases hturn : EStateM.run (step value) s with
      | error problem middle =>
          rw [hturn] at hrun
          cases hrun
      | ok turn middle =>
          rw [hturn] at hrun
          have hmiddle := (continues_of_run hs (run_of_ok hturn)).ordered
          cases turn with
          | done value' =>
              cases hrun
              exact hstep value s hs _ _ hturn hfine
          | again value' =>
              simp only at hrun
              split at hrun
              · rename_i hless
                obtain ⟨told, htold, hknown⟩ := hstep value s hs _ middle hturn
                  (hfine.of_grows (Adds.of_ok hrun))
                obtain ⟨more, hmore, hlast⟩ := ih _ hless value' middle rfl hmiddle last s' hrun hfine
                refine ⟨told ++ more, by rw [hmore, htold, List.append_assoc], ?_⟩
                change known last = known value ++ (told ++ more)
                rw [hlast, ← List.append_assoc, ← hknown, Turn.value]
              · cases hrun
                exact hstep value s hs _ _ hturn hfine

/-! ## Steps that never warn -/

theorem quiet_accept (kind : TokenKind) : Quiet (accept kind) := by
  refine (quiet_peek.bind fun _ => quiet_pure _).bind fun _ => ?_
  split
  · exact quiet_advance.bind fun _ => quiet_pure _
  · exact quiet_pure _

theorem quiet_unexpected (expectation : Expectation) :
    Quiet (unexpected expectation : Reading α) :=
  quiet_peek.bind fun _ => quiet_fail _ _

theorem quiet_expect (sign : Symbol) (expectation : Expectation) :
    Quiet (expect sign expectation) := by
  refine quiet_peek.bind fun _ => ?_
  split
  · exact quiet_advance.bind fun _ => quiet_pure _
  · exact quiet_unexpected _

theorem quiet_identifier (expectation : Expectation) : Quiet (identifier expectation) := by
  refine quiet_peek.bind fun _ => ?_
  split
  · exact quiet_advance.bind fun _ => quiet_pure _
  · exact quiet_unexpected _

theorem quiet_closing (bracket : Bracket) (opened : Span) : Quiet (closing bracket opened) := by
  refine quiet_peek.bind fun _ => ?_
  split
  · exact quiet_advance.bind fun _ => quiet_pure _
  · exact quiet_fail _ _

theorem quiet_rawText : Quiet rawText := by
  intro s hs a s' hrun
  have hordered := (continues_of_run hs (run_of_ok hrun)).ordered
  refine ⟨hordered, ?_⟩
  rw [rawText, EStateM.run_bind, EStateM.run_get] at hrun
  simp only at hrun
  split at hrun <;> cases hrun <;> rfl

/-! ## Reports that are about something else -/

theorem repeats_report {cause : Cause} {span : Span}
    (h : (Diagnostic.warning cause span).isRepetition = false) :
    Repeats (report (.warning cause span)) fun _ told => told = [] := by
  intro s hs a s' hrun hfine
  cases hrun
  have hbefore := hfine.of_grows (s.grows_report (.warning cause span))
  refine ⟨[], ?_, rfl⟩
  rw [(State.repetitions_warning hbefore rfl).2, List.filter_singleton, h]
  rfl

theorem repeats_path (kind : ConditionKind) (opened : Span) :
    Repeats (path kind opened) fun _ told => told = [] := by
  have hreport (span : Span) : Repeats (report (.warning (.emptyPath kind) span))
      fun _ told => told = [] := repeats_report rfl
  have (span : Span) : Obeys order.Kept (report (.warning (.emptyPath kind) span)) :=
    obeys_report rfl
  refine quiet_rawText.repeats_bind (fun _ => inferInstance) fun raw => ?_
  obtain ⟨text, span⟩ := raw
  simp only
  split
  · refine (hreport _).bind (fun _ => inferInstance) ?_
    rintro _ _ rfl
    exact repeats_pure rfl
  · exact repeats_pure rfl

/-! ## Lines of directives -/

theorem quiet_lineTurn : Quiet lineTurn := by
  refine quiet_peek.bind fun _ => ?_
  split
  · exact quiet_pure _
  · exact quiet_advance.bind fun _ => quiet_pure _
  · exact quiet_advance.bind fun _ => quiet_pure _

theorem repeats_skipLine : Repeats skipLine fun _ told => told = [] := by
  rw [skipLine_eq]
  refine Repeats.map (Repeats.iterate (fun _ => []) (fun _ => ?_) ()) fun _ _ h => h.symm
  exact quiet_lineTurn.repeats.imp fun _ _ h => h.symm

theorem repeats_endOfMark (mark : Mark) : Repeats (endOfMark mark) fun _ told => told = [] := by
  refine quiet_peek.repeats_bind (fun _ => by split <;> infer_instance) fun token => ?_
  have : Obeys order.Kept (report (.warning (.extraTokens mark) token.span)) := obeys_report rfl
  split
  · exact (quiet_advance.bind fun _ => quiet_pure ()).repeats
  · exact repeats_pure rfl
  · refine (repeats_report rfl).bind inferInstance ?_
    rintro _ _ rfl
    exact repeats_skipLine

/-- A line that is skipped is an error. -/
theorem repeats_lineOrSkip {line : Reading α} [Obeys order.Kept line] [Adds line]
    (hline : Repeats line fun _ told => told = []) :
    Repeats (lineOrSkip line) fun found told => found.isSome = true ∧ told = [] := by
  refine hline.attempt (fun _ => inferInstance) ?_ fun problem => spoils_report rfl
  rintro a _ rfl
  exact repeats_pure ⟨rfl, rfl⟩

section Conditions

variable {expression : Reading Expression} [Adds expression] [Obeys order.Kept expression]

omit [Adds expression] [Obeys order.Kept expression] in
theorem quiet_conditionExpression (h : Quiet expression) :
    Quiet (conditionExpression expression) :=
  quiet_between Nesting.conditional (fun nesting => { nesting with inCondition := false }) h

theorem repeats_conditionLine (h : Quiet expression) (kind : ConditionKind) (opened : Span) :
    Repeats (conditionLine kind opened expression) fun _ told => told = [] := by
  have hof : Repeats (conditionOf kind opened expression) fun _ told => told = [] := by
    cases kind with
    | holds => exact ((quiet_conditionExpression h).bind fun _ => quiet_pure _).repeats
    | defined => exact ((quiet_identifier _).bind fun _ => quiet_pure _).repeats
    | undefined => exact ((quiet_identifier _).bind fun _ => quiet_pure _).repeats
    | fileExists | fileMissing => exact (repeats_path _ _).map fun _ _ h => h
  refine hof.bind (fun _ => inferInstance) ?_
  rintro condition _ rfl
  exact ((quiet_endOfLine _).bind fun _ => quiet_pure _).repeats

omit [Obeys order.Kept expression] in
theorem repeats_branchCondition (h : Quiet expression) :
    Repeats (branchCondition expression) fun _ told => told = [] :=
  ((quiet_conditionExpression h).bind fun _ =>
    (quiet_endOfLine _).bind fun _ => quiet_pure _).repeats

end Conditions

/-! ## Bodies -/

/-- A reading of a statement tells what is to be told about the bodies inside of it. -/
def RepeatsInside (statement : Reading (Option Statement)) : Prop :=
  Repeats statement fun found told => ∃ item, found = some item ∧
    told = Body.repetitionsList item.bodies

/-- A body warns about its own declarations when it is complete. -/
theorem repeats_warnDuplicates (statements : List Statement) :
    Repeats (warnDuplicates statements) fun _ told => told = repetitions statements := by
  intro s hs a s' hrun hfine
  cases hrun
  have hbefore := hfine.of_grows (State.grows_foldl_report (duplicateWarnings [] statements) s)
  refine ⟨_, ?_, rfl⟩
  rw [State.repetitions_foldl_report hbefore (isError_duplicateWarnings [] statements),
    ← duplicateWarnings_eq, List.filter_eq_self.mpr]
  intro diagnostic hmem
  obtain ⟨_, _, _, rfl⟩ := exists_of_mem_duplicateWarnings hmem
  rfl

theorem quiet_atEndOfBlock : Quiet atEndOfBlock :=
  quiet_peek.bind fun _ => quiet_get.bind fun _ => quiet_pure _

theorem quiet_branchSpan (statements : List Statement) : Quiet (branchSpan statements) := by
  unfold branchSpan
  split
  · exact quiet_pure _
  · exact quiet_peek.bind fun _ => quiet_pure _

section Bodies

variable {statement : Reading (Option Statement)} [Adds statement] [Obeys order.Kept statement]

omit [Adds statement] in
theorem repeats_appendStatement (hstatement : RepeatsInside statement)
    (statements : Array Statement) :
    Repeats (appendStatement statement statements) fun items told =>
      Statement.toldInside items = Statement.toldInside statements ++ told := by
  refine repeats_get fun s => hstatement.attempt (fun a => ?_) ?_ fun problem => ?_
  · cases a <;> infer_instance
  · rintro _ _ ⟨item, rfl, rfl⟩
    refine repeats_pure ?_
    rw [Statement.toldInside, Statement.toldInside, Array.toList_push,
      Statement.bodiesList_concat, Body.repetitionsList_append, List.append_nil]
  · exact spoils_report rfl

theorem repeats_statementsUntil {atEnd : Reading Bool} [Adds atEnd] [Obeys order.Kept atEnd]
    (hatEnd : Quiet atEnd) (hstatement : RepeatsInside statement) :
    Repeats (statementsUntil atEnd statement) fun statements told =>
      told = Body.repetitionsList (Statement.bodiesList statements) := by
  have hadds (items : Array Statement) : Adds (bodyTurn atEnd statement items) := by
    unfold bodyTurn
    infer_instance
  have horder (items : Array Statement) : Obeys order.Kept (bodyTurn atEnd statement items) := by
    unfold bodyTurn
    infer_instance
  rw [statementsUntil_eq]
  refine Repeats.bind (Repeats.iterate Statement.toldInside (fun items => ?_) #[]) inferInstance ?_
  · refine hatEnd.repeats_bind (fun _ => by split <;> infer_instance) fun ended => ?_
    split
    · exact repeats_pure (List.append_nil _).symm
    · refine (repeats_appendStatement hstatement items).bind inferInstance fun items' told h => ?_
      exact repeats_pure (by rwa [List.append_nil])
  · intro items told h
    refine repeats_pure ?_
    rw [List.append_nil]
    exact h.symm

theorem repeats_block (hstatement : RepeatsInside statement) (expectation : Expectation) :
    Repeats (block statement expectation) fun body told =>
      told = Body.repetitionsList body.bodies := by
  have : Adds (between State.openBrace State.closeBrace
      (statementsUntil atEndOfBlock statement)) :=
    adds_between (fun s => s.grows_renest _) fun s => s.grows_renest _
  have : Obeys order.Kept (between State.openBrace State.closeBrace
      (statementsUntil atEndOfBlock statement)) :=
    obeys_between Nesting.inBraces (fun nesting => { nesting with braces := nesting.braces - 1 })
      fun _ _ h => ⟨h.depth, Nat.sub_eq_of_eq_add h.braces, h.chains, h.outside⟩
  have hinside : Repeats (nested do
      let opened ← expect .openBrace expectation
      let statements ← between State.openBrace State.closeBrace
        (statementsUntil atEndOfBlock statement)
      return (opened, statements)) fun result told =>
        told = Body.repetitionsList (Statement.bodiesList result.2) := by
    have hbetween : Repeats (between State.openBrace State.closeBrace
        (statementsUntil atEndOfBlock statement)) _ :=
      repeats_between Nesting.inBraces
        (fun nesting => { nesting with braces := nesting.braces - 1 })
        (repeats_statementsUntil quiet_atEndOfBlock hstatement)
    refine repeats_nested ((quiet_expect _ _).repeats_bind inferInstance fun opened => ?_)
    refine hbetween.bind inferInstance ?_
    rintro statements _ rfl
    exact repeats_pure (List.append_nil _)
  refine hinside.bind inferInstance ?_
  rintro ⟨opened, statements⟩ _ rfl
  refine (repeats_warnDuplicates statements).bind inferInstance ?_
  rintro _ _ rfl
  refine (quiet_closing _ _).repeats.bind inferInstance ?_
  rintro close _ rfl
  refine repeats_pure ?_
  rw [List.append_nil, List.append_nil, Body.bodies, Body.repetitionsList_append]
  simp [Body.repetitionsList, Body.statements]

theorem repeats_branchBody (hstatement : RepeatsInside statement) :
    Repeats (branchBody statement) fun body told => told = Body.repetitionsList body.bodies := by
  refine repeats_get fun s => ?_
  refine (repeats_statementsUntil (quiet_atEndOfBranch _) hstatement).bind inferInstance ?_
  rintro statements _ rfl
  refine (repeats_warnDuplicates statements).bind inferInstance ?_
  rintro _ _ rfl
  refine (quiet_branchSpan _).repeats.bind inferInstance ?_
  rintro span _ rfl
  refine repeats_pure ?_
  rw [List.append_nil, List.append_nil, Body.bodies, Body.repetitionsList_append]
  simp [Body.repetitionsList, Body.statements]

end Bodies

/-! ## Conditional directive blocks -/

section Branching

variable {expression : Reading Expression} [Adds expression] [Obeys order.Kept expression]
  {statement : Reading (Option Statement)} [Adds statement] [Obeys order.Kept statement]

/-- A branch with a condition is an error behind the last body. -/
theorem repeats_elifBranch (hexpression : Quiet expression) (hstatement : RepeatsInside statement)
    (start : Span) (before : Branches) :
    Repeats (elifBranch expression statement start before) fun branches told =>
      branches.toldInside = before.toldInside ++ told := by
  unfold elifBranch
  cases hlast : before.otherwise with
  | some body =>
      simp only [Option.isSome_some, if_true]
      exact repeats_of_spoils (spoils_report rfl)
  | none =>
      simp only [Option.isSome_none, Bool.false_eq_true, if_false]
      refine (repeats_lineOrSkip (repeats_branchCondition hexpression)).bind
        (fun found => by cases found <;> infer_instance) ?_
      rintro found _ ⟨hfound, rfl⟩
      obtain ⟨condition, rfl⟩ := Option.isSome_iff_exists.mp hfound
      refine (repeats_branchBody hstatement).bind inferInstance ?_
      rintro body _ rfl
      refine repeats_pure ?_
      rw [Branches.toldInside, Branches.toldInside, Array.toList_push, Branch.bodiesList_concat,
        hlast, Body.bodiesOption]
      simp only [List.append_nil, List.nil_append, Body.repetitionsList_append]

/-- A second last body is an error. -/
theorem repeats_otherwiseBranch (hstatement : RepeatsInside statement) (start : Span)
    (before : Branches) :
    Repeats (otherwiseBranch statement start before) fun branches told =>
      branches.toldInside = before.toldInside ++ told := by
  unfold otherwiseBranch
  cases hlast : before.otherwise with
  | some body =>
      simp only [Option.isSome_some, if_true]
      exact repeats_of_spoils (spoils_report rfl)
  | none =>
      simp only [Option.isSome_none, Bool.false_eq_true, if_false]
      refine (repeats_endOfMark .otherwise).bind inferInstance ?_
      rintro _ _ rfl
      refine (repeats_branchBody hstatement).bind inferInstance ?_
      rintro body _ rfl
      refine repeats_pure ?_
      rw [Branches.toldInside, Branches.toldInside, hlast, Body.bodiesOption]
      simp only [List.append_nil, List.nil_append, Body.repetitionsList_append]
      rfl

theorem repeats_branch (hexpression : Quiet expression) (hstatement : RepeatsInside statement)
    (before : Branches) :
    Repeats (branch expression statement before) fun turn told =>
      turn.value.toldInside = before.toldInside ++ told := by
  refine quiet_peek.repeats_bind (fun _ => by split <;> infer_instance) fun token => ?_
  split
  · refine quiet_advance.repeats_bind inferInstance fun _ => ?_
    exact (repeats_elifBranch hexpression hstatement _ before).map fun _ _ h => h
  · refine quiet_advance.repeats_bind inferInstance fun _ => ?_
    exact (repeats_otherwiseBranch hstatement _ before).map fun _ _ h => h
  · exact repeats_pure (List.append_nil _).symm

theorem repeats_endif (kind : ConditionKind) (opened : Span) :
    Repeats (endif kind opened) fun _ told => told = [] := by
  refine quiet_peek.repeats_bind (fun _ => by split <;> infer_instance) fun token => ?_
  split
  · refine quiet_advance.repeats_bind inferInstance fun _ => ?_
    exact (repeats_endOfMark .endif).map fun _ _ h => h
  · exact repeats_fail

theorem repeats_branching (hexpression : Quiet expression) (hstatement : RepeatsInside statement)
    (kind : ConditionKind) (opened : Span) :
    Repeats (branching kind opened expression statement) fun parts told =>
      told = Body.repetitionsList parts.thenBody.bodies ++ parts.branches.toldInside := by
  refine (repeats_branchBody hstatement).bind inferInstance ?_
  rintro thenBody _ rfl
  refine (Repeats.iterate Branches.toldInside
    (fun before => repeats_branch hexpression hstatement before) {}).bind inferInstance ?_
  intro branches told htold
  refine (repeats_endif kind opened).bind inferInstance ?_
  rintro close _ rfl
  refine repeats_pure ?_
  rw [htold, List.append_nil, List.append_nil]
  rfl

/-- A block that is dropped is an error. -/
theorem repeats_conditionalFrom (hexpression : Quiet expression)
    (hstatement : RepeatsInside statement) (kind : ConditionKind) (opened : Span) :
    RepeatsInside (conditionalFrom kind opened expression statement) := by
  have : Adds (between State.openChain State.closeChain
      (branching kind opened expression statement)) :=
    adds_between (fun s => s.grows_renest _) fun s => s.grows_renest _
  have : Obeys order.Kept (between State.openChain State.closeChain
      (branching kind opened expression statement)) :=
    obeys_between Nesting.inChain (fun nesting => { nesting with chains := nesting.chains - 1 })
      fun _ _ h => ⟨h.depth, h.braces, Nat.sub_eq_of_eq_add h.chains, h.outside⟩
  have hhead : Repeats (conditionalHead kind opened expression) fun found told =>
      found.isSome = true ∧ told = [] := by
    refine quiet_advance.repeats_bind inferInstance fun _ => ?_
    exact (quiet_note _).repeats_bind inferInstance fun _ =>
      repeats_lineOrSkip (repeats_conditionLine hexpression kind opened)
  have hbetween : Repeats (between State.openChain State.closeChain
      (branching kind opened expression statement)) _ :=
    repeats_between Nesting.inChain (fun nesting => { nesting with chains := nesting.chains - 1 })
      (repeats_branching hexpression hstatement kind opened)
  have hinside : Repeats (nested (conditionalHead kind opened expression >>= fun condition =>
      between State.openChain State.closeChain (branching kind opened expression statement) >>=
        fun parts => pure (condition, parts))) fun result told => result.1.isSome = true ∧
          told = Body.repetitionsList result.2.thenBody.bodies ++ result.2.branches.toldInside := by
    refine repeats_nested (hhead.bind inferInstance ?_)
    rintro found _ ⟨hfound, rfl⟩
    refine hbetween.bind inferInstance ?_
    rintro parts _ rfl
    exact repeats_pure ⟨hfound, List.append_nil _⟩
  rw [conditionalFrom_eq]
  refine hinside.bind inferInstance ?_
  rintro ⟨found, parts⟩ _ ⟨hfound, rfl⟩
  obtain ⟨condition, rfl⟩ := Option.isSome_iff_exists.mp hfound
  refine (quiet_note _).repeats_bind inferInstance fun _ => repeats_pure ⟨_, rfl, ?_⟩
  rw [List.append_nil, Statement.bodies, List.append_assoc, Body.repetitionsList_append]
  rfl

end Branching

/-! ## Statements -/

section Statements

variable {expression : Reading Expression} [Adds expression] [Obeys order.Kept expression]
  {statement : Reading (Option Statement)} [Adds statement] [Obeys order.Kept statement]

omit [Adds expression] [Obeys order.Kept expression] in
theorem quiet_constant (hexpression : Quiet expression) : Quiet (constant expression) := by
  have htype : Quiet (declaredType expression) := by
    refine (quiet_accept _).bind fun _ => ?_
    split
    · exact hexpression.bind fun _ => quiet_pure _
    · exact quiet_pure _
  exact quiet_advance.bind fun _ => (quiet_identifier _).bind fun _ => htype.bind fun _ =>
    (quiet_expect _ _).bind fun _ => hexpression.bind fun _ => quiet_pure _

omit [Adds expression] [Obeys order.Kept expression] in
theorem quiet_assignment (hexpression : Quiet expression) : Quiet (assignment expression) := by
  refine (quiet_identifier _).bind fun _ => quiet_peek.bind fun _ => ?_
  split
  · exact quiet_advance.bind fun _ => hexpression.bind fun _ => quiet_pure _
  · exact quiet_advance.bind fun _ => hexpression.bind fun _ => quiet_pure _
  · refine quiet_get.bind fun _ => ?_
    split
    · exact quiet_advance.bind fun _ => quiet_rawText.bind fun _ => quiet_pure _
    · exact quiet_unexpected _
  · exact quiet_unexpected _

theorem quiet_message (severity : Severity) : Quiet (message severity) :=
  quiet_advance.bind fun _ => quiet_rawText.bind fun _ =>
    (quiet_endOfLine _).bind fun _ => quiet_pure _

theorem repeats_group (hstatement : RepeatsInside statement) :
    Repeats (group statement) fun item told => told = Body.repetitionsList item.bodies := by
  refine quiet_advance.repeats_bind inferInstance fun start => ?_
  refine (quiet_identifier _).repeats_bind inferInstance fun name => ?_
  refine (repeats_block hstatement _).map ?_
  rintro body _ rfl
  rfl

theorem repeats_elseBlock (hstatement : RepeatsInside statement) :
    Repeats (elseBlock statement) fun body told =>
      told = Body.repetitionsList (Body.bodiesOption body) := by
  refine (quiet_accept _).repeats_bind (fun _ => by split <;> infer_instance) fun taken => ?_
  split
  · refine (repeats_block hstatement _).map ?_
    rintro body _ rfl
    rfl
  · exact repeats_pure rfl

theorem repeats_choice (hexpression : Quiet expression) (hstatement : RepeatsInside statement) :
    Repeats (choice expression statement) fun item told =>
      told = Body.repetitionsList item.bodies := by
  refine quiet_advance.repeats_bind inferInstance fun start => ?_
  refine (quiet_expect _ _).repeats_bind inferInstance fun opened => ?_
  refine hexpression.repeats_bind inferInstance fun condition => ?_
  refine (quiet_closing _ _).repeats_bind inferInstance fun _ => ?_
  refine (repeats_block hstatement _).bind inferInstance ?_
  rintro thenBody _ rfl
  refine (repeats_elseBlock hstatement).map ?_
  rintro elseBody _ rfl
  rw [Statement.bodies, Body.repetitionsList_append]

end Statements

/-- A statement without bodies tells nothing. -/
theorem Quiet.repeatsInside {f : Reading Statement} [Adds f] [Obeys order.Kept f] (hf : Quiet f)
    (hbodies : Returns (fun item => item.bodies = []) f) : RepeatsInside (some <$> f) := by
  have hnone : Repeats f fun item told => told = Body.repetitionsList item.bodies := by
    intro s hs item s' hrun hfine
    obtain ⟨_, htold, rfl⟩ := hf.repeats s hs item s' hrun hfine
    refine ⟨[], htold, ?_⟩
    change [] = Body.repetitionsList item.bodies
    rw [hbodies s item s' (run_of_ok hrun)]
    rfl
  exact hnone.map fun item _ h => ⟨item, rfl, h⟩

theorem repeats_statement {expression : Reading Expression} [Adds expression]
    [Obeys order.Kept expression] {inner : Inner} [Adds inner.expression]
    [Obeys order.Kept inner.expression] [Adds inner.statement] [Obeys order.Kept inner.statement]
    (hexpression : Quiet expression) (hinner : Quiet inner.expression)
    (hstatement : RepeatsInside inner.statement) :
    RepeatsInside (Reading.statement expression inner) := by
  rw [statement_eq]
  refine quiet_peek.repeats_bind (fun token => ?_) fun token => ?_
  · apply statementAt_cases
    case mark => exact fun _ _ => obeys_get (fun _ => rfl) fun _ => inferInstance
    all_goals intros; infer_instance
  apply statementAt_cases (motive := fun f => Repeats f fun found told =>
    ∃ item, found = some item ∧ told = Body.repetitionsList item.bodies)
  case opener => exact fun _ _ => repeats_conditionalFrom hinner hstatement _ _
  case message =>
    refine fun _ _ => (quiet_message _).repeatsInside ?_
    exact returns_bind fun _ => returns_bind fun _ => returns_bind fun _ => returns_pure rfl
  case passage =>
    exact fun _ _ => quiet_advance.repeats_bind inferInstance fun _ => repeats_pure ⟨_, rfl, rfl⟩
  case mark => exact fun _ _ => repeats_get fun _ => repeats_fail
  case constant =>
    refine fun _ => (quiet_constant hexpression).repeatsInside ?_
    exact returns_bind fun _ => returns_bind fun _ => returns_bind fun _ => returns_bind fun _ =>
      returns_bind fun _ => returns_pure rfl
  case group => exact fun _ => (repeats_group hstatement).map fun item _ h => ⟨item, rfl, h⟩
  case choice =>
    exact fun _ => (repeats_choice hexpression hstatement).map fun item _ h => ⟨item, rfl, h⟩
  case assignment =>
    refine fun _ _ _ => (quiet_assignment hexpression).repeatsInside ?_
    refine returns_bind fun _ => returns_bind fun _ => ?_
    split
    · exact returns_bind fun _ => returns_bind fun _ => returns_pure rfl
    · exact returns_bind fun _ => returns_bind fun _ => returns_pure rfl
    · refine returns_bind fun _ => ?_
      split
      · exact returns_bind fun _ => returns_bind fun _ => returns_pure rfl
      · exact returns_bind fun _ => fun s a s' hrun => by cases hrun
    · exact returns_bind fun _ => fun s a s' hrun => by cases hrun
  case other => exact quiet_peek.repeats_bind inferInstance fun _ => repeats_fail

theorem repeats_read (level : Nat) : RepeatsInside (Statement.read level) := by
  induction level with
  | zero =>
      intro s _ a s' hrun
      have herror : (Statement.read 0).run s = _ := tooDeep_run s
      rw [run_of_ok hrun] at herror
      cases herror
  | succ level ih =>
      exact repeats_statement (quiet_expression _ _) (quiet_expression _ _) ih

theorem repeats_wholeProgram :
    Repeats wholeProgram fun program told => told = program.repetitions := by
  refine repeats_get fun s => ?_
  refine (quiet_note _).repeats_bind inferInstance fun _ => ?_
  refine (repeats_statementsUntil quiet_atEndOfProgram (repeats_read _)).bind inferInstance ?_
  rintro statements _ rfl
  refine (repeats_warnDuplicates statements).bind inferInstance ?_
  rintro _ _ rfl
  exact repeats_pure (by rw [List.append_nil]; rfl)

end Reading

/-! ## Main result -/

/-- Without errors, what is said about names that are declared again is told by the program. -/
theorem filter_isRepetition_parseWith {options : Options} {source : String}
    (h : (parseWith options source).hasErrors = false) :
    (parseWith options source).diagnostics.filter (·.isRepetition) =
      (parseWith options source).program.repetitions := by
  -- Without errors there is nothing to limit.
  have hsame := parseWith_unlimited h
  rw [← hsame] at h ⊢
  obtain ⟨program, after, hrun, houtcome⟩ :=
    exists_wholeProgram { options with maxErrors := none } source
  rw [houtcome] at h ⊢
  have hfine : after.Fine :=
    ⟨(Reading.Adds.of_ok hrun).unlimited rfl, State.hasErrors_finish.mp h⟩
  obtain ⟨told, htold, rfl⟩ := Reading.repeats_wholeProgram _ (State.ordered_ofSource _ source)
    program after hrun hfine
  exact htold

/-- **Warnings about declarations agree with the index of declarations.**  If a source is read
without errors, each declaration of a name that was declared earlier in the same body is warned
about once, at the later name and with the place of the first declaration, and nothing else is
said about names that are declared again.  The declarations of the program and of each body have
the declared names as keys, each with the last statement that declares it, so the keys and the
warnings of a body are together as many as its declarations. -/
theorem repetitions_parseWith (options : Options) (source : String)
    (h : (parseWith options source).hasErrors = false) :
    (parseWith options source).diagnostics.filter (·.isRepetition) =
        (parseWith options source).program.repetitions ∧
      Indexes (parseWith options source).program.declarations
        (parseWith options source).program.statements ∧
      ∀ body ∈ (parseWith options source).program.bodies,
        Indexes body.declarations body.statements :=
  ⟨filter_isRepetition_parseWith h, indexes_declarations _, fun _ _ => indexes_declarations _⟩

/-- A quoted name and a bare one are the same, and a branch is a body of its own. -/
theorem repetitions_of_branches :
    (parseWith {}
        "const a = 1\n%if x\nconst 'a' = 2\nconst a = 3\n%endif\nconst 'a' = 4\n").hasErrors =
        false ∧
      (parseWith {}
          "const a = 1\n%if x\nconst 'a' = 2\nconst a = 3\n%endif\nconst 'a' = 4\n").program.repetitions =
        [.warning (.duplicateDeclaration "a" ⟨24, 27, 3, 7⟩) ⟨38, 39, 4, 7⟩,
          .warning (.duplicateDeclaration "a" ⟨6, 7, 1, 7⟩) ⟨57, 60, 6, 7⟩] := by
  have hclean : (parseWith {}
      "const a = 1\n%if x\nconst 'a' = 2\nconst a = 3\n%endif\nconst 'a' = 4\n").hasErrors =
      false := by decide +kernel
  refine ⟨hclean, ?_⟩
  rw [← (repetitions_parseWith {} _ hclean).1]
  decide +kernel

end ConfLang
