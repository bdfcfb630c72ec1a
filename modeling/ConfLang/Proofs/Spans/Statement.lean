import ConfLang.Proofs.Spans.Expression

/-!
# Programs lay their trees

The rules of `Lays` for bodies, conditional directive blocks and statements, in the order of
their definitions, and the induction over the levels of nesting that ties the knot.

A statement that is dropped, because it or its condition could not be read, leaves a gap in the
row, and so does a branch that does not count.
-/

namespace ConfLang.Reading

variable {source : String} {before : List SpanTree} {α : Type}

/-- A reading of statements lays the tree of the statement that it gives. -/
def LaysStatement (source : String) (statement : Reading (Option Statement)) : Prop :=
  Lays source [] statement fun read => Statement.spanTrees read.toList

section Bodies

variable {expression : Reading Expression} {statement : Reading (Option Statement)}
  [Obeys (laying source).Kept expression] [Obeys (laying source).Kept statement]

/-! ## Bodies -/

theorem lays_appendStatement (h : LaysStatement source statement) (statements : Array Statement) :
    Lays source (Statement.spanTrees statements.toList) (appendStatement statement statements)
      fun statements => Statement.spanTrees statements.toList := by
  unfold appendStatement
  refine lays_get fun s => (Lays.frame h).attempt.bind fun result => ?_
  match result with
  | .ok (some statement) =>
      refine lays_pure fun _ _ hrow => ?_
      rw [Array.toList_push, Statement.spanTrees_eq, List.map_append, ← Statement.spanTrees_eq]
      exact hrow
  | .ok none => exact lays_pure fun _ _ hrow => hrow.sublist (List.sublist_append_left _ _)
  | .error problem =>
      exact lays_after (report _) fun _ => lays_after (recover _) fun _ => lays_pure fun _ _ => id

theorem lays_statementsUntil (h : LaysStatement source statement) (atEnd : Reading Bool)
    [Obeys (laying source).Kept atEnd] :
    Lays source [] (statementsUntil atEnd statement) Statement.spanTrees := by
  rw [statementsUntil_eq]
  have hturn (statements : Array Statement) :
      Lays source (Statement.spanTrees statements.toList) (bodyTurn atEnd statement statements)
        fun turn => Statement.spanTrees turn.value.toList := by
    refine lays_after atEnd fun isEnd => ?_
    split
    · exact lays_pure fun _ _ => id
    · exact (lays_appendStatement h statements).bind fun statements => lays_pure fun _ _ => id
  have (statements : Array Statement) :
      Obeys (laying source).Kept (bodyTurn atEnd statement statements) := by
    unfold bodyTurn
    infer_instance
  exact (Lays.iterate (fun statements => Statement.spanTrees statements.toList) hturn #[]).bind
    fun statements => lays_pure fun _ _ => id

theorem lays_block (h : LaysStatement source statement) (expectation : Expectation) :
    Lays source [] (block statement expectation) fun body => [body.spanTree] := by
  have hinside : Obeys (laying source).Kept (between State.openBrace State.closeBrace
      (statementsUntil atEndOfBlock statement)) :=
    obeys_between Nesting.inBraces (fun nesting => { nesting with braces := nesting.braces - 1 })
      fun _ _ h => ⟨h.depth, Nat.sub_eq_of_eq_add h.braces, h.chains, h.outside⟩
  have hstatements : Lays source [] (between State.openBrace State.closeBrace
      (statementsUntil atEndOfBlock statement)) Statement.spanTrees :=
    (lays_statementsUntil h atEndOfBlock).between Nesting.inBraces
      fun nesting => { nesting with braces := nesting.braces - 1 }
  have hblock : Lays source [] (nested do
      let opened ← expect .openBrace expectation
      let statements ← between State.openBrace State.closeBrace (statementsUntil atEndOfBlock statement)
      return (opened, statements)) fun read => [.leaf read.1] ++ Statement.spanTrees read.2 :=
    ((lays_expect _ _).bind fun opened => hstatements.frame.bind fun statements =>
      lays_pure fun _ _ => id).nested
  unfold block
  refine hblock.bind fun read => lays_after (warnDuplicates _) fun _ => ?_
  refine (lays_closing _ _).bind fun close => lays_pure fun _ _ hrow => ?_
  exact hrow.enclose (.leaf close) rfl List.getLast?_concat rfl (by simp)

/-- The place of statements goes from the first to the last of them. -/
theorem lays_branchSpan (statements : List Statement) :
    Lays source (Statement.spanTrees statements) (branchSpan statements) fun span =>
      [(Body.mk statements span).spanTree] := by
  unfold branchSpan
  split
  · rename_i first last hfirst hlast
    refine lays_pure fun _ _ hrow => ?_
    rw [Statement.spanTrees_eq] at hrow
    have hfront : (statements.map Statement.spanTree).head? = some first.spanTree := by
      rw [List.head?_map, hfirst, Option.map_some]
    have hback : (statements.map Statement.spanTree).getLast? = some last.spanTree := by
      rw [List.getLast?_map, hlast, Option.map_some]
    refine hrow.enclose last.spanTree hfront hback (by simp) ?_
    rw [Statement.spanTrees_eq]
  · rename_i hnone
    obtain rfl : statements = [] := by
      cases statements with
      | nil => rfl
      | cons first rest => exact (hnone _ _ rfl (List.getLast?_cons ..)).elim
    exact lays_peek fun token => laysAt_origin

theorem lays_branchBody (h : LaysStatement source statement) :
    Lays source [] (branchBody statement) fun body => [body.spanTree] := by
  unfold branchBody
  refine lays_get fun s => (lays_statementsUntil h _).bind fun statements => ?_
  exact lays_after (warnDuplicates _) fun _ => (lays_branchSpan statements).bind fun span =>
    lays_pure fun _ _ => id

/-! ## Lines of directives -/

omit [Obeys (laying source).Kept expression] in
theorem lays_conditionExpression (h : LaysExpression source expression) :
    LaysExpression source (conditionExpression expression) :=
  Lays.between Nesting.conditional (fun nesting => { nesting with inCondition := false }) h

theorem lays_conditionLine (h : LaysExpression source expression) (kind : ConditionKind)
    (opened : Span) :
    Lays source [] (conditionLine kind opened expression) Condition.spanTrees := by
  have hcondition : Lays source [] (conditionOf kind opened expression) Condition.spanTrees := by
    unfold conditionOf
    cases kind with
    | holds => exact (lays_conditionExpression h).bind fun e => lays_pure fun _ _ => id
    | defined | undefined =>
        exact (lays_identifier _).bind fun name => lays_pure fun _ _ => id
    | fileExists | fileMissing =>
        exact lays_after (path _ _) fun text => lays_pure fun _ _ => id
  exact hcondition.bind fun condition => lays_after (endOfLine _) fun _ => lays_pure fun _ _ => id

theorem lays_branchCondition (h : LaysExpression source expression) :
    LaysExpression source (branchCondition expression) :=
  (lays_conditionExpression h).bind fun _ => lays_after (endOfLine _) fun _ =>
    lays_pure fun _ _ => id

/-- A line that cannot be read leaves nothing in the row. -/
theorem lays_lineOrSkip {line : Reading α} [Obeys (laying source).Kept line]
    {trees : α → List SpanTree} (h : Lays source [] line trees) :
    Lays source [] (lineOrSkip line) fun read => read.toList.flatMap trees := by
  unfold lineOrSkip
  refine h.attempt.bind fun result => ?_
  cases result with
  | ok a => exact lays_pure fun _ _ hrow => by simpa [treesOf] using hrow
  | error problem =>
      exact lays_after (report _) fun _ => lays_after skipLine fun _ => lays_pure fun _ _ => id

/-! ## Branches -/

/-- The trees of the branches of a block. -/
def Branches.spanTrees (branches : Branches) : List SpanTree :=
  Branch.spanTrees branches.elifs.toList ++ Body.optionTrees branches.otherwise

variable {token : Token}

omit [Obeys (laying source).Kept statement] in
theorem laysAt_elifHead (h : LaysExpression source expression) (branches : Branches) (start : Span) :
    LaysAt source token before (elifHead expression branches start) fun condition =>
      before ++ [token.spanTree] ++ condition.toList.map Expression.spanTree := by
  unfold elifHead
  have hcondition := lays_lineOrSkip (lays_branchCondition h)
  simp only [← List.map_eq_flatMap] at hcondition
  refine laysAt_take ?_
  split
  · exact lays_after (report _) fun _ => hcondition.frame
  · exact hcondition.frame

theorem laysAt_otherwiseHead (branches : Branches) (start : Span) :
    LaysAt source token before (otherwiseHead branches start)
      fun _ => before ++ [token.spanTree] := by
  unfold otherwiseHead
  refine laysAt_take ?_
  split
  · exact lays_after (report _) fun _ => lays_plain _
  · exact lays_plain _

/-- A branch whose condition was read is put under a span, if it counts. -/
theorem Branches.inSequence_withElif (branches : Branches) (condition : Option Expression)
    (body : Body) {first last : Nat} (h : InSequence source first (branches.spanTrees ++
      [token.spanTree] ++ condition.toList.map Expression.spanTree ++ [body.spanTree]) last) :
    InSequence source first (branches.withElif token.span condition body).spanTrees last := by
  obtain ⟨elifs, otherwise⟩ := branches
  have hdropped : InSequence source first (Branches.spanTrees ⟨elifs, otherwise⟩) last :=
    h.sublist (by simp [List.append_assoc])
  cases condition with
  | none => exact hdropped
  | some condition =>
      cases otherwise with
      | some body => exact hdropped
      | none =>
          unfold Branches.withElif
          simp only [Branches.spanTrees, Array.toList_push, Branch.spanTrees_append] at h ⊢
          simp only [Body.optionTrees, List.append_nil, List.append_assoc] at h ⊢
          exact h.enclose_behind body.spanTree rfl rfl (by simp; rfl) (.cons _ (.refl _))

theorem lays_branch (hexpression : LaysExpression source expression)
    (hstatement : LaysStatement source statement) (branches : Branches) :
    Lays source branches.spanTrees (branch expression statement branches) fun turn =>
      turn.value.spanTrees := by
  rw [branch_eq]
  refine lays_peek fun token => ?_
  unfold branchAt
  split
  · refine (laysAt_elifHead hexpression branches _).bind fun condition => ?_
    refine (lays_branchBody hstatement).frame.bind fun body => lays_pure fun _ _ hrow => ?_
    exact Branches.inSequence_withElif branches condition body hrow
  · refine (laysAt_otherwiseHead branches _).bind fun _ => ?_
    refine (lays_branchBody hstatement).frame.bind fun body => lays_pure fun _ _ hrow => ?_
    obtain ⟨elifs, _ | last⟩ := branches
    · refine hrow.sublist ?_
      simp [Branches.spanTrees, Turn.value, Body.optionTrees]
    · refine hrow.sublist ?_
      simp [Branches.spanTrees, Turn.value, Body.optionTrees]
  · exact Lays.at (lays_pure fun _ _ hrow => hrow)

theorem lays_endif (kind : ConditionKind) (opened : Span) :
    Lays source before (endif kind opened) fun span => before ++ [.leaf span] := by
  refine lays_peek fun token => ?_
  split
  · exact laysAt_take (lays_after (endOfMark _) fun _ => lays_pure fun _ _ => id)
  · exact lays_fail.at

/-- The trees of a block behind its condition, the end of the block included. -/
def Branching.spanTrees (parts : Branching) : List SpanTree :=
  [parts.thenBody.spanTree] ++ parts.branches.spanTrees ++ [.leaf parts.close]

theorem lays_branching (hexpression : LaysExpression source expression)
    (hstatement : LaysStatement source statement) (kind : ConditionKind) (opened : Span) :
    Lays source [] (branching kind opened expression statement) Branching.spanTrees := by
  unfold branching
  refine (lays_branchBody hstatement).bind fun thenBody => ?_
  have hbranches : Lays source [] (iterate (branch expression statement) {}) Branches.spanTrees :=
    Lays.iterate Branches.spanTrees (lays_branch hexpression hstatement) {}
  exact hbranches.frame.bind fun branches => (lays_endif _ _).bind fun close =>
    lays_pure fun _ _ => id

/-! ## Blocks of directives -/

theorem laysAt_conditionalFrom (hexpression : LaysExpression source expression)
    (hstatement : LaysStatement source statement) (kind : ConditionKind) :
    LaysAt source token [] (conditionalFrom kind token.span expression statement) fun read =>
      Statement.spanTrees read.toList := by
  have hhead : LaysAt source token [] (conditionalHead kind token.span expression) fun condition =>
      [token.spanTree] ++ condition.toList.flatMap Condition.spanTrees :=
    laysAt_take (lays_after (note _) fun _ =>
      (lays_lineOrSkip (lays_conditionLine hexpression kind token.span)).frame)
  have hinside : Obeys (laying source).Kept (between State.openChain State.closeChain
      (branching kind token.span expression statement)) :=
    obeys_between Nesting.inChain (fun nesting => { nesting with chains := nesting.chains - 1 })
      fun _ _ h => ⟨h.depth, h.braces, Nat.sub_eq_of_eq_add h.chains, h.outside⟩
  have hparts : Lays source [] (between State.openChain State.closeChain
      (branching kind token.span expression statement)) Branching.spanTrees :=
    (lays_branching hexpression hstatement kind token.span).between Nesting.inChain
      fun nesting => { nesting with chains := nesting.chains - 1 }
  have hread : LaysAt source token [] (nested (conditionalHead kind token.span expression >>=
      fun condition => between State.openChain State.closeChain
        (branching kind token.span expression statement) >>= fun parts => pure (condition, parts)))
      fun read =>
        [token.spanTree] ++ read.1.toList.flatMap Condition.spanTrees ++ read.2.spanTrees := by
    refine LaysAt.nested (hhead.bind fun condition => hparts.frame.bind fun parts => ?_)
    exact lays_pure fun _ _ hrow => hrow
  rw [conditionalFrom_eq]
  refine hread.bind fun read => lays_after (note _) fun _ => lays_pure fun _ _ hrow => ?_
  obtain ⟨condition, parts⟩ := read
  cases condition with
  | none => exact hrow.sublist (List.nil_sublist _)
  | some condition =>
      refine hrow.enclose (.leaf parts.close) rfl ?_ rfl ?_
      · simp only [Branching.spanTrees, List.getLast?_append, List.getLast?_singleton, Option.some_or]
      · simp [Branching.spanTrees, Branches.spanTrees]

/-! ## Statements -/

theorem lays_constant (h : LaysExpression source expression) :
    Lays source [] (constant expression) fun statement => [statement.spanTree] := by
  have htype : Lays source [] (declaredType expression) fun type =>
      type.toList.map Expression.spanTree := by
    unfold declaredType
    refine lays_after (accept _) fun isThere => ?_
    split
    · exact h.bind fun e => lays_pure fun _ _ => id
    · exact lays_pure fun _ _ => id
  unfold constant
  refine lays_advance.bind fun start => (lays_identifier _).bind fun name => ?_
  refine htype.frame.bind fun type => lays_after (expect _ _) fun _ => ?_
  refine h.frame.bind fun value => lays_pure fun _ _ hrow => ?_
  refine hrow.enclose value.spanTree rfl List.getLast?_concat (by simp; rfl) ?_
  exact .cons _ (.refl _)

theorem lays_group (h : LaysStatement source statement) :
    Lays source [] (group statement) fun statement => [statement.spanTree] := by
  unfold group
  refine lays_advance.bind fun start => (lays_identifier _).bind fun name => ?_
  refine (lays_block h _).frame.bind fun body => lays_pure fun _ _ hrow => ?_
  exact hrow.enclose body.spanTree rfl rfl (by simp; rfl) (.cons _ (.refl _))

theorem lays_assignment (h : LaysExpression source expression) :
    Lays source [] (assignment expression) fun statement => [statement.spanTree] := by
  unfold assignment
  refine (lays_identifier _).bind fun target => lays_peek fun token => ?_
  split
  · refine laysAt_take (h.frame.bind fun value => lays_pure fun _ _ hrow => ?_)
    exact hrow.enclose value.spanTree rfl rfl (by simp; rfl) (.cons_cons _ (.cons _ (.refl _)))
  · refine laysAt_take (h.frame.bind fun value => lays_pure fun _ _ hrow => ?_)
    exact hrow.enclose value.spanTree rfl rfl (by simp; rfl) (.cons_cons _ (.cons _ (.refl _)))
  · refine laysAt_get fun s => ?_
    split
    · refine laysAt_take (lays_rawText.bind fun raw => lays_pure fun _ _ hrow => ?_)
      exact hrow.enclose (.leaf raw.2) rfl rfl rfl (.cons_cons _ (.cons _ (.cons _ .slnil)))
    · exact lays_unexpected.at
  · exact lays_unexpected.at

theorem lays_choice (hexpression : LaysExpression source expression)
    (h : LaysStatement source statement) :
    Lays source [] (choice expression statement) fun statement => [statement.spanTree] := by
  have helse : Lays source [] (elseBlock statement) Body.optionTrees := by
    unfold elseBlock
    refine lays_after (accept _) fun isThere => ?_
    split
    · exact (lays_block h _).bind fun body => lays_pure fun _ _ => id
    · exact lays_pure fun _ _ => id
  unfold choice
  refine lays_advance.bind fun start => lays_after (expect _ _) fun opened => ?_
  refine hexpression.frame.bind fun condition => lays_after (closing _ _) fun _ => ?_
  refine (lays_block h _).frame.bind fun thenBody => helse.frame.bind fun elseBody => ?_
  refine lays_pure fun _ _ hrow => ?_
  cases elseBody with
  | none => exact hrow.enclose thenBody.spanTree rfl rfl (by simp; rfl) (.cons _ (.refl _))
  | some body => exact hrow.enclose body.spanTree rfl rfl (by simp; rfl) (.cons _ (.refl _))

theorem lays_message (severity : Severity) :
    Lays source [] (message severity) fun statement => [statement.spanTree] := by
  unfold message
  refine lays_advance.bind fun start => lays_rawText.bind fun raw => ?_
  refine lays_after (endOfLine _) fun _ => lays_pure fun _ _ hrow => ?_
  exact hrow.enclose (.leaf raw.2) rfl rfl rfl (List.nil_sublist _)

theorem lays_statement {inner : Inner} [Obeys (laying source).Kept inner.expression]
    [Obeys (laying source).Kept inner.statement] (hexpression : LaysExpression source expression)
    (hinner : LaysExpression source inner.expression) (h : LaysStatement source inner.statement) :
    LaysStatement source (Reading.statement expression inner) := by
  have hsome {f : Reading Statement} (hf : Lays source [] f fun statement => [statement.spanTree]) :
      Lays source [] (some <$> f) fun read => Statement.spanTrees read.toList := hf.map
  unfold LaysStatement
  rw [statement_eq]
  refine lays_peek fun token => ?_
  apply statementAt_cases (motive := fun f =>
    LaysAt source token [] f fun read => Statement.spanTrees read.toList)
  case opener => exact fun _ _ => laysAt_conditionalFrom hinner h _
  case message => exact fun _ _ => (hsome (lays_message _)).at
  case passage => exact fun _ _ => laysAt_take (lays_pure fun _ _ hrow => hrow)
  case mark => exact fun _ _ => (lays_get fun s => lays_fail).at
  case constant => exact fun _ => (hsome (lays_constant hexpression)).at
  case group => exact fun _ => (hsome (lays_group h)).at
  case choice => exact fun _ => (hsome (lays_choice hexpression h)).at
  case assignment => exact fun _ _ _ => (hsome (lays_assignment hexpression)).at
  case other => exact lays_unexpected.at

end Bodies

end ConfLang.Reading

namespace ConfLang

open Reading

variable {source : String}

theorem Statement.lays_read (level : Nat) : LaysStatement source (Statement.read level) := by
  induction level with
  | zero =>
      intro s hs first hbefore read s' hrun
      rw [Statement.read, tooDeep_run] at hrun
      cases hrun
  | succ level ih =>
      have hinner : LaysExpression source (Inner.atLevel level).expression :=
        Expression.lays_read level _
      have hstatement : LaysStatement source (Inner.atLevel level).statement := ih
      exact lays_statement (Expression.lays_read (level + 1) _) hinner hstatement

theorem lays_wholeProgram : Lays source [] wholeProgram fun program =>
    Statement.spanTrees program.statements := by
  refine lays_get fun s => lays_after (note _) fun _ => ?_
  refine (lays_statementsUntil (Statement.lays_read s.levels) _).bind fun statements => ?_
  exact lays_after (warnDuplicates _) fun _ => lays_pure fun _ _ => id

theorem State.stands_ofSource (options : Options) :
    (State.ofSource source options).Stands source :=
  ⟨.ofSource source, .nil (Nat.le_refl _), nofun⟩

/-- The front never leaves the source. -/
theorem State.Stands.front_le {s : State} (h : s.Stands source) :
    s.front ≤ source.utf8ByteSize := by
  obtain ⟨before, hsource, hposition⟩ := h.cursor
  have hoffset : s.cursor.position.offset ≤ source.utf8ByteSize := by
    rw [hposition, Position.start_after, ← String.ofList_toList (s := source)]
    exact Position.bytes_le_of_prefix ⟨_, hsource.symm⟩
  cases hfirst : s.lookahead with
  | nil =>
      rw [front_of_nil hfirst]
      exact h.tokens.le.trans hoffset
  | cons token rest =>
      have htokens := h.tokens
      rw [hfirst, List.map_cons] at htokens
      have hspan := (htokens.nested _ List.mem_cons_self).pointsInto.start_le_stop
      rw [front_of_cons hfirst]
      exact hspan.trans ((htokens.inside _ List.mem_cons_self).2.trans hoffset)

/-- **The spans of a program form trees over its source.**  Whatever is wrong with a source, and
whatever the options are, the spans of all parts of the program point at real places of the
source, the span of a part encloses those of its own parts, and parts that stand side by side come
in the order of the source and share no byte. -/
theorem spanTrees_parseWith (options : Options) (source : String) :
    InSequence source 0 (Statement.spanTrees (parseWith options source).program.statements)
      source.utf8ByteSize := by
  have hstands : (State.ofSource source options).Stands source := State.stands_ofSource options
  have hlaid := lays_wholeProgram _ hstands 0 (.nil (Nat.le_refl _))
  unfold parseWith
  split
  · rename_i program s hrun
    exact (hlaid program s hrun).mono (stands_of_run _ hstands hrun).1.front_le
  · exact .nil (Nat.zero_le _)

end ConfLang
