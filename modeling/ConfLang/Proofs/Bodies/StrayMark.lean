import ConfLang.Proofs.Bodies.Turn

/-!
# Marks that belong to no conditional directive block

A mark of a conditional directive block is told to belong to no block wherever a statement is
read in front of it.  The body of a conditional directive block ends in front of every mark,
and inside braces in front of a closing brace, too.  So no such mark is told in it.  But a
block in braces ends only in front of its closing brace: if that is missing, the block takes
the marks of the conditional directive block around it, and these are told.

## Strategy

Everything but statements is silent about such marks.  A turn of a body tells them only
through its statement, and a statement that begins with no mark only through the turns of
the bodies it opens.  `Turns` lists all of these.
-/

namespace ConfLang

open Reading

/-- No mark is told to belong to no block. -/
def silence : FreeCourse where
  holds s s' := ∀ diagnostic ∈ s'.diagnostics, diagnostic.cause.isStray = true →
    diagnostic ∈ s.diagnostics
  fails problem := problem.cause.isStray = false
  refl _ _ h _ := h
  trans h h' diagnostic hmem hstray := h diagnostic (h' diagnostic hmem hstray) hstray
  calm _ h := h
  note _ _ _ h _ := h
  report s diagnostic hcalm other hmem hstray := by
    rcases State.mem_diagnostics_report hmem with hold | rfl | ⟨limit, -, rfl⟩
    · exact hold
    · rw [hcalm] at hstray
      cases hstray
    · cases hstray
  renest _ _ _ h := h
  looked _ _ h _ := h
  take _ _ h _ := h
  takeRaw _ _ h _ := h

namespace Reading

variable {α β σ : Type} {told : Problem → Prop} {s : State}

/-- All marks that a run tells to belong to no block are of a kind. -/
structure Tells (told : Problem → Prop) (f : Reading α) (s : State) : Prop where
  reported : ∀ diagnostic ∈ (f.run s).2.diagnostics, diagnostic.cause.isStray = true →
    diagnostic ∈ s.diagnostics ∨ told diagnostic.toProblem
  failed : ∀ problem, (f.run s).1 = .error problem → problem.cause.isStray = true → told problem

theorem tells_of_silent (f : Reading α) [Obeys silence.Kept f] : Tells told f s := by
  obtain ⟨hreported, hfailed⟩ := Obeys.obeys (P := silence.Kept) (f := f) s
  refine ⟨fun diagnostic hmem hstray => .inl (hreported diagnostic hmem hstray), ?_⟩
  intro problem hproblem hstray
  rw [hfailed problem hproblem] at hstray
  cases hstray

theorem tells_bind {f : Reading α} {rest : α → Reading β} (hf : Tells told f s)
    (hrest : ∀ a s', f.run s = (.ok a, s') → Tells told (rest a) s') :
    Tells told (f >>= rest) s := by
  obtain ⟨hreported, hfailed⟩ := hf
  constructor
  all_goals rw [bind_run]
  all_goals
    generalize f.run s = first at hreported hfailed hrest ⊢
    obtain ⟨problem | a, middle⟩ := first
  · exact hreported
  · intro diagnostic hmem hstray
    rcases (hrest a middle rfl).reported diagnostic hmem hstray with hold | htold
    · exact hreported diagnostic hold hstray
    · exact .inr htold
  · intro problem' hproblem
    exact hfailed problem' (by cases hproblem; rfl)
  · exact (hrest a middle rfl).failed

theorem tells_of_ok {f : Reading α} {rest : α → Reading β} {a : α} {s' : State}
    (hf : f.run s = (.ok a, s')) (hkept : ∀ diagnostic ∈ s'.diagnostics,
      diagnostic.cause.isStray = true → diagnostic ∈ s.diagnostics ∨ told diagnostic.toProblem)
    (hrest : Tells told (rest a) s') : Tells told (f >>= rest) s := by
  refine tells_bind ⟨?_, ?_⟩ fun a' s'' hrun => ?_
  · rw [hf]
    exact hkept
  · rw [hf]
    intro problem hproblem
    cases hproblem
  · rw [hf] at hrun
    cases hrun
    exact hrest

theorem tells_map {f : Reading α} {g : α → β} (hf : Tells told f s) : Tells told (g <$> f) s := by
  rw [← bind_pure_comp]
  exact tells_bind hf fun a _ _ => tells_of_silent (pure (g a))

theorem tells_peek {rest : Token → Reading β} (hrest : Tells told (rest s.peeked.1) s.peeked.2) :
    Tells told (peek >>= rest) s := by
  refine tells_bind (tells_of_silent peek) fun token s' hpeek => ?_
  rw [run_of_ok (run_peek s)] at hpeek
  cases hpeek
  exact hrest

theorem tells_between {opening closing : State → State} {f : Reading α}
    (hopening : (opening s).diagnostics = s.diagnostics)
    (hclosing : ∀ s', (closing s').diagnostics = s'.diagnostics) (hf : Tells told f (opening s)) :
    Tells told (between opening closing f) s := by
  obtain ⟨hreported, hfailed⟩ := hf
  constructor
  all_goals rw [between_run]
  · rw [hclosing, ← hopening]
    exact hreported
  · exact hfailed

theorem tells_nested {f : Reading α}
    (hf : s.nesting.depth < s.options.maxNestingDepth → Tells told f s.enter) :
    Tells told (nested f) s := by
  have hget : (get : Reading State).run s = (.ok s, s) := rfl
  refine tells_of_ok hget (fun _ h _ => .inl h) ?_
  by_cases hroom : s.nesting.depth < s.options.maxNestingDepth
  · rw [if_pos hroom]
    exact tells_between rfl (fun _ => rfl) (hf hroom)
  · rw [if_neg hroom]
    exact tells_of_silent tooDeep

/-- An invariant that holds at each turn tells about the whole repetition. -/
theorem tells_iterate {step : σ → Reading (Turn σ)} {I : σ → State → Prop}
    (hstep : ∀ value s, I value s → Tells told (step value) s)
    (hnext : ∀ value s value' s', I value s → (step value).run s = (.ok (.again value'), s') →
      s'.remaining < s.remaining → I value' s')
    {value : σ} (h : I value s) : Tells told (iterate step value) s := by
  induction hmeasure : s.remaining using Nat.strongRecOn generalizing value s with
  | ind measure ih =>
      subst hmeasure
      have hrest : Tells told (step value >>= afterTurn step s.remaining) s := by
        refine tells_bind (hstep value s h) fun turn s' hturn => ?_
        cases turn with
        | done value' => exact tells_of_silent (pure value')
        | again value' =>
            by_cases hless : s'.remaining < s.remaining
            · have hiterate := ih _ hless (hnext value s value' s' h hturn hless) rfl
              constructor
              all_goals rw [afterTurn_again_run, if_pos hless]
              · exact hiterate.reported
              · exact hiterate.failed
            · constructor
              all_goals rw [afterTurn_again_run, if_neg hless]
              · exact fun _ hmem _ => .inl hmem
              · intro problem hproblem
                cases hproblem
      constructor
      all_goals rw [iterate_run]
      · exact hrest.reported
      · exact hrest.failed

end Reading

/-! ## Where statements begin -/

section Begin

variable {options : Options} {source : String} {around bodies : List Enclosure} {level : Nat}
  {s s' : State}

/-- The body of a conditional directive block goes on only in front of something that closes
neither it nor a block around it. -/
theorem run_atEndOfBranch {inBraces : Bool} (h : (atEndOfBranch inBraces).run s = (.ok false, s')) :
    s' = s.peeked.2 ∧ (∀ mark, s.peeked.1.kind ≠ .mark mark) ∧ s.peeked.1.kind ≠ .endOfFile ∧
      (inBraces = true → s.peeked.1.kind ≠ .symbol .closeBrace) := by
  have hget : (get : Reading State).run s = (.ok s, s) := rfl
  rw [atEndOfBranch, bind_run, hget] at h
  simp only at h
  by_cases hstopped : s.stopped = true
  · rw [if_pos hstopped] at h
    cases h
  rw [if_neg hstopped, bind_run, run_of_ok (run_peek s)] at h
  simp only at h
  split at h
  · cases h
  · cases h
  · rename_i hkind
    cases h
    refine ⟨rfl, ?_, ?_, ?_⟩
    · intro mark hmark
      rw [hkind] at hmark
      cases hmark
    · rw [hkind]
      exact TokenKind.noConfusion
    · intro hbraces
      cases hbraces
  · rename_i hmark heof hbrace
    cases h
    exact ⟨rfl, fun mark => hmark mark, heof, fun _ => hbrace⟩

/-- No statement of a conditional directive block begins with what closes the block, or a
block around it. -/
theorem Begins.not_closes {inBraces : Bool}
    (h : Begins options source (.branch inBraces :: around) level s) :
    (∀ mark, s.peeked.1.kind ≠ .mark mark) ∧
      (0 < around.countP (·.isBraces) → s.peeked.1.kind ≠ .symbol .closeBrace) := by
  obtain ⟨hturn, hend⟩ := h
  obtain ⟨rfl, hmark, -, hbrace⟩ := run_atEndOfBranch hend
  rw [State.peeked_peeked]
  refine ⟨hmark, fun hpos => hbrace ?_⟩
  rw [hturn.counts.inBraces inBraces around rfl]
  exact decide_eq_true hpos

/-- A statement begins with a mark only inside braces, or outside of all conditional directive
blocks. -/
theorem Begins.of_mark (h : Begins options source bodies level s) {mark : Mark}
    (hmark : s.peeked.1.kind = .mark mark) :
    bodies.head? = some .braces ∨ bodies.countP (·.isBranch) = 0 := by
  obtain @⟨enclosure, around, level, s₀, s, hturn, hend⟩ := h
  cases enclosure with
  | branch inBraces => exact absurd hmark ((Begins.intro hturn hend).not_closes.1 mark)
  | braces => exact .inl rfl
  | program =>
      rw [hturn.around_of_program]
      exact .inr rfl

end Begin

/-- A mark was met where a statement is read, and is told with the number of conditional
directive blocks that are open. -/
def StrayMet (options : Options) (source : String) (problem : Problem) : Prop :=
  ∃ bodies level s mark, Begins options source bodies level s ∧
    s.peeked.1 = ⟨.mark mark, problem.span⟩ ∧
    problem.cause = .strayMark mark (bodies.countP (·.isBranch))

/-! ## Bodies -/

namespace Reading

variable {options : Options} {source : String} {enclosure : Enclosure} {around bodies : List Enclosure}
  {level : Nat} {s : State}

/-- All marks that statements at this level tell, were met. -/
def StatementsTell (options : Options) (source : String) (level : Nat) : Prop :=
  ∀ bodies s, Begins options source bodies level s →
    Tells (StrayMet options source) (Statement.read level) s

theorem tells_appendStatement {told : Problem → Prop} {statement : Reading (Option Statement)}
    (h : Tells told statement s) (statements : Array Statement) :
    Tells told (appendStatement statement statements) s := by
  obtain ⟨hreported, hfailed⟩ := h
  have hget : (get : Reading State).run s = (.ok s, s) := rfl
  refine tells_of_ok hget (fun _ h _ => .inl h) ?_
  refine tells_of_ok (attempt_run statement s) hreported ?_
  generalize hfirst : statement.run s = first at hreported hfailed ⊢
  obtain ⟨problem | (_ | value), middle⟩ := first
  · refine tells_bind ⟨fun diagnostic hmem hstray => ?_, ?_⟩ fun _ s' _ => ?_
    · rcases State.mem_diagnostics_report hmem with hold | rfl | ⟨limit, -, rfl⟩
      · exact .inl hold
      · exact .inr (hfailed problem rfl hstray)
      · cases hstray
    · intro problem' hproblem
      cases hproblem
    · exact tells_of_silent (recover s.consumed >>= fun _ => pure statements)
  · exact tells_of_silent (pure statements)
  · exact tells_of_silent (pure (statements.push value))

theorem tells_statementsUntil (hlevel : StatementsTell options source level)
    (hturns : Turns options source (enclosure :: around) level s) :
    Tells (StrayMet options source) (statementsUntil enclosure.atEnd (Statement.read level)) s := by
  rw [statementsUntil_eq]
  refine tells_bind ?_ fun statements s' _ => tells_of_silent (pure statements.toList)
  refine tells_iterate (I := fun _ s => Turns options source (enclosure :: around) level s)
    (fun statements s h => ?_) (fun _ _ _ _ h hturn hless => h.next hturn hless) hturns
  refine tells_bind (tells_of_silent _) fun isEnd s' hend => ?_
  cases isEnd with
  | true => exact tells_of_silent (pure (Turn.done statements))
  | false =>
      refine tells_bind (tells_appendStatement (hlevel _ _ (.intro h hend)) _) fun more s'' _ => ?_
      exact tells_of_silent (pure (Turn.again more))

variable (around) in
theorem tells_block (hlevel : StatementsTell options source level) {expectation : Expectation}
    (hopens : ∀ s', s.OpensBraces expectation s' →
      Turns options source (.braces :: around) level s') :
    Tells (StrayMet options source) (block (Statement.read level) expectation) s := by
  refine tells_bind (tells_nested fun hroom => ?_) fun read s' _ => ?_
  · refine tells_bind (tells_of_silent _) fun opened after hexpect => ?_
    have hturns := hopens after.openBrace ⟨hroom, opened, after, hexpect, rfl⟩
    refine tells_bind (tells_between rfl (fun _ => rfl) (tells_statementsUntil hlevel hturns)) ?_
    exact fun statements s' _ => tells_of_silent (pure (opened, statements))
  · exact tells_of_silent (warnDuplicates read.2 >>= fun _ => closing .brace read.1 >>= fun close =>
      pure (Body.mk read.2 (read.1.through close)))

variable (around) in
theorem tells_branchBody (hlevel : StatementsTell options source level)
    (hturns : Turns options source (.branch (0 < s.nesting.braces) :: around) level s) :
    Tells (StrayMet options source) (branchBody (Statement.read level)) s := by
  have hget : (get : Reading State).run s = (.ok s, s) := rfl
  refine tells_of_ok hget (fun _ h _ => .inl h) ?_
  refine tells_bind (tells_statementsUntil hlevel hturns) fun statements s' _ => ?_
  exact tells_of_silent (warnDuplicates statements >>= fun _ => branchSpan statements >>= fun span =>
    pure (Body.mk statements span))

/-! ## Statements -/

section Statements

variable (hlevel : StatementsTell options source level)
  (hbegins : Begins options source bodies (level + 1) s)
include hlevel hbegins

omit hlevel in
/-- The bodies that a statement opens are among those whose turns are listed. -/
theorem turns_of_opens {inside : Enclosure} {s' : State}
    (hopens : s.Opens (Expression.read (level + 1) Operator.lowestPrecedence) (.atLevel level) inside
      s') : Turns options source (inside :: bodies) level s' := by
  obtain ⟨hturn, hend⟩ := hbegins
  exact hturn.enter hend hopens

theorem tells_group (hkind : s.peeked.1.kind = .keyword .group) :
    Tells (StrayMet options source) (group (Statement.read level)) s.peeked.2 := by
  rw [group_eq]
  refine tells_bind (tells_of_silent _) fun head s' hhead => ?_
  refine tells_bind (tells_block bodies hlevel fun s'' hbraces => ?_) fun body _ _ => ?_
  · exact turns_of_opens hbegins (.group hkind hhead hbraces)
  · exact tells_of_silent (pure (Statement.group head.2 body (head.1.span.through body.span)))

theorem tells_choice (hkind : s.peeked.1.kind = .keyword .ifWord) :
    Tells (StrayMet options source)
      (choice (Expression.read (level + 1) Operator.lowestPrecedence) (Statement.read level))
      s.peeked.2 := by
  rw [choice_eq]
  refine tells_bind (tells_of_silent _) fun head s₁ hhead => ?_
  refine tells_bind (tells_block bodies hlevel fun s' hbraces => ?_)
    fun thenBody s₂ hthen => ?_
  · exact turns_of_opens hbegins (.thenBlock hkind hhead hbraces)
  refine tells_bind ?_ fun elseBody s₃ _ => ?_
  · refine tells_bind (tells_of_silent _) fun accepted s₃ haccept => ?_
    cases accepted with
    | false => exact tells_of_silent (pure (none : Option Body))
    | true =>
        refine tells_bind (tells_block bodies hlevel fun s' hbraces => ?_)
          fun body _ _ => tells_of_silent (pure (some body))
        exact turns_of_opens hbegins (.elseBlock hkind hhead hthen haccept hbraces)
  · exact tells_of_silent (pure (Statement.choice head.2 thenBody elseBody
      (head.1.span.through (elseBody.getD thenBody).span)))

/-- The branches of a block, from the state behind its first body on. -/
theorem tells_branches {s₁ s₂ : State} {thenBody : Body}
    (hchain : s.OpensChain (Inner.atLevel level).expression s₁)
    (hbody : (branchBody (Inner.atLevel level).statement).run s₁ = (.ok thenBody, s₂)) :
    Tells (StrayMet options source) (iterate
      (branch (Inner.atLevel level).expression (Inner.atLevel level).statement) {}) s₂ := by
  refine tells_iterate (I := Rounds (branch (Inner.atLevel level).expression
    (Inner.atLevel level).statement) {} s₂) (fun branches s₃ hrounds => ?_)
    (fun _ _ _ _ h hturn hless => h.more hturn hless) .none
  rw [branch_eq]
  refine tells_peek ?_
  -- only the marks of further branches open bodies
  cases hkind : s₃.peeked.1.kind with
  | mark which =>
      cases which with
      | elif =>
          rw [branchAt, hkind]
          refine tells_bind (tells_of_silent _) fun condition s₄ hhead => ?_
          refine tells_bind (tells_branchBody bodies hlevel ?_) fun body _ _ => ?_
          · exact turns_of_opens hbegins (.elifBranch hchain hbody hrounds hkind hhead)
          · exact tells_of_silent (pure (Turn.again (branches.withElif _ condition body)))
      | otherwise =>
          rw [branchAt, hkind]
          refine tells_bind (tells_of_silent _) fun _ s₄ hhead => ?_
          refine tells_bind (tells_branchBody bodies hlevel ?_) fun body _ _ => ?_
          · exact turns_of_opens hbegins (.otherwiseBranch hchain hbody hrounds hkind hhead)
          · exact tells_of_silent (pure (Turn.again
              { branches with otherwise := branches.otherwise <|> some body }))
      | endif =>
          rw [branchAt, hkind]
          exact tells_of_silent (pure (Turn.done branches))
  | _ =>
      rw [branchAt, hkind]
      exact tells_of_silent (pure (Turn.done branches))

theorem tells_conditionalFrom {kind : ConditionKind} (hkind : s.peeked.1.kind = .opener kind) :
    Tells (StrayMet options source) (conditionalFrom kind s.peeked.1.span
      (Inner.atLevel level).expression (Inner.atLevel level).statement) s.peeked.2 := by
  rw [conditionalFrom_eq]
  refine tells_bind (tells_nested fun hroom => ?_) fun read _ _ => ?_
  · refine tells_bind (tells_of_silent _) fun condition after hhead => ?_
    have hchain : s.OpensChain (Inner.atLevel level).expression after.openChain :=
      ⟨hroom, kind, condition, after, hkind, hhead, rfl⟩
    refine tells_bind (tells_between rfl (fun _ => rfl) ?_) fun parts _ _ => ?_
    · refine tells_bind (tells_branchBody bodies hlevel ?_) fun thenBody s₂ hthen => ?_
      · exact turns_of_opens hbegins (.thenBranch hchain)
      refine tells_bind (tells_branches hlevel hbegins hchain hthen) fun branches _ _ => ?_
      exact tells_of_silent (endif kind s.peeked.1.span >>= fun close =>
        pure (Branching.mk thenBody branches close))
    · exact tells_of_silent (pure (condition, parts))
  · exact tells_of_silent (note (.left kind s.peeked.1.span) >>= fun _ => pure _)

/-- A statement tells the mark it begins with, or what the statements in its bodies tell. -/
theorem tells_statement : Tells (StrayMet options source) (Statement.read (level + 1)) s := by
  rw [Statement.read, statement_eq]
  refine tells_peek ?_
  have hcounts := hbegins.counts.of_level s.level_peeked
  have hopener (kind : ConditionKind) (hkind : s.peeked.1.kind = .opener kind) :=
    tells_conditionalFrom hlevel hbegins hkind
  have hgroup := tells_group hlevel hbegins
  have hchoice := tells_choice hlevel hbegins
  apply statementAt_cases (motive := fun f => Tells (StrayMet options source) f s.peeked.2)
  case opener => exact hopener
  case group => exact fun hkind => tells_map (hgroup hkind)
  case choice => exact fun hkind => tells_map (hchoice hkind)
  case mark =>
    intro which hkind
    have hget : (get : Reading State).run s.peeked.2 = (.ok s.peeked.2, s.peeked.2) := rfl
    refine tells_of_ok hget (fun _ h _ => .inl h) ⟨fun _ h _ => .inl h, ?_⟩
    rintro problem ⟨⟩ -
    exact ⟨bodies, level + 1, s, which, hbegins, by rw [← hkind], by rw [hcounts.chains]⟩
  all_goals intros; exact tells_of_silent _

end Statements

theorem statementsTell (options : Options) (source : String) (level : Nat) :
    StatementsTell options source level := by
  induction level with
  | zero => exact fun _ _ _ => tells_of_silent (tooDeep : Reading (Option Statement))
  | succ level ih => exact fun _ _ hbegins => tells_statement ih hbegins

end Reading

/-! ## Sources -/

theorem strayMet_of_mem {options : Options} {source : String} {diagnostic : Diagnostic}
    (hmem : diagnostic ∈ (parseWith options source).diagnostics)
    (hstray : diagnostic.cause.isStray = true) : StrayMet options source diagnostic.toProblem := by
  have hget : (get : Reading State).run (.ofSource source options) =
    (.ok (.ofSource source options), .ofSource source options) := rfl
  have hnote : (note .started).run (.ofSource source options) =
    (.ok (), State.started options source) := rfl
  have hwhole : Tells (StrayMet options source) wholeProgram (.ofSource source options) := by
    refine tells_of_ok hget (fun _ h _ => .inl h) (tells_of_ok hnote (fun _ h _ => .inl h) ?_)
    refine tells_bind (tells_statementsUntil (statementsTell options source _) .start) ?_
    exact fun xs _ _ => tells_of_silent (warnDuplicates xs >>= fun _ => pure (Program.mk xs))
  have hnone : diagnostic ∉ (State.ofSource source options).diagnostics := by simp [State.ofSource]
  obtain ⟨hreported, hfailed⟩ := hwhole
  unfold parseWith at hmem
  generalize wholeProgram.run (.ofSource source options) = first at hreported hfailed hmem
  obtain ⟨problem | program, s⟩ := first
  · rcases State.mem_diagnostics_report (Array.mem_toList_iff.mp hmem) with hold | rfl | ⟨_, -, rfl⟩
    · exact (hreported diagnostic hold hstray).resolve_left hnone
    · exact hfailed problem rfl hstray
    · cases hstray
  · exact (hreported diagnostic (Array.mem_toList_iff.mp hmem) hstray).resolve_left hnone

/-- A mark is told to belong to no conditional directive block only where a statement of a block
in braces is read in front of it, or where no such block is open.  And no statement of a
conditional directive block is read in front of a mark, or of the brace that closes a block
around it. -/
theorem strayMark_in_braces (options : Options) (source : String) :
    (∀ diagnostic ∈ (parseWith options source).diagnostics, ∀ mark chains,
      diagnostic.cause = .strayMark mark chains → ∃ bodies level s,
        Begins options source bodies level s ∧ s.peeked.1 = ⟨.mark mark, diagnostic.span⟩ ∧
        chains = bodies.countP (·.isBranch) ∧ (bodies.head? = some .braces ∨ chains = 0)) ∧
    ∀ inBraces around level s, Begins options source (.branch inBraces :: around) level s →
      (∀ mark, s.peeked.1.kind ≠ .mark mark) ∧
      (0 < around.countP (·.isBraces) → s.peeked.1.kind ≠ .symbol .closeBrace) := by
  refine ⟨fun diagnostic hmem mark chains hcause => ?_, fun _ _ _ _ h => h.not_closes⟩
  have hstray : diagnostic.cause.isStray = true := by rw [hcause]; rfl
  obtain ⟨bodies, level, s, mark', hbegins, htoken, htold⟩ := strayMet_of_mem hmem hstray
  rw [hcause] at htold
  cases htold
  exact ⟨bodies, level, s, hbegins, htoken, rfl, hbegins.of_mark (by rw [htoken])⟩

/-- A block that is not closed takes the mark of the conditional directive block around it. -/
theorem exists_strayMark_in_chain :
    (parseWith {} "%if a\ngroup g \x7b\n%endif\n").diagnostics.head? =
      some (.error (.strayMark .endif 1) ⟨16, 22, 3, 1⟩) := by
  decide +kernel

end ConfLang
