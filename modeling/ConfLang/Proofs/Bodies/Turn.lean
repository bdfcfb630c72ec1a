import ConfLang.Proofs.Adding

/-!
# Which bodies are open

While a source is read, bodies are open inside one another: the program, blocks in braces,
and the bodies of conditional directive blocks.  Each is read in turns, of which each reads
one statement, and a statement opens further bodies.  `Turns` says which bodies are open when
a turn begins, and `Begins` when a statement is read in it.

The nesting of a state counts the open bodies, because every reading leaves it as it was.
-/

namespace ConfLang

/-! ## The bodies that a statement opens -/

namespace Reading

/-- A declaration of a group up to its body. -/
def groupHead : Reading (Token × Identifier) := do
  let start ← advance
  let name ← identifier .groupName
  return (start, name)

theorem group_eq (statement : Reading (Option Statement)) : group statement =
    groupHead >>= fun head => block statement (.blockAfterGroup head.2.name) >>= fun body =>
      pure (.group head.2 body (head.1.span.through body.span)) := by
  simp only [group, groupHead, bind_assoc, pure_bind]

/-- A choice up to its first block. -/
def choiceHead (expression : Reading Expression) : Reading (Token × Expression) := do
  let start ← advance
  let opened ← expect .openParen .conditionOpening
  let condition ← expression
  let _ ← closing .paren opened
  return (start, condition)

theorem choice_eq (expression : Reading Expression) (statement : Reading (Option Statement)) :
    choice expression statement =
      choiceHead expression >>= fun head => block statement .blockAfterCondition >>= fun thenBody =>
        elseBlock statement >>= fun elseBody => pure (.choice head.2 thenBody elseBody
          (head.1.span.through (elseBody.getD thenBody).span)) := by
  simp only [choice, choiceHead, bind_assoc, pure_bind]

/-- A branch with a condition up to its body. -/
def elifHead (expression : Reading Expression) (branches : Branches) (start : Span) :
    Reading (Option Expression) := do
  let _ ← advance
  if branches.otherwise.isSome then
    report (.error .elifAfterElse start)
  lineOrSkip (branchCondition expression)

/-- The last branch up to its body. -/
def otherwiseHead (branches : Branches) (start : Span) : Reading Unit := do
  let _ ← advance
  if branches.otherwise.isSome then
    report (.error .duplicateElse start)
  endOfMark .otherwise

/-- A block with one more branch. -/
def Branches.withElif (branches : Branches) (start : Span) (condition : Option Expression)
    (body : Body) : Branches :=
  match condition, branches.otherwise with
  | some condition, none =>
    { branches with
      elifs := branches.elifs.push (.mk condition body (start.through body.span)) }
  | _, _ => branches

/-- The rest of a branch, once its first token was looked at. -/
def branchAt (expression : Reading Expression) (statement : Reading (Option Statement))
    (branches : Branches) (token : Token) : Reading (Turn Branches) :=
  match token.kind with
  | .mark .elif =>
    elifHead expression branches token.span >>= fun condition => branchBody statement >>= fun body =>
      pure (.again (branches.withElif token.span condition body))
  | .mark .otherwise =>
    otherwiseHead branches token.span >>= fun _ => branchBody statement >>= fun body =>
      pure (.again { branches with otherwise := branches.otherwise <|> some body })
  | _ => pure (.done branches)

theorem elifBranch_eq (expression : Reading Expression) (statement : Reading (Option Statement))
    (start : Span) (branches : Branches) :
    advance >>= (fun _ => elifBranch expression statement start branches) =
      elifHead expression branches start >>= fun condition => branchBody statement >>= fun body =>
        pure (branches.withElif start condition body) := by
  obtain ⟨elifs, _ | last⟩ := branches
  all_goals
    simp only [elifBranch, elifHead, Option.isSome_none, Option.isSome_some, if_true,
      Bool.false_eq_true, if_false, bind_assoc]
  · refine congrArg (advance >>= ·) (funext fun _ =>
      congrArg (_ >>= ·) (funext fun condition => congrArg (_ >>= ·) (funext fun body => ?_)))
    cases condition <;> rfl
  · refine congrArg (advance >>= ·) (funext fun _ => congrArg (_ >>= ·) (funext fun _ =>
      congrArg (_ >>= ·) (funext fun condition => congrArg (_ >>= ·) (funext fun body => ?_))))
    cases condition <;> rfl

theorem otherwiseBranch_eq (statement : Reading (Option Statement)) (start : Span)
    (branches : Branches) :
    advance >>= (fun _ => otherwiseBranch statement start branches) =
      otherwiseHead branches start >>= fun _ => branchBody statement >>= fun body =>
        pure { branches with otherwise := branches.otherwise <|> some body } := by
  by_cases hotherwise : branches.otherwise.isSome = true
  all_goals
    simp only [otherwiseBranch, otherwiseHead, hotherwise, if_true, Bool.false_eq_true, if_false,
      bind_assoc]

theorem branch_eq (expression : Reading Expression) (statement : Reading (Option Statement))
    (branches : Branches) :
    branch expression statement branches = peek >>= branchAt expression statement branches := by
  refine congrArg (peek >>= ·) (funext fun token => ?_)
  obtain ⟨kind, span⟩ := token
  cases kind with
  | mark which =>
      cases which with
      | elif =>
          have h := congrArg (· >>= fun branches => pure (Turn.again branches))
            (elifBranch_eq expression statement span branches)
          simp only [bind_assoc, pure_bind] at h
          exact h
      | otherwise =>
          have h := congrArg (· >>= fun branches => pure (Turn.again branches))
            (otherwiseBranch_eq statement span branches)
          simp only [bind_assoc, pure_bind] at h
          exact h
      | endif => rfl
  | _ => rfl

variable {σ : Type}

/-- Some turns of a repetition, each of which asks for another one. -/
inductive Rounds (step : σ → Reading (Turn σ)) (value : σ) (s : State) : σ → State → Prop
  | none : Rounds step value s value s
  | more {value' value'' : σ} {s' s'' : State} : Rounds step value s value' s' →
    (step value').run s' = (.ok (.again value''), s'') → s''.remaining < s'.remaining →
    Rounds step value s value'' s''

end Reading

open Reading

/-- What stands around the statements of a body. -/
inductive Enclosure where
  | program
  | braces
  | branch (inBraces : Bool)
  deriving DecidableEq

namespace Enclosure

/-- Where a body ends. -/
def atEnd : Enclosure → Reading Bool
  | program => atEndOfProgram
  | braces => atEndOfBlock
  | branch inBraces => atEndOfBranch inBraces

def isBraces : Enclosure → Bool
  | braces => true
  | _ => false

def isBranch : Enclosure → Bool
  | branch _ => true
  | _ => false

end Enclosure

/-- An opening brace that may be read in a state leads to the first turn of its block. -/
def State.OpensBraces (s : State) (expectation : Expectation) (s' : State) : Prop :=
  s.nesting.depth < s.options.maxNestingDepth ∧ ∃ opened after,
    (expect .openBrace expectation).run s.enter = (.ok opened, after) ∧ s' = after.openBrace

/-- A conditional directive block that begins in a state leads to the first turn of its first
body. -/
def State.OpensChain (s : State) (expression : Reading Expression) (s' : State) : Prop :=
  s.peeked.2.nesting.depth < s.peeked.2.options.maxNestingDepth ∧ ∃ kind condition after,
    s.peeked.1.kind = .opener kind ∧
    (conditionalHead kind s.peeked.1.span expression).run s.peeked.2.enter =
      (.ok condition, after) ∧ s' = after.openChain

/-- A statement that begins in a state opens a body, whose first turn begins in another state. -/
inductive State.Opens (expression : Reading Expression) (inner : Inner) (s : State) :
    Enclosure → State → Prop
  | group {head : Token × Identifier} {after s' : State} : s.peeked.1.kind = .keyword .group →
    groupHead.run s.peeked.2 = (.ok head, after) →
    after.OpensBraces (.blockAfterGroup head.2.name) s' → s.Opens expression inner .braces s'
  | thenBlock {head : Token × Expression} {after s' : State} :
    s.peeked.1.kind = .keyword .ifWord →
    (choiceHead expression).run s.peeked.2 = (.ok head, after) →
    after.OpensBraces .blockAfterCondition s' → s.Opens expression inner .braces s'
  | elseBlock {head : Token × Expression} {thenBody : Body} {middle later after s' : State} :
    s.peeked.1.kind = .keyword .ifWord →
    (choiceHead expression).run s.peeked.2 = (.ok head, middle) →
    (block inner.statement .blockAfterCondition).run middle = (.ok thenBody, later) →
    (accept (.keyword .elseWord)).run later = (.ok true, after) →
    after.OpensBraces .blockAfterElse s' → s.Opens expression inner .braces s'
  | thenBranch {s' : State} : s.OpensChain inner.expression s' →
    s.Opens expression inner (.branch (0 < s'.nesting.braces)) s'
  | elifBranch {thenBody : Body} {branches : Branches} {condition : Option Expression}
    {s₁ s₂ s₃ s' : State} : s.OpensChain inner.expression s₁ →
    (branchBody inner.statement).run s₁ = (.ok thenBody, s₂) →
    Rounds (branch inner.expression inner.statement) {} s₂ branches s₃ →
    s₃.peeked.1.kind = .mark .elif →
    (elifHead inner.expression branches s₃.peeked.1.span).run s₃.peeked.2 = (.ok condition, s') →
    s.Opens expression inner (.branch (0 < s'.nesting.braces)) s'
  | otherwiseBranch {thenBody : Body} {branches : Branches} {s₁ s₂ s₃ s' : State} :
    s.OpensChain inner.expression s₁ →
    (branchBody inner.statement).run s₁ = (.ok thenBody, s₂) →
    Rounds (branch inner.expression inner.statement) {} s₂ branches s₃ →
    s₃.peeked.1.kind = .mark .otherwise →
    (otherwiseHead branches s₃.peeked.1.span).run s₃.peeked.2 = (.ok (), s') →
    s.Opens expression inner (.branch (0 < s'.nesting.braces)) s'

/-! ## Turns -/

/-- How to read what stands at a level of nesting, and what stands one level deeper. -/
def Inner.atLevel (level : Nat) : Inner :=
  ⟨Expression.read level Operator.lowestPrecedence, Statement.read level⟩

instance {P : Law} [Composes P] {level : Nat} : Obeys P (Inner.atLevel level).expression :=
  inferInstanceAs (Obeys P (Expression.read level _))

instance {P : Law} [Composes P] [AsksStop P] [TellsStray P] {level : Nat} :
    Obeys P (Inner.atLevel level).statement :=
  inferInstanceAs (Obeys P (Statement.read level))

/-- While a source is read, a turn of the innermost of these open bodies begins in a state, with
some levels of nesting left. -/
inductive Turns (options : Options) (source : String) : List Enclosure → Nat → State → Prop
  | start : Turns options source [.program] (options.maxNestingDepth + 1)
    (State.started options source)
  | next {enclosure : Enclosure} {around : List Enclosure} {level : Nat}
    {before statements : Array Statement} {s s' : State} :
    Turns options source (enclosure :: around) level s →
    (bodyTurn enclosure.atEnd (Statement.read level) before).run s = (.ok (.again statements), s') →
    s'.remaining < s.remaining → Turns options source (enclosure :: around) level s'
  | enter {enclosure inside : Enclosure} {around : List Enclosure} {level : Nat}
    {s₀ s s' : State} : Turns options source (enclosure :: around) (level + 1) s₀ →
    enclosure.atEnd.run s₀ = (.ok false, s) →
    s.Opens (Expression.read (level + 1) Operator.lowestPrecedence) (.atLevel level) inside s' →
    Turns options source (inside :: enclosure :: around) level s'

/-- While a source is read, a statement of the innermost of these open bodies is read in a
state, with some levels of nesting left. -/
inductive Begins (options : Options) (source : String) : List Enclosure → Nat → State → Prop
  | intro {enclosure : Enclosure} {around : List Enclosure} {level : Nat} {s₀ s : State} :
    Turns options source (enclosure :: around) level s₀ →
    enclosure.atEnd.run s₀ = (.ok false, s) → Begins options source (enclosure :: around) level s

/-! ## How many bodies are open -/

@[refl] theorem Nesting.LevelWith.refl (n : Nesting) : n.LevelWith n := ⟨rfl, rfl, rfl, id⟩

theorem Nesting.LevelWith.trans {n n' n'' : Nesting} (h : n.LevelWith n') (h' : n'.LevelWith n'') :
    n.LevelWith n'' :=
  ⟨h.depth.trans h'.depth, h.braces.trans h'.braces, h.chains.trans h'.chains,
    fun houtside => h.outside (h'.outside houtside)⟩

/-- The nesting is as high behind a reading as in front of it. -/
def balance : FreeCourse where
  holds s s' := s'.nesting.LevelWith s.nesting
  fails _ := True
  refl s := .refl s.nesting
  trans h h' := h'.trans h
  plain _ _ := trivial
  calm _ _ := trivial
  note s _ := .refl s.nesting
  report s diagnostic _ := by
    rw [State.report_frame]
  renest opening closing hback h := hback _ _ h
  looked s := .refl s.nesting
  take _ := .refl _
  takeRaw _ := .refl _

instance : TellsStray balance.Kept := Course.tellsStray fun _ => trivial

variable {α : Type}

theorem level_of_run {f : Reading α} [Obeys balance.Kept f] {s s' : State} {a : α}
    (h : f.run s = (.ok a, s')) : s'.nesting.LevelWith s.nesting := by
  have hlevel := (Obeys.obeys (P := balance.Kept) (f := f) s).1
  rwa [h] at hlevel

section Heads

variable {P : Law} [Composes P] {expression : Reading Expression} [Obeys P expression]

instance : Obeys P groupHead := by
  unfold groupHead
  infer_instance

instance : Obeys P (choiceHead expression) := by
  unfold choiceHead
  infer_instance

instance {kind : ConditionKind} {opened : Span} : Obeys P (conditionalHead kind opened expression) := by
  unfold conditionalHead
  infer_instance

instance {branches : Branches} {start : Span} : Obeys P (elifHead expression branches start) := by
  have : Obeys P (report (.error .elifAfterElse start)) := obeys_report rfl
  unfold elifHead
  infer_instance

instance {branches : Branches} {start : Span} : Obeys P (otherwiseHead branches start) := by
  have : Obeys P (report (.error .duplicateElse start)) := obeys_report rfl
  unfold otherwiseHead
  infer_instance

end Heads

instance {enclosure : Enclosure} {P : Law} [Composes P] [AsksStop P] : Obeys P enclosure.atEnd := by
  cases enclosure <;> (unfold Enclosure.atEnd; infer_instance)

variable {expression : Reading Expression} [Obeys balance.Kept expression]
  {inner : Inner} [Obeys balance.Kept inner.expression] [Obeys balance.Kept inner.statement]
  {s s' : State} {inside : Enclosure}

theorem State.level_peeked (s : State) : s.peeked.2.nesting.LevelWith s.nesting :=
  level_of_run (run_of_ok (run_peek s))

theorem level_of_rounds {branches branches' : Branches}
    (h : Rounds (branch inner.expression inner.statement) branches s branches' s') :
    s'.nesting.LevelWith s.nesting := by
  induction h with
  | none => rfl
  | more _ hturn _ ih => exact (level_of_run hturn).trans ih

theorem State.OpensBraces.nesting {expectation : Expectation} (h : s.OpensBraces expectation s') :
    s'.nesting.braces = s.nesting.braces + 1 ∧ s'.nesting.chains = s.nesting.chains := by
  obtain ⟨-, opened, after, hrun, rfl⟩ := h
  have hlevel := level_of_run hrun
  exact ⟨congrArg (· + 1) hlevel.braces, hlevel.chains⟩

omit [Obeys balance.Kept inner.statement] in
theorem State.OpensChain.nesting (h : s.OpensChain inner.expression s') :
    s'.nesting.braces = s.nesting.braces ∧ s'.nesting.chains = s.nesting.chains + 1 := by
  obtain ⟨-, kind, condition, after, -, hrun, rfl⟩ := h
  have hlevel := level_of_run hrun
  have hpeeked := s.level_peeked
  exact ⟨hlevel.braces.trans hpeeked.braces, congrArg (· + 1) (hlevel.chains.trans hpeeked.chains)⟩

/-- The nesting counts the body that a statement opens. -/
theorem State.Opens.nesting (h : s.Opens expression inner inside s') :
    s'.nesting.braces = s.nesting.braces + inside.isBraces.toNat ∧
      s'.nesting.chains = s.nesting.chains + inside.isBranch.toNat ∧
      ∀ inBraces, inside = .branch inBraces → inBraces = decide (0 < s'.nesting.braces) := by
  have hpeeked := s.level_peeked
  cases h with
  | group _ hhead hbraces =>
      obtain ⟨hbraces, hchains⟩ := hbraces.nesting
      have hlevel := (level_of_run hhead).trans hpeeked
      exact ⟨hbraces.trans (congrArg (· + 1) hlevel.braces), hchains.trans hlevel.chains, nofun⟩
  | thenBlock _ hhead hbraces =>
      obtain ⟨hbraces, hchains⟩ := hbraces.nesting
      have hlevel := (level_of_run hhead).trans hpeeked
      exact ⟨hbraces.trans (congrArg (· + 1) hlevel.braces), hchains.trans hlevel.chains, nofun⟩
  | elseBlock _ hhead hthen helse hbraces =>
      obtain ⟨hbraces, hchains⟩ := hbraces.nesting
      have hlevel := (level_of_run helse).trans
        ((level_of_run hthen).trans ((level_of_run hhead).trans hpeeked))
      exact ⟨hbraces.trans (congrArg (· + 1) hlevel.braces), hchains.trans hlevel.chains, nofun⟩
  | thenBranch hchain =>
      obtain ⟨hbraces, hchains⟩ := hchain.nesting
      refine ⟨hbraces, hchains, ?_⟩
      rintro _ ⟨⟩
      rfl
  | elifBranch hchain hbody hrounds _ hhead =>
      obtain ⟨hbraces, hchains⟩ := hchain.nesting
      have hlevel := (level_of_run hhead).trans
        ((State.level_peeked _).trans ((level_of_rounds hrounds).trans (level_of_run hbody)))
      refine ⟨hlevel.braces.trans hbraces, hlevel.chains.trans hchains, ?_⟩
      rintro _ ⟨⟩
      rfl
  | otherwiseBranch hchain hbody hrounds _ hhead =>
      obtain ⟨hbraces, hchains⟩ := hchain.nesting
      have hlevel := (level_of_run hhead).trans
        ((State.level_peeked _).trans ((level_of_rounds hrounds).trans (level_of_run hbody)))
      refine ⟨hlevel.braces.trans hbraces, hlevel.chains.trans hchains, ?_⟩
      rintro _ ⟨⟩
      rfl

/-- The nesting of a state counts the bodies that are open. -/
structure Nesting.Counts (n : Nesting) (bodies : List Enclosure) : Prop where
  braces : n.braces = bodies.countP (·.isBraces)
  chains : n.chains = bodies.countP (·.isBranch)
  inBraces : ∀ inBraces around, bodies = .branch inBraces :: around →
    inBraces = decide (0 < around.countP (·.isBraces))

theorem Nesting.Counts.of_level {n n' : Nesting} {bodies : List Enclosure} (h : n.Counts bodies)
    (hlevel : n'.LevelWith n) : n'.Counts bodies :=
  ⟨hlevel.braces.trans h.braces, hlevel.chains.trans h.chains, h.inBraces⟩

theorem Turns.counts {options : Options} {source : String} {bodies : List Enclosure} {level : Nat}
    {s : State} (h : Turns options source bodies level s) : s.nesting.Counts bodies := by
  induction h with
  | start => exact ⟨rfl, rfl, nofun⟩
  | @next enclosure _ level _ _ _ _ _ hturn _ ih =>
      have (statements : Array Statement) : Obeys balance.Kept
          (bodyTurn enclosure.atEnd (Statement.read level) statements) := by
        unfold bodyTurn
        infer_instance
      exact ih.of_level (level_of_run hturn)
  | @enter enclosure inside around level _ s s' _ hend hopens ih =>
      have hs := ih.of_level (level_of_run hend)
      obtain ⟨hbraces, hchains, hinside⟩ := hopens.nesting
      refine ⟨?_, ?_, ?_⟩
      · rw [hbraces, hs.braces, List.countP_cons (a := inside)]
        cases inside <;> rfl
      · rw [hchains, hs.chains, List.countP_cons (a := inside)]
        cases inside <;> rfl
      · rintro inBraces _ ⟨⟩
        rw [hinside inBraces rfl, hbraces, hs.braces]
        rfl

theorem Begins.counts {options : Options} {source : String} {bodies : List Enclosure} {level : Nat}
    {s : State} (h : Begins options source bodies level s) : s.nesting.Counts bodies := by
  obtain ⟨hturn, hend⟩ := h
  exact hturn.counts.of_level (level_of_run hend)

/-- The program is the outermost body. -/
theorem Turns.around_of_program {options : Options} {source : String} {around : List Enclosure}
    {level : Nat} {s : State} (h : Turns options source (.program :: around) level s) :
    around = [] := by
  generalize hbodies : Enclosure.program :: around = bodies at h
  induction h with
  | start =>
      cases hbodies
      rfl
  | next _ _ _ ih => exact ih hbodies
  | enter _ _ hopens _ =>
      cases hbodies
      cases hopens

end ConfLang
