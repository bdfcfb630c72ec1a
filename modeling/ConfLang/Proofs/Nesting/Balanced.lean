import ConfLang.Proofs.Likeness.Invariant
import ConfLang.Proofs.Nesting.Calls

/-!
# The nesting is balanced

Whatever a call reads, and whether it gives a value or fails, it leaves the nesting as it was:
as deep, inside as many braces and conditional directive blocks, and in the condition of a
directive or not.  While it runs, the depth stays within its limit, and no counter is lowered
that was not raised before.

For the calls that read statements this needs that no condition is being read when they are
made.  That is so because a condition is only an expression, and an expression makes no such
calls: `Call.Fits` is carried along all calls.
-/

namespace ConfLang

open Reading

variable {α σ : Type} {s s' s'' : State}

/-! ## What a run keeps -/

/-- What one state keeps of another: the options, and the nesting but for the question whether a
condition is being read. -/
structure State.Keeps (s' s : State) : Prop where
  options : s'.options = s.options
  nesting : s'.nesting.LevelWith s.nesting

theorem State.Keeps.trans (h : s''.Keeps s') (h' : s'.Keeps s) : s''.Keeps s :=
  ⟨h.options.trans h'.options, h.nesting.trans h'.nesting⟩

/-- Every reading keeps the options and the nesting. -/
def footing : FreeCourse where
  holds s s' := s'.Keeps s
  fails _ := True
  refl s := ⟨rfl, .refl s.nesting⟩
  trans h h' := h'.trans h
  plain _ _ := trivial
  calm _ _ := trivial
  note s _ := ⟨rfl, .refl s.nesting⟩
  report s diagnostic _ := by
    rw [State.report_frame]
    exact ⟨rfl, .refl s.nesting⟩
  renest opening closing hback h := ⟨h.options, hback _ _ h.nesting⟩
  looked s := ⟨rfl, .refl s.nesting⟩
  take _ := ⟨rfl, .refl _⟩
  takeRaw _ := ⟨rfl, .refl _⟩

/-- A reading that keeps the options and the nesting. -/
abbrev Steady (f : Reading α) : Prop := Obeys footing.Kept f

instance : TellsStray footing.Kept := Course.tellsStray fun _ => trivial

theorem Reading.Steady.keeps (f : Reading α) [Steady f] (s : State) : (f.run s).2.Keeps s :=
  (Obeys.obeys (P := footing.Kept) (f := f) s).1

theorem Reading.keeps_of_run {f : Reading α} [Steady f] {a : α} (h : f.run s = (.ok a, s')) :
    s'.Keeps s := by
  have hkeeps := Steady.keeps f s
  rwa [h] at hkeeps

theorem Reading.Rounds.keeps {step : σ → Reading (Turn σ)} [∀ value, Steady (step value)]
    {value value' : σ} (h : Rounds step value s value' s') : s'.Keeps s := by
  induction h with
  | none => exact ⟨rfl, .refl s.nesting⟩
  | more _ hturn _ ih => exact (keeps_of_run hturn).trans ih

theorem State.keeps_peeked (s : State) : s.peeked.2.Keeps s :=
  keeps_of_run (run_of_ok (run_peek s))

theorem State.keeps_advanced (s : State) : s.advanced.Keeps s :=
  keeps_of_run (run_of_ok (run_advance s))

/-! ## A call leaves the nesting as it was -/

theorem Call.keeps_after (call : Call) (s : State) : (call.after s).Keeps s := by
  cases call with
  | operand level =>
      have := obeys_operand (P := footing.Kept) level
      exact Steady.keeps _ s
  | _ => exact Steady.keeps _ s

theorem Nesting.LevelWith.eq {n n' : Nesting} (h : n'.LevelWith n)
    (hcondition : n'.inCondition = n.inCondition) : n' = n := by
  obtain ⟨depth, braces, chains, condition⟩ := n
  obtain ⟨depth', braces', chains', condition'⟩ := n'
  obtain rfl : depth' = depth := h.depth
  obtain rfl : braces' = braces := h.braces
  obtain rfl : chains' = chains := h.chains
  obtain rfl : condition' = condition := hcondition
  rfl

/-- The invariant that says nothing but what is known of every reading. -/
def Invariant.anything : Invariant where
  state _ := True
  span _ := True
  span_through _ _ := trivial
  span_origin _ := trivial
  lookahead _ _ _ := trivial
  renest _ _ := trivial
  note _ _ := trivial
  report _ _ := trivial
  scan _ := trivial
  take _ _ := trivial
  takeRaw _ _ := ⟨trivial, trivial⟩

theorem nesting_of_alike {f : Reading α} {value : α → α → Lasting}
    (h : Invariant.anything.likeness.Alike s.nesting (.sure True) f f value) :
    (f.run s).2.nesting = s.nesting := by
  have hends := Invariant.of_alike h (s := s) trivial rfl
  cases hrun : EStateM.run f s with
  | ok a after =>
      rw [hrun] at hends
      rw [run_of_ok hrun]
      exact hends.2.1
  | error problem after =>
      rw [hrun] at hends
      rw [run_of_error hrun]
      exact hends.2.1

/-- A call leaves the nesting as it was.  Only an expression may be read in a condition. -/
theorem Call.nesting_after {call : Call}
    (h : call.isOperand = false → s.nesting.inCondition = false) :
    (call.after s).nesting = s.nesting := by
  have hkeeps := (call.keeps_after s).nesting
  -- What reads more than an expression begins outside of conditions, and so it ends there.
  cases call with
  | expression level least => exact nesting_of_alike (Likeness.alike_expression level least)
  | operand level => exact nesting_of_alike (Likeness.alike_operand level _ _)
  | _ =>
      have hcondition := h rfl
      exact hkeeps.eq (by rw [hkeeps.outside hcondition, hcondition])

/-! ## One construct deeper -/

/-- A state one construct deeper than another one. -/
structure State.Deeper (s' s : State) : Prop where
  options : s'.options = s.options
  depth : s'.nesting.depth = s.nesting.depth + 1
  outside : s.nesting.inCondition = false → s'.nesting.inCondition = false

namespace State.Deeper

theorem enter (s : State) : s.enter.Deeper s := ⟨rfl, rfl, id⟩

theorem openBrace (h : s'.Deeper s) : s'.openBrace.Deeper s := ⟨h.options, h.depth, h.outside⟩

theorem openChain (h : s'.Deeper s) : s'.openChain.Deeper s := ⟨h.options, h.depth, h.outside⟩

theorem keeps (h : s'.Deeper s) (hkeeps : s''.Keeps s') : s''.Deeper s :=
  ⟨hkeeps.options.trans h.options, hkeeps.nesting.depth.trans h.depth,
    fun hcondition => hkeeps.nesting.outside (h.outside hcondition)⟩

end State.Deeper

theorem State.OpensBraces.deeper {expectation : Expectation} (h : s.OpensBraces expectation s') :
    s'.Deeper s := by
  obtain ⟨-, opened, after, hrun, rfl⟩ := h
  exact ((State.Deeper.enter s).keeps (keeps_of_run hrun)).openBrace

theorem State.OpensChain.deeper {expression : Reading Expression} [Steady expression]
    (h : s.OpensChain expression s') : s'.Deeper s.peeked.2 := by
  obtain ⟨-, kind, condition, after, -, hrun, rfl⟩ := h
  exact ((State.Deeper.enter _).keeps (keeps_of_run hrun)).openChain

theorem State.ReachesStatement.keeps {enclosure : Enclosure} {level : Nat}
    (h : s.ReachesStatement enclosure level s') : s'.Keeps s := by
  obtain ⟨statements, s₁, hrounds, hend⟩ := h
  have (statements : Array Statement) :
      Steady (bodyTurn enclosure.atEnd (Statement.read level) statements) := by
    unfold bodyTurn
    infer_instance
  exact (keeps_of_run hend).trans hrounds.keeps

theorem State.ReachesBranch.deeper {level : Nat} {branches : Branches}
    (h : s.ReachesBranch level branches s') : s'.Deeper s.peeked.2 ∧ s.peeked.2.CanNest := by
  obtain ⟨s₁, thenBody, s₂, hchain, hbody, hrounds⟩ := h
  exact ⟨(hchain.deeper.keeps (keeps_of_run hbody)).keeps hrounds.keeps, hchain.1⟩

theorem State.ReachesSuffix.keeps {level : Nat} (h : s.ReachesSuffix level s') : s'.Keeps s := by
  obtain ⟨first, s₁, operand, hfirst, hrounds⟩ := h
  exact hrounds.keeps.trans (keeps_of_run hfirst)

/-! ## What holds of every call -/

/-- A call is made within the limit of nesting, and outside of conditions if it reads more than
an expression. -/
structure Call.Fits (o : Options) (call : Call) (s : State) : Prop where
  options : s.options = o
  depth : s.nesting.depth ≤ o.maxNestingDepth
  outside : call.isOperand = false → s.nesting.inCondition = false

variable {o : Options} {source : String} {call call' : Call}

/-- A call that is made where nothing has been opened since. -/
theorem Call.Fits.keeps (h : call.Fits o s) (hkeeps : s'.Keeps s)
    (hcall : call'.isOperand = false → call.isOperand = false) : call'.Fits o s' where
  options := hkeeps.options.trans h.options
  depth := by
    rw [hkeeps.nesting.depth]
    exact h.depth
  outside h' := hkeeps.nesting.outside (h.outside (hcall h'))

theorem State.Deeper.depth_le (hoptions : s.options = o) (hkeeps : s'.Keeps s)
    (hroom : s'.CanNest) (hdeeper : s''.Deeper s') : s''.nesting.depth ≤ o.maxNestingDepth := by
  rw [State.CanNest, hkeeps.options, hoptions] at hroom
  rw [hdeeper.depth]
  exact hroom

/-- A call that is made one construct deeper, for which there is room. -/
theorem Call.Fits.deeper (h : call.Fits o s) (hkeeps : s'.Keeps s) (hroom : s'.CanNest)
    (hdeeper : s''.Deeper s') (hcall : call'.isOperand = false → call.isOperand = false) :
    call'.Fits o s'' where
  options := (hdeeper.options.trans hkeeps.options).trans h.options
  depth := hdeeper.depth_le h.options hkeeps hroom
  outside h' := hdeeper.outside (hkeeps.nesting.outside (h.outside (hcall h')))

section Heads

variable {P : Law} [Composes P] {expression : Reading Expression} [Obeys P expression]

instance : Obeys P typeHead := by
  unfold typeHead
  infer_instance

instance : Obeys P (valueHead expression) := by
  unfold valueHead
  infer_instance

instance : Obeys P assignmentHead := by
  unfold assignmentHead
  infer_instance

instance : Obeys P choiceOpening := by
  unfold choiceOpening
  infer_instance

instance : Obeys P argumentHead := by
  unfold argumentHead
  infer_instance

instance {kind : ConditionKind} {opened : Span} : Obeys P (conditionalOpening kind opened) := by
  unfold conditionalOpening
  infer_instance

instance {branches : Branches} {start : Span} : Obeys P (elifOpening branches start) := by
  have : Obeys P (report (.error .elifAfterElse start)) := obeys_report rfl
  unfold elifOpening
  infer_instance

end Heads

/-- How many levels of nesting a call has left, the one it is made in included. -/
def Call.levels : Call → Nat
  | program level | statement level | condition level | operand level => level
  | expression level _ => level
  | block level _ | conditional level => level + 1

/-- A call is made where nothing has been opened since, or behind the directive of a condition, or
else one construct deeper, for which there is room, and with one level less. -/
theorem Call.Makes.nests (h : call.Makes s call' s') :
    call'.levels = call.levels ∧ (s'.Keeps s ∨ call'.isOperand = true ∧ s' = s.setCondition true) ∨
      call'.levels + 1 = call.levels ∧ ∃ s₁ : State, s₁.Keeps s ∧ s₁.CanNest ∧ s'.Deeper s₁ := by
  have hoperand (level : Nat) : Steady (Reading.operand level) := obeys_operand level
  -- A call stays on the level of its caller, or it goes one level deeper where there is room for
  -- it.
  cases h with
  | ofProgram hreaches =>
      exact .inl ⟨rfl, .inl (hreaches.keeps.trans (keeps_of_run (run_of_ok (run_note _ _))))⟩
  | conditional => exact .inl ⟨rfl, .inl s.keeps_peeked⟩
  | type _ hhead | value _ hhead | group _ hhead | assigned _ hhead _ | choice _ hhead
  | thenBlock _ hhead => exact .inl ⟨rfl, .inl ((keeps_of_run hhead).trans s.keeps_peeked)⟩
  | elseBlock _ hhead hthen helse =>
      exact .inl ⟨rfl, .inl ((keeps_of_run helse).trans ((keeps_of_run hthen).trans
        ((keeps_of_run hhead).trans s.keeps_peeked)))⟩
  | ofBlock hbraces hreaches =>
      exact .inr ⟨rfl, s, ⟨rfl, .refl _⟩, hbraces.1, hbraces.deeper.keeps hreaches.keeps⟩
  | opening _ hroom hhead =>
      exact .inr ⟨rfl, s.peeked.2, s.keeps_peeked, hroom,
        (State.Deeper.enter _).keeps (keeps_of_run hhead)⟩
  | thenBranch hchain hreaches =>
      exact .inr ⟨rfl, s.peeked.2, s.keeps_peeked, hchain.1, hchain.deeper.keeps hreaches.keeps⟩
  | elifOpening hbranch _ hhead =>
      obtain ⟨hdeeper, hroom⟩ := hbranch.deeper
      exact .inr ⟨rfl, s.peeked.2, s.keeps_peeked, hroom,
        hdeeper.keeps ((keeps_of_run hhead).trans (State.keeps_peeked _))⟩
  | elifBranch hbranch _ hhead hreaches | otherwiseBranch hbranch _ hhead hreaches =>
      obtain ⟨hdeeper, hroom⟩ := hbranch.deeper
      exact .inr ⟨rfl, s.peeked.2, s.keeps_peeked, hroom, hdeeper.keeps (hreaches.keeps.trans
        ((keeps_of_run hhead).trans (State.keeps_peeked _)))⟩
  | condition => exact .inl ⟨rfl, .inr ⟨rfl, rfl⟩⟩
  | left => exact .inl ⟨rfl, .inl ⟨rfl, .refl _⟩⟩
  | right hfirst hrounds hoperator _ hadvance =>
      exact .inl ⟨rfl, .inl ((keeps_of_run hadvance).trans ((keeps_of_run hoperator).trans
        (hrounds.keeps.trans (keeps_of_run hfirst))))⟩
  | negation hopens | parentheses hopens =>
      exact .inr ⟨rfl, s.advanced, s.keeps_advanced, hopens.room, .enter _⟩
  | element hopens hrounds _ =>
      exact .inr ⟨rfl, s.advanced, s.keeps_advanced, hopens.room,
        (State.Deeper.enter _).keeps ((State.keeps_peeked _).trans hrounds.keeps)⟩
  | @argument _ _ s₁ _ _ _ hsuffix hopens hrounds _ hhead =>
      refine .inr ⟨rfl, s₁.advanced, (State.keeps_advanced _).trans hsuffix.keeps, hopens.room,
        (State.Deeper.enter _).keeps ?_⟩
      exact (keeps_of_run hhead).trans ((State.keeps_peeked _).trans hrounds.keeps)

/-- An expression makes no calls that read more than expressions. -/
theorem Call.Makes.isOperand (h : call.Makes s call' s') :
    call'.isOperand = false → call.isOperand = false := by
  cases h <;> first | exact id | exact nofun

/-- Every call that is made fits if the call that makes it does. -/
theorem Call.Makes.fits (h : call.Makes s call' s') (hfits : call.Fits o s) :
    call'.Fits o s' := by
  rcases h.nests with ⟨-, hkeeps | ⟨hoperand, rfl⟩⟩ | ⟨-, s₁, hkeeps, hroom, hdeeper⟩
  · exact hfits.keeps hkeeps h.isOperand
  · refine ⟨hfits.options, hfits.depth, fun hcall => ?_⟩
    rw [hoperand] at hcall
    cases hcall
  · exact hfits.deeper hkeeps hroom hdeeper h.isOperand

/-- A call has one level less for each construct that is opened in front of it. -/
theorem Call.Makes.levels_add (h : call.Makes s call' s') :
    call'.levels + s'.nesting.depth = call.levels + s.nesting.depth := by
  rcases h.nests with ⟨hlevels, hkeeps | ⟨-, rfl⟩⟩ | ⟨hlevels, s₁, hkeeps, -, hdeeper⟩
  · rw [hlevels, hkeeps.nesting.depth]
  · rw [hlevels]
    rfl
  · rw [← hlevels, hdeeper.depth, hkeeps.nesting.depth]
    omega

/-! ## Sessions -/

/-- Between two calls of a caller nothing is open. -/
theorem Session.closed (h : Session o source s) : s.options = o ∧ s.nesting = {} := by
  induction h with
  | start => exact ⟨rfl, rfl⟩
  | @next s call _ hoffers ih =>
      refine ⟨(call.keeps_after s).options.trans ih.1, ?_⟩
      rw [Call.nesting_after fun _ => by rw [ih.2], ih.2]

theorem Reached.fits (h : Reached o source call s) : call.Fits o s := by
  induction h with
  | begin hsession =>
      obtain ⟨hoptions, hnesting⟩ := hsession.closed
      exact ⟨hoptions, by rw [hnesting]; exact Nat.zero_le _, fun _ => by rw [hnesting]⟩
  | make _ hmakes ih => exact hmakes.fits ih

theorem State.Offers.levels_eq (h : s.Offers call) (hdepth : s.nesting.depth = 0) :
    call.levels = s.options.maxNestingDepth + 1 := by
  cases h <;> simp only [Call.levels, State.levels, hdepth] <;> omega

/-- A call that is made has at least one level left. -/
theorem Reached.levels_pos (h : Reached o source call s) : 0 < call.levels := by
  -- No call changes the sum of the levels and the depth, and the depth is limited.
  have hlevels : call.levels + s.nesting.depth = o.maxNestingDepth + 1 := by
    induction h with
    | begin hsession hoffers =>
        obtain ⟨hoptions, hnesting⟩ := hsession.closed
        rw [hoffers.levels_eq (by rw [hnesting]), hoptions, hnesting, Nat.add_zero]
    | make _ hmakes ih => rw [hmakes.levels_add, ih]
  have hdepth := h.fits.depth
  omega

/-! ## Counters -/

theorem Counter.value_raise (counter : Counter) (s : State) :
    counter.value (counter.raise s).nesting = counter.value s.nesting + 1 := by
  cases counter <;> rfl

theorem Counter.value_lower (counter : Counter) (s : State) :
    counter.value (counter.lower s).nesting = counter.value s.nesting - 1 := by
  cases counter <;> rfl

theorem Nesting.LevelWith.value {n n' : Nesting} (h : n'.LevelWith n) (counter : Counter) :
    counter.value n' = counter.value n := by
  cases counter
  · exact h.depth
  · exact h.braces
  · exact h.chains

section Inside

variable {P : Law} [Composes P] [AsksStop P] {statement : Reading (Option Statement)}
  [Obeys P statement] {expression : Reading Expression} [Obeys P expression]

instance {expectation : Expectation} : Obeys P (blockInside statement expectation) := by
  have : Obeys P (between State.openBrace State.closeBrace
      (statementsUntil atEndOfBlock statement)) :=
    obeys_between Nesting.inBraces (fun nesting => { nesting with braces := nesting.braces - 1 })
      fun _ _ h => ⟨h.depth, Nat.sub_eq_of_eq_add h.braces, h.chains, h.outside⟩
  unfold blockInside
  infer_instance

instance {kind : ConditionKind} {opened : Span} :
    Obeys P (conditionalInside kind opened expression statement) := by
  have : Obeys P (between State.openChain State.closeChain
      (branching kind opened expression statement)) :=
    obeys_between Nesting.inChain (fun nesting => { nesting with chains := nesting.chains - 1 })
      fun _ _ h => ⟨h.depth, h.braces, Nat.sub_eq_of_eq_add h.chains, h.outside⟩
  unfold conditionalInside
  infer_instance

end Inside

/-- While a counter is raised, the depth is within its limit, and what is read leaves the nesting
as it was. -/
theorem Call.Counts.balanced {counter : Counter} {s₁ s₂ : State} (h : call.Counts s counter s₁ s₂)
    (hoptions : s.options = o) :
    (counter.raise s₁).nesting.depth ≤ o.maxNestingDepth ∧ s₂.Keeps (counter.raise s₁) := by
  have hoperand (level : Nat) : Steady (Reading.operand level) := obeys_operand level
  cases h with
  | block hroom =>
      exact ⟨(State.Deeper.enter s).depth_le hoptions ⟨rfl, .refl _⟩ hroom, Steady.keeps _ _⟩
  | braces hroom hhead =>
      have hdeeper := ((State.Deeper.enter s).keeps (keeps_of_run hhead)).openBrace
      exact ⟨hdeeper.depth_le hoptions ⟨rfl, .refl _⟩ hroom, Steady.keeps _ _⟩
  | conditional _ hroom =>
      exact ⟨(State.Deeper.enter _).depth_le hoptions s.keeps_peeked hroom, Steady.keeps _ _⟩
  | chain _ hroom hhead =>
      have hdeeper := ((State.Deeper.enter _).keeps (keeps_of_run hhead)).openChain
      exact ⟨hdeeper.depth_le hoptions s.keeps_peeked hroom, Steady.keeps _ _⟩
  | negation hopens | parentheses hopens | elements hopens =>
      exact ⟨(State.Deeper.enter _).depth_le hoptions s.keeps_advanced hopens.room,
        Steady.keeps _ _⟩
  | arguments hsuffix hopens =>
      exact ⟨(State.Deeper.enter _).depth_le hoptions
        ((State.keeps_advanced _).trans hsuffix.keeps) hopens.room, Steady.keeps _ _⟩

/-- The nesting is balanced.  Every call that is made while a source is read leaves the nesting
exactly as it was, whether it gives a value or fails.  It is made within the limit of nesting,
and wherever it raises a counter the depth stays within the limit; the counter is lowered again
where it is not zero, to what it was. -/
theorem nesting_balanced (h : Reached o source call s) :
    (call.after s).nesting = s.nesting ∧ s.nesting.depth ≤ o.maxNestingDepth ∧
      ∀ counter s₁ s₂, call.Counts s counter s₁ s₂ →
        (counter.raise s₁).nesting.depth ≤ o.maxNestingDepth ∧
          0 < counter.value s₂.nesting ∧
          counter.value (counter.lower s₂).nesting = counter.value s₁.nesting := by
  have hfits := h.fits
  refine ⟨Call.nesting_after hfits.outside, hfits.depth, fun counter s₁ s₂ hcounts => ?_⟩
  obtain ⟨hdepth, hkeeps⟩ := hcounts.balanced hfits.options
  have hvalue : counter.value s₂.nesting = counter.value s₁.nesting + 1 :=
    (hkeeps.nesting.value counter).trans (counter.value_raise s₁)
  refine ⟨hdepth, ?_, ?_⟩
  · rw [hvalue]
    exact Nat.succ_pos _
  · rw [counter.value_lower, hvalue, Nat.add_sub_cancel]

/-- The parentheses of an expression, of which the second pair is too deep. -/
theorem exists_balanced :
    let s := State.ofSource "((1))" { maxNestingDepth := 1 }
    Reached { maxNestingDepth := 1 } "((1))" (.operand 2) s ∧ s.Deepens .openParen ∧
      ((Call.operand 2).after s).nesting = s.nesting ∧
      0 < (((Expression.read 1 Operator.lowestPrecedence).run s.advanced.enter).2).nesting.depth := by
  intro s
  have hreached : Reached { maxNestingDepth := 1 } "((1))" (.operand 2) s :=
    .make (.begin .start (.expression Operator.lowestPrecedence)) .left
  have hopens : s.Deepens .openParen := ⟨by decide +kernel, by unfold State.CanNest; decide +kernel⟩
  obtain ⟨hafter, -, hcounts⟩ := nesting_balanced hreached
  exact ⟨hreached, hopens, hafter, (hcounts .depth _ _ (.parentheses hopens)).2.1⟩

end ConfLang
