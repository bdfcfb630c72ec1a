import ConfLang.Proofs.Progress.Turns

/-!
# Every repetition ends by itself

`iterate` ends whatever its turns do, because it goes on only as long as less and less is left
of the source.  The repetitions of the library do not need that: `Loops` says how a repetition
ends that goes on whenever its turns ask for more, and from every reachable state each of them
ends in just this way, with the same value in the same state.  Nor does the recursion need its
levels to end: a call that is made has always one left.

Reading one more statement of a body never fails, and takes a token unless the current one is the
end of the file.  So the statements of a program are read through the end of the file, or until
the reading has stopped.
-/

namespace ConfLang

open Reading

variable {σ : Type} {s s' : State}

/-! ## Repetitions without a guard -/

namespace Reading

/-- How a repetition ends that goes on whenever its turns ask for more. -/
inductive Loops (turn : σ → Reading (Turn σ)) : σ → State → Except Problem σ × State → Prop
  | done {value value' : σ} {s s' : State} : (turn value).run s = (.ok (.done value'), s') →
    Loops turn value s (.ok value', s')
  | again {value value' : σ} {s s' : State} {result : Except Problem σ × State} :
    (turn value).run s = (.ok (.again value'), s') → Loops turn value' s' result →
    Loops turn value s result
  | failed {value : σ} {problem : Problem} {s s' : State} :
    (turn value).run s = (.error problem, s') → Loops turn value s (.error problem, s')

/-- Where every turn takes something, the guard of a repetition never ends it. -/
theorem loops_iterate {turn : σ → Reading (Turn σ)} (h : ∀ value, Progresses (turn value))
    (hs : s.Ordered) (value : σ) : Loops turn value s ((iterate turn value).run s) := by
  induction hmeasure : s.remaining using Nat.strongRecOn generalizing value s with
  | ind measure ih =>
      subst hmeasure
      rw [iterate_run, bind_run]
      cases hturn : (turn value).run s with
      | mk result after =>
          rcases result with problem | (value' | value')
          · exact .failed hturn
          · -- The guard asks just for what the turn has done.
            obtain ⟨hordered, hless⟩ := h value s value' after hs hturn
            simp only
            rw [afterTurn_again_run, if_pos hless]
            exact .again hturn (ih _ hless hordered value' rfl)
          · exact .done hturn

end Reading

/-! ## The repetitions of the library -/

/-- The repetitions that a source is read by. -/
inductive Loop where
  | statements (enclosure : Enclosure) (level : Nat)
  | branches (level : Nat)
  | elements (bracket : Bracket) (level : Nat)
  | arguments (level : Nat)
  | commas (bracket : Bracket)
  | operators (level least : Nat)
  | suffixes (level : Nat)
  | skipping
  | line

namespace Loop

/-- What a repetition has read so far. -/
def Value : Loop → Type
  | statements _ _ => Array Statement
  | branches _ => Branches
  | elements _ _ => Array Expression
  | arguments _ => Array Argument
  | operators _ _ | suffixes _ => Expression
  | skipping => Skipping
  | commas _ | line => Unit

/-- One turn of a repetition. -/
def turn : (loop : Loop) → loop.Value → Reading (Turn loop.Value)
  | statements enclosure level => bodyTurn enclosure.atEnd (Statement.read level)
  | branches level =>
    branch (Expression.read level Operator.lowestPrecedence) (Statement.read level)
  | elements bracket level => element bracket (Expression.read level Operator.lowestPrecedence)
  | arguments level =>
    element .paren (argument (Expression.read level Operator.lowestPrecedence))
  | commas bracket => fun _ => commaTurn bracket
  | operators level least => chainTurn (Reading.operand level) least
  | suffixes level => suffix (Expression.read level Operator.lowestPrecedence)
  | skipping => skipTurn
  | line => fun _ => lineTurn

theorem progresses (loop : Loop) (value : loop.Value) : Progresses (loop.turn value) := by
  cases loop with
  | statements enclosure level => exact progresses_bodyTurn enclosure level value
  | branches level => exact progresses_branch value
  | elements bracket level => exact progresses_element value
  | arguments level => exact progresses_element value
  | commas bracket => exact progresses_commaTurn bracket
  | operators level least =>
      have := obeys_operand (P := order.Kept) level
      have := obeys_operand (P := growth.Kept) level
      exact progresses_chainTurn least value
  | suffixes level => exact progresses_suffix value
  | skipping => exact progresses_skipTurn value
  | line => exact progresses_lineTurn

end Loop

/-! ## Programs -/

/-- The statements of a program end with the file, or the reading has stopped. -/
theorem Reading.Loops.end_of_program {level : Nat} {statements : Array Statement}
    {result : Except Problem (Array Statement) × State}
    (h : Loops (programTurn level) statements s result) : ∀ statements' s',
      result = (.ok statements', s') → ∃ token rest, s'.lookahead = token :: rest ∧
        (token.kind = .endOfFile ∨ s'.stopped = true) := by
  induction h with
  | failed hturn => nofun
  | again _ _ ih => exact ih
  | @done statements statements' s s' hturn =>
      rintro _ _ ⟨⟩
      have hrun := run_programTurn level statements s
      by_cases hend : s.peeked.1.kind = .endOfFile ∨ s.peeked.2.stopped = true
      · rw [if_pos hend] at hrun
        rw [run_of_ok hrun] at hturn
        obtain ⟨-, rfl⟩ := Prod.mk.inj hturn
        obtain ⟨rest, hrest⟩ := s.lookahead_peeked
        exact ⟨s.peeked.1, rest, hrest, hend⟩
      · rw [if_neg hend] at hrun
        split at hrun
        · rw [run_of_ok hrun] at hturn
          cases hturn
        · rw [run_of_error hrun] at hturn
          cases hturn

theorem program_run (level : Nat) (s : State) : (program (Statement.read level)).run s =
    match (iterate (programTurn level) #[]).run (s.note .started) with
    | (.ok statements, after) =>
      (.ok ⟨statements.toList⟩, (duplicateWarnings [] statements.toList).foldl State.report after)
    | (.error problem, after) => (.error problem, after) := by
  rw [program, bind_run, run_of_ok (run_note _ _)]
  simp only [statementsUntil_eq, ← programTurn.eq_1, bind_assoc, pure_bind]
  rw [bind_run]
  cases (iterate (programTurn level) #[]).run (s.note .started) with
  | mk result after => cases result <;> rfl

/-- The statements of a program are read without failing, up to a token that is the end of the
file, or until the reading has stopped. -/
theorem program_ends_at (level : Nat) (hs : s.Ordered) :
    ∃ program s' token rest, (Reading.program (Statement.read level)).run s = (.ok program, s') ∧
      s'.lookahead = token :: rest ∧ (token.kind = .endOfFile ∨ s'.stopped = true) := by
  have hordered : (s.note .started).Ordered := ⟨hs.size, hs.tokens⟩
  have hprogresses : ∀ value, Progresses (programTurn level value) :=
    progresses_bodyTurn .program level
  have hloops := loops_iterate hprogresses hordered #[]
  obtain ⟨statements, after, hiterate⟩ := succeeds_programTurns level #[] (s.note .started)
  rw [hiterate] at hloops
  obtain ⟨token, rest, hfirst, hend⟩ := hloops.end_of_program statements after rfl
  have hrun := program_run level s
  rw [hiterate] at hrun
  refine ⟨_, _, token, rest, hrun, by rw [State.lookahead_foldl_report, hfirst], ?_⟩
  exact hend.imp_right fun hstopped => ((State.grows_foldl_report _ _).stopped hstopped).1

theorem program_ends (level : Nat) (hs : s.Ordered) :
    ∃ program s', (Reading.program (Statement.read level)).run s = (.ok program, s') ∧
      (s'.stopped = true ∨ s'.peeked.1.kind = .endOfFile) := by
  obtain ⟨program, s', token, rest, hrun, hfirst, hend⟩ := program_ends_at level hs
  refine ⟨program, s', hrun, ?_⟩
  rw [State.peeked_of_cons hfirst]
  exact hend.symm

/-! ## Main result -/

variable {options : Options} {source : String}

/-- Reading makes progress.  From every reachable state, reading one more statement does not
fail, and unless the current token is the end of the file it takes a token and leaves less of the
source, whether the statement is kept, dropped, or cannot be read.  Every repetition ends without
the guard of `iterate`, and with its result, and no call runs out of levels.  A program ends only
where the file ends, unless the reading has stopped. -/
theorem reading_progresses (h : s.Reachable options source) :
    (∀ level statements, s.peeked.1.kind ≠ .endOfFile → ∃ statements' s',
      (appendStatement (Statement.read level) statements).run s = (.ok statements', s') ∧
        s.consumed < s'.consumed ∧ s'.remaining < s.remaining) ∧
    (∀ (loop : Loop) (value : loop.Value),
      Loops loop.turn value s ((iterate loop.turn value).run s)) ∧
    (∀ call, Reached options source call s → 0 < call.levels) ∧
    ∀ level, ∃ program s', (Reading.program (Statement.read level)).run s = (.ok program, s') ∧
      (s'.stopped = true ∨ s'.peeked.1.kind = .endOfFile) := by
  have hs := h.ordered
  refine ⟨fun level statements hkind => ?_, fun loop => loops_iterate loop.progresses hs,
    fun call hreached => hreached.levels_pos, fun level => program_ends level hs⟩
  obtain ⟨statements', s', hrun, hcontinues, htaken⟩ :=
    appendStatement_progress level statements hs hkind
  refine ⟨statements', s', hrun, ?_, (progress_of_taken hs hkind hcontinues htaken).2⟩
  rwa [s.consumed_peeked] at htaken

/-- A brace that begins no statement, and at which skipping would end, is taken. -/
theorem exists_progress :
    let s := State.ofSource "\x7d \x7d" {}
    s.Reachable {} "\x7d \x7d" ∧ s.peeked.1.kind ≠ .endOfFile ∧
      ∃ statements s', (appendStatement (Statement.read 1) #[]).run s = (.ok statements, s') ∧
        0 < s'.consumed ∧ s'.remaining < 3 := by
  intro s
  have hreachable : s.Reachable {} "\x7d \x7d" := .start
  have hkind : s.peeked.1.kind ≠ .endOfFile := by decide +kernel
  obtain ⟨statements, s', hrun, hconsumed, hremaining⟩ :=
    (reading_progresses hreachable).1 1 #[] hkind
  exact ⟨hreachable, hkind, statements, s', hrun, hconsumed, hremaining⟩

end ConfLang
