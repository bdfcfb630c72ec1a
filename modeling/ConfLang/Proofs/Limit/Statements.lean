import ConfLang.Proofs.Limit.Truncation
import ConfLang.Tree.Source

/-!
# What is read when the limit of errors is reached

With a limit of errors the statements of a source are those without the limit, up to the
statement in which the limit is reached.  That statement is the last one that is read.  It
can come out in another way than without the limit only if it contains bodies.  For a body
ends as soon as the reading has stopped, and when a statement in it is cut off by that, what
is skipped then may end with a closer that belonged to the statement.

## Strategy

What a reading does, if it does not ask whether the reading has stopped, depends on nothing
that was reported (`lockstep`).  Of the statements only those with bodies ask.
-/

namespace ConfLang

/-- Whether a statement contains bodies. -/
def Statement.hasBody : Statement → Bool
  | .group .. | .choice .. | .conditional .. => true
  | _ => false

/-- The accord of any two states in which a reading looks at the same. -/
def lockstep : Accord where
  together _ _ := True
  apart _ _ := False
  note _ _ := trivial
  report _ _ _ := .inl trivial
  lasts h _ _ := h

namespace Reading

variable {α β σ : Type}

/-- What was reported makes no difference to a reading in lockstep. -/
theorem run_of_lockstep {f : Reading α} [Obeys lockstep.Kept f] {s t s' : State}
    (hbare : s.bare = t.bare) {result : Except Problem α} (hrun : f.run s = (result, s')) :
    ∃ t', f.run t = (result, t') ∧ s'.bare = t'.bare := by
  have hends := (Obeys.obeys (P := lockstep.Kept) (f := f)).2 s t ⟨hbare, trivial⟩
  rw [hrun] at hends
  generalize f.run t = second at hends
  obtain ⟨result', t'⟩ := second
  rcases hends with ⟨hresult, hagree⟩ | hnever
  · simp only at hresult
    subst hresult
    exact ⟨t', rfl, hagree.bare⟩
  · exact hnever.elim

/-! ## Values of readings -/

/-- All values that a reading gives have a property. -/
def Returns (p : α → Prop) (f : Reading α) : Prop :=
  ∀ s a s', f.run s = (.ok a, s') → p a

theorem returns_pure {p : α → Prop} {a : α} (h : p a) : Returns p (pure a) := by
  intro s a' s' hrun
  cases hrun
  exact h

theorem returns_bind {p : β → Prop} {f : Reading α} {rest : α → Reading β}
    (hrest : ∀ a, Returns p (rest a)) : Returns p (f >>= rest) := by
  intro s b s' hrun
  rw [bind_run] at hrun
  generalize f.run s = first at hrun
  obtain ⟨result, middle⟩ := first
  cases result with
  | ok a => exact hrest a middle b s' hrun
  | error problem => cases hrun

theorem returns_map {p : β → Prop} {f : Reading α} {g : α → β}
    (h : Returns (fun a => p (g a)) f) : Returns p (g <$> f) := by
  rw [← bind_pure_comp]
  intro s b s' hrun
  rw [bind_run] at hrun
  cases hfirst : f.run s with
  | mk result middle =>
      rw [hfirst] at hrun
      cases result with
      | ok a =>
          cases hrun
          exact h s a _ hfirst
      | error problem => cases hrun

/-- A statement is read in lockstep, or what is read contains bodies. -/
theorem lockstep_or_hasBody (level : Nat) (token : Token) :
    Obeys lockstep.Kept (statementAt (Expression.read (level + 1) Operator.lowestPrecedence)
        ⟨Expression.read level Operator.lowestPrecedence, Statement.read level⟩ token) ∨
      Returns (fun result => ∀ statement ∈ result, statement.hasBody = true)
        (statementAt (Expression.read (level + 1) Operator.lowestPrecedence)
          ⟨Expression.read level Operator.lowestPrecedence, Statement.read level⟩ token) := by
  apply statementAt_cases (motive := fun f => Obeys lockstep.Kept f ∨
    Returns (fun result => ∀ statement ∈ result, statement.hasBody = true) f)
  case opener =>
    intro kind _
    refine .inr (returns_bind fun parts => returns_bind fun _ => returns_pure ?_)
    obtain ⟨condition, parts⟩ := parts
    cases condition with
    | none => exact fun _ h => nomatch h
    | some condition =>
        rintro statement ⟨⟩
        rfl
  case group =>
    intro _
    refine .inr (returns_map (returns_bind fun _ => returns_bind fun _ =>
      returns_bind fun _ => returns_pure ?_))
    rintro statement ⟨⟩
    rfl
  case choice =>
    intro _
    refine .inr (returns_map (returns_bind fun _ => returns_bind fun _ =>
      returns_bind fun _ => returns_bind fun _ => returns_bind fun _ =>
      returns_bind fun _ => returns_pure ?_))
    rintro statement ⟨⟩
    rfl
  case mark => exact fun _ _ => .inl (obeys_get (fun _ => rfl) fun _ => ⟨TellsStray.tells _ _ _⟩)
  all_goals intros; exact .inl inferInstance

/-- A statement without bodies comes out the same whatever was reported. -/
theorem read_of_bare {level : Nat} {s t s' : State} {value : Statement} (hbare : s.bare = t.bare)
    (hread : (Statement.read level).run s = (.ok (some value), s')) :
    (∃ t', (Statement.read level).run t = (.ok (some value), t')) ∨ value.hasBody = true := by
  cases level with
  | zero =>
      have : Obeys lockstep.Kept (Statement.read 0) :=
        inferInstanceAs (Obeys lockstep.Kept (tooDeep : Reading (Option Statement)))
      obtain ⟨t', hrun, -⟩ := run_of_lockstep hbare hread
      exact .inl ⟨t', hrun⟩
  | succ level =>
      rw [Statement.read, statement_eq, bind_run] at hread ⊢
      obtain ⟨t₁, hpeek, hbare₁⟩ := run_of_lockstep hbare (run_of_ok (run_peek s))
      rw [run_of_ok (run_peek s)] at hread
      rw [hpeek]
      rcases lockstep_or_hasBody level s.peeked.1 with hlockstep | hbody
      · obtain ⟨t', hrun, -⟩ := run_of_lockstep hbare₁ hread
        exact .inl ⟨t', hrun⟩
      · exact .inr (hbody _ _ _ hread value rfl)

/-! ## Readings that do not fail -/

/-- A reading always gives a value. -/
def Succeeds (f : Reading α) : Prop :=
  ∀ s, ∃ a s', f.run s = (.ok a, s')

theorem succeeds_pure (a : α) : Succeeds (pure a) := fun s => ⟨a, s, rfl⟩

theorem succeeds_bind {f : Reading α} {rest : α → Reading β} (hf : Succeeds f)
    (hrest : ∀ a, Succeeds (rest a)) : Succeeds (f >>= rest) := by
  intro s
  obtain ⟨a, middle, hfirst⟩ := hf s
  obtain ⟨b, s', hrun⟩ := hrest a middle
  exact ⟨b, s', by rw [bind_run, hfirst, ← hrun]⟩

theorem succeeds_iterate {step : σ → Reading (Turn σ)} (hstep : ∀ value, Succeeds (step value))
    (value : σ) : Succeeds (iterate step value) := by
  intro s
  induction hmeasure : s.remaining using Nat.strongRecOn generalizing value s with
  | ind measure ih =>
      subst hmeasure
      obtain ⟨turn, after, hturn⟩ := hstep value s
      rw [iterate_run, bind_run, hturn]
      cases turn with
      | done value' => exact ⟨value', after, rfl⟩
      | again value' =>
          simp only
          rw [afterTurn_again_run]
          split
          · rename_i hless
            exact ih _ hless value' after rfl
          · exact ⟨value', after, rfl⟩

theorem succeeds_peek : Succeeds peek := fun s => ⟨_, _, run_of_ok (run_peek s)⟩

theorem succeeds_get : Succeeds (get : Reading State) := fun s => ⟨s, s, rfl⟩

theorem recover_run (start : Nat) (s : State) : (recover start).run s =
    (iterate skipTurn { forced := s.consumed == start } >>= fun _ => pure PUnit.unit).run s := by
  change (Function.const Skipping PUnit.unit <$> iterate skipTurn _).run s = _
  rw [← bind_pure_comp]

theorem succeeds_recover (start : Nat) : Succeeds (recover start) := by
  have hturn (skipping : Skipping) : Succeeds (skipTurn skipping) := by
    intro s
    have hrun := run_skipTurn skipping s
    split at hrun
    · exact ⟨_, _, run_of_ok hrun⟩
    · exact ⟨_, _, run_of_ok hrun⟩
  intro s
  rw [recover_run]
  exact succeeds_bind (succeeds_iterate hturn _) (fun _ => succeeds_pure _) s

/-- A statement that cannot be read does not keep the next ones from being read. -/
theorem succeeds_appendStatement (statement : Reading (Option Statement))
    (statements : Array Statement) : Succeeds (appendStatement statement statements) := by
  refine succeeds_bind succeeds_get fun s => succeeds_bind (fun s' => ?_) fun result => ?_
  · exact ⟨_, _, attempt_run statement s'⟩
  · rcases result with problem | (_ | value)
    · refine succeeds_bind (fun s => ⟨_, _, rfl⟩) fun _ => ?_
      exact succeeds_bind (succeeds_recover _) fun _ => succeeds_pure _
    · exact succeeds_pure _
    · exact succeeds_pure _

theorem appendStatement_run (statement : Reading (Option Statement)) (statements : Array Statement)
    (s : State) : (appendStatement statement statements).run s = match statement.run s with
      | (.ok (some value), after) => (.ok (statements.push value), after)
      | (.ok none, after) => (.ok statements, after)
      | (.error problem, after) => (recover s.consumed >>= fun _ => pure statements).run
        (after.report problem.diagnostic) := by
  have hget : (get : Reading State).run s = (.ok s, s) := rfl
  rw [appendStatement, bind_run, hget]
  simp only
  rw [bind_run, attempt_run]
  generalize statement.run s = first
  obtain ⟨problem | (_ | value), after⟩ := first
  · simp only
    rw [bind_run]
    rfl
  · rfl
  · rfl

/-- A body gets at most one statement more in a turn, and that statement was read. -/
theorem appendStatement_cases {statement : Reading (Option Statement)}
    {statements statements' : Array Statement} {s s' : State}
    (hrun : (appendStatement statement statements).run s = (.ok statements', s')) :
    statements' = statements ∨
      ∃ value after, statement.run s = (.ok (some value), after) ∧
        statements' = statements.push value := by
  rw [appendStatement_run] at hrun
  generalize statement.run s = first at hrun ⊢
  obtain ⟨problem | (_ | value), after⟩ := first
  · left
    obtain ⟨_, _, hrecover⟩ := succeeds_recover s.consumed (after.report problem.diagnostic)
    simp only [bind_run, hrecover] at hrun
    cases hrun
    rfl
  · cases hrun
    exact .inl rfl
  · cases hrun
    exact .inr ⟨value, _, rfl, rfl⟩

/-! ## Turns -/

variable {limit level : Nat} {s t s' t' : State} {before xs ys : Array Statement}

/-- What the statements of a run with a limit have in common with those of a run without.  Only
a last statement with bodies may be another one, and then too many errors were reported. -/
def Prefixed (limit : Nat) (xs ys : Array Statement) (s' : State) : Prop :=
  xs.toList <+: ys.toList ∨
    ∃ done last span, xs.toList = done ++ [last] ∧ done <+: ys.toList ∧ last.hasBody = true ∧
      .error (.tooManyErrors limit) span ∈ s'.diagnostics.toList

/-- The statement in which the limit is reached comes out in the same way, or not at all, or
it contains bodies. -/
theorem appendStatement_of_limit (hagree : (truncation limit).Agree s t)
    (hs : (appendStatement (Statement.read level) before).run s = (.ok xs, s'))
    (ht : (appendStatement (Statement.read level) before).run t = (.ok ys, t')) :
    xs = ys ∧ (truncation limit).Agree s' t' ∨
      s'.CutOff limit t' ∧ (xs = ys ∨ xs = before ∨
        ∃ last, xs = before.push last ∧ last.hasBody = true) := by
  have hends := (Obeys.obeys (P := (truncation limit).Kept)
    (f := appendStatement (Statement.read level) before)).2 s t hagree
  rw [hs, ht] at hends
  rcases hends with ⟨hsame, hagree'⟩ | hcut
  · exact .inl ⟨by simpa using hsame, hagree'⟩
  refine .inr ⟨hcut, ?_⟩
  rcases appendStatement_cases hs with rfl | ⟨last, after, hread, rfl⟩
  · exact .inr (.inl rfl)
  rcases read_of_bare hagree.bare hread with ⟨after', hread'⟩ | hbody
  · left
    rw [appendStatement_run, hread'] at ht
    cases ht
    rfl
  · exact .inr (.inr ⟨last, rfl, hbody⟩)

/-- The statements of a program are read turn by turn. -/
theorem iterate_programTurn_run (level : Nat) (statements : Array Statement) (s : State) :
    (iterate (programTurn level) statements).run s =
      if s.peeked.1.kind = .endOfFile ∨ s.peeked.2.stopped = true then
        (.ok statements, s.peeked.2)
      else match (appendStatement (Statement.read level) statements).run s.peeked.2 with
        | (.ok more, after) => (afterTurn (programTurn level) s.remaining (.again more)).run after
        | (.error problem, after) => (.error problem, after) := by
  have hturn := run_programTurn level statements s
  rw [iterate_run, bind_run]
  by_cases hend : s.peeked.1.kind = .endOfFile ∨ s.peeked.2.stopped = true
  · rw [if_pos hend] at hturn ⊢
    rw [run_of_ok hturn]
    rfl
  · rw [if_neg hend] at hturn ⊢
    cases happend : EStateM.run (appendStatement (Statement.read level) statements) s.peeked.2 with
    | ok more after =>
        rw [happend] at hturn
        rw [run_of_ok hturn, run_of_ok happend]
    | error problem after =>
        rw [happend] at hturn
        rw [run_of_error hturn, run_of_error happend]

/-- A reading that has stopped reads no further statement. -/
theorem iterate_programTurn_of_stopped (hstopped : s.stopped = true) :
    (iterate (programTurn level) before).run s = (.ok before, s.peeked.2) := by
  rw [iterate_programTurn_run, if_pos (.inr (s.grows_peeked.stopped hstopped).1)]

/-- Reading the statements of a program does not fail. -/
theorem succeeds_programTurns (level : Nat) (statements : Array Statement) :
    Succeeds (iterate (programTurn level) statements) := by
  refine succeeds_iterate (fun statements => ?_) statements
  refine succeeds_bind (succeeds_bind succeeds_peek fun _ =>
    succeeds_bind succeeds_get fun _ => succeeds_pure _) fun isEnd => ?_
  split
  · exact succeeds_pure _
  · exact succeeds_bind (succeeds_appendStatement _ _) fun _ => succeeds_pure _

/-- No turn takes a statement back. -/
theorem begins_appendStatement {statement : Reading (Option Statement)}
    (hrun : (appendStatement statement before).run s = (.ok xs, s')) :
    before.toList <+: xs.toList := by
  rcases appendStatement_cases hrun with rfl | ⟨value, _, -, rfl⟩
  · exact List.prefix_rfl
  · simp

theorem begins_programTurns (hrun : (iterate (programTurn level) before).run s = (.ok xs, s')) :
    before.toList <+: xs.toList := by
  induction hmeasure : s.remaining using Nat.strongRecOn generalizing before s with
  | ind measure ih =>
      subst hmeasure
      obtain ⟨more, after, happend⟩ :=
        succeeds_appendStatement (Statement.read level) before s.peeked.2
      rw [iterate_programTurn_run, happend] at hrun
      simp only [afterTurn_again_run] at hrun
      split at hrun
      · cases hrun
        exact List.prefix_rfl
      split at hrun
      · rename_i hless
        exact (begins_appendStatement happend).trans (ih _ hless hrun rfl)
      · cases hrun
        exact begins_appendStatement happend

theorem begins_afterTurn {left : Nat}
    (hrun : (afterTurn (programTurn level) left (.again before)).run s = (.ok xs, s')) :
    before.toList <+: xs.toList := by
  rw [afterTurn_again_run] at hrun
  split at hrun
  · exact begins_programTurns hrun
  · cases hrun
    exact List.prefix_rfl

/-- Behind a turn that stopped the reading nothing more is read. -/
theorem afterTurn_of_stopped {left : Nat} (hstopped : s.stopped = true)
    (hrun : (afterTurn (programTurn level) left (.again before)).run s = (.ok xs, s')) :
    xs = before ∧ s.Grows s' := by
  rw [afterTurn_again_run] at hrun
  split at hrun
  · rw [iterate_programTurn_of_stopped hstopped] at hrun
    cases hrun
    exact ⟨rfl, s.grows_peeked⟩
  · cases hrun
    exact ⟨rfl, .refl s⟩

/-- What is read when the limit was reached in a statement. -/
theorem prefixed_of_cutOff {more : Array Statement} {left left' : Nat} (hcut : s.CutOff limit t)
    (hvalue : xs = more ∨ xs = before ∨ ∃ last, xs = before.push last ∧ last.hasBody = true)
    (hbefore : before.toList <+: more.toList) {zs : Array Statement}
    (hs : (afterTurn (programTurn level) left (.again xs)).run s = (.ok ys, s'))
    (ht : (afterTurn (programTurn level) left' (.again more)).run t = (.ok zs, t')) :
    Prefixed limit ys zs s' := by
  obtain ⟨rfl, hgrows⟩ := afterTurn_of_stopped hcut.stopped hs
  have hmore := begins_afterTurn ht
  rcases hvalue with rfl | rfl | ⟨last, rfl, hbody⟩
  · exact .inl hmore
  · exact .inl (hbefore.trans hmore)
  · obtain ⟨_, _, span, hnotice, -⟩ := (hcut.lasts hgrows (.refl t)).notice
    refine .inr ⟨before.toList, last, span, by simp, hbefore.trans hmore, hbody, ?_⟩
    simp [hnotice]

/-- The statements that are read with a limit and without. -/
theorem prefixed_programTurns (hagree : (truncation limit).Agree s t)
    (hs : (iterate (programTurn level) before).run s = (.ok xs, s'))
    (ht : (iterate (programTurn level) before).run t = (.ok ys, t')) :
    Prefixed limit xs ys s' := by
  -- The induction is on what the limited run has left to read: a turn without a token is the last
  -- one.
  induction hmeasure : s.remaining using Nat.strongRecOn generalizing before s t with
  | ind measure ih =>
      subst hmeasure
      have hbefore := begins_programTurns ht
      have hpeek := (Obeys.obeys (P := (truncation limit).Kept) (f := peek)).2 s t hagree
      rw [run_of_ok (run_peek s), run_of_ok (run_peek t)] at hpeek
      rw [iterate_programTurn_run] at hs ht
      rcases hpeek with ⟨hsame, hagree₁⟩ | hcut
      · have hkind : s.peeked.1 = t.peeked.1 := by simpa using hsame
        have hrunning : s.peeked.2.stopped = false := hagree₁.told.running
        have hrunning' : t.peeked.2.stopped = false := hagree₁.told.running'
        obtain ⟨more, after, happend⟩ :=
          succeeds_appendStatement (Statement.read level) before s.peeked.2
        obtain ⟨more', after', happend'⟩ :=
          succeeds_appendStatement (Statement.read level) before t.peeked.2
        rw [happend] at hs
        rw [happend', ← hkind] at ht
        simp only [hrunning, hrunning', Bool.false_eq_true, or_false] at hs ht
        by_cases hend : s.peeked.1.kind = .endOfFile
        · rw [if_pos hend] at hs ht
          cases hs
          cases ht
          exact .inl List.prefix_rfl
        rw [if_neg hend] at hs ht
        rcases appendStatement_of_limit hagree₁ happend happend' with ⟨rfl, hagree₂⟩ | ⟨hcut, hvalue⟩
        · rw [afterTurn_again_run] at hs ht
          rw [← hagree₂.remaining, ← hagree.remaining] at ht
          split at hs
          · rename_i hless
            rw [if_pos hless] at ht
            exact ih _ hless hagree₂ hs ht rfl
          · rename_i hless
            rw [if_neg hless] at ht
            cases hs
            cases ht
            exact .inl List.prefix_rfl
        · exact prefixed_of_cutOff hcut hvalue (begins_appendStatement happend') hs ht
      · -- the limit is reached on the way to the first token of a statement
        rw [if_pos (.inr hcut.stopped)] at hs
        cases hs
        exact .inl hbefore

end Reading

/-! ## Programs -/

/-- The statements of a source are what its turns read. -/
theorem exists_programRun (options : Options) (source : String) :
    ∃ statements after, programRun options source = .ok statements after ∧
      (parseWith options source).program.statements = statements.toList ∧
      after.diagnostics.toList <+: (parseWith options source).diagnostics := by
  obtain ⟨statements, after, hrun⟩ := Reading.succeeds_programTurns (options.maxNestingDepth + 1) #[]
    (State.started options source)
  have hprogram : programRun options source = .ok statements after := Reading.ok_of_run hrun
  refine ⟨statements, after, hprogram, ?_⟩
  rw [parseWith_of_run hprogram]
  exact ⟨rfl, (State.grows_foldl_report _ after).diagnostics⟩

/-- With a limit of errors the statements of a source are the first ones of those without a
limit, except that a last statement with bodies, in which the limit was reached, may be
another one. -/
theorem statements_of_maxErrors (options : Options) (source : String) (limit : Nat) :
    let full := parseWith { options with maxErrors := none } source
    let limited := parseWith { options with maxErrors := some limit } source
    limited.program.statements <+: full.program.statements ∨
      ∃ done last span, limited.program.statements = done ++ [last] ∧
        done <+: full.program.statements ∧ last.hasBody = true ∧
        .error (.tooManyErrors limit) span ∈ limited.diagnostics := by
  intro full limited
  obtain ⟨xs, s', hs, hlimited, hnotices⟩ :=
    exists_programRun { options with maxErrors := some limit } source
  obtain ⟨ys, t', ht, hfull, -⟩ := exists_programRun { options with maxErrors := none } source
  have hagree := (agree_ofSource options source limit).note .started
  have hprefixed := Reading.prefixed_programTurns hagree (Reading.run_of_ok hs) (Reading.run_of_ok ht)
  rw [hlimited, hfull]
  exact hprefixed.imp_right fun ⟨done, last, span, hxs, hys, hbody, hnotice⟩ =>
    ⟨done, last, span, hxs, hys, hbody, hnotices.subset hnotice⟩

/-- The brace of an inner group can close the outer one, when the limit was reached in between. -/
theorem exists_half_built :
    (parseWith { maxErrors := none } "group g { group h { x = 1 @ ] } }").program.source =
        "group g \x7b\n    group h \x7b\n        x = 1\n    \x7d\n\x7d\n" ∧
      (parseWith { maxErrors := some 1 } "group g { group h { x = 1 @ ] } }").program.source =
        "group g \x7b\n\x7d\n" := by
  decide +kernel

end ConfLang
