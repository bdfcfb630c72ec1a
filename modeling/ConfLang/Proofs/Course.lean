import ConfLang.Proofs.Faults
import ConfLang.Proofs.Laws

/-!
# What holds along a run

Some facts relate the state before a reading to the state behind it, however the reading ends:
what was reported stays, the nesting is as before.  A `Course` is such a relation.  It is kept
by readings when it is kept by each change of the state, and it may also say something about
the problems that readings fail with, which is then known of them when they are reported.

Tokens are looked at where none is left to take, and once more behind the name `defined` in the
condition of a directive.  A course need not be kept anywhere else.  One that is, whatever was
looked at before, is a `FreeCourse`.
-/

namespace ConfLang.Reading

variable {α β σ : Type}

theorem run_of_ok {f : Reading α} {s s' : State} {a : α} (h : EStateM.run f s = .ok a s') :
    f.run s = (.ok a, s') := by
  rw [EStateM.run] at h
  rw [run, h]

theorem run_of_error {f : Reading α} {s s' : State} {problem : Problem}
    (h : EStateM.run f s = .error problem s') : f.run s = (.error problem, s') := by
  rw [EStateM.run] at h
  rw [run, h]

theorem ok_of_run {f : Reading α} {s s' : State} {a : α} (h : f.run s = (.ok a, s')) :
    EStateM.run f s = .ok a s' := by
  cases hrun : EStateM.run f s with
  | ok b after =>
      rw [run_of_ok hrun] at h
      cases h
      rfl
  | error problem after =>
      rw [run_of_error hrun] at h
      cases h

theorem bind_run (f : Reading α) (rest : α → Reading β) (s : State) :
    (f >>= rest).run s = match f.run s with
      | (.ok a, after) => (rest a).run after
      | (.error problem, after) => (.error problem, after) := by
  have hbind : EStateM.run (f >>= rest) s = _ := EStateM.run_bind f rest
  cases h : EStateM.run f s with
  | ok a after =>
      rw [h] at hbind
      rw [run_of_ok h]
      simp only [run, EStateM.run] at hbind ⊢
      rw [hbind]
  | error problem after =>
      rw [h] at hbind
      rw [run_of_error h, run_of_error hbind]

theorem attempt_run (f : Reading α) (s : State) :
    (attempt f).run s = (.ok (f.run s).1, (f.run s).2) := by
  have hattempt := run_attempt f s
  cases h : EStateM.run f s <;> rw [h] at hattempt
  · rw [run_of_ok hattempt, run_of_ok h]
  · rw [run_of_ok hattempt, run_of_error h]

theorem between_run (opening closing : State → State) (f : Reading α) (s : State) :
    (between opening closing f).run s = ((f.run (opening s)).1, closing (f.run (opening s)).2) := by
  have hbetween := run_between opening closing f s
  cases h : EStateM.run f (opening s) <;> rw [h] at hbetween
  · rw [run_of_ok hbetween, run_of_ok h]
  · rw [run_of_error hbetween, run_of_error h]

theorem tooDeep_run (s : State) : (tooDeep : Reading α).run s =
    (.error ⟨.nestingTooDeep s.options.maxNestingDepth, s.peeked.1.span⟩, s.peeked.2) := by
  rw [tooDeep, bind_run, run_of_ok (run_peek s), ← s.grows_peeked.options]
  rfl

theorem nested_run (f : Reading α) (s : State) : (nested f).run s =
    if s.nesting.depth < s.options.maxNestingDepth then (between State.enter State.leave f).run s
    else tooDeep.run s := by
  change (if _ then _ else _ : Reading α).run s = _
  split <;> rfl

/-- What comes after one turn of a repetition, when `before` was left of the source. -/
def afterTurn (step : σ → Reading (Turn σ)) (before : Nat) : Turn σ → Reading σ
  | .done value => pure value
  | .again value => get >>= fun state =>
    if state.remaining < before then iterate step value else pure value

theorem afterTurn_again_run (step : σ → Reading (Turn σ)) (before : Nat) (value : σ) (s : State) :
    (afterTurn step before (.again value)).run s =
      if s.remaining < before then (iterate step value).run s else (.ok value, s) := by
  change (if s.remaining < before then iterate step value else pure value : Reading σ).run s = _
  split <;> rfl

/-- A repetition is one turn and what comes after it. -/
theorem iterate_run (step : σ → Reading (Turn σ)) (value : σ) (s : State) :
    (iterate step value).run s = (step value >>= afterTurn step s.remaining).run s := by
  have hiterate := run_iterate step value s
  rw [bind_run]
  cases h : EStateM.run (step value) s with
  | ok turn after =>
      rw [h] at hiterate
      rw [run_of_ok h]
      cases turn with
      | done value' => exact run_of_ok hiterate
      | again value' =>
          simp only at hiterate ⊢
          rw [afterTurn_again_run]
          split at hiterate
          · rename_i hless
            rw [if_pos hless]
            simp only [run, EStateM.run] at hiterate ⊢
            rw [hiterate]
          · rename_i hless
            rw [if_neg hless]
            exact run_of_ok hiterate
  | error problem after =>
      rw [h] at hiterate
      rw [run_of_error h]
      exact run_of_error hiterate

end ConfLang.Reading

namespace ConfLang

/-- What is wrong on the way to a token is no mark that belongs to no block. -/
theorem Cursor.isStray_of_mem_problems {cursor : Cursor} {problem : Problem}
    (h : problem ∈ cursor.next.problems) : problem.cause.isStray = false := by
  have hkind := kind_of_mem_next h
  cases hcause : problem.cause with
  | strayMark mark chains =>
      rw [hcause] at hkind
      cases hkind
  | _ => rfl

/-- The current token is the name that may ask a question, where such questions are asked. -/
structure State.MayAsk (s : State) (token : Token) : Prop where
  lookahead : s.lookahead = [token]
  kind : token.kind = .name "defined" false
  inCondition : s.nesting.inCondition = true

/-- A relation of a state to the states that come later in a run, and a property of the
problems that readings fail with. -/
structure Course where
  holds : State → State → Prop
  fails : Problem → Prop
  refl : ∀ s, holds s s
  trans : ∀ {s middle s'}, holds s middle → holds middle s' → holds s s'
  plain : ∀ problem, problem.cause.isPlain = true → fails problem
  note : ∀ s event, holds s (s.note event)
  report : ∀ s (diagnostic : Diagnostic), fails diagnostic.toProblem →
    holds s (s.report diagnostic)
  renest : ∀ {s s'} (opening closing : Nesting → Nesting),
    (∀ n n', n'.LevelWith (opening n) → (closing n').LevelWith n) →
    holds (s.renest opening) s' → holds s (s'.renest closing)
  look : ∀ {s : State}, s.lookahead = [] → holds s s.scan.2
  lookBehind : ∀ {s : State} {token}, s.MayAsk token → holds s (s.scan.2.take token)
  take : ∀ {s : State} {token rest}, s.lookahead = token :: rest → holds s (s.take token)
  takeRaw : ∀ {s : State}, s.lookahead = [] → holds s (s.takeRaw s.cursor.rawLine)

theorem State.holds_foldl_report {holds : State → State → Prop} {fails : Problem → Prop}
    (refl : ∀ s, holds s s) (trans : ∀ {s middle s'}, holds s middle → holds middle s' → holds s s')
    (report : ∀ s (diagnostic : Diagnostic), fails diagnostic.toProblem →
      holds s (s.report diagnostic))
    {diagnostics : List Diagnostic} (h : ∀ diagnostic ∈ diagnostics, fails diagnostic.toProblem)
    (s : State) : holds s (diagnostics.foldl State.report s) := by
  induction diagnostics generalizing s with
  | nil => exact refl s
  | cons diagnostic rest ih =>
      rw [List.forall_mem_cons] at h
      exact trans (report s diagnostic h.1) (ih h.2 _)

/-- To look at a token is to go on to it, and to report what is wrong on the way. -/
theorem State.holds_scan {holds : State → State → Prop} {fails : Problem → Prop}
    (refl : ∀ s, holds s s) (trans : ∀ {s middle s'}, holds s middle → holds middle s' → holds s s')
    (report : ∀ s (diagnostic : Diagnostic), fails diagnostic.toProblem →
      holds s (s.report diagnostic))
    (calm : ∀ problem : Problem, problem.cause.isStray = false → fails problem)
    (looked : ∀ s : State, holds s s.looked) (s : State) : holds s s.scan.2 := by
  rw [State.scan_eq]
  refine trans (looked s) (State.holds_foldl_report refl trans report (fun diagnostic hmem => ?_) _)
  obtain ⟨problem, hproblem, rfl⟩ := List.mem_map.mp hmem
  exact calm _ (Cursor.isStray_of_mem_problems hproblem)

theorem State.lookahead_scan_of_cons {s : State} {token : Token} {rest : List Token}
    (h : s.lookahead = token :: rest) : s.scan.2.lookahead = token :: (rest ++ [s.scan.1]) := by
  rw [State.lookahead_scan, h, List.cons_append]

/-- A course that is kept wherever a token is looked at. -/
structure FreeCourse extends Course where
  calm : ∀ problem, problem.cause.isStray = false → fails problem
  looked : ∀ s : State, holds s s.looked
  plain problem hplain := calm problem (Cause.isStray_of_isPlain hplain)
  look {s} _ := State.holds_scan refl trans report calm looked s
  lookBehind {s _} hasks := trans (State.holds_scan refl trans report calm looked s)
    (take (State.lookahead_scan_of_cons hasks.lookahead))

namespace Course

open Reading

variable {α β σ : Type} {C : Course}

/-- The law that the states before and behind a reading are related, and that it fails only
with problems of that kind. -/
def Kept (C : Course) : Law := fun _ f =>
  ∀ s, C.holds s (f.run s).2 ∧ ∀ problem, (f.run s).1 = .error problem → C.fails problem

theorem kept_pure (a : α) : C.Kept (pure a) := fun s => ⟨C.refl s, fun _ h => nomatch h⟩

theorem kept_get : C.Kept (get : Reading State) := fun s => ⟨C.refl s, fun _ h => nomatch h⟩

theorem kept_fail {cause : Cause} {span : Span} (h : C.fails ⟨cause, span⟩) :
    C.Kept (fail cause span : Reading α) := by
  refine fun s => ⟨C.refl s, ?_⟩
  rintro problem ⟨⟩
  exact h

theorem kept_bind {f : Reading α} {rest : α → Reading β} (hf : C.Kept f)
    (hrest : ∀ a, C.Kept (rest a)) : C.Kept (f >>= rest) := by
  intro s
  have hfirst := hf s
  rw [bind_run]
  generalize f.run s = first at hfirst ⊢
  obtain ⟨result, middle⟩ := first
  cases result with
  | ok a => exact ⟨C.trans hfirst.1 (hrest a middle).1, (hrest a middle).2⟩
  | error problem => exact hfirst.imp_right fun hfails problem h => hfails problem (by cases h; rfl)

theorem kept_report {diagnostic : Diagnostic} (h : C.fails diagnostic.toProblem) :
    C.Kept (Reading.report diagnostic) :=
  fun s => ⟨C.report s diagnostic h, fun _ h => nomatch h⟩

/-- A failure is of the kind that may be reported. -/
theorem kept_handle {f : Reading α} {rest : α → Reading β} {other : Reading β} (hf : C.Kept f)
    (hrest : ∀ a, C.Kept (rest a)) (hother : C.Kept other) :
    C.Kept (attempt f >>= fun result => match result with
      | .ok a => rest a
      | .error problem => Reading.report problem.diagnostic >>= fun _ => other) := by
  intro s
  have hfirst := hf s
  rw [bind_run, attempt_run]
  generalize f.run s = first at hfirst ⊢
  obtain ⟨result, middle⟩ := first
  cases result with
  | ok a => exact ⟨C.trans hfirst.1 (hrest a middle).1, (hrest a middle).2⟩
  | error problem =>
      have hreport : C.Kept (Reading.report problem.diagnostic) := kept_report (hfirst.2 problem rfl)
      have hlast := kept_bind hreport (fun _ => hother) middle
      exact ⟨C.trans hfirst.1 hlast.1, hlast.2⟩

theorem kept_between {opening closing : Nesting → Nesting} {f : Reading α}
    (hback : ∀ n n', n'.LevelWith (opening n) → (closing n').LevelWith n) (hf : C.Kept f) :
    C.Kept (between (State.renest opening) (State.renest closing) f) := by
  intro s
  rw [between_run]
  exact ⟨C.renest opening closing hback (hf _).1, (hf _).2⟩

theorem holds_peeked (s : State) : C.holds s s.peeked.2 := by
  cases h : s.lookahead with
  | nil =>
      rw [State.peeked_of_nil h]
      exact C.look h
  | cons token rest =>
      rw [State.peeked_of_cons h]
      exact C.refl s

theorem kept_peek : C.Kept peek := by
  intro s
  rw [run_of_ok (run_peek s)]
  exact ⟨holds_peeked s, fun _ h => nomatch h⟩

theorem kept_advance : C.Kept advance := by
  intro s
  rw [run_of_ok (run_advance s)]
  refine ⟨?_, fun _ h => nomatch h⟩
  obtain ⟨rest, hrest⟩ := s.lookahead_peeked
  simp only [State.advanced]
  split
  · exact holds_peeked s
  · exact C.trans (holds_peeked s) (C.take hrest)

theorem kept_rawText : C.Kept rawText := by
  intro s
  cases h : s.lookahead with
  | nil =>
      rw [run_of_ok (run_rawText_of_nil h)]
      exact ⟨C.takeRaw h, fun _ h => nomatch h⟩
  | cons token rest =>
      rw [run_of_ok (run_rawText_of_cons h)]
      exact kept_pure _ s

theorem kept_tooDeep : C.Kept (tooDeep : Reading α) := by
  exact kept_bind kept_peek fun _ => kept_bind kept_get fun _ => kept_fail (C.plain _ rfl)

theorem kept_nested {f : Reading α} (hf : C.Kept f) : C.Kept (nested f) := by
  refine kept_bind kept_get fun s => ?_
  split
  · exact kept_between (fun n n' (h : n'.LevelWith n.deeper) => h.outer) hf
  · exact kept_tooDeep

theorem kept_iterate {step : σ → Reading (Turn σ)} (hstep : ∀ value, C.Kept (step value))
    (value : σ) : C.Kept (iterate step value) := by
  intro s
  induction hmeasure : s.remaining using Nat.strongRecOn generalizing value s with
  | ind measure ih =>
      subst hmeasure
      rw [iterate_run, bind_run]
      have hturn := hstep value s
      generalize (step value).run s = first at hturn ⊢
      obtain ⟨problem | (value' | value'), after⟩ := first
      · exact hturn.imp_right fun hfails problem h => hfails problem (by cases h; rfl)
      · simp only
        rw [afterTurn_again_run]
        split
        · rename_i hless
          have hrest := ih _ hless value' after rfl
          exact ⟨C.trans hturn.1 hrest.1, hrest.2⟩
        · exact ⟨hturn.1, fun _ h => nomatch h⟩
      · exact ⟨hturn.1, fun _ h => nomatch h⟩

instance : Joins C.Kept where
  pure := kept_pure
  bind := kept_bind
  get _ hrest := kept_bind kept_get hrest
  nested := kept_nested
  tooDeep := kept_tooDeep
  fail cause span h := kept_fail (C.plain ⟨cause, span⟩ h)
  note event s := ⟨C.note s event, fun _ h => nomatch h⟩
  report diagnostic h := kept_report (C.plain diagnostic.toProblem h)
  handle := kept_handle
  between _ _ _ hback hf := kept_between hback hf
  iterate := kept_iterate
  peek := kept_peek
  advance := kept_advance
  rawText := kept_rawText

/-! ## Looking behind a name -/

/-- What is read from a state keeps a course that leads to it. -/
theorem kept_from {f : Reading α} {s middle : State} (hmiddle : C.holds s middle)
    (hf : C.Kept f) : C.holds s (f.run middle).2 ∧
      ∀ problem, (f.run middle).1 = .error problem → C.fails problem :=
  ⟨C.trans hmiddle (hf middle).1, (hf middle).2⟩

/-- Whoever looks behind the current token and then takes it keeps a course. -/
theorem kept_behind {s : State} {token : Token} (hasks : s.MayAsk token) {rest : Token → Reading α}
    (hrest : ∀ token, C.Kept (rest token)) :
    C.holds s ((advance >>= rest).run s.scan.2).2 ∧
      ∀ problem, ((advance >>= rest).run s.scan.2).1 = .error problem → C.fails problem := by
  have hpeeked : s.scan.2.peeked = (token, s.scan.2) :=
    State.peeked_of_cons (State.lookahead_scan_of_cons hasks.lookahead)
  have hadvanced : s.scan.2.advanced = s.scan.2.take token := by
    rw [State.advanced, hpeeked, if_neg (by simp [hasks.kind])]
  rw [bind_run, run_of_ok (run_advance _), hadvanced, hpeeked]
  exact kept_from (C.lookBehind hasks) (hrest token)

theorem isDefinedQuestion_run (name : String) {s : State} {token : Token} {rest : List Token}
    (hfirst : s.lookahead = token :: rest) : ∃ asks s',
      (isDefinedQuestion name).run s = (.ok asks, s') ∧
        (s' = s ∨ s' = s.scan.2 ∧ rest = [] ∧ name = "defined" ∧ s.nesting.inCondition = true) := by
  by_cases hasks : s.nesting.inCondition = true ∧ name = "defined"
  · obtain ⟨second, s', hsecond, -, hstate⟩ := run_peekSecond hfirst
    refine ⟨decide (second.kind = .symbol .openParen), s', run_of_ok ?_, ?_⟩
    · simp only [isDefinedQuestion, EStateM.run_bind, EStateM.run_get, hasks, and_self, if_true,
        hsecond, EStateM.run_pure]
    · rcases hstate with ⟨hnone, rfl⟩ | ⟨rfl, -⟩
      · exact .inr ⟨rfl, hnone, hasks.2, hasks.1⟩
      · exact .inl rfl
  · refine ⟨false, s, run_of_ok ?_, .inl rfl⟩
    simp only [isDefinedQuestion, EStateM.run_bind, EStateM.run_get, hasks, if_false,
      EStateM.run_pure]

theorem kept_primary {inner : Reading Expression} (hinner : C.Kept inner) :
    C.Kept (primary inner) := by
  intro s
  have : Obeys C.Kept inner := ⟨hinner⟩
  obtain ⟨rest, hrest⟩ := s.lookahead_peeked
  rw [primary_eq, bind_run, run_of_ok (run_peek s)]
  generalize s.peeked.1 = token at hrest
  have hpeeked : C.holds s s.peeked.2 := holds_peeked s
  generalize s.peeked.2 = middle at hrest hpeeked
  have hplain {f : Reading Expression} [Obeys C.Kept f] := kept_from hpeeked (f := f) Obeys.obeys
  simp only
  apply primaryAt_cases (motive := fun f => C.holds s (f.run middle).2 ∧
    ∀ problem, (f.run middle).1 = .error problem → C.fails problem)
  case bare =>
    intro text hkind
    obtain ⟨asks, s', hrun, hstate⟩ := isDefinedQuestion_run text hrest
    rw [bind_run, hrun]
    simp only
    rcases hstate with rfl | ⟨rfl, rfl, rfl, hcondition⟩
    · split
      · exact hplain
      · exact hplain
    · -- The token behind was looked at, and the name is taken next whatever that token is.
      have hmay : middle.MayAsk token := ⟨hrest, hkind, hcondition⟩
      split
      · exact (kept_behind hmay fun _ => Obeys.obeys).imp_left (C.trans hpeeked)
      · exact (kept_behind hmay fun _ => Obeys.obeys).imp_left (C.trans hpeeked)
  all_goals intros; exact hplain

instance : Composes C.Kept where
  primary := kept_primary

instance : AsksStop C.Kept where
  asks hrest := kept_bind kept_get fun s => hrest s.stopped

instance : AsksLevels C.Kept where
  asks hrest := kept_bind kept_get fun s => hrest s.levels

/-- Any mark may be told where any problem may be failed with. -/
theorem tellsStray (h : ∀ problem, C.fails problem) : TellsStray C.Kept where
  tells mark chains span := kept_fail (h ⟨.strayMark mark chains, span⟩)

end Course

namespace FreeCourse

open Reading

variable {C : FreeCourse}

theorem kept_scan : C.Kept scan :=
  fun s => ⟨State.holds_scan C.refl C.trans C.report C.calm C.looked s, fun _ h => nomatch h⟩

instance : Scans C.Kept := ⟨kept_scan⟩

end FreeCourse

end ConfLang
