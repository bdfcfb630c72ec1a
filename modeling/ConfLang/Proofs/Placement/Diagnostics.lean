import ConfLang.Proofs.Placement.First

/-!
# Where diagnostics are misplaced

Reported before the first token is taken are the problems on the way to it, and an error
at that token if it begins no statement.  `earlyErrors` counts these errors.  If they
reach the limit, the notice about it has no place in the source; in any other case all
diagnostics have one (`misplaced_iff`).
-/

namespace ConfLang

/-- How many errors are reported before the first token is taken. -/
def earlyErrors (options : Options) (source : String) : Nat :=
  let scan := (Cursor.ofSource source).next
  let kind := scan.token.kind
  scan.problems.length + if kind = .endOfFile ∨ kind.beginsStatement options then 0 else 1

open Reading StateLikeness Likeness

variable {options : Options} {source : String}

/-! ## The first turn -/

/-- The state in which the first token was looked at. -/
def firstLook (options : Options) (source : String) : State :=
  (State.started options source).scan.2

theorem peeked_started : (State.started options source).peeked =
    ((Cursor.ofSource source).next.token, firstLook options source) :=
  State.peeked_of_nil rfl

/-- Whether there is nothing to read: the first token is the last one, or the reading has
stopped in front of it. -/
def EndsAtOnce (options : Options) (source : String) : Prop :=
  (Cursor.ofSource source).next.token.kind = .endOfFile ∨ (firstLook options source).stopped = true

/-- How the first statement is read. -/
def firstTurn (options : Options) (source : String) :
    EStateM.Result Problem State (Array Statement) :=
  EStateM.run (appendStatement (Statement.read (options.maxNestingDepth + 1)) #[])
    (firstLook options source)

theorem programTurn_of_end (h : EndsAtOnce options source) :
    EStateM.run (programTurn (options.maxNestingDepth + 1) #[]) (State.started options source) =
      .ok (.done #[]) (firstLook options source) := by
  rw [run_programTurn, peeked_started]
  exact if_pos h

theorem programTurn_of_turn (h : ¬ EndsAtOnce options source) :
    EStateM.run (programTurn (options.maxNestingDepth + 1) #[]) (State.started options source) =
      match firstTurn options source with
      | .ok statements after => .ok (.again statements) after
      | .error problem after => .error problem after := by
  rw [run_programTurn, peeked_started]
  exact if_neg h

theorem programRun_of_end (h : EndsAtOnce options source) :
    programRun options source = .ok #[] (firstLook options source) := by
  rw [programRun, run_iterate, programTurn_of_end h]

theorem programRun_of_turn (h : ¬ EndsAtOnce options source) :
    programRun options source = match firstTurn options source with
      | .ok statements after =>
        if after.remaining < (State.started options source).remaining then
          EStateM.run (iterate (programTurn (options.maxNestingDepth + 1)) statements) after
        else .ok statements after
      | .error problem after => .error problem after := by
  rw [programRun, run_iterate, programTurn_of_turn h]
  cases firstTurn options source <;> rfl

/-- Nothing else is reported when there is nothing to read. -/
theorem diagnostics_of_end (h : EndsAtOnce options source) :
    (parseWith options source).diagnostics = (firstLook options source).diagnostics.toList := by
  rw [parseWith_of_run (programRun_of_end h)]
  rfl

/-- If the first turn ends in a place of the source, all diagnostics lie in the source. -/
theorem diagnostics_of_turn_alike (hend : ¬ EndsAtOnce options source)
    (h : (placement source.toList).likeness.Ends {} (firstLook options source)
      (firstLook options source) ((placement source.toList).likeness.appended false [] [])
      (firstTurn options source) (firstTurn options source)) :
    ∀ diagnostic ∈ (parseWith options source).diagnostics,
      diagnostic.span.LiesIn source.toList := by
  have hlater : (State.started options source).Precedes (firstLook options source) :=
    State.precedes_scan _
  have hturn : (placement source.toList).likeness.AlikeFrom
      (fun s t => t = s ∧ s = State.started options source) {}
      (programTurn (options.maxNestingDepth + 1) #[])
      (programTurn (options.maxNestingDepth + 1) #[])
      (turned ((placement source.toList).likeness.appended false [] [])) := by
    rintro _ _ ⟨rfl, rfl⟩
    rw [programTurn_of_turn hend]
    cases hrun : firstTurn options source with
    | ok statements after =>
        rw [hrun] at h
        exact h.from_earlier ⟨hlater, hlater⟩
    | error problem after =>
        rw [hrun] at h
        exact h.from_earlier ⟨hlater, hlater⟩
  have hall : (placement source.toList).likeness.Ends {} (State.started options source)
      (State.started options source) ((placement source.toList).likeness.appended false [] []) (programRun options source)
      (programRun options source) := by
    refine AlikeFrom.iterate ?_ hturn (fun first second => ?_) _ _ ⟨rfl, rfl⟩
    · rintro s t _ _ s' t' ⟨rfl, -⟩ - - ⟨⟨_, rfl⟩, -⟩
      rfl
    · refine (alike_statementTurns (K := .sure True) (fun _ => alike_atEndOfProgram)
        watchesEnd_program watchesEnd_program ?_ first second).weaken (fun _ hs => ⟨trivial, hs⟩)
        fun _ _ _ _ hv => hv
      exact fun K => alike_read _ _ K false rfl fun h => absurd h (Nat.lt_irrefl 0)
  cases hrun : programRun options source with
  | ok statements after =>
      rw [hrun] at hall
      obtain ⟨hafter, -, hstatements⟩ := hall
      have hwarned := alike_foldl_report hafter
        (duplicateWarnings_alike id (appended_base hstatements) .nil)
      rw [parseWith_of_run hrun]
      exact fun diagnostic h => hwarned.2.2.diagnostics _ (Array.mem_toList_iff.mp h)
  | error problem after =>
      rw [hrun] at hall
      obtain ⟨hafter, -, hproblem⟩ := hall
      have hreported : (after.report problem.diagnostic).LiesIn source.toList :=
        hafter.2.2.report hproblem.1.2
      rw [parseWith_of_run_error hrun]
      exact fun diagnostic h => hreported.diagnostics _ (Array.mem_toList_iff.mp h)

/-- If the reading stops in the first turn, nothing else is reported. -/
theorem diagnostics_of_turn_stopped {diagnostics : Array Diagnostic}
    (hend : ¬ EndsAtOnce options source)
    (hstopped : EndsStopped diagnostics (firstTurn options source)) :
    (parseWith options source).diagnostics = diagnostics.toList := by
  have hkept (state : State) (others : List Diagnostic) (h : state.stopped = true) :
      (others.foldl State.report state).diagnostics = state.diagnostics :=
    ((State.grows_foldl_report others state).stopped h).2
  have hturn := programRun_of_turn hend
  cases hrun : firstTurn options source with
  | error problem after =>
      rw [hrun] at hstopped hturn
      rw [parseWith_of_run_error hturn, ← hstopped.2,
        ← hkept after [problem.diagnostic] hstopped.1]
      rfl
  | ok statements after =>
      rw [hrun] at hstopped hturn
      obtain ⟨hafter, rfl⟩ := hstopped
      by_cases hless : after.remaining < (State.started options source).remaining
      · -- The next turn looks at one more token, and finds that the reading has stopped.
        obtain ⟨hpeeked, hsame⟩ := after.grows_peeked.stopped hafter
        simp only [if_pos hless] at hturn
        rw [run_iterate, run_programTurn, if_pos (.inr hpeeked)] at hturn
        rw [parseWith_of_run hturn, ← hsame, ← hkept _ (duplicateWarnings [] statements.toList) hpeeked]
        rfl
      · simp only [if_neg hless] at hturn
        rw [parseWith_of_run hturn, ← hkept _ (duplicateWarnings [] statements.toList) hafter]
        rfl

/-! ## Up to the first token -/

/-- The state before the problems on the way to the first token are reported. -/
theorem firstLook_eq : firstLook options source =
    ((Cursor.ofSource source).next.problems.map Problem.diagnostic).foldl State.report
      (State.started options source).looked := by
  rw [firstLook, State.scan_eq]
  rfl

theorem looked_looksInto :
    (State.started options source).looked.LooksInto source.toList := by
  obtain ⟨hcursor, htoken, -⟩ := (Cursor.StandsIn.ofSource source).next
  refine ⟨hcursor, ?_, fun _ h => absurd h (Array.not_mem_empty _)⟩
  rintro token htoken'
  obtain rfl := List.mem_singleton.mp htoken'
  exact htoken

/-- With room for the problems on the way to the first token, all of them are reported. -/
theorem firstLook_of_room
    (hroom : ∀ limit ∈ options.maxErrors, 0 < (Cursor.ofSource source).next.problems.length →
      (Cursor.ofSource source).next.problems.length < limit) :
    Opens source.toList options (Cursor.ofSource source).next.token {}
        (firstLook options source) (firstLook options source) ∧
      (firstLook options source).stopped = false ∧ (firstLook options source).consumed = 0 ∧
      (firstLook options source).errorCount = (Cursor.ofSource source).next.problems.length := by
  have hlooks : (State.started options source).looked.LooksInto source.toList := looked_looksInto
  have hcount : (State.started options source).looked.HasRoom
      (Cursor.ofSource source).next.problems.length :=
    ⟨rfl, fun hpos limit hlimit => (Nat.zero_add _).symm ▸ hroom limit hlimit hpos⟩
  rw [firstLook_eq, State.foldl_report_of_room hcount]
  refine ⟨⟨rfl, ⟨hlooks.cursor, hlooks.lookahead, ?_⟩, rfl, rfl, [], rfl⟩, rfl, rfl, Nat.zero_add _⟩
  obtain ⟨-, -, hproblems⟩ := (Cursor.StandsIn.ofSource source).next
  intro diagnostic hdiagnostic
  obtain ⟨problem, hproblem, rfl⟩ : ∃ problem ∈ (Cursor.ofSource source).next.problems,
      problem.diagnostic = diagnostic := by
    simpa [State.looked, State.started, State.note, State.ofSource] using hdiagnostic
  exact hproblems problem hproblem

theorem earlyErrors_of_not_begins
    (hend : (Cursor.ofSource source).next.token.kind ≠ .endOfFile)
    (hbegins : (Cursor.ofSource source).next.token.kind.beginsStatement options = false) :
    earlyErrors options source = (Cursor.ofSource source).next.problems.length + 1 := by
  simp [earlyErrors, hend, hbegins]

theorem Opens.report {source : List Char} {token : Token} {n : Nesting} {s t : State}
    (h : Opens source options token n s t) (problem : Problem) (hroom : s.HasRoom 1)
    (hspan : problem.span.LiesIn source) :
    Opens source options token n (s.report problem.diagnostic) (s.report problem.diagnostic) := by
  rw [State.report_of_room hroom]
  refine ⟨rfl, ⟨h.looks.cursor, h.looks.lookahead, fun diagnostic hdiagnostic => ?_⟩,
    h.nesting, h.options, h.lookahead⟩
  rcases Array.mem_push.mp hdiagnostic with hold | rfl
  · exact h.looks.diagnostics diagnostic hold
  · exact hspan

/-- A first token that begins no statement is reported and taken. -/
theorem appendStatement_of_not_begins {source : List Char} {token : Token} {s : State}
    (hend : token.kind ≠ .endOfFile) (hbegins : token.kind.beginsStatement options = false)
    (hroom : s.HasRoom 1) :
    (placement source).likeness.AlikeFrom
      (fun s' t => t = s' ∧ s' = s ∧ Opens source options token {} s s ∧ s.consumed = 0) {}
      (appendStatement (Statement.read (options.maxNestingDepth + 1)) #[])
      (appendStatement (Statement.read (options.maxNestingDepth + 1)) #[])
      ((placement source).likeness.appended false [] []) := by
  rintro s' t ⟨rfl, rfl, hopens, hconsumed⟩
  obtain ⟨-, hlooks, hnesting, hoptions, rest, hrest⟩ := id hopens
  obtain ⟨cause, hrun⟩ := run_statement_of_not_begins options.maxNestingDepth hrest
    (by rw [hnesting]) (hoptions ▸ hbegins)
  have hspan := hlooks.lookahead token (by simp [hrest])
  have hreported := hopens.report ⟨cause, token.span⟩ hroom hspan
  have hends := recover_opens hend _ _
    ⟨hreported, by rw [State.report_frame]; exact hconsumed⟩
  have hlater := State.precedes_report t (Problem.diagnostic ⟨cause, token.span⟩)
  rw [run_appendStatement, hrun, hconsumed]
  simp only
  cases hrecover : EStateM.run (recover 0) (t.report (Problem.diagnostic ⟨cause, token.span⟩)) with
  | ok _ after =>
      rw [hrecover] at hends
      exact ⟨hends.1, .trans ⟨hlater, hlater⟩ hends.2.1, appended_nil _⟩
  | error problem after =>
      rw [hrecover] at hends
      exact ⟨hends.1, .trans ⟨hlater, hlater⟩ hends.2.1, hends.2.2⟩

/-- If the limit is not reached before the first token is taken, all diagnostics lie in the
source. -/
theorem liesIn_of_room
    (hroom : ∀ limit ∈ options.maxErrors, 0 < earlyErrors options source →
      earlyErrors options source < limit) :
    ∀ diagnostic ∈ (parseWith options source).diagnostics,
      diagnostic.span.LiesIn source.toList := by
  have hearly : (Cursor.ofSource source).next.problems.length ≤ earlyErrors options source :=
    Nat.le_add_right _ _
  have hproblems : ∀ limit ∈ options.maxErrors,
      0 < (Cursor.ofSource source).next.problems.length →
        (Cursor.ofSource source).next.problems.length < limit := fun limit hlimit hpos =>
    Nat.lt_of_le_of_lt hearly (hroom limit hlimit (Nat.lt_of_lt_of_le hpos hearly))
  obtain ⟨hopens, hstopped, hconsumed, hcount⟩ := firstLook_of_room hproblems
  by_cases hend : (Cursor.ofSource source).next.token.kind = .endOfFile
  · rw [diagnostics_of_end (.inl hend)]
    exact fun diagnostic h => hopens.looks.diagnostics _ (Array.mem_toList_iff.mp h)
  refine diagnostics_of_turn_alike (by simp [EndsAtOnce, hend, hstopped]) ?_
  by_cases hbegins : (Cursor.ofSource source).next.token.kind.beginsStatement options = true
  · refine alike_appendStatementFrom (statement_opens hbegins) ?_ (fun _ => appended_nil _) _ _ hopens
    rintro s t s' t' ⟨rfl, -⟩ ⟨⟨_, rfl⟩, -⟩
    rfl
  · have hbegins' : (Cursor.ofSource source).next.token.kind.beginsStatement options = false :=
      Bool.eq_false_iff.mpr hbegins
    refine appendStatement_of_not_begins hend hbegins' ⟨hstopped, fun _ limit hlimit => ?_⟩ _ _
      ⟨rfl, rfl, hopens, hconsumed⟩
    have hcounted := earlyErrors_of_not_begins hend hbegins'
    rw [hopens.options] at hlimit
    rw [hcount, ← hcounted]
    exact hroom limit hlimit (hcounted ▸ Nat.succ_pos _)

theorem previous_firstLook : (firstLook options source).previous = {} := by
  rw [firstLook_eq, State.foldl_report_frame]
  rfl

/-- The notice about the limit of errors is there, without a place, and everything else lies in the
source. -/
def NoticeOnly (options : Options) (source : String) (limit : Nat) : Prop :=
  .error (.tooManyErrors limit) {} ∈ (parseWith options source).diagnostics ∧
    ∀ diagnostic ∈ (parseWith options source).diagnostics,
      diagnostic.span.LiesIn source.toList ∨ diagnostic = .error (.tooManyErrors limit) {}

/-- The limit may be reached by the problems on the way to the first token. -/
theorem noticeOnly_of_problems {limit : Nat} (hlimit : options.maxErrors = some limit)
    (hsome : 0 < (Cursor.ofSource source).next.problems.length)
    (hfull : limit ≤ (Cursor.ofSource source).next.problems.length) :
    NoticeOnly options source limit := by
  obtain ⟨-, -, hproblems⟩ := (Cursor.StandsIn.ofSource source).next
  have hlooked : (firstLook options source).stopped = true ∧
      .error (.tooManyErrors limit) {} ∈ (firstLook options source).diagnostics := by
    rw [firstLook_eq]
    exact State.foldl_report_at_limit rfl hlimit (List.length_pos_iff.mp hsome)
      ((Nat.zero_add _).symm ▸ hfull)
  rw [NoticeOnly, diagnostics_of_end (.inr hlooked.1)]
  refine ⟨Array.mem_toList_iff.mpr hlooked.2, fun diagnostic hdiagnostic => ?_⟩
  rw [Array.mem_toList_iff, firstLook_eq] at hdiagnostic
  rcases State.mem_diagnostics_foldl_report hdiagnostic with h | h | ⟨other, hother, rfl⟩
  · exact absurd h (Array.not_mem_empty _)
  · obtain ⟨problem, hproblem, rfl⟩ := List.mem_map.mp h
    exact .inl (hproblems problem hproblem)
  · obtain rfl := Option.some_inj.mp (hlimit.symm.trans hother)
    exact .inr rfl

/-- Or it may be reached by the error at that token, if it begins no statement. -/
theorem noticeOnly_of_not_begins {limit : Nat} (hlimit : options.maxErrors = some limit)
    (hroom : 0 < (Cursor.ofSource source).next.problems.length →
      (Cursor.ofSource source).next.problems.length < limit)
    (hend : (Cursor.ofSource source).next.token.kind ≠ .endOfFile)
    (hbegins : (Cursor.ofSource source).next.token.kind.beginsStatement options = false)
    (hle : limit ≤ earlyErrors options source) : NoticeOnly options source limit := by
  obtain ⟨-, htoken, -⟩ := (Cursor.StandsIn.ofSource source).next
  obtain ⟨hopens, hstopped, hconsumed, hcount⟩ := firstLook_of_room fun other hother => by
    obtain rfl := Option.some_inj.mp (hlimit.symm.trans hother)
    exact hroom
  have hcounted := earlyErrors_of_not_begins hend hbegins
  obtain ⟨rest, hrest⟩ := hopens.lookahead
  obtain ⟨cause, hrun⟩ := run_statement_of_not_begins options.maxNestingDepth hrest
    (by rw [hopens.nesting]) (by rw [hopens.options]; exact hbegins)
  have hreported := State.report_at_limit hstopped (hopens.options.symm ▸ hlimit)
    (by rw [hcount, ← hcounted]; exact hle) ⟨cause, (Cursor.ofSource source).next.token.span⟩
  have hrecover := recover_of_stopped hreported.1
  have hdiagnostics : (parseWith options source).diagnostics = ((firstLook options source).report
      (Problem.diagnostic ⟨cause, (Cursor.ofSource source).next.token.span⟩)).diagnostics.toList := by
    refine diagnostics_of_turn_stopped (by simp [EndsAtOnce, hend, hstopped]) ?_
    rw [firstTurn, run_appendStatement, hrun, hconsumed]
    revert hrecover
    simp only
    cases EStateM.run (recover 0) _ <;> exact id
  rw [NoticeOnly, hdiagnostics]
  rw [previous_firstLook] at hreported
  refine ⟨Array.mem_toList_iff.mpr hreported.2, fun diagnostic hdiagnostic => ?_⟩
  rcases State.mem_diagnostics_report (Array.mem_toList_iff.mp hdiagnostic) with
    h | rfl | ⟨other, hother, rfl⟩
  · exact .inl (hopens.looks.diagnostics diagnostic h)
  · exact .inl htoken
  · rw [hopens.options, hlimit, Option.some_inj] at hother
    rw [previous_firstLook, ← hother]
    exact .inr rfl

/-- If the limit is reached before the first token is taken, the notice about it is the only
diagnostic that does not lie in the source. -/
theorem notice_of_limit {limit : Nat} (hlimit : options.maxErrors = some limit)
    (hpos : 0 < earlyErrors options source) (hle : limit ≤ earlyErrors options source) :
    NoticeOnly options source limit := by
  by_cases hfirst : 0 < (Cursor.ofSource source).next.problems.length ∧
      limit ≤ (Cursor.ofSource source).next.problems.length
  · exact noticeOnly_of_problems hlimit hfirst.1 hfirst.2
  · -- The problems alone are not enough, so the error at the token is one of the early ones.
    obtain ⟨hend, hbegins⟩ : (Cursor.ofSource source).next.token.kind ≠ .endOfFile ∧
        (Cursor.ofSource source).next.token.kind.beginsStatement options = false := by
      by_contra hnot
      have hnone : earlyErrors options source = (Cursor.ofSource source).next.problems.length := by
        rw [not_and_or, not_not, Bool.not_eq_false] at hnot
        simp [earlyErrors, hnot]
      omega
    exact noticeOnly_of_not_begins hlimit (by omega) hend hbegins hle

/-- **Where a diagnostic is misplaced.**  Every diagnostic points at a real place of its
source, but for the notice that there were too many errors if the limit was reached before
the first token was taken. -/
theorem misplaced_iff (options : Options) (source : String) (diagnostic : Diagnostic) :
    diagnostic ∈ (parseWith options source).diagnostics ∧ ¬ diagnostic.span.PointsInto source ↔
      ∃ limit, options.maxErrors = some limit ∧ 0 < earlyErrors options source ∧
        limit ≤ earlyErrors options source ∧ diagnostic = .error (.tooManyErrors limit) {} := by
  constructor
  · rintro ⟨hmem, hmisplaced⟩
    by_cases hreached : ∃ limit, options.maxErrors = some limit ∧
        0 < earlyErrors options source ∧ limit ≤ earlyErrors options source
    · obtain ⟨limit, hlimit, hpos, hle⟩ := hreached
      have hnotice := (notice_of_limit hlimit hpos hle).2 diagnostic hmem
      exact ⟨limit, hlimit, hpos, hle, hnotice.resolve_left fun h => hmisplaced h.pointsInto⟩
    · refine absurd (liesIn_of_room (fun limit hlimit hpos => ?_) diagnostic hmem).pointsInto
        hmisplaced
      exact Nat.lt_of_not_le fun hle => hreached ⟨limit, hlimit, hpos, hle⟩
  · rintro ⟨limit, hlimit, hpos, hle, rfl⟩
    refine ⟨(notice_of_limit hlimit hpos hle).1, fun h => ?_⟩
    obtain ⟨before, -, -, hline, -⟩ := h.place
    simp only [Diagnostic.error] at hline
    omega

end ConfLang
