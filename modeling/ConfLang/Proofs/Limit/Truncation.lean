import ConfLang.Proofs.Accord

/-!
# The limit of errors only truncates the diagnostics

A limit of errors does not change what is reported, but how much of it.  With fewer errors
than the limit everything is as without one.  Otherwise the diagnostics end with the error
that reaches the limit, and with a notice that says so.

## Strategy

A run with the limit and one without are compared.  Below the limit they are in step, that
is, they tell the same; the error that reaches the limit cuts the first one off.  From then
on nothing is added to its diagnostics, and what the other run has told by then stays the
first part of what it tells in the end.
-/

namespace ConfLang

/-- `shown` is the shortest first part of `all` that has a number of errors. -/
structure ShortestWith (limit : Nat) (all shown : List Diagnostic) : Prop where
  begins : shown <+: all
  count : shown.countP (·.isError) = limit
  shortest : ∀ other, other <+: all → other.countP (·.isError) = limit → shown <+: other

/-- The last diagnostic of a shortest part is an error. -/
theorem ShortestWith.of_last {limit : Nat} {all before : List Diagnostic} {last : Diagnostic}
    (hbegins : before ++ [last] <+: all) (hlast : last.isError = true)
    (hcount : (before ++ [last]).countP (·.isError) = limit) :
    ShortestWith limit all (before ++ [last]) := by
  refine ⟨hbegins, hcount, fun other hother hsame => ?_⟩
  rcases List.prefix_or_prefix_of_prefix hbegins hother with hle | hle
  · exact hle
  · -- a shorter part lacks the last error
    rcases List.prefix_concat_iff.mp hle with rfl | hshort
    · exact List.prefix_rfl
    · have hfewer := hshort.sublist.countP_le (p := (·.isError))
      simp only [List.countP_append, List.countP_singleton, hlast, if_true] at hcount
      omega

/-! ## Two runs -/

/-- A run with a limit and one without have told the same, and less than the limit.  The first
error reaches even a limit of zero. -/
structure Told.InStep (limit : Nat) (first second : Told) : Prop where
  limited : first.maxErrors = some limit
  unlimited : second.maxErrors = none
  diagnostics : first.diagnostics = second.diagnostics
  log : first.log = second.log
  running : first.stopped = false
  running' : second.stopped = false
  count : first.errorCount = first.diagnostics.toList.countP (·.isError)
  below : first.errorCount < max limit 1

/-- The run with a limit has stopped at the error that reached it. -/
structure State.CutOff (limit : Nat) (first second : State) : Prop where
  stopped : first.stopped = true
  notice : ∃ before last span,
    first.diagnostics.toList = before ++ [last] ++ [.error (.tooManyErrors limit) span] ∧
    last.isError = true ∧ (before ++ [last]).countP (·.isError) = max limit 1 ∧
    before ++ [last] <+: second.diagnostics.toList

namespace State

variable {limit : Nat} {s t s' t' : State}

theorem CutOff.lasts (h : CutOff limit s t) (hs : s.Grows s') (ht : t.Grows t') :
    CutOff limit s' t' := by
  obtain ⟨hstopped, hsame⟩ := hs.stopped h.stopped
  obtain ⟨before, last, span, hnotice, hlast, hcount, hbegins⟩ := h.notice
  exact ⟨hstopped, before, last, span, hsame ▸ hnotice, hlast, hcount,
    hbegins.trans ht.diagnostics⟩

theorem inStep_note (h : Told.InStep limit s.told t.told) (event : Event) :
    Told.InStep limit (s.note event).told (t.note event).told :=
  { h with log := congrArg (Array.push · event) h.log }

/-- A report to a state that has not stopped. -/
theorem report_of_running (h : s.stopped = false) (diagnostic : Diagnostic) :
    s.report diagnostic = if diagnostic.isError = true
      then { s with diagnostics := s.diagnostics.push diagnostic }.countError
      else { s with diagnostics := s.diagnostics.push diagnostic } := by
  simp [report, h]

theorem inStep_report (h : Told.InStep limit s.told t.told) (diagnostic : Diagnostic) :
    Told.InStep limit (s.report diagnostic).told (t.report diagnostic).told ∨
      CutOff limit (s.report diagnostic) (t.report diagnostic) := by
  have hlimit : s.options.maxErrors = some limit := h.limited
  have hunlimited : t.options.maxErrors = none := h.unlimited
  have hpushed : s.diagnostics.push diagnostic = t.diagnostics.push diagnostic :=
    congrArg (Array.push · diagnostic) h.diagnostics
  have hcount : s.errorCount = s.diagnostics.toList.countP (·.isError) := h.count
  have hbelow : s.errorCount < max limit 1 := h.below
  rw [report_of_running h.running, report_of_running h.running']
  by_cases herror : diagnostic.isError = true
  · have hmore : (s.diagnostics.push diagnostic).toList.countP (·.isError) =
        s.errorCount + 1 := by
      simp [hcount, List.countP_append, herror]
    simp only [if_pos herror, countError, hlimit, hunlimited]
    split
    · -- the limit is reached by this error
      refine .inr ⟨rfl, s.diagnostics.toList, diagnostic, s.previous, ?_, herror, ?_, ?_⟩
      · simp [stop]
      · rw [Array.toList_push] at hmore
        omega
      · simp [← hpushed]
    · rename_i hroom
      exact .inl { h with
        diagnostics := hpushed
        count := hmore.symm
        below := Nat.lt_of_lt_of_le (Nat.lt_of_not_le hroom) (Nat.le_max_left _ _) }
  · have hsame : (s.diagnostics.push diagnostic).toList.countP (·.isError) = s.errorCount := by
      simp [hcount, List.countP_append, herror]
    simp only [if_neg herror]
    exact .inl { h with
      diagnostics := hpushed
      count := hsame.symm }

end State

/-- A run with a limit is in step with one without until it is cut off. -/
def truncation (limit : Nat) : Accord where
  together := Told.InStep limit
  apart := State.CutOff limit
  note h event := State.inStep_note h event
  report _ h diagnostic := State.inStep_report h diagnostic
  lasts := State.CutOff.lasts

instance {limit : Nat} : Reading.AsksStop (truncation limit).Kept :=
  Accord.asksStop fun h => h.running.trans h.running'.symm

theorem agree_ofSource (options : Options) (source : String) (limit : Nat) :
    (truncation limit).Agree (.ofSource source { options with maxErrors := some limit })
      (.ofSource source { options with maxErrors := none }) :=
  ⟨rfl, rfl, rfl, rfl, rfl, rfl, rfl, rfl, Nat.lt_of_lt_of_le Nat.one_pos (Nat.le_max_right _ _)⟩

/-! ## Outcomes -/

/-- The outcomes of two runs that end in the same way. -/
theorem finish_of_inStep {limit : Nat} {s t : State} (h : Told.InStep limit s.told t.told)
    (program : Program) : s.finish program = t.finish program ∧
      (t.finish program).errors.length < max limit 1 := by
  have hdiagnostics : s.diagnostics = t.diagnostics := h.diagnostics
  have hlog : s.log = t.log := h.log
  have hbelow : s.errorCount < max limit 1 := h.below
  have hcount : s.errorCount = s.diagnostics.toList.countP (·.isError) := h.count
  refine ⟨by simp [State.finish, State.note, hdiagnostics, hlog], ?_⟩
  rw [hcount, hdiagnostics, List.countP_eq_length_filter] at hbelow
  exact hbelow

/-- The outcomes of two runs one of which was cut off. -/
theorem finish_of_cutOff {limit : Nat} {s t : State} (h : State.CutOff limit s t)
    (program program' : Program) : ∃ shown span,
      ShortestWith (max limit 1) (t.finish program').diagnostics shown ∧
      (s.finish program).diagnostics = shown ++ [.error (.tooManyErrors limit) span] := by
  obtain ⟨before, last, span, hnotice, hlast, hcount, hbegins⟩ := h.notice
  exact ⟨before ++ [last], span, .of_last hbegins hlast hcount, hnotice⟩

/-- The error limit only truncates the diagnostics. -/
theorem truncates_parseWith (options : Options) (source : String) (limit : Nat) :
    (parseWith { options with maxErrors := some limit } source =
        parseWith { options with maxErrors := none } source ∧
      (parseWith { options with maxErrors := none } source).errors.length < max limit 1) ∨
    ∃ shown span,
      ShortestWith (max limit 1) (parseWith { options with maxErrors := none } source).diagnostics shown ∧
      (parseWith { options with maxErrors := some limit } source).diagnostics =
        shown ++ [.error (.tooManyErrors limit) span] := by
  have hruns : (truncation limit).Ends
      (Reading.wholeProgram.run (.ofSource source { options with maxErrors := some limit }))
      (Reading.wholeProgram.run (.ofSource source { options with maxErrors := none })) :=
    (Reading.Obeys.obeys (P := (truncation limit).Kept)).2 _ _ (agree_ofSource options source limit)
  unfold parseWith
  generalize Reading.wholeProgram.run
    (.ofSource source { options with maxErrors := some limit }) = first at hruns ⊢
  generalize Reading.wholeProgram.run
    (.ofSource source { options with maxErrors := none }) = second at hruns ⊢
  obtain ⟨result, s⟩ := first
  obtain ⟨result', t⟩ := second
  -- The two runs are in step to their ends, or the limit has cut the first one off.
  rcases hruns with ⟨hresult, hagree⟩ | hcut
  · simp only at hresult
    subst hresult
    cases result with
    | ok program => exact .inl (finish_of_inStep hagree.told program)
    | error problem =>
        rcases hagree.report problem.diagnostic with hagree' | hcut
        · exact .inl (finish_of_inStep hagree'.told {})
        · exact .inr (finish_of_cutOff hcut {} {})
  · have hreport (s : State) (problem : Problem) : s.Grows (s.report problem.diagnostic) :=
      s.grows_report _
    refine .inr ?_
    cases result <;> cases result'
    · exact finish_of_cutOff (hcut.lasts (hreport _ _) (hreport _ _)) _ _
    · exact finish_of_cutOff (hcut.lasts (hreport _ _) (.refl _)) _ _
    · exact finish_of_cutOff (hcut.lasts (.refl _) (hreport _ _)) _ _
    · exact finish_of_cutOff hcut _ _

/-- A reading that has stopped has told so. -/
theorem notice_of_stopped {options : Options} {source : String} {program : Program} {after : State}
    (hrun : EStateM.run Reading.wholeProgram (.ofSource source options) = .ok program after)
    (hstopped : after.stopped = true) :
    ∃ limit span, .error (.tooManyErrors limit) span ∈ after.diagnostics.toList := by
  cases hlimit : options.maxErrors with
  | none =>
      have hgoing : after.stopped = false := (Reading.Adds.of_ok hrun).unlimited hlimit
      rw [hstopped] at hgoing
      cases hgoing
  | some limit =>
      have hruns := (Reading.Obeys.obeys (P := (truncation limit).Kept)
        (f := Reading.wholeProgram)).2 _ _ (agree_ofSource options source limit)
      rw [← hlimit, Reading.run_of_ok hrun] at hruns
      rcases hruns with ⟨-, hagree⟩ | hcut
      · have hgoing : after.stopped = false := hagree.told.running
        rw [hstopped] at hgoing
        cases hgoing
      · obtain ⟨before, last, span, hnotice, -⟩ := hcut.notice
        rw [hnotice]
        exact ⟨limit, span, List.mem_concat_self⟩

/-- The notice that the limit was reached is an error. -/
theorem hasErrors_of_notice {outcome : Outcome} {shown : List Diagnostic} {limit : Nat} {span : Span}
    (h : outcome.diagnostics = shown ++ [.error (.tooManyErrors limit) span]) :
    outcome.hasErrors = true := by
  rw [Outcome.hasErrors, h]
  exact List.any_eq_true.mpr ⟨_, List.mem_concat_self, rfl⟩

/-- Whether there are errors does not depend on their limit. -/
theorem hasErrors_unlimited (options : Options) (source : String) :
    (parseWith { options with maxErrors := none } source).hasErrors =
      (parseWith options source).hasErrors := by
  cases hlimit : options.maxErrors with
  | none => rw [← hlimit]
  | some limit =>
      have htruncates := truncates_parseWith options source limit
      rw [← hlimit] at htruncates
      rcases htruncates with ⟨hsame, -⟩ | ⟨shown, span, hshown, hcut⟩
      · rw [← hsame]
      · -- both have the error that reached the limit, or the notice about it
        have hpos : 0 < shown.countP (·.isError) := by
          rw [hshown.count]
          exact Nat.lt_of_lt_of_le Nat.one_pos (Nat.le_max_right _ _)
        obtain ⟨diagnostic, hmem, herror⟩ := List.countP_pos_iff.mp hpos
        have hfull : (parseWith { options with maxErrors := none } source).hasErrors = true :=
          List.any_eq_true.mpr ⟨diagnostic, hshown.begins.subset hmem, herror⟩
        rw [hfull, hasErrors_of_notice hcut]

/-- Without errors there is nothing to limit. -/
theorem parseWith_unlimited {options : Options} {source : String}
    (h : (parseWith options source).hasErrors = false) :
    parseWith { options with maxErrors := none } source = parseWith options source := by
  cases hlimit : options.maxErrors with
  | none => rw [← hlimit]
  | some limit =>
      have htruncates := truncates_parseWith options source limit
      rw [← hlimit] at htruncates
      rcases htruncates with ⟨hsame, -⟩ | ⟨shown, span, -, hcut⟩
      · exact hsame.symm
      · rw [hasErrors_of_notice hcut] at h
        cases h

/-- With fewer errors than the limit everything is as without a limit.  Otherwise what is
reported is the shortest first part that has as many errors as the limit, and then that there
are too many. -/
theorem parseWith_maxErrors (options : Options) (source : String) {limit : Nat}
    (hlimit : 0 < limit) :
    let full := parseWith { options with maxErrors := none } source
    let limited := parseWith { options with maxErrors := some limit } source
    (full.errors.length < limit → limited = full) ∧
    (limit ≤ full.errors.length → ∃ shown notice,
      ShortestWith limit full.diagnostics shown ∧ limited.diagnostics = shown ++ [notice] ∧
      notice.severity = .error ∧ notice.kind = .grammar ∧
      notice.message = "Too many errors (" ++ toString limit ++ "), parsing stopped") := by
  intro full limited
  have htruncates := truncates_parseWith options source limit
  rw [Nat.max_eq_left hlimit] at htruncates
  rcases htruncates with ⟨hsame, hfewer⟩ | ⟨shown, span, hshown, hlimited⟩
  · refine ⟨fun _ => hsame, fun hmany => ?_⟩
    exact absurd hfewer (Nat.not_lt.mpr hmany)
  · refine ⟨fun hfewer => ?_, fun _ => ⟨shown, _, hshown, hlimited, rfl, rfl, rfl⟩⟩
    have hle := hshown.begins.sublist.countP_le (p := (·.isError))
    rw [hshown.count, List.countP_eq_length_filter] at hle
    exact absurd hfewer (Nat.not_lt.mpr hle)

theorem exists_truncated : 0 < 2 ∧
    (parseWith { maxErrors := none } "a = @\n]\nb = @").errors.length = 4 ∧
    ∃ shown notice,
      ShortestWith 2 (parseWith { maxErrors := none } "a = @\n]\nb = @").diagnostics shown ∧
      (parseWith { maxErrors := some 2 } "a = @\n]\nb = @").diagnostics = shown ++ [notice] ∧
      notice.severity = .error ∧ notice.kind = .grammar ∧
      notice.message = "Too many errors (" ++ toString 2 ++ "), parsing stopped" := by
  have hmany : (parseWith { maxErrors := none } "a = @\n]\nb = @").errors.length = 4 := by
    decide +kernel
  exact ⟨Nat.two_pos, hmany, (parseWith_maxErrors {} _ Nat.two_pos).2 (by rw [hmany]; decide)⟩

end ConfLang
