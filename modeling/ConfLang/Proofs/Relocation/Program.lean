import ConfLang.Proofs.Grammar.Exact
import ConfLang.Proofs.Limit.Statements
import ConfLang.Proofs.Relocation.Joined
import ConfLang.Proofs.Relocation.Reading

/-!
# Sources one behind the other

Two sources can be joined by a line feed.  If the first one is read without an error, and the
second one does not begin with a token that goes on with a statement, the statements of both are
the statements of the joined source, and its errors are those of the second source.  All that
comes from the second source is moved behind the first one (`parseWith_joined`).

## Strategy

The first source is a program of the grammar.  Its tokens stand in the joined source as well
(`Cursor.Scans.joined`), so reading leads behind them (`Reading.leads_program`).  There the two
readings meet: from where the first token of the second source was looked at, the readings of
the second source and of the joined one are alike (`continuation`), whatever is wrong with the
second source.
-/

namespace ConfLang

variable {options : Options} {source other : String}

/-- Whether a token goes on with a statement that could end in front of it. -/
def TokenKind.goesOn : TokenKind → Bool
  | .symbol .dot | .symbol .openParen | .symbol .equals | .symbol .either | .symbol .both
  | .symbol .plus | .keyword .elseWord => true
  | _ => false

theorem TokenKind.endsStatement_of_goesOn {kind : TokenKind} (h : kind.goesOn = false) :
    kind.EndsStatement := by
  cases kind with
  | symbol sign =>
      cases sign <;> simp_all [goesOn, EndsStatement, EndsExpression, EndsChain, EndsOperand,
        Operator.ofToken?]
  | keyword word =>
      cases word <;> simp_all [goesOn, EndsStatement, EndsExpression, EndsChain, EndsOperand,
        Operator.ofToken?]
  | _ => simp [EndsStatement, EndsExpression, EndsChain, EndsOperand, Operator.ofToken?]

/-! ## The joined source -/

namespace Cursor

theorem joined_ofSource (source other : String) :
    (ofSource source).joined other.toList = ofSource (source ++ "\n" ++ other) := by
  simp [joined, ofSource]

theorem Scans.standsIn {source : List Char} {cursor after : Cursor} {ts : List Token}
    (h : cursor.StandsIn source) (hscan : cursor.Scans ts after) : after.StandsIn source := by
  induction hscan with
  | nil => exact h
  | token _ _ _ ih => exact ih h.next.1
  | text _ ih => exact ih h.rawLine.1
  | lineEnd _ _ _ ih => exact ih (h.withMode _)

theorem IsBlank.rest_next {cursor : Cursor} (h : cursor.IsBlank) : cursor.next.cursor.rest = [] := by
  induction h with
  | stop hrest =>
      rw [next_of_rest_nil hrest]
      exact hrest
  | pass hpiece htoken _ _ ih =>
      rw [next_of_passed hpiece htoken]
      exact ih

/-- Behind a source and a line feed, another source is moved. -/
theorem behind_lineFeed (source other : String) :
    ⟨other.toList, (Position.start.after source.toList).next '\n', {}⟩ =
      (ofSource other).moved (.behind (source ++ "\n")) := by
  have hbytes : (source ++ "\n").utf8ByteSize = Position.bytes source.toList + 1 := by
    simp [Position.bytes]
    rfl
  have hlines : (source ++ "\n").toList.count '\n' = source.toList.count '\n' + 1 := by simp
  rw [Position.start_after, moved, ofSource]
  simp only [Position.next, Position.moved, Position.start, Displacement.behind, hbytes, hlines,
    if_true, mk.injEq, Position.mk.injEq, true_and, and_true]
  exact ⟨(Nat.zero_add _).symm, Nat.add_assoc _ _ _⟩

theorem resumed_eq_moved {last : Cursor} (hlast : last.StandsIn source.toList) (hend : last.AtEnd) :
    last.resumed other.toList = (ofSource other).moved (.behind (source ++ "\n")) := by
  obtain ⟨before, hsource, hposition⟩ := hlast.next.1
  rw [hend.isBlank.rest_next, List.append_nil] at hsource
  rw [resumed, hposition, ← hsource, behind_lineFeed]

end Cursor

/-! ## Where the readings meet -/

namespace State

variable {s t : State}

/-- Where the next token was looked at in two sources, and the second cursor finds what the first
one finds if it is moved, the second state is as far in a continuation as the first one. -/
theorem Sees.follows {n : Nesting} {c c' : Cursor} {d : Displacement} (hs : s.Sees options n 1 c)
    (ht : t.Sees options n 1 c') (hmeets : c'.Meets (c.moved d)) (hlimit : options.maxErrors = none)
    (hconsumed : s.consumed = 0) (hprevious : s.previous = {}) (hstart : c.position.offset = 0) :
    s.Follows ⟨d, t.consumed, t.previous⟩ t ∧ t.previous.stop ≤ d.bytes := by
  obtain ⟨htoken, hproblems, hcursor⟩ := c.next_moved (d := d)
  obtain ⟨hbytes, hstop⟩ := c.offset_next
  have hbytes' := c'.offset_next.1
  have hoffset := hmeets.offset
  rw [hmeets.after, hcursor] at hbytes'
  have hahead : s.lookahead = [c.next.token] := hs.lookahead
  have hahead' : t.lookahead = [c'.next.token] := ht.lookahead
  have hbehind : s.cursor = c.next.cursor := hs.cursor
  have hbehind' : t.cursor = c'.next.cursor := ht.cursor
  have herrors : s.errors = c.next.problems.map Problem.diagnostic := by
    simpa [Cursor.pending] using hs.errors
  have herrors' : t.errors = c'.next.problems.map Problem.diagnostic := by
    simpa [Cursor.pending] using ht.errors
  refine ⟨⟨⟨?_, fun token hmem hkind => ?_⟩, ?_, ?_, hs.stopped, ht.stopped, ?_, ?_, ?_, ?_, ?_, ?_⟩, ?_⟩
  · rw [hs.size, hbehind, hbytes]
  · rw [hahead, List.mem_singleton] at hmem
    subst hmem
    have hless := Cursor.left_next_lt hkind
    rw [hbehind, hstop]
    exact ⟨by omega, Nat.le_refl _⟩
  · rw [hs.options, ht.options]
  · rw [hs.options, hlimit]
  · rw [ht.size, hs.size]
    simp only [Cursor.moved, Position.moved, Cursor.left] at hbytes' hbytes ⊢
    omega
  · rw [hbehind, hbehind', hmeets.after, hcursor]
  · rw [hahead, hahead', hmeets.token, htoken]
    rfl
  · rw [herrors, herrors', hmeets.problems, hproblems, List.map_map, List.map_map]
    rfl
  · rw [hconsumed, Nat.zero_add]
  · exact .inl ⟨hconsumed, by simp [hahead], hprevious, rfl⟩
  · rw [ht.previous]
    simpa [Cursor.moved, Position.moved, hstart] using hoffset

end State

namespace Reading

open StateLikeness Likeness

variable {s t : State} {seam : Seam} {level : Nat} {items items' : Array Statement}

/-- It does not count whether the next token was looked at before. -/
theorem run_programTurns_peeked :
    EStateM.run (iterate (programTurn level) items) s.peeked.2 =
      EStateM.run (iterate (programTurn level) items) s := by
  rw [run_iterate, run_iterate, run_programTurn, run_programTurn, State.peeked_peeked,
    State.remaining_peeked]

/-- Statements are read in the same way behind another source. -/
theorem programTurns_follow (level : Nat) (items : Array Statement) (h : s.Follows seam t)
    (hs : s.nesting = {}) (ht : t.nesting = {})
    (hseam : seam.previous.stop ≤ seam.displacement.bytes) :
    ∃ xs ys s' t', EStateM.run (iterate (programTurn level) #[]) s = .ok xs s' ∧
      EStateM.run (iterate (programTurn level) items) t = .ok ys t' ∧ s'.Follows seam t' ∧
      ys.toList =
        items.toList ++ xs.toList.map (Statement.mapSpans (Span.moved seam.displacement)) := by
  let L := continuation seam hseam
  have hturns : L.Alike {} ((Lasting.sure True).and (L.appended false [] items.toList #[] items))
      (iterate (programTurn level) #[]) (iterate (programTurn level) items)
      (L.appended false [] items.toList) :=
    alike_statementTurns (fun _ => alike_atEndOfProgram) watchesEnd_program watchesEnd_program
      (fun K => alike_read level {} K false rfl fun h => absurd h (Nat.lt_irrefl 0)) #[] items
  have hends := hturns s t ⟨⟨h, hs, ht⟩, trivial, [], [], by simp, by simp, .nil⟩
  obtain ⟨xs, s', hxs⟩ := succeeds_programTurns level #[] s
  obtain ⟨ys, t', hys⟩ := succeeds_programTurns level items t
  have hrun : EStateM.run (iterate (programTurn level) #[]) s = .ok xs s' := ok_of_run hxs
  have hrun' : EStateM.run (iterate (programTurn level) items) t = .ok ys t' := ok_of_run hys
  rw [hrun, hrun'] at hends
  obtain ⟨⟨hfollows, -⟩, -, statements, statements', hfirst, hsecond, hmoved⟩ := hends
  refine ⟨xs, ys, s', t', hrun, hrun', hfollows, ?_⟩
  rw [hfirst, hsecond, List.nil_append, Lasting.eq_map_of_all hmoved]

end Reading

/-! ## The outcome -/

/-- The statements and the errors of a source come from the turns of reading it. -/
theorem parseWith_of_turns {s : State} {statements : Array Statement}
    (h : programRun options source = .ok statements s) (hlimit : s.options.maxErrors = none)
    (hgoing : s.stopped = false) :
    (parseWith options source).program.statements = statements.toList ∧
      (parseWith options source).errors = s.errors := by
  have herrors : ((duplicateWarnings [] statements.toList).foldl State.report s).errors =
      s.errors ++ (duplicateWarnings [] statements.toList).filter (·.isError) :=
    (State.foldl_report_open hgoing (.inl hlimit)).2
  rw [parseWith_of_run h]
  refine ⟨rfl, herrors.trans ?_⟩
  rw [List.filter_eq_nil_iff.mpr, List.append_nil]
  intro diagnostic hmem
  simp [isError_duplicateWarnings _ _ diagnostic hmem]

/-- Behind the first source, the reading of the joined source is as far as that of the other
source is in front of its first token. -/
theorem exists_seam (hlimit : options.maxErrors = none)
    (hsource : (parseWith options source).hasErrors = false)
    (hother : (Cursor.ofSource other).next.token.kind.goesOn = false) :
    ∃ seam t, seam.displacement = .behind (source ++ "\n") ∧
      seam.previous.stop ≤ seam.displacement.bytes ∧
      (State.started options other).peeked.2.Follows seam t ∧ t.nesting = {} ∧
      programRun options (source ++ "\n" ++ other) =
        EStateM.run (Reading.iterate (Reading.programTurn (options.maxNestingDepth + 1))
          (parseWith options source).program.statements.toArray) t := by
  obtain ⟨ts, last, hscan, hend, hprogram⟩ := reads_of_hasErrors hlimit hsource
  obtain ⟨middle, hjoined, hmeets⟩ :=
    hscan.joined other.toList (Grammar.wholeLines_program hprogram) hend rfl
  rw [Cursor.joined_ofSource] at hjoined
  rw [Cursor.resumed_eq_moved (hscan.standsIn (.ofSource source)) hend] at hmeets
  have hends : middle.next.token.kind.EndsStatement := by
    rw [hmeets.token, Cursor.next_moved.1]
    exact TokenKind.endsStatement_of_goesOn hother
  have hsees := (State.sees_ofSource options (source ++ "\n" ++ other)).note .started
  obtain ⟨j, hj, t, ht, hrun⟩ := Reading.leads_program rfl hprogram hjoined (.inl hlimit) hends #[]
    (Nat.zero_le 1) 0 (Nat.le_refl 0) _ hsees
  obtain ⟨-, hmiddle⟩ := ht.peeked fun _ => .inl hlimit
  obtain ⟨-, hstart⟩ := ((State.sees_ofSource options other).note .started).peeked
    fun _ => .inl hlimit
  rw [Nat.max_eq_right hj] at hmiddle
  have hfresh : (State.started options other).peeked.2.consumed = 0 ∧
      (State.started options other).peeked.2.previous = {} := by
    rw [State.peeked_of_nil rfl, State.scan_eq, State.foldl_report_frame]
    exact ⟨rfl, rfl⟩
  obtain ⟨hfollows, hseam⟩ := State.Sees.follows hstart hmiddle hmeets hlimit hfresh.1 hfresh.2 rfl
  refine ⟨_, _, rfl, hseam, hfollows, hmiddle.nesting, ?_⟩
  rw [Reading.run_programTurns_peeked]
  simpa [programRun, State.started] using hrun

/-- Behind the first source, the joined source is read like the other source. -/
theorem exists_joined_run (hlimit : options.maxErrors = none)
    (hsource : (parseWith options source).hasErrors = false)
    (hother : (Cursor.ofSource other).next.token.kind.goesOn = false) :
    ∃ seam xs ys s t, seam.displacement = .behind (source ++ "\n") ∧
      programRun options other = .ok xs s ∧
      programRun options (source ++ "\n" ++ other) = .ok ys t ∧ s.Follows seam t ∧
      ys.toList = (parseWith options source).program.statements ++
        xs.toList.map (Statement.mapSpans (Span.moved seam.displacement)) := by
  obtain ⟨seam, t, hplace, hseam, hfollows, hnesting, hjoined⟩ := exists_seam hlimit hsource hother
  have hnesting' : (State.started options other).peeked.2.nesting = {} := by
    rw [State.peeked_of_nil rfl, State.scan_eq, State.foldl_report_frame]
    rfl
  obtain ⟨xs, ys, s', t', hxs, hys, hafter, hstatements⟩ :=
    Reading.programTurns_follow (options.maxNestingDepth + 1)
      (parseWith options source).program.statements.toArray hfollows hnesting' hnesting hseam
  rw [Reading.run_programTurns_peeked] at hxs
  exact ⟨seam, xs, ys, s', t', hplace, hxs, hjoined.trans hys, hafter, hstatements⟩

/-- **Sources are read one after the other.**  If a source is read without an error, and another
one does not begin with a token that goes on with a statement, both are read as one source: the
statements are those of both, the errors are those of the other source, and all that comes from
the other source is moved behind the first one. -/
theorem parseWith_joined (hlimit : options.maxErrors = none)
    (hsource : (parseWith options source).hasErrors = false)
    (hother : (Cursor.ofSource other).next.token.kind.goesOn = false) :
    (parseWith options (source ++ "\n" ++ other)).program.statements =
        (parseWith options source).program.statements ++
          (parseWith options other).program.statements.map
            (Statement.mapSpans (Span.moved (.behind (source ++ "\n")))) ∧
      (parseWith options (source ++ "\n" ++ other)).errors =
        (parseWith options other).errors.map
          (Diagnostic.mapSpans (Span.moved (.behind (source ++ "\n")))) := by
  obtain ⟨seam, xs, ys, s, t, hplace, hxs, hys, hafter, hstatements⟩ :=
    exists_joined_run hlimit hsource hother
  have hunlimited : t.options.maxErrors = none := by rw [hafter.options, hafter.unlimited]
  obtain ⟨hfirst, herrors⟩ := parseWith_of_turns hxs hafter.unlimited hafter.going
  obtain ⟨hall, herrors'⟩ := parseWith_of_turns hys hunlimited hafter.going'
  rw [hfirst, hall, herrors, herrors', hstatements, hafter.errors, hplace]
  exact ⟨rfl, rfl⟩

/-- The error of the second source is moved behind the first one, with the place that its message
quotes. -/
theorem errors_joined : (parseWith { maxErrors := none } ("%error no" ++ "\n" ++ "b = [1")).errors =
    [.error (.unclosed .square ⟨14, 15, 2, 5⟩ .endOfFile) ⟨14, 15, 2, 5⟩] := by
  rw [(parseWith_joined rfl (by decide +kernel) (by decide +kernel)).2]
  decide +kernel

end ConfLang
