import ConfLang.Proofs.Lookahead.Steps
import ConfLang.Proofs.Nesting.Limits
import ConfLang.Proofs.Progress.Ends

/-!
# What the scanner finds is reported

A reading asks its scanner for one token at a time, and reports at once what was found on the
way.  Nothing else that is reported has been found by the scanner.  So as long as errors are not
limited, the lexical diagnostics are the problems that the scanner has recorded, in order and
once each, whatever was read and recovered from.

A program is read through the end of the file, where nothing is left to find.  If no raw text was
read, the scanner was asked for tokens only, and then it has found what is found when all tokens
are read one after the other.

## Strategy

`State.Goes` collects the requests of a run.  By induction on its steps the state and a scanner
that is given the same requests stay side by side (`State.Beside`).  All else is about scanners:
`Scanner.problems_of_next` says that tokens may be asked for one by one, and
`Scanner.sorted_problems` that problems come in the order of the source.
-/

namespace ConfLang

/-! ## Scanners -/

/-- Raw text is taken as it is, whatever it consists of. -/
theorem Cursor.problems_restOfLine (cursor : Cursor) : cursor.restOfLine.problems = [] := by
  unfold restOfLine rawLine Scan.problems
  simp only
  split <;> rfl

namespace Scanner

variable {scanner : Scanner} {requests : List Request}

theorem toList_problems_record (scanner : Scanner) (scan : Scan) :
    (scanner.record scan).problems.toList = scanner.problems.toList ++ scan.problems := by
  simp [record]

theorem answers_append (scanner : Scanner) (requests more : List Request) :
    (scanner.answers (requests ++ more)).2 = ((scanner.answers requests).2.answers more).2 := by
  induction requests generalizing scanner with
  | nil => rfl
  | cons request rest ih => exact ih (scanner.answer request).2

/-- Where nothing is left, no problem is left. -/
theorem problems_tokens_of_rest_nil (h : scanner.cursor.rest = []) :
    scanner.tokens.2.problems = scanner.problems := by
  have hnext := Cursor.next_of_rest_nil h
  have hscans : scanner.cursor.scans = [scanner.cursor.next] := by
    rw [Cursor.scans, hnext]
    rfl
  rw [tokens, hscans, List.foldl_cons, List.foldl_nil, record, hnext]
  exact Array.append_empty

/-- To read all tokens is to read the next one, and then all that are left. -/
theorem problems_tokens_next (scanner : Scanner) :
    scanner.tokens.2.problems = scanner.next.2.tokens.2.problems := by
  by_cases hkind : scanner.cursor.next.token.kind = .endOfFile
  · have hscans : scanner.cursor.scans = [scanner.cursor.next] := by
      rw [Cursor.scans, dif_pos hkind]
    have hrest : scanner.next.2.cursor.rest = [] := (Cursor.next_of_endOfFile hkind).1
    rw [problems_tokens_of_rest_nil hrest, tokens, hscans]
    rfl
  · have hscans : scanner.cursor.scans =
        scanner.cursor.next :: scanner.cursor.next.cursor.scans := by
      rw [Cursor.scans, dif_neg hkind]
    rw [tokens, hscans]
    rfl

/-- Whoever asks for one token after the other, up to the end of the source or beyond, has all
problems of the source. -/
theorem problems_of_next (hnext : .restOfLine ∉ requests)
    (hrest : (scanner.answers requests).2.cursor.rest = []) :
    (scanner.answers requests).2.problems = scanner.tokens.2.problems := by
  induction requests generalizing scanner with
  | nil => exact (problems_tokens_of_rest_nil hrest).symm
  | cons request rest ih =>
      rw [List.mem_cons, not_or] at hnext
      cases request with
      | next => exact (ih hnext.2 hrest).trans (problems_tokens_next scanner).symm
      | restOfLine => exact absurd rfl hnext.1

end Scanner

/-- The problems that a scanner has recorded come in the order of the source. -/
theorem Scanner.sorted_problems (source : String) (requests : List Request) :
    ((Scanner.ofSource source).answers requests).2.problems.toList.Pairwise
      fun first second => first.span.start ≤ second.span.start := by
  have hbegin : (Scanner.ofSource source).cursor.StandsBehind source.toList [] := .ofSource source
  obtain ⟨pieces, after, hshared, hcursor, -, -, hproblems⟩ :=
    Scanner.answers_shared hbegin requests
  have hafter : after <+: source.toList := ⟨_, hcursor.source.symm⟩
  rw [hproblems]
  change (pieces.flatMap Piece.problems).Pairwise _
  rw [List.pairwise_flatMap]
  constructor
  · intro piece _
    apply List.pairwise_of_forall_mem_list
    intro first hfirst second hsecond
    rw [Piece.start_of_mem_problems hfirst, Piece.start_of_mem_problems hsecond]
  · apply hshared.pairwise.imp_of_mem
    intro piece other hpiece hother hle first hfirst second hsecond
    rw [Piece.start_of_mem_problems hfirst, Piece.start_of_mem_problems hsecond]
    exact (hshared.liesIn_of_mem hafter hpiece).pointsInto.start_le_stop.trans hle

/-! ## Reports -/

/-- A diagnostic that is of the lexical kind. -/
def Diagnostic.isLexical (diagnostic : Diagnostic) : Bool :=
  diagnostic.kind == .lexical

namespace State

variable {options : Options} {source : String} {s s' : State} {requests : List Request}

/-- What was reported of the lexical kind. -/
def lexicals (s : State) : List Diagnostic :=
  s.diagnostics.toList.filter Diagnostic.isLexical

theorem Frank.diagnostics_report (h : s.Frank) (diagnostic : Diagnostic) :
    (s.report diagnostic).diagnostics = s.diagnostics.push diagnostic := by
  unfold State.report
  rw [if_neg (by simp [h.stopped])]
  simp only
  split
  · simp [countError, h.maxErrors]
  · rfl

theorem Frank.lexicals_report (h : s.Frank) {diagnostic : Diagnostic}
    (hkind : diagnostic.kind ≠ .lexical) : (s.report diagnostic).lexicals = s.lexicals := by
  rw [lexicals, h.diagnostics_report, Array.toList_push, List.filter_append, lexicals]
  simp [Diagnostic.isLexical, hkind]

theorem Frank.diagnostics_foldl_report (h : s.Frank) (diagnostics : List Diagnostic) :
    (diagnostics.foldl State.report s).diagnostics.toList = s.diagnostics.toList ++ diagnostics := by
  induction diagnostics generalizing s with
  | nil => exact (List.append_nil _).symm
  | cons diagnostic rest ih =>
      rw [List.foldl_cons, ih (h.of_grows (s.grows_report diagnostic)), h.diagnostics_report,
        Array.toList_push, List.append_assoc, List.singleton_append]

/-- Looking at a token reports what the scanner finds on the way to it. -/
theorem Frank.lexicals_scan (h : s.Frank) :
    s.scan.2.lexicals = s.lexicals ++ s.cursor.next.problems.map Problem.diagnostic := by
  have hlooked : s.looked.Frank := ⟨h.maxErrors, h.stopped⟩
  have hlexical : (s.cursor.next.problems.map Problem.diagnostic).filter Diagnostic.isLexical =
      s.cursor.next.problems.map Problem.diagnostic := by
    refine List.filter_eq_self.mpr fun diagnostic hmem => ?_
    obtain ⟨problem, hproblem, rfl⟩ := List.mem_map.mp hmem
    exact beq_iff_eq.mpr (Cursor.kind_of_mem_next hproblem)
  rw [lexicals, scan_eq, hlooked.diagnostics_foldl_report, List.filter_append, hlexical]
  rfl

/-! ## A state beside a scanner -/

/-- A state has gone as far as a scanner, and has reported what the scanner has recorded.  If the
end of the file was looked at, nothing is left. -/
structure Beside (scanner : Scanner) (s : State) : Prop where
  frank : s.Frank
  cursor : s.cursor = scanner.cursor
  lexicals : s.lexicals = scanner.problems.toList.map Problem.diagnostic
  ended : ∀ token ∈ s.lookahead, token.kind = .endOfFile → s.cursor.rest = []

variable {scanner : Scanner}

theorem Beside.scan (h : s.Beside scanner) : s.scan.2.Beside scanner.next.2 := by
  have hcursor : s.scan.2.cursor = s.cursor.next.cursor := by
    rw [scan_eq, foldl_report_frame]
    rfl
  refine ⟨h.frank.of_grows s.grows_scan, ?_, ?_, ?_⟩
  · rw [hcursor, h.cursor]
    rfl
  · rw [h.frank.lexicals_scan, h.lexicals, h.cursor, ← List.map_append, Scanner.next,
      Scanner.toList_problems_record]
  · intro token hmem hkind
    rw [lookahead_scan, List.mem_append, List.mem_singleton] at hmem
    rw [hcursor]
    rcases hmem with hmem | rfl
    · exact Cursor.rest_next_of_rest_nil (h.ended token hmem hkind)
    · exact (Cursor.next_of_endOfFile hkind).1

/-- One step leaves a state beside a scanner that is asked the same. -/
theorem Beside.step (h : s.Beside scanner) (hstep : s.Step requests s') :
    s'.Beside (scanner.answers requests).2 := by
  cases hstep with
  | note _ => exact ⟨⟨h.frank.maxErrors, h.frank.stopped⟩, h.cursor, h.lexicals, h.ended⟩
  | renest _ => exact ⟨⟨h.frank.maxErrors, h.frank.stopped⟩, h.cursor, h.lexicals, h.ended⟩
  | report diagnostic hkind =>
      refine ⟨h.frank.of_grows (s.grows_report _), ?_, ?_, ?_⟩
      · rw [report_frame]
        exact h.cursor
      · rw [h.frank.lexicals_report hkind]
        exact h.lexicals
      · rw [report_frame]
        exact h.ended
  | scan => exact h.scan
  | take hfirst =>
      refine ⟨⟨h.frank.maxErrors, h.frank.stopped⟩, h.cursor, h.lexicals, fun token hmem => ?_⟩
      exact h.ended token (List.mem_of_mem_tail hmem)
  | takeRaw hnone =>
      refine ⟨⟨h.frank.maxErrors, h.frank.stopped⟩, ?_, ?_, ?_⟩
      · rw [State.takeRaw, h.cursor]
        rfl
      · have hproblems := Scanner.toList_problems_record scanner scanner.cursor.restOfLine
        rw [Cursor.problems_restOfLine, List.append_nil] at hproblems
        exact h.lexicals.trans (congrArg (List.map Problem.diagnostic) hproblems.symm)
      · rw [State.takeRaw, hnone]
        intro token hmem
        cases hmem

/-- A run leaves a state beside a scanner that is asked the same. -/
theorem Goes.beside {start : State} (h : start.Goes requests s) (hstart : start.Beside scanner) :
    s.Beside (scanner.answers requests).2 := by
  induction h with
  | stay => exact hstart
  | step _ hstep _ ih =>
      rw [Scanner.answers_append]
      exact ih.step hstep

theorem beside_ofSource (source : String) (h : options.maxErrors = none) :
    (State.ofSource source options).Beside (.ofSource source) :=
  ⟨⟨h, rfl⟩, rfl, rfl, nofun⟩

end State

/-! ## Main result -/

open Reading

variable {options : Options}

/-- Without a limit of errors a program is read through the end of the source, where nothing is
left. -/
theorem wholeProgram_reaches_end (source : String) (h : options.maxErrors = none) :
    ∃ program s, wholeProgram.run (.ofSource source options) = (.ok program, s) ∧
      (∃ requests, (State.ofSource source options).Goes requests s) ∧ s.cursor.rest = [] := by
  have hreachable : (State.ofSource source options).Reachable options source := .start
  obtain ⟨program, s, token, rest, hrun, hfirst, hend⟩ :=
    program_ends_at (State.ofSource source options).levels hreachable.ordered
  have hwhole : wholeProgram.run (State.ofSource source options) = (.ok program, s) := hrun
  have hgoes := (wholeProgram.goes (State.short_ofSource source options)).1
  rw [hwhole] at hgoes
  obtain ⟨requests, hgoes⟩ := hgoes
  have hbeside := hgoes.beside (State.beside_ofSource source h)
  refine ⟨program, s, hwhole, ⟨requests, hgoes⟩, ?_⟩
  rcases hend with hkind | hstopped
  · exact hbeside.ended token (hfirst ▸ List.mem_cons_self) hkind
  · rw [hbeside.frank.stopped] at hstopped
    cases hstopped

/-- **What the scanner finds is reported, in order and once.**  Without a limit of errors a program
is read through the end of its source, whatever is recovered from on the way.  Whatever the scanner
was asked for, the lexical diagnostics are then the problems that a scanner records that is asked
the same, and they come in the order of the source.  If no raw text was asked for, they are the
problems of reading all tokens of the source one after the other. -/
theorem lexical_diagnostics_of_parseWith (source : String) (h : options.maxErrors = none) :
    ∃ program s, wholeProgram.run (.ofSource source options) = (.ok program, s) ∧
      s.cursor.rest = [] ∧ (∃ requests, (State.ofSource source options).Goes requests s) ∧
      ∀ requests, (State.ofSource source options).Goes requests s →
        ((Scanner.ofSource source).answers requests).2.cursor = s.cursor ∧
        (parseWith options source).diagnostics.filter Diagnostic.isLexical =
          ((Scanner.ofSource source).answers requests).2.problems.toList.map Problem.diagnostic ∧
        ((parseWith options source).diagnostics.filter Diagnostic.isLexical).Pairwise
          (fun first second => first.span.start ≤ second.span.start) ∧
        (.restOfLine ∉ requests → (parseWith options source).diagnostics.filter Diagnostic.isLexical =
          (Scanner.ofSource source).tokens.2.problems.toList.map Problem.diagnostic) := by
  obtain ⟨program, s, hrun, hgoes, hrest⟩ := wholeProgram_reaches_end source h
  refine ⟨program, s, hrun, hrest, hgoes, fun requests hrequests => ?_⟩
  have hbeside := hrequests.beside (State.beside_ofSource source h)
  have hdiagnostics : (parseWith options source).diagnostics.filter Diagnostic.isLexical =
      ((Scanner.ofSource source).answers requests).2.problems.toList.map Problem.diagnostic := by
    rw [parseWith, hrun]
    exact hbeside.lexicals
  refine ⟨hbeside.cursor.symm, hdiagnostics, ?_, fun hnext => ?_⟩
  · rw [hdiagnostics, List.pairwise_map]
    exact Scanner.sorted_problems source requests
  · rw [hdiagnostics, Scanner.problems_of_next hnext]
    rw [← hbeside.cursor]
    exact hrest

/-- A character and a number out of place are reported once each, though the list they stand in
is not closed and is recovered from. -/
theorem exists_lexical_diagnostics :
    ({ maxErrors := none } : Options).maxErrors = none ∧ ∃ s requests,
      (State.ofSource "a = [1 $ 2x\nb" { maxErrors := none }).Goes requests s ∧ s.cursor.rest = [] ∧
      (parseWith { maxErrors := none } "a = [1 $ 2x\nb").diagnostics.filter Diagnostic.isLexical =
        ((Scanner.ofSource "a = [1 $ 2x\nb").answers requests).2.problems.toList.map
          Problem.diagnostic := by
  have hnone : ({ maxErrors := none } : Options).maxErrors = none := rfl
  obtain ⟨-, s, -, hrest, ⟨requests, hgoes⟩, hall⟩ :=
    lexical_diagnostics_of_parseWith "a = [1 $ 2x\nb" hnone
  exact ⟨hnone, s, requests, hgoes, hrest, (hall requests hgoes).2.1⟩

end ConfLang
