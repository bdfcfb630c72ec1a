import ConfLang.Proofs.Limit.Truncation
import ConfLang.Proofs.Nesting.Exact
import ConfLang.Proofs.Writing.Conditional
import ConfLang.Proofs.Writing.Reading

/-!
# Programs are read again from their sources

Reading a source, writing what was read, and reading that again gives the same program but for
its places, the ways its names were quoted and its parentheses, however much of the source could
not be read.  The nesting has to be allowed to be as deep as the written program is, and that is
more than what the source needed: operators in a row count nothing where they are read, but are
written in parentheses.

## Strategy

What is read can be written (`isWritable_parseWith`).  What can be written is derived by the
grammar from its source (`reads_source`), and what the grammar derives is what is read.
-/

namespace ConfLang

open Reading Cursor

variable {options options' : Options} {source : String} {program : Program}

/-! ## What is read can be written -/

theorem isWritable_of_run {s after : State} (hnesting : s.nesting = {})
    (hnone : s.lookahead = []) (hrun : EStateM.run wholeProgram s = .ok program after)
    (htainted : ¬ after.Tainted) (hfinite : program.isFinite = true) :
    Statement.IsWritableList s.options.expandingAssign false program.statements := by
  have hstate : looksAtWritable.state s := by
    intro token hmem
    rw [hnone] at hmem
    cases hmem
  have halike : writableLikeness.Alike {} (.sure True) wholeProgram wholeProgram _ :=
    Likeness.alike_wholeProgram (b := false) rfl fun h => absurd h (Nat.lt_irrefl 0)
  have hends := halike s s ⟨⟨⟨s.log, rfl⟩, hnesting, hstate⟩, trivial⟩
  rw [hrun] at hends
  obtain ⟨-, hlater, hstatements⟩ := hends
  rw [← hlater.grows.options]
  exact writable_statements htainted hstatements hfinite

/-- What is left of a source when it was read can be written, if errors are not limited. -/
theorem isWritable_parseWith (hlimit : options.maxErrors = none)
    (hquotes : ∀ diagnostic ∈ (parseWith options source).diagnostics,
      diagnostic.isUnterminated = false)
    (hfinite : (parseWith options source).program.isFinite = true) :
    Statement.IsWritableList options.expandingAssign false
      (parseWith options source).program.statements := by
  cases hrun : EStateM.run wholeProgram (State.ofSource source options) with
  | error problem after =>
      rw [parseWith, run_of_error hrun]
      trivial
  | ok program after =>
      rw [parseWith, run_of_ok hrun] at hquotes hfinite ⊢
      refine isWritable_of_run (s := .ofSource source options) rfl rfl hrun ?_ hfinite
      -- Without a limit of errors the reading never stops.
      rintro (hstopped | ⟨diagnostic, hmem, hquote⟩)
      · rw [(Adds.of_ok hrun).unlimited hlimit] at hstopped
        cases hstopped
      · have hnot := hquotes diagnostic (Array.mem_toList_iff.mpr hmem)
        rw [hquote] at hnot
        cases hnot

/-! ## What can be written is read again -/

theorem Cursor.AtLine.atEnd {cursor : Cursor} (h : cursor.AtLine []) : cursor.AtEnd := by
  obtain ⟨pad, hrest, hpass⟩ := h.toFaces
  obtain ⟨htoken, hproblems, -⟩ := next_advance hrest hpass
  have hnone : (cursor.advance pad.length).rest = [] := by
    rw [advance, hrest, List.append_nil, List.drop_length]
  rw [next_of_rest_nil hnone] at htoken hproblems
  exact ⟨congrArg Token.kind htoken, hproblems⟩

/-- With enough room for nesting, the grammar derives a program from its source. -/
theorem reads_source {expanding : Bool}
    (hwritable : Statement.IsWritableList expanding false program.statements)
    (hallowed : expanding = true → options.expandingAssign = true)
    (hheight : program.writtenHeight ≤ options.maxNestingDepth) :
    ∃ again, Grammar.Reads options program.source again ∧ again.erased = program.erased ∧
      again.height = program.writtenHeight := by
  have hline : (ofSource program.source).AtLine
      (written [] (Statement.linesOf program.statements) ++ []) := by
    refine ⟨rfl, [], ?_, nofun, rfl⟩
    rw [List.append_nil]
    exact toList_unlines _
  obtain ⟨ts, after, again, hscan, hafter, hmany, hlike⟩ := Statement.rereads_many
    (Statement.IsWritableList.rereadable hallowed hwritable) hheight (by simp) hline
  exact ⟨⟨again⟩, ⟨ts, after, hscan, hafter.atEnd, hmany⟩, congrArg Program.mk hlike.erased,
    hlike.height⟩

/-- What can be written is read again under every limit that is not too low. -/
theorem parseWith_of_isWritable (options : Options) {expanding : Bool}
    (hwritable : Statement.IsWritableList expanding false program.statements)
    (hallowed : expanding = true → options.expandingAssign = true)
    (hheight : program.writtenHeight ≤ options.maxNestingDepth) :
    let again := parseWith options program.source
    again.hasErrors = false ∧ again.program.erased = program.erased ∧
      again.program.height = program.writtenHeight := by
  intro again
  obtain ⟨same, hreads, herased, hsame⟩ := reads_source hwritable hallowed hheight
  obtain ⟨hfine, hprogram⟩ := hreads.parseWith_eq
  exact ⟨hfine, by rw [hprogram, herased], by rw [hprogram, hsame]⟩

/-- Under all lower limits it is an error that the nesting is too deep. -/
theorem tellsTooDeep_of_isWritable (options : Options)
    (hunlimited : options.maxErrors = none)
    (hwritable : Statement.IsWritableList options.expandingAssign false program.statements)
    (hheight : options.maxNestingDepth < program.writtenHeight) :
    (parseWith options program.source).TellsTooDeep options.maxNestingDepth := by
  obtain ⟨-, -, hhigh⟩ := parseWith_of_isWritable
    { options with maxNestingDepth := program.writtenHeight } hwritable id (Nat.le_refl _)
  refine (parseWith_smaller_limit program.source hunlimited (Nat.le_of_lt hheight)).resolve_left
    fun hsame => ?_
  -- Otherwise a program would be read that is higher than the limit.
  have hfits := height_parseWith options program.source
  rw [show parseWith options program.source = _ from hsame, hhigh] at hfits
  exact absurd hheight (Nat.not_lt.mpr hfits)

/-! ## There and back -/

/-- Whatever was read, be it only a part of the source, is the same program when it is read again
from its own source, but for its places, its quotes and its parentheses, and has the same source
then.  This holds unless a quote that is not closed was reported or a number is infinite, and for
all limits of nesting that are not lower than the written program is high. -/
theorem parseWith_source (hlimit : options.maxErrors = none)
    (hquotes : ∀ diagnostic ∈ (parseWith options source).diagnostics,
      diagnostic.isUnterminated = false)
    (hfinite : (parseWith options source).program.isFinite = true) :
    let program := (parseWith options source).program
    ∃ bound, ∀ options' : Options, bound ≤ options'.maxNestingDepth →
      options'.expandingAssign = true →
      let again := parseWith options' program.source
      again.hasErrors = false ∧ again.program.erased = program.erased ∧
        again.program.source = program.source := by
  intro program
  refine ⟨program.writtenHeight, fun options' hbound hallowed => ?_⟩
  intro again
  have hwritable := isWritable_parseWith hlimit hquotes hfinite
  obtain ⟨hfine, herased, -⟩ :=
    parseWith_of_isWritable options' hwritable (fun _ => hallowed) hbound
  refine ⟨hfine, herased, ?_⟩
  calc again.program.source
    _ = again.program.erased.source := again.program.source_erased.symm
    _ = program.erased.source := congrArg Program.source herased
    _ = program.source := program.source_erased

theorem exists_written_again :
    let options : Options := { maxErrors := none }
    let source := "a = !f('defined'.x, .b = 1.5)\n%if defined(q) && 2\nc + x # y\n%endif\nz = ("
    (parseWith options source).hasErrors = true ∧
      (∀ diagnostic ∈ (parseWith options source).diagnostics, diagnostic.isUnterminated = false) ∧
      (parseWith options source).program.isFinite = true ∧
      let program := (parseWith options source).program
      ∃ bound, ∀ options' : Options, bound ≤ options'.maxNestingDepth →
        options'.expandingAssign = true →
        let again := parseWith options' program.source
        again.hasErrors = false ∧ again.program.erased = program.erased ∧
          again.program.source = program.source := by
  intro options source
  have hquotes : ∀ diagnostic ∈ (parseWith options source).diagnostics,
      diagnostic.isUnterminated = false := by decide +kernel
  have hfinite : (parseWith options source).program.isFinite = true := by decide +kernel
  exact ⟨by decide +kernel, hquotes, hfinite, parseWith_source rfl hquotes hfinite⟩

/-! ## Under the same limit -/

/-- Under the limit that a source was read with, its program is read again without an error just
if it is written no higher than that.  Otherwise it is an error that the nesting is too deep,
though perhaps not one of those that a limit of errors lets through. -/
theorem parseWith_source_iff (hfine : (parseWith options source).hasErrors = false)
    (hfinite : (parseWith options source).program.isFinite = true) :
    let program := (parseWith options source).program
    let again := parseWith options program.source
    let full := parseWith { options with maxErrors := none } program.source
    (again.hasErrors = false ↔ program.writtenHeight ≤ options.maxNestingDepth) ∧
      (again.hasErrors = false → again = full ∧ again.program.erased = program.erased ∧
        again.program.height = program.writtenHeight) ∧
      (full.TellsTooDeep options.maxNestingDepth ↔
        options.maxNestingDepth < program.writtenHeight) := by
  intro program again full
  -- What was read without an error is what is read without a limit of errors, so it can be written.
  have hwritable : Statement.IsWritableList options.expandingAssign false program.statements := by
    have hunlimited : ({ options with maxErrors := none } : Options).maxErrors = none := rfl
    have hsame := parseWith_unlimited hfine
    rw [show program = _ from congrArg Outcome.program hsame.symm]
    refine isWritable_parseWith hunlimited (fun diagnostic hmem => ?_) (by rwa [hsame])
    rw [hsame] at hmem
    have herror := List.any_eq_false.mp hfine diagnostic hmem
    simp [Diagnostic.isUnterminated, herror]
  have hlow (hheight : program.writtenHeight ≤ options.maxNestingDepth) :=
    parseWith_of_isWritable options hwritable id hheight
  have hhigh (hheight : options.maxNestingDepth < program.writtenHeight) :
      full.TellsTooDeep options.maxNestingDepth :=
    tellsTooDeep_of_isWritable { options with maxErrors := none } rfl hwritable hheight
  have hfull : full.hasErrors = again.hasErrors := hasErrors_unlimited options program.source
  have hiff : again.hasErrors = false ↔ program.writtenHeight ≤ options.maxNestingDepth := by
    refine ⟨fun hagain => Nat.le_of_not_lt fun hheight => ?_, fun hheight => (hlow hheight).1⟩
    have herrors := (hhigh hheight).hasErrors
    rw [hfull, hagain] at herrors
    cases herrors
  refine ⟨hiff, fun hagain => ?_, ⟨fun hdeep => Nat.lt_of_not_le fun hheight => ?_, hhigh⟩⟩
  · exact ⟨(parseWith_unlimited hagain).symm, (hlow (hiff.mp hagain)).2⟩
  · have herrors := hdeep.hasErrors
    rw [hfull, hiff.mpr hheight] at herrors
    cases herrors

theorem exists_not_written_again :
    (parseWith { maxNestingDepth := 1 } "a = b || c || d").diagnostics = [] ∧
      (parseWith { maxNestingDepth := 1 } "a = b || c || d").program.isFinite = true ∧
      let program := (parseWith { maxNestingDepth := 1 } "a = b || c || d").program
      program.writtenHeight = 2 ∧
        (parseWith { maxNestingDepth := 1 } program.source).hasErrors = true ∧
        (parseWith { maxNestingDepth := 1, maxErrors := none } program.source).TellsTooDeep 1 := by
  have hnone : (parseWith { maxNestingDepth := 1 } "a = b || c || d").diagnostics = [] := by
    decide +kernel
  have hfine : (parseWith { maxNestingDepth := 1 } "a = b || c || d").hasErrors = false := by
    rw [Outcome.hasErrors, hnone]
    rfl
  have hfinite : (parseWith { maxNestingDepth := 1 } "a = b || c || d").program.isFinite = true := by
    decide +kernel
  have hheight : (parseWith { maxNestingDepth := 1 } "a = b || c || d").program.writtenHeight = 2 := by
    decide +kernel
  obtain ⟨hiff, -, hdeep⟩ := parseWith_source_iff hfine hfinite
  refine ⟨hnone, hfinite, hheight, ?_, hdeep.mpr (by rw [hheight]; decide)⟩
  refine Bool.eq_true_of_not_eq_false fun hagain => ?_
  have hlow := hiff.mp hagain
  rw [hheight] at hlow
  exact absurd hlow (by decide)

end ConfLang
