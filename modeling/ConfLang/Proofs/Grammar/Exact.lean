import ConfLang.Proofs.Grammar.Derivation.Statement

/-!
# The language that is read

A source is read without an error if and only if the grammar derives a program from its
tokens, and then that program is what was read.  One direction is that every program of the
grammar is read (`gives_wholeProgram`), with any limit of errors.  The other one is that
whatever was read without an error is a program of the grammar (`yields_wholeProgram`).
-/

namespace ConfLang

variable {options : Options} {source : String} {program : Program}

/-- The grammar reads a source as a program: nothing is wrong about its tokens, and they are
those of the program. -/
def Grammar.Reads (options : Options) (source : String) (program : Program) : Prop :=
  ∃ ts last, (Cursor.ofSource source).Scans ts last ∧ last.AtEnd ∧
    Grammar.IsProgram options ts program

theorem State.sees_ofSource (options : Options) (source : String) :
    (State.ofSource source options).Sees options {} 0 (.ofSource source) where
  options := rfl
  nesting := rfl
  stopped := rfl
  size := by
    change source.utf8ByteSize = 0 + (String.ofList source.toList).utf8ByteSize
    rw [String.ofList_toList, Nat.zero_add]
  previous := rfl
  lookahead := rfl
  cursor := rfl
  errors := rfl

/-- Outside of all constructs there are as many levels left as the limit tells, and one more. -/
theorem State.levels_of_start {s : State} (hoptions : s.options = options)
    (hnesting : s.nesting = {}) : s.levels = options.maxNestingDepth + 1 := by
  rw [State.levels, hoptions, hnesting, Nat.sub_zero]

namespace Reading

open Grammar

variable {c c' : Cursor} {k : Nat} {ts : List Token}

theorem gives_wholeProgram (h : IsProgram options ts program) (hscan : c.Scans ts c')
    (hend : c'.AtEnd) : Gives options {} c 0 wholeProgram c' 1 program := by
  refine leads_get fun s hoptions hnesting _ => ?_
  rw [State.levels_of_start hoptions hnesting]
  refine (gives_note _).bind ?_
  have hends : c'.next.token.kind.EndsStatement := by
    simp [hend.1, TokenKind.EndsStatement, TokenKind.EndsExpression, TokenKind.EndsChain,
      TokenKind.EndsOperand, Operator.ofToken?]
  have hstatements := gives_statementsUntil endsAt_program
    (fun kind hopens => by cases kind <;> first | rfl | simp [TokenKind.opensStatement] at hopens)
    opening_program (covers_statement (n := {}) (Nat.zero_add _) rfl) h hscan (.inr hend.2) hends
    (by rw [hend.1]; rfl) (Nat.zero_le 1)
  exact hstatements.bind (gives_warnDuplicates _).bind_pure

theorem yields_wholeProgram :
    Yields options {} c 0 wholeProgram 1 fun program c' =>
      c'.AtEnd ∧ ∃ ts, c.Scans ts c' ∧ IsProgram options ts program := by
  refine yields_get fun s hoptions hnesting _ => ?_
  rw [State.levels_of_start hoptions hnesting]
  refine Yields.of_leads ((gives_note _).bind .refl) ?_
  refine (yields_statementsUntil endsClean_program opening_program
    (derives_statement (n := {}) (Nat.zero_add _) rfl) (Nat.zero_le 1)).bind inferInstance ?_
  rintro statements c' ⟨⟨ts, h, hscan⟩, hstop, hclean⟩
  refine Yields.of_leads ((gives_warnDuplicates _).bind .refl) ?_
  exact yields_pure ⟨⟨by simpa [TokenKind.stopsProgram] using hstop, hclean⟩, ts, hscan, h⟩

end Reading

/-! ## Outcomes -/

theorem State.hasErrors_finish {s : State} :
    (s.finish program).hasErrors = false ↔ s.errors = [] := by
  rw [State.errors, List.filter_eq_nil_iff, Outcome.hasErrors, List.any_eq_false]
  rfl

/-- What the grammar reads is read without an error, with any limit of errors. -/
theorem Grammar.Reads.parseWith_eq (h : Grammar.Reads options source program) :
    (parseWith options source).hasErrors = false ∧
      (parseWith options source).program = program := by
  obtain ⟨ts, last, hscan, hend, h⟩ := h
  obtain ⟨j, hj, s, hs, hrun⟩ := Reading.gives_wholeProgram h hscan hend 0 (Nat.le_refl 0) _
    (State.sees_ofSource options source)
  have herrors : s.errors = [] := by
    have herrors := hs.errors
    obtain rfl | rfl := Nat.le_one_iff_eq_zero_or_eq_one.mp hj
    · exact herrors
    · simpa [Cursor.pending, hend.2] using herrors
  rw [parseWith, Reading.run_of_ok hrun]
  exact ⟨State.hasErrors_finish.mpr herrors, rfl⟩

/-- What is read without an error is read by the grammar, if errors are not limited. -/
theorem reads_of_hasErrors (hlimit : options.maxErrors = none)
    (h : (parseWith options source).hasErrors = false) :
    Grammar.Reads options source (parseWith options source).program := by
  cases hrun : EStateM.run Reading.wholeProgram (State.ofSource source options) with
  | error problem after =>
      have hstopped : (after.report problem.diagnostic).stopped = false :=
        ((Reading.Adds.of_error hrun).trans (State.grows_report _ _)).unlimited hlimit
      rw [parseWith, Reading.run_of_error hrun] at h
      exact absurd ⟨hstopped, State.hasErrors_finish.mp h⟩ (State.not_fine_report rfl)
  | ok program after =>
      have hstopped : after.stopped = false := (Reading.Adds.of_ok hrun).unlimited hlimit
      rw [parseWith, Reading.run_of_ok hrun] at h ⊢
      obtain ⟨_, -, last, -, hend, ts, hscan, hprogram⟩ := Reading.yields_wholeProgram hlimit 0
        (Nat.le_refl 0) _ (State.sees_ofSource options source) program after hrun
        ⟨hstopped, State.hasErrors_finish.mp h⟩
      exact ⟨ts, last, hscan, hend, hprogram⟩

/-- If errors are not limited, the sources that are read without an error are those that the
grammar derives a program from, and that program is what is read. -/
theorem hasErrors_eq_false_iff (hlimit : options.maxErrors = none) :
    ((parseWith options source).hasErrors = false ↔
        ∃ program, Grammar.Reads options source program) ∧
      ∀ program, Grammar.Reads options source program →
        (parseWith options source).program = program :=
  ⟨⟨fun h => ⟨_, reads_of_hasErrors hlimit h⟩, fun ⟨_, h⟩ => h.parseWith_eq.1⟩,
    fun _ h => h.parseWith_eq.2⟩

theorem exists_reads_group :
    (∃ program, Grammar.Reads { maxErrors := none } "group g { a = [1, 2,] }" program) ∧
      ¬ ∃ program, Grammar.Reads { maxErrors := none } "group g { a = [1, 2,,] }" program := by
  constructor
  · exact (hasErrors_eq_false_iff rfl).1.mp (by decide +kernel)
  · rw [← (hasErrors_eq_false_iff rfl).1]
    decide +kernel

end ConfLang
