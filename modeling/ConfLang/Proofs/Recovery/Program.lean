import ConfLang.Proofs.Recovery.Balance
import ConfLang.Proofs.Recovery.Statement

/-!
# Recovery skips exactly the construct that cannot be read

Without a limit of errors, a source of the lenient grammar is read as the program that is left
without the constructs that cannot be read.  Each of them gives one error, and there are no
others (`parseWith_of_readsWith`).  Inside of such a construct may stand any body of the grammar
without raw text, and with nothing ignored behind its marks (`balanced_body`).

Raw text is another matter.  What is a text to the grammar is read as tokens when it is skipped,
and a quote in it is never closed (`exists_skipped_text`).
-/

namespace ConfLang

variable {options : Options} {source : String} {program : Program} {problems : List Problem}

namespace Reading

open Grammar

variable {c c' : Cursor} {ts : List Token}

/-- A program consists of the statements up to the end of the source. -/
theorem GivesWith.wholeProgram (hlimit : options.maxErrors = none) {statements : List Statement}
    (h : GivesWith problems options {} c 0
      (statementsUntil atEndOfProgram (Statement.read (options.maxNestingDepth + 1))) c' 1
      statements) :
    GivesWith problems options {} c 0 Reading.wholeProgram c' 1 ⟨statements⟩ := by
  have hprogram : GivesWith problems options {} c 0
      (Reading.program (Statement.read (options.maxNestingDepth + 1))) c' 1 ⟨statements⟩ :=
    (gives_note _).bind_with (h.bind_gives hlimit (gives_warnDuplicates _).bind_pure)
  refine Leads.gives (leads_get fun s hoptions hnesting _ => ?_) hprogram
  rw [State.levels_of_start hoptions hnesting]
  exact .refl

theorem givesWith_wholeProgram (hlimit : options.maxErrors = none)
    (h : lenientBody options options.maxNestingDepth false ts program.statements problems)
    (hscan : c.Scans ts c') (hend : c'.AtEnd) :
    GivesWith problems options {} c 0 wholeProgram c' 1 program := by
  have hroom : ({} : Nesting).depth + options.maxNestingDepth = options.maxNestingDepth :=
    Nat.zero_add _
  have hstatements := coversBody_mixed (n := {}) hlimit hroom
    (opening_lenientStatement options.maxNestingDepth false)
    (covers_lenientStatement hlimit hroom rfl) closesAt_program h hscan (by rw [hend.1]; rfl)
    (Nat.zero_le 1)
  exact hstatements.wholeProgram hlimit

end Reading

/-- If the program is read from the beginning of a source to its end, the problems on the way are
the errors of the outcome. -/
theorem parseWith_of_givesWith {last : Cursor}
    (h : Reading.GivesWith problems options {} (.ofSource source) 0 Reading.wholeProgram last 1
      program) (hend : last.AtEnd) :
    (parseWith options source).program = program ∧
      (parseWith options source).errors = problems.map Problem.diagnostic := by
  obtain ⟨j, hj, s, t, hs, hagree, hrun⟩ := h 0 (Nat.le_refl 0) _
    (State.sees_ofSource options source)
  obtain ⟨prior, hprior, herrors⟩ := hagree.told.diagnostics
  have hall : t.errors = problems.map Problem.diagnostic := by
    have hprior : t.diagnostics.toList = prior ++ s.diagnostics.toList := hprior
    have hsplit : t.errors = prior.filter (·.isError) ++ s.errors := by
      rw [State.errors, hprior, List.filter_append]
      rfl
    rw [hsplit, hs.errors_of_problems hend.2 hj, List.append_nil, herrors]
  rw [parseWith, hrun]
  exact ⟨rfl, hall⟩

/-- Without a limit of errors, all that is reported as an error are the constructs of a source
that cannot be read, each once, and all else is in the program. -/
theorem parseWith_of_readsWith (hlimit : options.maxErrors = none)
    (h : Grammar.ReadsWith options source program problems) :
    (parseWith options source).program = program ∧
      (parseWith options source).errors = problems.map Problem.diagnostic := by
  obtain ⟨ts, last, hscan, hend, h⟩ := h
  exact parseWith_of_givesWith (Reading.givesWith_wholeProgram hlimit h hscan hend) hend

/-! ## Examples -/

/-- Tokens with nothing wrong in front of them stand in the source. -/
theorem Cursor.scans_ahead {cursor : Cursor} {count : Nat} (hproblems : cursor.pending count = [])
    (hkinds : ∀ token ∈ cursor.ahead count, token.kind ≠ .endOfFile) :
    cursor.Scans (cursor.ahead count) (cursor.behind count) := by
  induction count generalizing cursor with
  | zero => exact .nil
  | succ count ih =>
      rw [pending, List.append_eq_nil_iff] at hproblems
      rw [ahead, List.forall_mem_cons] at hkinds
      exact .token hproblems.1 hkinds.1 (ih hproblems.2 hkinds.2)

/-- Behind a block in braces that belongs to nothing, and a group without room. -/
theorem readsWith_skipped : Grammar.ReadsWith { maxNestingDepth := 0, maxErrors := none }
    "{ b = 2 }\ngroup g { }\na = 1"
    ⟨[.assign ⟨"a", false, ⟨22, 23, 3, 1⟩⟩ (.integer 1 ⟨26, 27, 3, 5⟩) ⟨22, 27, 3, 1⟩]⟩
    [⟨.unexpected .statement (.symbol .openBrace), ⟨0, 1, 1, 1⟩⟩,
      ⟨.nestingTooDeep 0, ⟨18, 19, 2, 9⟩⟩] := by
  have hscan : (Cursor.ofSource "{ b = 2 }\ngroup g { }\na = 1").Scans _ _ :=
    Cursor.scans_ahead (show Cursor.pending _ 12 = [] by decide +kernel) (by decide +kernel)
  have htokens : (Cursor.ofSource "{ b = 2 }\ngroup g { }\na = 1").ahead 12 =
      [⟨.symbol .openBrace, ⟨0, 1, 1, 1⟩⟩, ⟨.name "b" false, ⟨2, 3, 1, 3⟩⟩,
        ⟨.symbol .assign, ⟨4, 5, 1, 5⟩⟩, ⟨.integer 2, ⟨6, 7, 1, 7⟩⟩,
        ⟨.symbol .closeBrace, ⟨8, 9, 1, 9⟩⟩] ++
      ([⟨.keyword .group, ⟨10, 15, 2, 1⟩⟩, ⟨.name "g" false, ⟨16, 17, 2, 7⟩⟩,
        ⟨.symbol .openBrace, ⟨18, 19, 2, 9⟩⟩, ⟨.symbol .closeBrace, ⟨20, 21, 2, 11⟩⟩] ++
      ([⟨.name "a" false, ⟨22, 23, 3, 1⟩⟩, ⟨.symbol .assign, ⟨24, 25, 3, 3⟩⟩,
        ⟨.integer 1, ⟨26, 27, 3, 5⟩⟩] ++ [])) := by
    decide +kernel
  rw [htokens] at hscan
  refine ⟨_, _, hscan, ⟨by decide +kernel, by decide +kernel⟩, ?_⟩
  refine .rejected (.block (.quiet rfl (.quiet rfl (.quiet rfl .nil)))) ?_
    (by simp [Grammar.StartsBelow])
  refine .rejected (.group rfl .name .nil) ?_ (by simp [Grammar.StartsBelow])
  have hnone : ([] : List Problem) = [] ++ [] := rfl
  rw [hnone]
  exact .statement ⟨.assign .name (.operand (.suffixed (.primary .integer))), rfl⟩ .nil

theorem errors_skipped :
    (parseWith { maxNestingDepth := 0, maxErrors := none }
        "{ b = 2 }\ngroup g { }\na = 1").errors =
      [.error (.unexpected .statement (.symbol .openBrace)) ⟨0, 1, 1, 1⟩,
        .error (.nestingTooDeep 0) ⟨18, 19, 2, 9⟩] :=
  (parseWith_of_readsWith rfl readsWith_skipped).2

/-- A text with a quote is no error by itself, but it is one inside a construct that is
skipped. -/
theorem exists_skipped_text :
    (parseWith { maxErrors := none } "%error don't\n").errors = [] ∧
      (parseWith { maxErrors := none } "\x7b\n%error don't\n\x7d\na = 1").errors =
        [.error (.unexpected .statement (.symbol .openBrace)) ⟨0, 1, 1, 1⟩,
          .error (.unterminated .name) ⟨12, 13, 2, 11⟩] := by
  decide +kernel

end ConfLang
