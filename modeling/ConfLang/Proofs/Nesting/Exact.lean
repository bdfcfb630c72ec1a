import ConfLang.Proofs.Grammar.Exact
import ConfLang.Proofs.Nesting.Limits
import ConfLang.Proofs.Nesting.Room
import ConfLang.Proofs.Nesting.Statement

/-!
# The limit of nesting is exact

What is read is no higher than the limit of nesting.  The other way round, a source that is
read without an error under some limit is read in the same way under every limit that is not
lower than its program, and under any lower one it is an error that the nesting is too deep.

Under a limit that is high enough, the derivation of the program fits, so nothing is wrong and
the runs have not parted.  Under a limit that is too low, the runs must have parted, as the
program would fit into the limit otherwise.
-/

namespace ConfLang

open Reading

variable {options : Options} {source : String} {limit : Nat}

/-- It is an error of an outcome that the nesting is deeper than a limit. -/
def Outcome.TellsTooDeep (outcome : Outcome) (limit : Nat) : Prop :=
  ∃ diagnostic ∈ outcome.diagnostics,
    diagnostic.isError = true ∧ diagnostic.cause = .nestingTooDeep limit

theorem Outcome.TellsTooDeep.hasErrors {outcome : Outcome} (h : outcome.TellsTooDeep limit) :
    outcome.hasErrors = true := by
  obtain ⟨diagnostic, hmem, herror, -⟩ := h
  exact List.any_eq_true.mpr ⟨diagnostic, hmem, herror⟩

theorem State.TooDeep.finish {s : State} (h : s.TooDeep limit) (program : Program) :
    (s.finish program).TellsTooDeep limit := by
  obtain ⟨diagnostic, hmem, hcause⟩ := h
  exact ⟨diagnostic, Array.mem_toList_iff.mpr hmem, hcause⟩

theorem State.at_ofSource (source : String) (options : Options) :
    (State.ofSource source options).At options.maxNestingDepth 0 := ⟨rfl, rfl⟩

theorem height_parseWith (options : Options) (source : String) :
    (parseWith options source).program.height ≤ options.maxNestingDepth := by
  obtain ⟨-, -, hheight⟩ := within_program (Nat.lt_succ_self options.maxNestingDepth)
    (Nat.lt_succ_self _) _ (State.at_ofSource source options)
  change ∀ a, (wholeProgram.run (State.ofSource source options)).1 = .ok a → _ at hheight
  unfold parseWith
  generalize wholeProgram.run (State.ofSource source options) = first at hheight
  obtain ⟨_ | program, s⟩ := first
  · exact Nat.zero_le _
  · exact hheight program rfl

/-- Under the smaller one of two limits a source is read in the same way, or it is an error that
the nesting is too deep. -/
theorem parseWith_smaller_limit (source : String) (hunlimited : options.maxErrors = none)
    {larger : Nat} (hle : limit ≤ larger) :
    parseWith { options with maxNestingDepth := limit } source =
        parseWith { options with maxNestingDepth := larger } source ∨
      (parseWith { options with maxNestingDepth := limit } source).TellsTooDeep limit := by
  have hagree : Limits.Agree limit (State.ofSource source { options with maxNestingDepth := larger })
      (State.ofSource source { options with maxNestingDepth := limit }) :=
    ⟨rfl, hle, hunlimited, rfl⟩
  -- The smaller limit begins with fewer levels, but the others are not reached.
  have hlevels : wholeProgram.run (State.ofSource source { options with maxNestingDepth := limit }) =
      (program (Statement.read (larger + 1))).run
        (State.ofSource source { options with maxNestingDepth := limit }) :=
    (within_program (Nat.lt_succ_self limit) (Nat.lt_succ_of_le hle) _
      (State.at_ofSource source { options with maxNestingDepth := limit })).1
  have hends : Limits.Ends limit
      (wholeProgram.run (State.ofSource source { options with maxNestingDepth := larger }))
      (wholeProgram.run (State.ofSource source { options with maxNestingDepth := limit })) := by
    have hlarger : wholeProgram.run (State.ofSource source { options with maxNestingDepth := larger }) =
        (program (Statement.read (larger + 1))).run
          (State.ofSource source { options with maxNestingDepth := larger }) := rfl
    have hkept : Limits.Kept limit (program (Statement.read (larger + 1))) := Obeys.obeys
    rw [hlevels, hlarger]
    exact hkept.2 _ _ hagree
  unfold parseWith
  generalize wholeProgram.run
    (State.ofSource source { options with maxNestingDepth := larger }) = first at hends
  generalize wholeProgram.run
    (State.ofSource source { options with maxNestingDepth := limit }) = second at hends
  obtain ⟨result, s⟩ := first
  obtain ⟨result', t⟩ := second
  rcases hends with ⟨hresult, hafter⟩ | hparted
  · obtain rfl : result = result' := hresult
    obtain rfl := hafter.same
    cases result with
    | ok program => exact .inl rfl
    | error problem =>
        refine .inl ?_
        change ((s.limited limit).report problem.diagnostic).finish {} = _
        rw [State.limited_report hafter.frank]
        rfl
  · refine .inr ?_
    cases hparted with
    | reported hdeep =>
        cases result' with
        | ok program => exact hdeep.finish program
        | error problem => exact State.TooDeep.finish (hdeep.of_grows (t.grows_report _)) {}
    | failed hfrank => exact State.TooDeep.finish ⟨_, hfrank.mem_report _, rfl, rfl⟩ {}

/-- Under a limit that is not lower than its program, a source has no errors if it has none
under some limit. -/
theorem hasErrors_of_height (hunlimited : options.maxErrors = none)
    (hfine : (parseWith options source).hasErrors = false)
    (hheight : (parseWith options source).program.height ≤ limit) :
    (parseWith { options with maxNestingDepth := limit } source).hasErrors = false := by
  obtain ⟨ts, last, hscan, hend, hprogram⟩ := reads_of_hasErrors hunlimited hfine
  have hreads : Grammar.Reads { options with maxNestingDepth := limit } source
      (parseWith options source).program :=
    ⟨ts, last, hscan, hend, hprogram.of_height (by rfl) hheight⟩
  exact hreads.parseWith_eq.1

/-- The limit of nesting is exact.  No program is higher than the limit it was read under.  If
a source is read without an error under some limit, such as one that it cannot reach, and
errors are not limited, then its outcome is the same under every limit that is not lower than
its program, and under all lower limits it is an error that the nesting is too deep. -/
theorem parseWith_maxNestingDepth (options : Options) (source : String) :
    let outcome := parseWith options source
    outcome.program.height ≤ options.maxNestingDepth ∧
      (options.maxErrors = none → outcome.hasErrors = false → ∀ limit,
        let limited := parseWith { options with maxNestingDepth := limit } source
        (outcome.program.height ≤ limit → limited = outcome) ∧
          (limit < outcome.program.height → limited.TellsTooDeep limit)) := by
  refine ⟨height_parseWith options source, fun hunlimited hfine limit => ⟨fun hheight => ?_,
    fun hheight => ?_⟩⟩
  · have hlimited := hasErrors_of_height hunlimited hfine hheight
    -- Whichever limit is the smaller one, there are no errors under it.
    rcases Nat.le_total limit options.maxNestingDepth with hle | hle
    · refine (parseWith_smaller_limit source hunlimited hle).resolve_right fun hdeep => ?_
      exact absurd hdeep.hasErrors (by rw [hlimited]; decide)
    · refine ((parseWith_smaller_limit source hunlimited hle).resolve_right fun hdeep => ?_).symm
      exact absurd hdeep.hasErrors (by rw [hfine]; decide)
  · have hle : limit ≤ options.maxNestingDepth :=
      Nat.le_trans (Nat.le_of_lt hheight) (height_parseWith options source)
    refine (parseWith_smaller_limit source hunlimited hle).resolve_left fun hsame => ?_
    have hfits := height_parseWith { options with maxNestingDepth := limit } source
    rw [hsame] at hfits
    exact absurd hheight (Nat.not_lt.mpr hfits)

theorem exists_exact_limit :
    (parseWith { maxErrors := none } "a = [!f()]").program.height = 3 ∧
      parseWith { maxErrors := none, maxNestingDepth := 3 } "a = [!f()]" =
        parseWith { maxErrors := none } "a = [!f()]" ∧
      (parseWith { maxErrors := none, maxNestingDepth := 2 } "a = [!f()]").TellsTooDeep 2 := by
  have hheight : (parseWith { maxErrors := none } "a = [!f()]").program.height = 3 := by
    decide +kernel
  have hexact := (parseWith_maxNestingDepth { maxErrors := none } "a = [!f()]").2 rfl
    (by decide +kernel)
  exact ⟨hheight, (hexact 3).1 (Nat.le_of_eq hheight), (hexact 2).2 (by rw [hheight]; decide)⟩

end ConfLang
