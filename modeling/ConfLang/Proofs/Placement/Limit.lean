import ConfLang.Proofs.Adding
import ConfLang.Proofs.Placement.Reading

/-!
# Reports up to the limit of errors

As long as there is room below the limit, errors are reported one after the other.  The
error that reaches the limit stops the reading with a notice at the place of the token
taken last.
-/

namespace ConfLang

namespace State

variable {source : List Char} {state : State} {problems : List Problem} {limit : Nat}

/-- Some more errors can be reported without reaching the limit. -/
def HasRoom (state : State) (count : Nat) : Prop :=
  state.stopped = false ∧
    (0 < count → ∀ limit ∈ state.options.maxErrors, state.errorCount + count < limit)

theorem report_of_room (h : state.HasRoom 1) (problem : Problem) :
    state.report problem.diagnostic =
      { state with
        diagnostics := state.diagnostics.push problem.diagnostic
        errorCount := state.errorCount + 1 } := by
  obtain ⟨hstopped, hlimit⟩ := h
  have herror : problem.diagnostic.isError = true := rfl
  simp only [report, hstopped, Bool.false_eq_true, if_false, herror, if_true, countError]
  cases hmax : state.options.maxErrors with
  | none => rfl
  | some limit =>
      simp only
      rw [if_neg (Nat.not_le.mpr (hlimit Nat.one_pos limit hmax))]

theorem foldl_report_of_room (h : state.HasRoom problems.length) :
    (problems.map Problem.diagnostic).foldl report state =
      { state with
        diagnostics := state.diagnostics ++ (problems.map Problem.diagnostic).toArray
        errorCount := state.errorCount + problems.length } := by
  induction problems generalizing state with
  | nil => simp
  | cons problem rest ih =>
      have hfirst : state.HasRoom 1 := by
        refine ⟨h.1, fun _ limit hlimit => ?_⟩
        have := h.2 (Nat.succ_pos _) limit hlimit
        rw [List.length_cons] at this
        omega
      rw [List.map_cons, List.foldl_cons, report_of_room hfirst, ih]
      · simp [Nat.add_assoc, Nat.add_comm 1]
      · refine ⟨h.1, fun _ limit hlimit => ?_⟩
        have := h.2 (Nat.succ_pos _) limit hlimit
        rw [List.length_cons] at this
        simp only
        omega

/-- A report that reaches the limit says so at the place of the last token. -/
theorem report_at_limit (hstopped : state.stopped = false)
    (hlimit : state.options.maxErrors = some limit) (hle : limit ≤ state.errorCount + 1)
    (problem : Problem) : (state.report problem.diagnostic).stopped = true ∧
      .error (.tooManyErrors limit) state.previous ∈ (state.report problem.diagnostic).diagnostics := by
  have herror : problem.diagnostic.isError = true := rfl
  simp [report, hstopped, herror, countError, hlimit, hle, stop, note]

/-- Errors that reach the limit stop the reading. -/
theorem foldl_report_at_limit (hstopped : state.stopped = false)
    (hlimit : state.options.maxErrors = some limit) (hpos : problems ≠ [])
    (hle : limit ≤ state.errorCount + problems.length) :
    ((problems.map Problem.diagnostic).foldl report state).stopped = true ∧
      .error (.tooManyErrors limit) state.previous ∈
        ((problems.map Problem.diagnostic).foldl report state).diagnostics := by
  induction problems generalizing state with
  | nil => exact absurd rfl hpos
  | cons problem rest ih =>
      rw [List.map_cons, List.foldl_cons]
      by_cases hfull : limit ≤ state.errorCount + 1
      · obtain ⟨hafter, hnotice⟩ := report_at_limit hstopped hlimit hfull problem
        have hkept := (grows_foldl_report (rest.map Problem.diagnostic) _).stopped hafter
        exact ⟨hkept.1, hkept.2 ▸ hnotice⟩
      · have hroom : state.HasRoom 1 := by
          refine ⟨hstopped, fun _ other hother => ?_⟩
          rw [Option.mem_def, hlimit, Option.some_inj] at hother
          omega
        rw [List.length_cons] at hle
        rw [report_of_room hroom]
        refine ih hstopped hlimit ?_ (by simp only; omega)
        rintro rfl
        simp only [List.length_nil] at hle
        omega

theorem mem_diagnostics_foldl_report {other : Diagnostic}
    (h : other ∈ ((problems.map Problem.diagnostic).foldl report state).diagnostics) :
    other ∈ state.diagnostics ∨ other ∈ problems.map Problem.diagnostic ∨
      ∃ limit, state.options.maxErrors = some limit ∧
        other = .error (.tooManyErrors limit) state.previous := by
  induction problems generalizing state with
  | nil => exact .inl h
  | cons problem rest ih =>
      rw [List.map_cons, List.foldl_cons] at h
      rcases ih h with hold | hnew | ⟨limit, hlimit, rfl⟩
      · rcases mem_diagnostics_report hold with hold | rfl | ⟨limit, hlimit, rfl⟩
        · exact .inl hold
        · exact .inr (.inl List.mem_cons_self)
        · exact .inr (.inr ⟨limit, hlimit, rfl⟩)
      · exact .inr (.inl (List.mem_cons_of_mem _ hnew))
      · rw [report_frame] at hlimit ⊢
        exact .inr (.inr ⟨limit, hlimit, rfl⟩)

end State

/-- A step ends in a state that has stopped, with some diagnostics. -/
def EndsStopped {α : Type} (diagnostics : Array Diagnostic) : EStateM.Result Problem State α → Prop
  | .ok _ after => after.stopped = true ∧ after.diagnostics = diagnostics
  | .error _ after => after.stopped = true ∧ after.diagnostics = diagnostics

/-- When the reading has stopped, skipping reports nothing. -/
theorem recover_of_stopped {s : State} (hstopped : s.stopped = true) :
    EndsStopped s.diagnostics (EStateM.run (Reading.recover 0) s) := by
  cases hrun : EStateM.run (Reading.recover 0) s with
  | ok _ after => exact (Reading.Adds.of_ok hrun).stopped hstopped
  | error problem after => exact (Reading.Adds.of_error hrun).stopped hstopped

end ConfLang
