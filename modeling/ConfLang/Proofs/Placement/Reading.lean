import ConfLang.Proofs.Likeness.Invariant
import ConfLang.Proofs.Placement.Scan

/-!
# Where diagnostics lie

The spans of diagnostics are made of spans of tokens, and of the place of the token taken
last for the notice that there were too many errors.  So all of them lie in the source,
once a token was taken: this is a likeness of a reading with itself.

Before the first token is taken there is no place of a last token.  What can be reported
up to then are the problems on the way to the first token, and one more error if that
token begins no statement.  If this reaches the limit of errors, the notice is misplaced,
and in no other case (`misplaced_iff`).
-/

namespace ConfLang

/-! ## States whose spans lie in a source -/

/-- What a state has looked at and reported lies in a source. -/
structure State.LooksInto (source : List Char) (state : State) : Prop where
  cursor : state.cursor.StandsIn source
  lookahead : ∀ token ∈ state.lookahead, token.span.LiesIn source
  diagnostics : ∀ diagnostic ∈ state.diagnostics, diagnostic.span.LiesIn source

/-- A token was taken, and everything a state holds lies in a source. -/
structure State.LiesIn (source : List Char) (state : State) : Prop
    extends state.LooksInto source where
  previous : state.previous.LiesIn source
  begun : 0 < state.consumed

namespace State

variable {source : List Char} {state : State}

/-- Only what is listed here matters. -/
theorem LiesIn.frame {after : State} (h : state.LiesIn source) (hcursor : after.cursor = state.cursor)
    (hlookahead : after.lookahead = state.lookahead)
    (hdiagnostics : after.diagnostics = state.diagnostics)
    (hprevious : after.previous = state.previous) (hconsumed : after.consumed = state.consumed) :
    after.LiesIn source := by
  refine ⟨⟨?_, ?_, ?_⟩, ?_, ?_⟩
  · exact hcursor ▸ h.cursor
  · exact hlookahead ▸ h.lookahead
  · exact hdiagnostics ▸ h.diagnostics
  · exact hprevious ▸ h.previous
  · exact hconsumed ▸ h.begun

/-- Taking a token begins a reading. -/
theorem LooksInto.take {token : Token} {rest : List Token} (h : state.LooksInto source)
    (htoken : state.lookahead = token :: rest) : (state.take token).LiesIn source := by
  refine ⟨⟨h.cursor, fun other hother => ?_, h.diagnostics⟩, ?_, Nat.succ_pos _⟩
  · exact h.lookahead other (List.mem_of_mem_tail hother)
  · exact h.lookahead token (by simp [htoken])

theorem LiesIn.report (h : state.LiesIn source) {diagnostic : Diagnostic}
    (hspan : diagnostic.span.LiesIn source) : (state.report diagnostic).LiesIn source := by
  rw [report_frame]
  refine ⟨⟨h.cursor, h.lookahead, fun other hother => ?_⟩, h.previous, h.begun⟩
  rcases mem_diagnostics_report hother with hold | rfl | ⟨limit, -, rfl⟩
  · exact h.diagnostics _ hold
  · exact hspan
  · exact h.previous

theorem LiesIn.foldl_report {diagnostics : List Diagnostic} (h : state.LiesIn source)
    (hspans : ∀ diagnostic ∈ diagnostics, diagnostic.span.LiesIn source) :
    (diagnostics.foldl State.report state).LiesIn source := by
  induction diagnostics generalizing state with
  | nil => exact h
  | cons diagnostic rest ih =>
      obtain ⟨hdiagnostic, hrest⟩ := List.forall_mem_cons.mp hspans
      exact ih (h.report hdiagnostic) hrest

theorem LiesIn.scan (h : state.LiesIn source) : state.scan.2.LiesIn source := by
  obtain ⟨hcursor, htoken, hproblems⟩ := h.cursor.next
  rw [scan_eq]
  refine LiesIn.foldl_report ⟨⟨hcursor, ?_, h.diagnostics⟩, h.previous, h.begun⟩ ?_
  · simpa [looked] using fun token htoken' => htoken'.elim (h.lookahead token) (· ▸ htoken)
  · exact List.forall_mem_map.mpr hproblems

end State

/-! ## The invariant -/

/-- That everything a state holds lies in a source is kept once a token was taken. -/
def placement (source : List Char) : Invariant where
  state s := s.LiesIn source
  span place := place.LiesIn source
  span_through := Span.LiesIn.through
  span_origin := Span.LiesIn.origin
  lookahead h := h.lookahead
  renest _ h := h.frame rfl rfl rfl rfl rfl
  note _ h := h.frame rfl rfl rfl rfl rfl
  report h hspan := h.report hspan
  scan h := h.scan
  take h := h.toLooksInto.take
  takeRaw h _ := by
    obtain ⟨hcursor, hspan⟩ := h.cursor.rawLine
    exact ⟨⟨⟨hcursor, h.lookahead, h.diagnostics⟩, hspan, Nat.succ_pos _⟩, hspan⟩

end ConfLang
