import ConfLang.Proofs.Likeness.Statement

/-!
# Invariants of readings

With the same reading on both sides, a likeness says what the reading keeps.  For this
only a fact about states and a fact about spans are needed, such that the operations on
states keep them: an `Invariant`.  The fact about the state must not depend on its nesting
or its log.
-/

namespace ConfLang

namespace State

/-- The log decides nothing. -/
theorem report_withLog (state : State) (log : Array Event) (diagnostic : Diagnostic) :
    { state with log }.report diagnostic =
      { state.report diagnostic with log := ({ state with log }.report diagnostic).log } := by
  unfold report countError
  simp only
  split
  · rfl
  · split
    · split
      · split <;> rfl
      · rfl
    · rfl

theorem foldl_report_withLog (state : State) (log : Array Event) (diagnostics : List Diagnostic) :
    diagnostics.foldl report { state with log } =
      { diagnostics.foldl report state with
        log := (diagnostics.foldl report { state with log }).log } := by
  induction diagnostics generalizing state log with
  | nil => rfl
  | cons diagnostic rest ih =>
      rw [List.foldl_cons, List.foldl_cons, report_withLog, ih]

theorem scan_withLog (state : State) (log : Array Event) :
    { state with log }.scan.2 = { state.scan.2 with log := { state with log }.scan.2.log } := by
  rw [scan_eq, scan_eq]
  exact foldl_report_withLog state.looked log _

end State

/-- Alike diagnostics are the same if alike spans are. -/
theorem Diagnostic.eq_of_like {first second : Diagnostic} (hspan : second.span = first.span)
    (hcause : first.cause.Like (fun span span' => span' = span) second.cause)
    (hseverity : second.severity = first.severity) : second = first := by
  have hsame : second.cause = first.cause := by
    revert hcause
    cases first.cause <;> simp only [Cause.Like]
    case unclosed =>
      rintro ⟨_, rfl, h⟩
      exact h
    case missingEndif =>
      rintro ⟨_, rfl, h⟩
      exact h
    case duplicateDeclaration =>
      rintro ⟨_, rfl, h⟩
      exact h
    all_goals exact id
  obtain ⟨⟨cause, span⟩, severity⟩ := first
  obtain ⟨⟨cause', span'⟩, severity'⟩ := second
  simp only at hspan hsame hseverity
  rw [hspan, hsame, hseverity]

/-- A fact about states, and one about the spans they hold, that all steps of readings
keep. -/
structure Invariant where
  state : State → Prop
  span : Span → Prop
  span_through : ∀ {first last}, span first → span last → span (first.through last)
  span_origin : ∀ {place}, span place → span place.origin
  lookahead : ∀ {s}, state s → ∀ token ∈ s.lookahead, span token.span
  renest : ∀ {s} (nesting : Nesting), state s → state { s with nesting }
  note : ∀ {s} (event : Event), state s → state (s.note event)
  report : ∀ {s diagnostic}, state s → span diagnostic.span → state (s.report diagnostic)
  scan : ∀ {s}, state s → state s.scan.2
  take : ∀ {s token rest}, state s → s.lookahead = token :: rest → state (s.take token)
  takeRaw : ∀ {s}, state s → s.lookahead = [] →
    state (s.takeRaw s.cursor.rawLine) ∧ span s.cursor.rawLine.span

namespace Invariant

/-- The same state on both sides but for the log, for which the invariant holds.  Of trees
only the spans matter, and those of the names that are declared. -/
def likeness (I : Invariant) : Likeness where
  state n s t := (∃ log, t = { s with log }) ∧ s.nesting = n ∧ I.state s
  span first second := .sure (second = first ∧ I.span first)
  token first second := .sure (second = first ∧ I.span first.span)
  text _ := True
  identifier first second := .sure (second = first ∧ I.span first.span)
  expression _ first second := .sure (second.span = first.span ∧ I.span first.span)
  statement _ first second := .sure ((second.span = first.span ∧ I.span first.span) ∧
    second.declaredName? = first.declaredName? ∧
    ∀ name ∈ first.declaredName?, I.span name.span)
  token_kind := by
    rintro _ _ _ ⟨rfl, -⟩
    exact .same _
  token_span h := ⟨congrArg Token.span h.1, h.2⟩
  token_place := by
    rintro _ _ _ ⟨rfl, h⟩ -
    exact ⟨rfl, h⟩
  span_through := by
    rintro _ _ _ _ _ ⟨rfl, hfirst⟩ ⟨rfl, hlast⟩
    exact ⟨rfl, I.span_through hfirst hlast⟩
  span_origin := by
    rintro _ _ _ ⟨rfl, h⟩
    exact ⟨rfl, I.span_origin h⟩
  text_empty := trivial
  nesting := by
    rintro _ _ _ ⟨⟨_, rfl⟩, h, -⟩
    exact ⟨h, h⟩
  options := by
    rintro _ _ _ ⟨⟨_, rfl⟩, -⟩
    rfl
  stopped := by
    rintro _ _ _ ⟨⟨_, rfl⟩, -⟩
    rfl
  lookahead := by
    rintro _ _ _ ⟨⟨_, rfl⟩, -, h⟩
    exact List.forall₂_same.mpr fun token htoken => ⟨rfl, I.lookahead h token htoken⟩
  renest := by
    rintro _ _ _ m ⟨⟨log, rfl⟩, -, h⟩
    exact ⟨⟨log, rfl⟩, rfl, I.renest m h⟩
  note := by
    rintro _ _ _ event₁ event₂ ⟨⟨log, rfl⟩, hnesting, h⟩
    exact ⟨⟨_, rfl⟩, hnesting, I.note event₁ h⟩
  report := by
    rintro _ s _ first second ⟨⟨log, rfl⟩, hnesting, h⟩ hspan hcause hseverity
    obtain rfl : second = first := Diagnostic.eq_of_like hspan.1
      ((hcause.resolve_right id).imp fun _ _ hlike => hlike.1) hseverity
    exact ⟨⟨_, s.report_withLog log _⟩, by rw [State.report_frame, hnesting], I.report h hspan.2⟩
  scan := by
    rintro _ s _ ⟨⟨log, rfl⟩, hnesting, h⟩
    refine ⟨⟨_, s.scan_withLog log⟩, ?_, I.scan h⟩
    rw [State.scan_eq, State.foldl_report_frame, State.looked, hnesting]
  take := by
    rintro _ s _ token₁ token₂ rest₁ rest₂ ⟨⟨log, rfl⟩, hnesting, h⟩ hfirst hsecond -
    obtain ⟨rfl, -⟩ := List.cons.inj (hfirst.symm.trans hsecond)
    exact ⟨⟨log, rfl⟩, hnesting, I.take h hfirst⟩
  takeRaw := by
    rintro _ s _ ⟨⟨log, rfl⟩, hnesting, h⟩ hnone
    obtain ⟨hafter, hspan⟩ := I.takeRaw h hnone
    exact ⟨⟨⟨log, rfl⟩, hnesting, hafter⟩, rfl, trivial, rfl, hspan⟩
  remaining := by
    rintro _ _ _ _ _ ⟨⟨_, rfl⟩, -⟩ ⟨⟨_, rfl⟩, -⟩ - - - -
    rfl
  consumed := by
    rintro _ _ _ _ _ ⟨⟨_, rfl⟩, -⟩ ⟨⟨_, rfl⟩, -⟩
    rfl
  line := by
    rintro _ _ _ _ _ ⟨⟨_, rfl⟩, -⟩ - ⟨rfl, -⟩
    rfl
  identifier_name h := .inl (congrArg Identifier.name h.1)
  identifier_place := by
    rintro _ _ _ ⟨rfl, h⟩
    exact ⟨rfl, h⟩
  expression_span h := h
  statement_span h := h.1
  statement_declared := by
    rintro _ first second s ⟨-, hsame, h⟩
    rw [hsame]
    cases hname : first.declaredName? with
    | none => trivial
    | some name => exact ⟨rfl, h name hname⟩
  identifier_of_token := by
    rintro _ _ _ _ _ _ ⟨rfl, h⟩ hkind hkind'
    cases hkind.symm.trans hkind'
    exact ⟨rfl, h⟩
  integer htoken _ := ⟨congrArg Token.span htoken.1, htoken.2⟩
  float htoken _ := ⟨congrArg Token.span htoken.1, htoken.2⟩
  string htoken _ _ := ⟨congrArg Token.span htoken.1, htoken.2⟩
  name hname := ⟨congrArg Identifier.span hname.1, hname.2⟩
  array _ hspan := hspan
  negation _ hspan := hspan
  grouped _ hspan := hspan
  binary _ _ hspan := hspan
  call _ _ _ hspan := hspan
  member _ _ hspan := hspan
  defined _ hspan := hspan
  constant hname _ _ hspan := ⟨hspan, congrArg some hname.1, by
    rintro _ ⟨⟩
    exact hname.2⟩
  group hname _ hspan := ⟨hspan, congrArg some hname.1, by
    rintro _ ⟨⟩
    exact hname.2⟩
  assign _ _ hspan := ⟨hspan, rfl, nofun⟩
  append _ _ hspan := ⟨hspan, rfl, nofun⟩
  expand _ _ _ hspan := ⟨hspan, rfl, nofun⟩
  choice _ _ _ hspan := ⟨hspan, rfl, nofun⟩
  conditional _ _ _ _ hspan := ⟨hspan, rfl, nofun⟩
  message _ hspan := ⟨hspan, rfl, nofun⟩
  passage htoken _ := ⟨⟨congrArg Token.span htoken.1, htoken.2⟩, rfl, nofun⟩

/-! ## What a reading keeps -/

variable {I : Invariant} {α : Type} {f : Reading α} {n : Nesting}
  {value : α → α → Lasting}

/-- How a reading ends that is alike to itself. -/
theorem of_alike (h : I.likeness.Alike n (.sure True) f f value) {s : State}
    (hs : I.state s) (hnesting : s.nesting = n) :
    match EStateM.run f s with
    | .ok a after => I.state after ∧ after.nesting = n ∧ s.Grows after ∧ value a a after
    | .error problem after =>
      I.state after ∧ after.nesting = n ∧ s.Grows after ∧ I.span problem.span := by
  have hends := h s s ⟨⟨⟨s.log, rfl⟩, hnesting, hs⟩, trivial⟩
  cases hrun : EStateM.run f s with
  | ok a after =>
      rw [hrun] at hends
      exact ⟨hends.1.2.2, hends.1.2.1, hends.2.1.grows, hends.2.2⟩
  | error problem after =>
      rw [hrun] at hends
      exact ⟨hends.1.2.2, hends.1.2.1, hends.2.1.grows, hends.2.2.1.2⟩

end Invariant

end ConfLang
