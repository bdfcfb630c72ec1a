import ConfLang.Proofs.Grammar.View
import ConfLang.Proofs.Likeness.Statement
import ConfLang.Proofs.Relocation.Cursor

/-!
# Reading a source behind another one

A source is read in the same way if it stands behind another one.  Where the other one ends,
a parser has taken tokens and knows the place of the last of them, but nothing that is read
depends on that: recovery asks for the place of the last token only behind a token that it has
skipped itself.  So the states of the two readings are alike (`continuation`) from the point on
where the first token of the source was looked at, and all that was read of it is the same but
for its place.

Of what was reported only the errors are compared.  There may be more warnings behind another
source, as names may be declared in both.
-/

namespace ConfLang

/-- Where a source is continued: how far the continuation is moved, how many tokens were taken
before it, and the place of the last of them. -/
structure Seam where
  displacement : Displacement
  consumed : Nat
  previous : Span

/-! ## Alike diagnostics -/

theorem Cause.eq_mapSpans_of_like {f : Span → Span} {first second : Cause}
    (h : first.Like (fun span span' => span' = f span) second) : second = first.mapSpans f := by
  cases first <;> simp only [Like] at h <;>
    first
      | exact h
      | (obtain ⟨_, rfl, rfl⟩ := h; rfl)

theorem Diagnostic.eq_mapSpans_of_like {f : Span → Span} {first second : Diagnostic}
    (hspan : second.span = f first.span)
    (hcause : first.cause.Like (fun span span' => span' = f span) second.cause)
    (hseverity : second.severity = first.severity) : second = first.mapSpans f := by
  obtain ⟨⟨cause, span⟩, severity⟩ := second
  simp only at hspan hcause hseverity
  rw [mapSpans, Problem.mapSpans, hspan, hseverity, Cause.eq_mapSpans_of_like hcause]

/-! ## States -/

namespace State

/-- The tokens of a state that were looked at and not taken have bytes of the source, which lie
in front of its cursor. -/
structure LooksAhead (s : State) : Prop where
  size : s.size = s.cursor.position.offset + s.cursor.left
  lookahead : ∀ token ∈ s.lookahead, token.kind ≠ .endOfFile →
    0 < token.span.stop ∧ token.span.stop ≤ s.cursor.position.offset

/-- A state in a source, and one that is as far in the continuation of another source. -/
structure Follows (seam : Seam) (s t : State) : Prop extends s.LooksAhead where
  options : t.options = s.options
  unlimited : s.options.maxErrors = none
  going : s.stopped = false
  going' : t.stopped = false
  size' : t.size = s.size + seam.displacement.bytes
  cursor : t.cursor = s.cursor.moved seam.displacement
  lookahead' : t.lookahead = s.lookahead.map (Token.moved seam.displacement)
  errors : t.errors = s.errors.map (Diagnostic.moved seam.displacement)
  consumed : t.consumed = s.consumed + seam.consumed
  /-- The place of the last token, before the first token of the continuation was taken and
  behind it. -/
  previous : s.consumed = 0 ∧ s.lookahead ≠ [] ∧ s.previous = {} ∧ t.previous = seam.previous ∨
    0 < s.consumed ∧ 0 < s.previous.stop ∧ s.previous.stop ≤ s.cursor.position.offset ∧
      t.previous = s.previous.moved seam.displacement

variable {seam : Seam} {s t : State}

namespace Follows

theorem report (h : s.Follows seam t) (diagnostic : Diagnostic) :
    (s.report diagnostic).Follows seam
      (t.report (diagnostic.moved seam.displacement)) := by
  have hunlimited : t.options.maxErrors = none := by rw [h.options, h.unlimited]
  obtain ⟨hgoing, herrors⟩ := report_open diagnostic h.going (.inl h.unlimited)
  obtain ⟨hgoing', herrors'⟩ :=
    report_open (diagnostic.moved seam.displacement) h.going' (.inl hunlimited)
  have hall : (t.report (diagnostic.moved seam.displacement)).errors =
      (s.report diagnostic).errors.map (Diagnostic.moved seam.displacement) := by
    rw [herrors, herrors', h.errors, List.map_append]
    cases hserious : diagnostic.isError <;>
      simp only [List.filter_singleton, hserious, show (diagnostic.moved seam.displacement).isError =
        diagnostic.isError from rfl, cond_true, cond_false, List.map_cons, List.map_nil]
  rw [report_frame s] at hgoing hall ⊢
  rw [report_frame t] at hgoing' hall ⊢
  exact ⟨⟨h.size, h.lookahead⟩, h.options, h.unlimited, hgoing, hgoing', h.size', h.cursor,
    h.lookahead', hall, h.consumed, h.previous⟩

theorem foldl_report (h : s.Follows seam t) (diagnostics : List Diagnostic) :
    (diagnostics.foldl State.report s).Follows seam
      ((diagnostics.map (Diagnostic.moved seam.displacement)).foldl State.report t) := by
  induction diagnostics generalizing s t with
  | nil => exact h
  | cons diagnostic rest ih => exact ih (h.report diagnostic)

theorem looked (h : s.Follows seam t) : s.looked.Follows seam t.looked := by
  obtain ⟨hbytes, hstop⟩ := s.cursor.offset_next
  obtain ⟨htoken, -, hcursor⟩ := s.cursor.next_moved (d := seam.displacement)
  have hle := s.cursor.offset_le_next
  refine ⟨⟨h.size.trans hbytes.symm, fun token hmem hkind => ?_⟩, h.options, h.unlimited, h.going,
    h.going', h.size', ?_, ?_, h.errors, h.consumed, ?_⟩
  · rcases List.mem_append.mp hmem with hold | hnew
    · obtain ⟨hpos, hinside⟩ := h.lookahead token hold hkind
      exact ⟨hpos, hinside.trans hle⟩
    · obtain rfl := List.mem_singleton.mp hnew
      have hless := Cursor.left_next_lt hkind
      rw [hstop]
      exact ⟨by omega, Nat.le_refl _⟩
  · rw [State.looked, State.looked, h.cursor, hcursor]
  · rw [State.looked, State.looked, h.cursor, htoken, h.lookahead', List.map_append]
    rfl
  · rcases h.previous with ⟨hnone, -, hplaces⟩ | ⟨hsome, hpos, hinside, hlast⟩
    · exact .inl ⟨hnone, List.concat_ne_nil _ _, hplaces⟩
    · exact .inr ⟨hsome, hpos, hinside.trans hle, hlast⟩

theorem scan (h : s.Follows seam t) : s.scan.2.Follows seam t.scan.2 := by
  have hproblems := (s.cursor.next_moved (d := seam.displacement)).2.1
  rw [scan_eq, scan_eq, h.cursor, hproblems]
  have hall := h.looked.foldl_report (s.cursor.next.problems.map Problem.diagnostic)
  rw [List.map_map] at hall ⊢
  exact hall

theorem take (h : s.Follows seam t) {token : Token} {rest : List Token}
    (hfirst : s.lookahead = token :: rest) (hkind : token.kind ≠ .endOfFile) :
    (s.take token).Follows seam (t.take (token.moved seam.displacement)) := by
  have hmem : token ∈ s.lookahead := hfirst ▸ List.mem_cons_self
  obtain ⟨hpos, hinside⟩ := h.lookahead token hmem hkind
  refine ⟨⟨h.size, fun other hother => h.lookahead other (List.mem_of_mem_tail hother)⟩, h.options,
    h.unlimited, h.going, h.going', h.size', h.cursor, ?_, h.errors, ?_, ?_⟩
  · rw [State.take, State.take, h.lookahead', List.map_tail]
  · rw [State.take, State.take, h.consumed]
    exact Nat.add_right_comm _ _ _
  · exact .inr ⟨Nat.succ_pos _, hpos, hinside, rfl⟩

theorem takeRaw (h : s.Follows seam t) (hnone : s.lookahead = []) :
    (s.takeRaw s.cursor.rawLine).Follows seam (t.takeRaw t.cursor.rawLine) := by
  obtain ⟨htext, hspan, hcursor⟩ := s.cursor.rawLine_moved (d := seam.displacement)
  have hbytes : s.cursor.rawLine.cursor.position.offset + s.cursor.rawLine.cursor.left =
      s.cursor.position.offset + s.cursor.left := by
    rw [Cursor.rawLine, Cursor.offset_advance, Cursor.offset_advance]
  have hle := Cursor.left_le_of_suffix (Cursor.rest_rawLine s.cursor)
  refine ⟨⟨h.size.trans hbytes.symm, fun token hmem => ?_⟩, h.options, h.unlimited, h.going, h.going',
    h.size', ?_, h.lookahead', h.errors, ?_, ?_⟩
  · rw [State.takeRaw, hnone] at hmem
    exact absurd hmem List.not_mem_nil
  · rw [State.takeRaw, State.takeRaw, h.cursor, hcursor]
  · rw [State.takeRaw, State.takeRaw, h.consumed]
    exact Nat.add_right_comm _ _ _
  · rcases h.previous with ⟨-, hlookahead, -⟩ | ⟨-, hpos, hinside, -⟩
    · exact absurd hnone hlookahead
    · refine .inr ⟨Nat.succ_pos _, ?_, Nat.le_refl _, ?_⟩
      · change 0 < s.cursor.rawLine.cursor.position.offset
        omega
      · rw [State.takeRaw, State.takeRaw, h.cursor, hspan]

/-- The measure that ends repetitions decides alike, also when the first token is taken. -/
theorem remaining {s' t' : State} (hseam : seam.previous.stop ≤ seam.displacement.bytes)
    (h : s.Follows seam t) (h' : s'.Follows seam t') (hgrows : s.Grows s') :
    s'.remaining < s.remaining ↔ t'.remaining < t.remaining := by
  have hsize := hgrows.size
  have hbytes := h'.size
  have hsize' := h.size'
  have hsize'' := h'.size'
  have hconsumed := hgrows.consumed
  simp only [State.remaining]
  rcases h.previous with ⟨-, -, hfirst, hlast⟩ | ⟨hsome, -, -, hlast⟩ <;>
    rcases h'.previous with ⟨hnone, -, hfirst', hlast'⟩ | ⟨-, hpos, hinside, hlast'⟩
  · rw [hfirst, hfirst', hlast, hlast']
    omega
  · -- The first token has bytes, so less is left of both sources.
    rw [hfirst, hlast, hlast']
    simp only [Span.moved]
    omega
  · omega
  · rw [hlast, hlast']
    simp only [Span.moved]
    omega

theorem consumed_iff {s' t' : State} (h : s.Follows seam t) (h' : s'.Follows seam t') :
    s'.consumed = s.consumed ↔ t'.consumed = t.consumed := by
  rw [h.consumed, h'.consumed]
  omega

theorem line_iff (h : s.Follows seam t) (hbegun : 0 < s.consumed) (span : Span) :
    span.line = s.previous.line ↔ (span.moved seam.displacement).line = t.previous.line := by
  rcases h.previous with ⟨hnone, -⟩ | ⟨-, -, -, hlast⟩
  · omega
  · rw [hlast]
    simp only [Span.moved]
    omega

end Follows

end State

/-! ## Trees -/

namespace Lasting

variable {f : Span → Span} {α : Type} {s : State}

/-- The second of two things is the first one after a change. -/
abbrev changed (g : α → α) (first second : α) : Lasting :=
  .sure (second = g first)

theorem eq_map_of_all {g : α → α} {first second : List α} (h : all (changed g) first second s) :
    second = first.map g := by
  rw [all_holds] at h
  induction h with
  | nil => rfl
  | cons hhead _ ih => rw [hhead, ih, List.map_cons]

theorem eq_map_of_option {g : α → α} {first second : Option α}
    (h : option (changed g) first second s) : second = first.map g := by
  cases first <;> cases second
  · rfl
  · exact h.elim
  · exact h.elim
  · exact congrArg some h

theorem eq_mapSpans_of_body {first second : Body}
    (h : body (changed f) (changed (Statement.mapSpans f)) first second s) :
    second = first.mapSpans f := by
  obtain ⟨statements, span⟩ := first
  obtain ⟨statements', span'⟩ := second
  obtain ⟨hstatements, hspan⟩ := h
  simp only [Body.statements, Body.span, sure_holds] at hstatements hspan
  rw [Body.mapSpans, hspan, Statement.mapSpansList_eq, eq_map_of_all hstatements]

theorem eq_mapSpans_of_bodyOption {first second : Option Body}
    (h : option (body (changed f) (changed (Statement.mapSpans f))) first second s) :
    second = Body.mapSpansOption f first := by
  cases first <;> cases second
  · rw [Body.mapSpansOption]
  · exact h.elim
  · exact h.elim
  · rw [Body.mapSpansOption, eq_mapSpans_of_body h]

theorem eq_mapSpans_of_arguments {first second : List Argument}
    (h : all (argument (changed (Identifier.mapSpans f)) (changed (Expression.mapSpans f))) first
      second s) : second = Argument.mapSpansList f first := by
  rw [all_holds] at h
  induction h with
  | nil => rw [Argument.mapSpansList]
  | @cons first second _ _ hhead _ ih =>
      obtain ⟨label, value⟩ := first
      obtain ⟨label', value'⟩ := second
      obtain ⟨hlabel, hvalue⟩ := hhead
      simp only [Argument.label, Argument.value, sure_holds] at hlabel hvalue
      rw [Argument.mapSpansList, eq_map_of_option hlabel, hvalue, ih]

theorem eq_mapSpans_of_branches {first second : List Branch}
    (h : all (branch (changed f) (changed (Expression.mapSpans f)) (changed (Statement.mapSpans f)))
      first second s) : second = Branch.mapSpansList f first := by
  rw [all_holds] at h
  induction h with
  | nil => rw [Branch.mapSpansList]
  | @cons first second _ _ hhead _ ih =>
      obtain ⟨condition, body, span⟩ := first
      obtain ⟨condition', body', span'⟩ := second
      obtain ⟨⟨hcondition, hbody⟩, hspan⟩ := hhead
      simp only [Branch.condition, Branch.body, Branch.span, sure_holds] at hcondition hbody hspan
      rw [Branch.mapSpansList, hcondition, eq_mapSpans_of_body hbody, hspan, ih]

theorem eq_mapSpans_of_condition {text : String → Prop} {first second : Condition}
    (h : condition (changed (Identifier.mapSpans f)) (changed (Expression.mapSpans f)) text first
      second s) : second = first.mapSpans f := by
  cases first <;> cases second <;> simp only [condition, sure_holds] at h <;>
    simp only [Condition.mapSpans]
  all_goals first | exact congrArg _ h | exact congrArg _ h.1

end Lasting

/-! ## Alike readings -/

/-- The reading of a source and that of its continuation behind another one. -/
def continuation (seam : Seam) (hseam : seam.previous.stop ≤ seam.displacement.bytes) :
    Likeness where
  state n s t := s.Follows seam t ∧ s.nesting = n ∧ t.nesting = n
  span := .changed (Span.moved seam.displacement)
  token := .changed (Token.moved seam.displacement)
  text _ := True
  identifier := .changed (Identifier.mapSpans (Span.moved seam.displacement))
  expression _ := .changed (Expression.mapSpans (Span.moved seam.displacement))
  statement _ := .changed (Statement.mapSpans (Span.moved seam.displacement))
  token_kind := by
    rintro _ _ _ rfl
    exact .same _
  token_span := by
    rintro _ _ _ rfl
    rfl
  token_place := by
    rintro _ _ _ rfl -
    rfl
  span_through := by
    rintro _ _ _ _ _ rfl rfl
    exact Span.through_moved _ _
  span_origin := by
    rintro _ _ _ rfl
    exact Span.origin_moved _
  text_empty := trivial
  nesting h := h.2
  options h := h.1.options
  stopped h := h.1.going'.trans h.1.going.symm
  lookahead := by
    rintro _ s t ⟨h, -⟩
    rw [h.lookahead', Lasting.all_holds, List.forall₂_map_right_iff]
    exact List.forall₂_same.mpr fun _ _ => rfl
  renest := by
    rintro n s t m ⟨h, -⟩
    exact ⟨⟨⟨h.size, h.lookahead⟩, h.options, h.unlimited, h.going, h.going', h.size', h.cursor,
      h.lookahead', h.errors, h.consumed, h.previous⟩, rfl, rfl⟩
  note := by
    rintro n s t _ _ ⟨h, hn, hn'⟩
    exact ⟨⟨⟨h.size, h.lookahead⟩, h.options, h.unlimited, h.going, h.going', h.size', h.cursor,
      h.lookahead', h.errors, h.consumed, h.previous⟩, hn, hn'⟩
  report := by
    rintro n s t first second ⟨h, hn, hn'⟩ hspan hcause hseverity
    obtain rfl := Diagnostic.eq_mapSpans_of_like hspan (hcause.resolve_right id) hseverity
    exact ⟨h.report first, by rw [State.report_frame, hn], by rw [State.report_frame, hn']⟩
  scan := by
    rintro n s t ⟨h, hn, hn'⟩
    refine ⟨h.scan, ?_, ?_⟩
    · rw [State.scan_eq, State.foldl_report_frame, State.looked, hn]
    · rw [State.scan_eq, State.foldl_report_frame, State.looked, hn']
  take := by
    rintro n s t token token' rest rest' ⟨h, hn, hn'⟩ hfirst hsecond hkind
    have hmoved := h.lookahead'
    rw [hfirst, hsecond, List.map_cons] at hmoved
    obtain ⟨rfl, -⟩ := List.cons.inj hmoved
    exact ⟨h.take hfirst hkind, hn, hn'⟩
  takeRaw := by
    rintro n s t ⟨h, hn, hn'⟩ hnone
    obtain ⟨htext, hspan, -⟩ := s.cursor.rawLine_moved (d := seam.displacement)
    refine ⟨⟨h.takeRaw hnone, hn, hn'⟩, ?_, trivial, ?_⟩
    · rw [h.cursor, htext]
    · rw [h.cursor]
      exact hspan
  remaining h h' hearlier _ _ _ := h.1.remaining hseam h'.1 hearlier.toGrows
  consumed h h' := h.1.consumed_iff h'.1
  line := by
    rintro _ s t token _ ⟨h, -⟩ hbegun rfl
    exact h.line_iff hbegun token.span
  identifier_name := by
    rintro _ _ _ rfl
    exact .inl rfl
  identifier_place := by
    rintro _ _ _ rfl
    rfl
  expression_span := by
    rintro _ e _ _ rfl
    exact e.span_mapSpans
  statement_span := by
    rintro _ statement _ _ rfl
    exact statement.span_mapSpans
  statement_declared := by
    rintro _ statement _ _ rfl
    rw [Statement.declaredName?_mapSpans]
    cases statement.declaredName? with
    | none => trivial
    | some name => exact rfl
  identifier_of_token := by
    rintro _ _ _ _ _ _ rfl hkind hkind'
    cases hkind.symm.trans hkind'
    rfl
  integer := by
    rintro _ _ _ _ _ rfl -
    rfl
  float := by
    rintro _ _ _ _ _ rfl -
    rfl
  string := by
    rintro _ _ _ _ _ _ rfl hkind hkind'
    cases hkind.symm.trans hkind'
    rfl
  name h := by rw [Lasting.sure_holds, Expression.mapSpans, h]
  array helements hspan := by
    rw [Lasting.sure_holds, Expression.mapSpans, Expression.mapSpansList_eq, hspan,
      Lasting.eq_map_of_all helements]
  negation he hspan := by rw [Lasting.sure_holds, Expression.mapSpans, he, hspan]
  grouped he hspan := by rw [Lasting.sure_holds, Expression.mapSpans, he, hspan]
  binary hleft hright hspan := by rw [Lasting.sure_holds, Expression.mapSpans, hleft, hright, hspan]
  call _ hcallee harguments hspan := by
    rw [Lasting.sure_holds, Expression.mapSpans, hcallee, hspan,
      Lasting.eq_mapSpans_of_arguments harguments]
  member hobject hmember hspan := by
    rw [Lasting.sure_holds, Expression.mapSpans, hobject, hmember, hspan]
  defined hname hspan := by rw [Lasting.sure_holds, Expression.mapSpans, hname, hspan]
  constant hname htype hvalue hspan := by
    rw [Lasting.sure_holds, Statement.mapSpans, hname, Lasting.eq_map_of_option htype, hvalue, hspan]
  group hname hbody hspan := by
    rw [Lasting.sure_holds, Statement.mapSpans, hname, Lasting.eq_mapSpans_of_body hbody, hspan]
  assign htarget hvalue hspan := by rw [Lasting.sure_holds, Statement.mapSpans, htarget, hvalue, hspan]
  append htarget hvalue hspan := by rw [Lasting.sure_holds, Statement.mapSpans, htarget, hvalue, hspan]
  expand _ htarget _ hspan := by rw [Lasting.sure_holds, Statement.mapSpans, htarget, hspan]
  choice he hthen helse hspan := by
    rw [Lasting.sure_holds, Statement.mapSpans, he, Lasting.eq_mapSpans_of_body hthen,
      Lasting.eq_mapSpans_of_bodyOption helse, hspan]
  conditional hcondition hthen hbranches helse hspan := by
    rw [Lasting.sure_holds, Statement.mapSpans, Lasting.eq_mapSpans_of_condition hcondition,
      Lasting.eq_mapSpans_of_body hthen, Lasting.eq_mapSpans_of_branches hbranches,
      Lasting.eq_mapSpans_of_bodyOption helse, hspan]
  message _ hspan := by rw [Lasting.sure_holds, Statement.mapSpans, hspan]
  passage := by
    rintro _ _ _ _ _ rfl -
    rw [Lasting.sure_holds, Statement.mapSpans, Token.moved]

end ConfLang
