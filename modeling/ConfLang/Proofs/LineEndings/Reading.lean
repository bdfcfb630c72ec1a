import ConfLang.Proofs.Likeness.Statement
import ConfLang.Proofs.LineEndings.Cursor
import ConfLang.Proofs.LineEndings.Trees

/-!
# Readings with and without carriage returns

Two runs on a source without and with carriage returns stay at the same place, have looked at and
taken the same tokens, and have reported the same on the same lines (`State.Alongside`).  They
differ in what they count in bytes, and in where on its line a line feed stands.

Once a quote that is not closed was reported, nothing is said any more of what is reported, as
messages quote texts.  If the reading has stopped before, nothing is reported any more.
-/

namespace ConfLang

/-! ## Diagnostics -/

/-- The message of a cause tells of the spans that it quotes nothing but line and column. -/
theorem Cause.Like.told {cause cause' : Cause} (h : cause.Like Span.Level cause') :
    cause'.kind = cause.kind ∧ cause'.message = cause.message := by
  have htext {span other : Span} (hlevel : span.Level other) : other.text = span.text := by
    rw [Span.text, Span.text, hlevel.line, hlevel.column]
  cases cause <;> simp only [Cause.Like] at h
  case unclosed bracket opened found =>
    obtain ⟨opened', hlevel, rfl⟩ := h
    exact ⟨rfl, congrArg (fun place => "Expected '" ++ bracket.closing.text ++ "' to close '" ++
      bracket.opening.text ++ "' opened at " ++ place ++ ", found " ++ found.text) (htext hlevel)⟩
  case missingEndif kind opened found =>
    obtain ⟨opened', hlevel, rfl⟩ := h
    exact ⟨rfl, congrArg (fun place => "Missing '%endif' for '" ++ kind.directive ++
      "' opened at " ++ place ++ ", found " ++ found.text) (htext hlevel)⟩
  case duplicateDeclaration name first =>
    obtain ⟨first', hlevel, rfl⟩ := h
    exact ⟨rfl, congrArg (fun place => "Duplicate declaration of '" ++ name ++
      "' (first declared at " ++ place ++ ")") (htext hlevel)⟩
  all_goals
    subst h
    exact ⟨rfl, rfl⟩

theorem Cause.like_of_lexical {like : Span → Span → Prop} {cause : Cause}
    (h : cause.kind = .lexical) : cause.Like like cause := by
  cases cause <;> first | rfl | cases h

/-- Two diagnostics that say the same of the same line. -/
structure Diagnostic.Alongside (diagnostic other : Diagnostic) : Prop where
  severity : other.severity = diagnostic.severity
  cause : diagnostic.cause.Like Span.Level other.cause
  line : other.span.line = diagnostic.span.line

/-- What was reported is the same on both sides, or a quote that is not closed is among it. -/
def Diagnostic.AllAlongside (diagnostics others : Array Diagnostic) : Prop :=
  (∃ diagnostic ∈ diagnostics, diagnostic.isUnterminated = true) ∨
    List.Forall₂ Diagnostic.Alongside diagnostics.toList others.toList

theorem Diagnostic.AllAlongside.push {diagnostics others : Array Diagnostic}
    {diagnostic other : Diagnostic} (h : AllAlongside diagnostics others)
    (hnew : (∃ earlier ∈ diagnostics, earlier.isUnterminated = true) ∨
      diagnostic.Alongside other) :
    AllAlongside (diagnostics.push diagnostic) (others.push other) := by
  have hstays (hcut : ∃ earlier ∈ diagnostics, earlier.isUnterminated = true) :
      ∃ earlier ∈ diagnostics.push diagnostic, earlier.isUnterminated = true :=
    hcut.imp fun _ => And.imp_left (Array.mem_push_of_mem _)
  rcases h with hcut | hall
  · exact .inl (hstays hcut)
  rcases hnew with hcut | hnew
  · exact .inl (hstays hcut)
  · refine .inr ?_
    rw [Array.toList_push, Array.toList_push]
    exact List.rel_append hall (.cons hnew .nil)

/-! ## States -/

/-- Two states at the same place of a source without and with carriage returns, the tokens that
were looked at aside. -/
structure State.Abreast (s t : State) : Prop where
  options : t.options = s.options
  cursor : s.cursor.Alongside t.cursor
  previous : t.previous.line = s.previous.line
  consumed : t.consumed = s.consumed
  diagnostics : Diagnostic.AllAlongside s.diagnostics t.diagnostics
  errorCount : t.errorCount = s.errorCount
  stopped : t.stopped = s.stopped

/-- Two states at the same place of a source without and with carriage returns. -/
structure State.Alongside (s t : State) : Prop extends s.Abreast t where
  lookahead : List.Forall₂ (Token.Alongside s.Tainted) s.lookahead t.lookahead
  ordered : s.Ordered
  ordered' : t.Ordered

namespace State

variable {s t : State}

/-- The nesting and the log do not count. -/
theorem Alongside.frame (h : s.Alongside t) {s' t' : State}
    (hs : s' = { s with nesting := s'.nesting, log := s'.log })
    (ht : t' = { t with nesting := t'.nesting, log := t'.log }) : s'.Alongside t' := by
  rw [hs, ht]
  exact ⟨⟨h.options, h.cursor, h.previous, h.consumed, h.diagnostics, h.errorCount, h.stopped⟩,
    h.lookahead, ⟨h.ordered.size, h.ordered.tokens⟩, ⟨h.ordered'.size, h.ordered'.tokens⟩⟩

/-- Reports on both sides that say the same, unless nothing is said of them. -/
theorem Abreast.report (h : s.Abreast t) {diagnostic other : Diagnostic}
    (hline : other.span.line = diagnostic.span.line)
    (hcause : diagnostic.cause.Like Span.Level other.cause ∨ s.Tainted)
    (hseverity : other.severity = diagnostic.severity) :
    (s.report diagnostic).Abreast (t.report other) := by
  by_cases hstopped : s.stopped = true
  · rw [State.report, State.report, if_pos hstopped, if_pos (h.stopped.trans hstopped)]
    exact h
  have hgoing : ¬t.stopped = true := h.stopped ▸ hstopped
  -- As it has not stopped, the reading can only be tainted by a diagnostic.
  have hnew : (∃ earlier ∈ s.diagnostics, earlier.isUnterminated = true) ∨
      diagnostic.Alongside other := by
    rcases hcause with hcause | hstop | hcut
    · exact .inr ⟨hseverity, hcause, hline⟩
    · exact absurd hstop hstopped
    · exact .inl hcut
  have hshown := h.diagnostics.push hnew
  have herror : other.isError = diagnostic.isError := by
    rw [Diagnostic.isError, Diagnostic.isError, hseverity]
  rw [State.report, State.report, if_neg hstopped, if_neg hgoing]
  simp only [herror, countError, h.options, h.errorCount]
  split
  · split
    · rename_i limit _
      split
      · -- both stop here, each with the notice at the token that it took last
        have hnotice : Diagnostic.Alongside (.error (.tooManyErrors limit) s.previous)
            (.error (.tooManyErrors limit) t.previous) := ⟨rfl, rfl, h.previous⟩
        exact ⟨rfl, h.cursor, h.previous, h.consumed, hshown.push (.inr hnotice), rfl, rfl⟩
      · exact ⟨rfl, h.cursor, h.previous, h.consumed, hshown, rfl, h.stopped⟩
    · exact ⟨rfl, h.cursor, h.previous, h.consumed, hshown, rfl, h.stopped⟩
  · exact ⟨rfl, h.cursor, h.previous, h.consumed, hshown, rfl, h.stopped⟩

theorem Abreast.foldl_report (h : s.Abreast t) {problems others : List Problem}
    (hall : List.Forall₂ Problem.Alongside problems others)
    (hlexical : ∀ problem ∈ problems, problem.cause.kind = .lexical) :
    ((problems.map Problem.diagnostic).foldl State.report s).Abreast
      ((others.map Problem.diagnostic).foldl State.report t) := by
  induction hall generalizing s t with
  | nil => exact h
  | @cons problem other _ _ hfirst _ ih =>
      rw [List.forall_mem_cons] at hlexical
      refine ih (h.report hfirst.line (.inl ?_) rfl) hlexical.2
      have hcause : other.cause = problem.cause := hfirst.cause
      change problem.cause.Like Span.Level other.cause
      rw [hcause]
      exact Cause.like_of_lexical hlexical.1

/-- Tokens that were looked at stay alongside each other. -/
theorem forall₂_of_grows {s' : State} {tokens others : List Token} (hgrows : s.Grows s')
    (h : List.Forall₂ (Token.Alongside s.Tainted) tokens others) :
    List.Forall₂ (Token.Alongside s'.Tainted) tokens others :=
  h.imp fun _ _ => Token.Alongside.imp fun hbefore => hbefore.of_grows hgrows

theorem report_alongside (h : s.Alongside t) {diagnostic other : Diagnostic}
    (hline : other.span.line = diagnostic.span.line)
    (hcause : diagnostic.cause.Like Span.Level other.cause ∨ s.Tainted)
    (hseverity : other.severity = diagnostic.severity) :
    (s.report diagnostic).Alongside (t.report other) := by
  refine ⟨h.toAbreast.report hline hcause hseverity, ?_, h.ordered.report _, h.ordered'.report _⟩
  have htokens := forall₂_of_grows (s.grows_report diagnostic) h.lookahead
  rw [report_frame s] at htokens ⊢
  rw [report_frame t]
  exact htokens

/-- Once a reading is tainted, a warning on one side does not count. -/
theorem warning_alongside (h : s.Alongside t) (htainted : s.Tainted) {diagnostic : Diagnostic}
    (hwarning : diagnostic.isError = false) :
    (s.report diagnostic).Alongside t ∧ s.Alongside (t.report diagnostic) := by
  by_cases hstopped : s.stopped = true
  · rw [report, report, if_pos hstopped, if_pos (h.stopped.trans hstopped)]
    exact ⟨h, h⟩
  obtain ⟨earlier, hmem, hcut⟩ := htainted.resolve_left hstopped
  have hfirst := forall₂_of_grows (s.grows_report diagnostic) h.lookahead
  have hordered := h.ordered.report diagnostic
  have hordered' := h.ordered'.report diagnostic
  have hgoing : ¬t.stopped = true := h.stopped ▸ hstopped
  rw [report, if_neg hstopped] at hfirst hordered ⊢
  rw [report, if_neg hgoing] at hordered' ⊢
  simp only [hwarning, Bool.false_eq_true, if_false] at hfirst hordered hordered' ⊢
  have hstays : ∃ earlier ∈ s.diagnostics.push diagnostic, earlier.isUnterminated = true :=
    ⟨earlier, Array.mem_push_of_mem _ hmem, hcut⟩
  exact ⟨⟨⟨h.options, h.cursor, h.previous, h.consumed, .inl hstays, h.errorCount, h.stopped⟩,
      hfirst, hordered, h.ordered'⟩,
    ⟨h.options, h.cursor, h.previous, h.consumed, .inl ⟨earlier, hmem, hcut⟩, h.errorCount,
      h.stopped⟩, h.lookahead, h.ordered, hordered'⟩

theorem scan_alongside (h : s.Alongside t) : s.scan.2.Alongside t.scan.2 := by
  obtain ⟨htoken, hproblems, hcursor⟩ := h.cursor.next
  have hlooked : s.looked.Abreast t.looked :=
    ⟨h.options, hcursor, h.previous, h.consumed, h.diagnostics, h.errorCount, h.stopped⟩
  -- Where a token is cut off, the scan itself reports that.
  have htainted (hcut : s.cursor.CutsQuote) : s.scan.2.Tainted := by
    obtain ⟨quote, problem, hmem, hcause⟩ := hcut
    rw [scan_eq]
    refine tainted_foldl_report ⟨_, List.mem_map_of_mem hmem, ?_⟩
    simp [Diagnostic.isUnterminated, Diagnostic.isError, Problem.diagnostic, hcause]
  refine ⟨?_, ?_, (s.precedes_scan.forward h.ordered).ordered,
    (t.precedes_scan.forward h.ordered').ordered⟩
  · rw [scan_eq, scan_eq]
    exact hlooked.foldl_report hproblems fun problem hmem => Cursor.kind_of_mem_next hmem
  · rw [lookahead_scan, lookahead_scan]
    exact List.rel_append (forall₂_of_grows s.grows_scan h.lookahead)
      (.cons (htoken.imp htainted) .nil)

theorem take_alongside (h : s.Alongside t) {token token' : Token} {rest rest' : List Token}
    (hfirst : s.lookahead = token :: rest) (hfirst' : t.lookahead = token' :: rest') :
    (s.take token).Alongside (t.take token') := by
  have htokens := h.lookahead
  rw [hfirst, hfirst'] at htokens
  obtain ⟨htoken, hrest⟩ := List.forall₂_cons.mp htokens
  refine ⟨⟨h.options, h.cursor, htoken.line, congrArg (· + 1) h.consumed, h.diagnostics,
    h.errorCount, h.stopped⟩, ?_, h.ordered.take hfirst, h.ordered'.take hfirst'⟩
  rw [take, take, hfirst, hfirst']
  exact hrest

theorem takeRaw_alongside (h : s.Alongside t) (hnone : s.lookahead = []) :
    (s.takeRaw s.cursor.rawLine).Alongside (t.takeRaw t.cursor.rawLine) := by
  have htokens := h.lookahead
  rw [hnone, List.forall₂_nil_left_iff] at htokens
  obtain ⟨-, hline, hcursor⟩ := h.cursor.rawLine
  refine ⟨⟨h.options, hcursor, hline, congrArg (· + 1) h.consumed, h.diagnostics, h.errorCount,
    h.stopped⟩, ?_, h.ordered.takeRaw hnone, h.ordered'.takeRaw htokens⟩
  rw [takeRaw, takeRaw, hnone, htokens]
  exact .nil

end State

/-! ## Alike readings -/

/-- The fact that a reading is tainted. -/
def Lasting.tainted : Lasting := ⟨State.Tainted, fun hgrows h => h.of_grows hgrows⟩

open Lasting in
/-- The readings of a source without and with carriage returns. -/
def lineEndings : Likeness where
  state n s t := s.Alongside t ∧ s.nesting = n ∧ t.nesting = n
  span first second := .sure (second.line = first.line)
  place first second := .sure (first.Level second)
  token first second :=
    ⟨fun s => first.Alongside s.Tainted second, fun hgrows => Token.Alongside.imp fun h =>
      h.of_grows hgrows⟩
  text _ := True
  quoted := alikeQuoted
  muted := .tainted
  identifier := Identifier.alikeUnplaced
  expression _ := Expression.alikeUnplaced
  statement _ := Statement.alikeUnplaced
  quoted_eq h := h.imp_right And.left
  token_kind h := h.kind
  token_span h := h.line
  token_place h hkind := h.level hkind
  place_span h := h.line
  span_through h _ := h
  span_origin h := h
  text_empty := trivial
  nesting h := h.2
  options h := h.1.options
  stopped h := h.1.stopped
  lookahead h := h.1.lookahead
  renest := by
    rintro n s t m ⟨h, -⟩
    exact ⟨h.frame rfl rfl, rfl, rfl⟩
  note := by
    rintro n s t _ _ ⟨h, hn, hn'⟩
    exact ⟨h.frame rfl rfl, hn, hn'⟩
  report := by
    rintro n s t first second ⟨h, hn, hn'⟩ hspan hcause hseverity
    exact ⟨State.report_alongside h hspan hcause hseverity, by rw [State.report_frame, hn],
      by rw [State.report_frame, hn']⟩
  warning := by
    rintro n s t diagnostic htainted ⟨h, hn, hn'⟩ hwarning
    obtain ⟨hfirst, hsecond⟩ := State.warning_alongside h htainted hwarning
    exact ⟨⟨hfirst, by rw [State.report_frame, hn], hn'⟩,
      hsecond, hn, by rw [State.report_frame, hn']⟩
  scan := by
    rintro n s t ⟨h, hn, hn'⟩
    refine ⟨State.scan_alongside h, ?_, ?_⟩
    · rw [State.scan_eq, State.foldl_report_frame, State.looked, hn]
    · rw [State.scan_eq, State.foldl_report_frame, State.looked, hn']
  take := by
    rintro n s t token token' rest rest' ⟨h, hn, hn'⟩ hfirst hsecond -
    exact ⟨State.take_alongside h hfirst hsecond, hn, hn'⟩
  takeRaw := by
    rintro n s t ⟨h, hn, hn'⟩ hnone
    obtain ⟨htext, hline, -⟩ := h.cursor.rawLine
    exact ⟨⟨State.takeRaw_alongside h hnone, hn, hn'⟩, htext, trivial, hline⟩
  remaining := by
    rintro n s t s' t' ⟨h, -⟩ ⟨h', -⟩ hlater hlater' hlooks hlooks'
    rw [hlater.remaining_lt_iff h.ordered hlooks, hlater'.remaining_lt_iff h.ordered' hlooks',
      h.consumed, h'.consumed]
  consumed := by
    rintro n s t s' t' ⟨h, -⟩ ⟨h', -⟩
    rw [h.consumed, h'.consumed]
  line := by
    rintro n s t token token' ⟨h, -⟩ - htoken
    rw [htoken.line, h.previous]
  identifier_name h := name_of_alikeUnplaced h
  identifier_place h := h.1
  expression_span h := h.1
  statement_span h := h.1.1
  statement_declared h := h.1.2
  identifier_of_token := by
    intro token token' s text text' quoted htoken hkind hkind'
    have hlike := htoken.kind
    rw [hkind, hkind'] at hlike
    refine ⟨htoken.level (by simp [hkind]), fun view hview => ?_⟩
    cases hlike with
    | same => rfl
    | name htext => simp only [Identifier.unplaced, if_true, view_of_alikeQuoted htext hview]
  integer htoken _ := ⟨htoken.line, fun _ _ => rfl⟩
  float htoken _ := ⟨htoken.line, fun _ _ => rfl⟩
  string := by
    intro c token token' s text text' htoken hkind hkind'
    have hlike := htoken.kind
    rw [hkind, hkind'] at hlike
    refine ⟨htoken.line, fun view hview => ?_⟩
    cases hlike with
    | same => rfl
    | string htext => simp only [Expression.unplaced, view_of_alikeQuoted htext hview]
  name h := ⟨h.1.line, fun view hview => by
    rw [Expression.unplaced, Expression.unplaced, h.2 view hview]⟩
  array h hspan := ⟨hspan, fun view hview => by
    rw [Expression.unplaced, Expression.unplaced, unplaced_elements hview h]⟩
  negation h hspan := ⟨hspan, fun view hview => by
    rw [Expression.unplaced, Expression.unplaced, h.2 view hview]⟩
  grouped h hspan := ⟨hspan, fun view hview => by
    rw [Expression.unplaced, Expression.unplaced, h.2 view hview]⟩
  binary hleft hright hspan := ⟨hspan, fun view hview => by
    rw [Expression.unplaced, Expression.unplaced, hleft.2 view hview, hright.2 view hview]⟩
  call _ hcallee harguments hspan := ⟨hspan, fun view hview => by
    rw [Expression.unplaced, Expression.unplaced, hcallee.2 view hview,
      unplaced_arguments hview harguments]⟩
  member hobject hmember hspan := ⟨hspan, fun view hview => by
    rw [Expression.unplaced, Expression.unplaced, hobject.2 view hview, hmember.2 view hview]⟩
  defined hname hspan := ⟨hspan, fun view hview => by
    rw [Expression.unplaced, Expression.unplaced, hname.2 view hview]⟩
  constant hname htype hvalue hspan := ⟨⟨hspan, hname⟩, fun view hview => by
    rw [Statement.unplaced, Statement.unplaced, hname.2 view hview, hvalue.2 view hview,
      unplaced_option htype fun h => h.2 view hview]⟩
  group hname hbody hspan := ⟨⟨hspan, hname⟩, fun view hview => by
    rw [Statement.unplaced, Statement.unplaced, hname.2 view hview, unplaced_body hview hbody]⟩
  assign htarget hvalue hspan := ⟨⟨hspan, trivial⟩, fun view hview => by
    rw [Statement.unplaced, Statement.unplaced, htarget.2 view hview, hvalue.2 view hview]⟩
  append htarget hvalue hspan := ⟨⟨hspan, trivial⟩, fun view hview => by
    rw [Statement.unplaced, Statement.unplaced, htarget.2 view hview, hvalue.2 view hview]⟩
  expand _ htarget _ hspan := ⟨⟨hspan, trivial⟩, fun view hview => by
    rw [Statement.unplaced, Statement.unplaced, htarget.2 view hview]⟩
  choice hcondition hthen helse hspan := ⟨⟨hspan, trivial⟩, fun view hview => by
    rw [Statement.unplaced, Statement.unplaced, hcondition.2 view hview, unplaced_body hview hthen,
      unplaced_bodyOption hview helse]⟩
  conditional hcondition hthen hbranches helse hspan := ⟨⟨hspan, trivial⟩, fun view hview => by
    rw [Statement.unplaced, Statement.unplaced, unplaced_condition hview hcondition,
      unplaced_body hview hthen, unplaced_branches hview hbranches,
      unplaced_bodyOption hview helse]⟩
  message _ hspan := ⟨⟨hspan, trivial⟩, fun _ _ => rfl⟩
  passage htoken _ := ⟨⟨htoken.line, trivial⟩, fun _ _ => rfl⟩

end ConfLang
