import ConfLang.Proofs.Likeness.Invariant
import ConfLang.Proofs.Taint
import ConfLang.Proofs.Writing.Token
import ConfLang.Proofs.Writing.Tree

/-!
# Trees that are read can be written

Whatever is left of a source when it was read, be it only a part of it, can be written and read
again, unless a quote that is not closed was reported, the reading stopped at the limit of
errors, or a number is infinite.

What was read is made of tokens that can be written, and asks for definitions and assigns text
only where this is possible.  Recovery does not endanger that: it drops trees, but it makes none.
So this is an invariant of readings, with a reservation that lasts (`State.Tainted`).
-/

namespace ConfLang

/-! ## The invariant -/

/-- The tokens that were looked at can be written, with the reservation. -/
def looksAtWritable : Invariant where
  state s := ∀ token ∈ s.lookahead, ¬ s.Tainted → token.kind.IsWritable
  span _ := True
  span_through _ _ := trivial
  span_origin _ := trivial
  lookahead _ _ _ := trivial
  renest _ h := h
  note _ h := h
  report {s diagnostic} h _ := by
    intro token hmem htainted
    have hgrows := s.grows_report diagnostic
    rw [State.report_frame] at hmem
    exact h token hmem fun hbefore => htainted (hbefore.of_grows hgrows)
  scan {s} h := by
    intro token hmem htainted
    have hbefore (hbefore : s.Tainted) : False := htainted (hbefore.of_grows s.grows_scan)
    rw [State.scan_eq] at hmem htainted
    rw [State.foldl_report_frame] at hmem
    rcases List.mem_append.mp hmem with hold | hnew
    · exact h token hold hbefore
    · -- A new token is writable, or else the scan has just reported its quote.
      rw [List.mem_singleton.mp hnew]
      refine s.cursor.writable_next.resolve_right fun ⟨quote, problem, hproblem, hcause⟩ => ?_
      refine htainted (State.tainted_foldl_report ⟨_, List.mem_map_of_mem hproblem, ?_⟩)
      simp [Diagnostic.isUnterminated, Diagnostic.isError, Problem.diagnostic, hcause]
  take h hlookahead := by
    intro token hmem
    exact h token (List.mem_of_mem_tail hmem)
  takeRaw h hnone := ⟨h, trivial⟩

/-! ## Trees -/

/-- The same name, which can be written. -/
def Identifier.alikeWritable (first second : Identifier) : Lasting :=
  (Lasting.sure (second = first)).and (.untainted (Quotable first.name))

/-- Expressions at the same place, the first of which can be written if it is finite. -/
def Expression.alikeWritable (inCondition : Bool) (first second : Expression) : Lasting :=
  (Lasting.sure (second.span = first.span ∧ True)).and
    (.untainted (first.isFinite = true → first.IsWritable inCondition))

/-- Statements at the same place with the same declared name, the first of which can be written
if it is finite. -/
def Statement.alikeWritable (inBlock : Bool) (first second : Statement) : Lasting where
  holds s := (second.span = first.span ∧ True) ∧ second.declaredName? = first.declaredName? ∧
    (¬ s.Tainted → (∀ name ∈ first.declaredName?, Quotable name.name) ∧
      (first.isFinite = true → first.IsWritable s.options.expandingAssign inBlock))
  lasts hgrows h := by
    refine ⟨h.1, h.2.1, fun hafter => ?_⟩
    rw [hgrows.options]
    exact h.2.2 fun hbefore => hafter (hbefore.of_grows hgrows)

section Parts

variable {inCondition inBlock : Bool} {s : State} (hs : ¬ s.Tainted)
include hs

theorem writable_elements {elements elements' : List Expression}
    (h : Lasting.all (Expression.alikeWritable inCondition) elements elements' s)
    (hfinite : Expression.isFiniteList elements = true) :
    Expression.IsWritableList inCondition elements := by
  rw [Lasting.all_holds] at h
  induction h with
  | nil => trivial
  | cons hfirst _ ih =>
      rw [Expression.isFiniteList, Bool.and_eq_true] at hfinite
      exact ⟨hfirst.2 hs hfinite.1, ih hfinite.2⟩

theorem writable_arguments {arguments arguments' : List Argument}
    (h : Lasting.all (.argument Identifier.alikeWritable (Expression.alikeWritable inCondition))
      arguments arguments' s)
    (hfinite : Argument.isFiniteList arguments = true) :
    Argument.IsWritableList inCondition arguments := by
  rw [Lasting.all_holds] at h
  induction h with
  | nil => trivial
  | @cons first second _ _ hfirst _ ih =>
      obtain ⟨label, value⟩ := first
      rw [Argument.isFiniteList, Bool.and_eq_true] at hfinite
      obtain ⟨hlabel, hvalue⟩ := hfirst
      refine ⟨fun name hname => ?_, hvalue.2 hs hfinite.1, ih hfinite.2⟩
      obtain rfl : label = some name := hname
      cases hsecond : second.label with
      | none =>
          rw [hsecond] at hlabel
          exact hlabel.elim
      | some other =>
          rw [hsecond] at hlabel
          exact hlabel.2 hs

theorem writable_statements {statements statements' : List Statement}
    (h : Lasting.all (Statement.alikeWritable inBlock) statements statements' s)
    (hfinite : Statement.isFiniteList statements = true) :
    Statement.IsWritableList s.options.expandingAssign inBlock statements := by
  rw [Lasting.all_holds] at h
  induction h with
  | nil => trivial
  | cons hfirst _ ih =>
      rw [Statement.isFiniteList, Bool.and_eq_true] at hfinite
      exact ⟨(hfirst.2.2 hs).2 hfinite.1, ih hfinite.2⟩

theorem writable_body {span : Span → Span → Lasting} {body body' : Body}
    (h : Lasting.body span (Statement.alikeWritable inBlock) body body' s)
    (hfinite : body.isFinite = true) : body.IsWritable s.options.expandingAssign inBlock := by
  obtain ⟨statements, place⟩ := body
  exact writable_statements hs h.1 hfinite

theorem writable_bodyOption {span : Span → Span → Lasting} {body body' : Option Body}
    (h : Lasting.option (.body span (Statement.alikeWritable inBlock)) body body' s)
    (hfinite : Body.isFiniteOption body = true) :
    Body.IsWritableOption s.options.expandingAssign inBlock body := by
  cases body with
  | none => trivial
  | some body =>
      cases body' with
      | none => exact h.elim
      | some body' => exact writable_body hs h hfinite

theorem writable_branches {span : Span → Span → Lasting} {branches branches' : List Branch}
    (h : Lasting.all (.branch span (Expression.alikeWritable true) (Statement.alikeWritable true))
      branches branches' s)
    (hfinite : Branch.isFiniteList branches = true) :
    Branch.IsWritableList s.options.expandingAssign branches := by
  rw [Lasting.all_holds] at h
  induction h with
  | nil => trivial
  | @cons first second _ _ hfirst _ ih =>
      obtain ⟨condition, body, place⟩ := first
      rw [Branch.isFiniteList, Bool.and_eq_true, Bool.and_eq_true] at hfinite
      exact ⟨hfirst.1.1.2 hs hfinite.1.1, writable_body hs hfirst.1.2 hfinite.1.2, ih hfinite.2⟩

theorem writable_condition {condition condition' : Condition}
    (h : Lasting.condition Identifier.alikeWritable (Expression.alikeWritable true) IsRestOfLine
      condition condition' s)
    (hfinite : condition.isFinite = true) : condition.IsWritable := by
  cases condition <;> cases condition' <;> first | exact h.elim | skip
  · exact h.2 hs hfinite
  · exact h.2 hs
  · exact h.2 hs
  · exact h.2
  · exact h.2

end Parts

/-! ## The likeness -/

/-- Both states are the same but for the log, and what is read can be written.  The second run is
there only because an invariant is a likeness of a run with itself. -/
def writableLikeness : Likeness where
  toStateLikeness :=
    { looksAtWritable.likeness.toStateLikeness with
      token := fun first second => (Lasting.sure (second = first)).and (.untainted first.kind.IsWritable)
      text := IsRestOfLine
      token_kind := by
        rintro _ _ _ ⟨rfl, -⟩
        exact .same _
      token_span := fun h => ⟨congrArg Token.span h.1, trivial⟩
      token_place := fun h _ => ⟨congrArg Token.span h.1, trivial⟩
      text_empty := ⟨by simp, by simp, by simp⟩
      lookahead := by
        rintro _ _ _ ⟨⟨_, rfl⟩, -, h⟩
        exact List.forall₂_same.mpr fun token htoken => ⟨rfl, h token htoken⟩
      takeRaw := by
        intro _ s _ hst hnone
        obtain ⟨hafter, htext, -, hspan⟩ := looksAtWritable.likeness.takeRaw hst hnone
        exact ⟨hafter, htext, isRestOfLine_rawLine s.cursor, hspan⟩
      line := by
        rintro _ _ _ _ _ ⟨⟨_, rfl⟩, -⟩ - ⟨rfl, -⟩
        rfl }
  identifier := Identifier.alikeWritable
  expression := Expression.alikeWritable
  statement := Statement.alikeWritable
  identifier_name h := .inl (congrArg Identifier.name h.1)
  identifier_place h := ⟨congrArg Identifier.span h.1, trivial⟩
  expression_span h := h.1
  statement_span h := h.1
  statement_declared := by
    rintro _ first second s ⟨-, hsame, h⟩
    rw [hsame]
    cases hname : first.declaredName? with
    | none => trivial
    | some name => exact ⟨rfl, fun hs => (h hs).1 name hname⟩
  identifier_of_token := by
    rintro _ _ _ _ _ _ ⟨rfl, h⟩ hkind hkind'
    cases hkind.symm.trans hkind'
    rw [hkind] at h
    exact ⟨rfl, h⟩
  integer := by
    rintro _ _ _ _ _ ⟨rfl, h⟩ hkind
    rw [hkind] at h
    exact ⟨⟨rfl, trivial⟩, fun hs _ => h hs⟩
  float := by
    rintro _ _ _ _ _ ⟨rfl, h⟩ hkind
    rw [hkind] at h
    refine ⟨⟨rfl, trivial⟩, fun hs hfinite => ?_⟩
    exact ⟨(h hs).1, (h hs).2, by simpa [Expression.isFinite] using hfinite⟩
  string := by
    rintro _ _ _ _ _ _ ⟨rfl, h⟩ hkind hkind'
    cases hkind.symm.trans hkind'
    rw [hkind] at h
    exact ⟨⟨rfl, trivial⟩, fun hs _ => h hs⟩
  name h := ⟨⟨congrArg Identifier.span h.1, trivial⟩, fun hs _ => h.2 hs⟩
  array h hspan := ⟨hspan, fun hs => writable_elements hs h⟩
  negation h hspan := ⟨hspan, h.2⟩
  grouped h hspan := ⟨hspan, h.2⟩
  binary hleft hright hspan := by
    refine ⟨hspan, fun hs hfinite => ?_⟩
    rw [Expression.isFinite, Bool.and_eq_true] at hfinite
    exact ⟨hleft.2 hs hfinite.1, hright.2 hs hfinite.2⟩
  call _ hcallee harguments hspan := by
    refine ⟨hspan, fun hs hfinite => ?_⟩
    rw [Expression.isFinite, Bool.and_eq_true] at hfinite
    exact ⟨hcallee.2 hs hfinite.1, writable_arguments hs harguments hfinite.2⟩
  member hobject hmember hspan := ⟨hspan, fun hs hfinite => ⟨hobject.2 hs hfinite, hmember.2 hs⟩⟩
  defined hname hspan := ⟨hspan, fun hs _ => ⟨rfl, hname.2 hs⟩⟩
  constant := by
    intro b name₁ name₂ type₁ type₂ value₁ value₂ span₁ span₂ s hname htype hvalue hspan
    refine ⟨hspan, congrArg some hname.1, fun hs => ⟨?_, fun hfinite => ⟨hname.2 hs, ?_⟩⟩⟩
    · rintro _ ⟨⟩
      exact hname.2 hs
    · rw [Statement.isFinite, Bool.and_eq_true] at hfinite
      refine ⟨fun e he => ?_, hvalue.2 hs hfinite.2⟩
      obtain rfl : type₁ = some e := he
      cases type₂ with
      | none => exact htype.elim
      | some e' => exact htype.2 hs (by simpa using hfinite.1)
  group hname hbody hspan := by
    refine ⟨hspan, congrArg some hname.1, fun hs => ⟨?_, fun hfinite => ⟨hname.2 hs, ?_⟩⟩⟩
    · rintro _ ⟨⟩
      exact hname.2 hs
    · exact writable_body hs hbody hfinite
  assign htarget hvalue hspan :=
    ⟨hspan, rfl, fun hs => ⟨nofun, fun hfinite => ⟨htarget.2 hs, hvalue.2 hs hfinite⟩⟩⟩
  append htarget hvalue hspan :=
    ⟨hspan, rfl, fun hs => ⟨nofun, fun hfinite => ⟨htarget.2 hs, hvalue.2 hs hfinite⟩⟩⟩
  expand hallowed htarget htext hspan :=
    ⟨hspan, rfl, fun hs => ⟨nofun, fun _ => ⟨rfl, hallowed, htarget.2 hs, htext⟩⟩⟩
  choice hcondition hthen helse hspan := by
    refine ⟨hspan, rfl, fun hs => ⟨nofun, fun hfinite => ?_⟩⟩
    rw [Statement.isFinite, Bool.and_eq_true, Bool.and_eq_true] at hfinite
    exact ⟨hcondition.2 hs hfinite.1.1, writable_body hs hthen hfinite.1.2,
      writable_bodyOption hs helse hfinite.2⟩
  conditional hcondition hthen hbranches helse hspan := by
    refine ⟨hspan, rfl, fun hs => ⟨nofun, fun hfinite => ?_⟩⟩
    rw [Statement.isFinite, Bool.and_eq_true, Bool.and_eq_true, Bool.and_eq_true] at hfinite
    exact ⟨writable_condition hs hcondition hfinite.1.1.1, writable_body hs hthen hfinite.1.1.2,
      writable_branches hs hbranches hfinite.1.2, writable_bodyOption hs helse hfinite.2⟩
  message htext hspan := ⟨hspan, rfl, fun _ => ⟨nofun, fun _ => htext⟩⟩
  passage := by
    rintro _ _ _ _ _ ⟨rfl, h⟩ hkind
    rw [hkind] at h
    exact ⟨⟨rfl, trivial⟩, rfl, fun hs => ⟨nofun, fun _ => h hs⟩⟩

end ConfLang
