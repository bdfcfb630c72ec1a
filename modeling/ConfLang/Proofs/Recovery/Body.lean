import ConfLang.Proofs.Recovery.Skipping

/-!
# Bodies with constructs that cannot be read

Such a construct is one turn of reading a body that adds no statement.  What follows it begins
a statement on another line, or it closes the body, and skipping ends in front of both.
-/

namespace ConfLang

namespace TokenKind

/-- Whether a token can stand behind a body. -/
def closesBody : TokenKind → Bool
  | mark _ | endOfFile => true
  | symbol sign => sign = .closeBrace
  | _ => false

theorem endsStatement_of_closesBody {kind : TokenKind} (h : kind.closesBody = true) :
    kind.EndsStatement := by
  cases kind with
  | symbol sign =>
      cases sign <;> simp_all [closesBody, EndsStatement, EndsExpression, EndsChain, EndsOperand,
        Operator.ofToken?]
  | _ =>
      simp_all [closesBody, EndsStatement, EndsExpression, EndsChain, EndsOperand,
        Operator.ofToken?]

theorem endsStatement_openBrace : (TokenKind.symbol .openBrace).EndsStatement := by
  simp [EndsStatement, EndsExpression, EndsChain, EndsOperand, Operator.ofToken?]

end TokenKind

namespace Skipping

/-- Skipping ends in front of what closes a body. -/
theorem stopsAt_of_closesBody {token : Token} (h : token.kind.closesBody = true)
    (previous : Span) : ({ forced := false } : Skipping).stopsAt previous token = true := by
  obtain ⟨kind, span⟩ := token
  cases kind with
  | symbol sign => cases sign <;> simp_all [TokenKind.closesBody, stopsAt]
  | _ => simp_all [TokenKind.closesBody, stopsAt]

/-- Skipping ends in front of a statement on another line. -/
theorem stopsAt_of_opensStatement {token : Token} {previous : Span}
    (h : token.kind.opensStatement = true) (hline : token.span.line ≠ previous.line) :
    ({ forced := false } : Skipping).stopsAt previous token = true := by
  obtain ⟨kind, span⟩ := token
  cases kind with
  | keyword word => cases word <;> simp_all [TokenKind.opensStatement, stopsAt, isOutermost]
  | _ => simp_all [TokenKind.opensStatement, stopsAt, isOutermost]

end Skipping

namespace Reading

open Grammar

variable {o : Options} {n : Nesting} {c c' : Cursor} {k room : Nat} {ts : List Token}
  {problems : List Problem}

/-- A reading reads all statements that a lenient language allows, and reports the problems. -/
def CoversLenient (o : Options) (n : Nesting) (f : Reading (Option Statement))
    (language : Lenient Statement) : Prop :=
  ∀ ⦃ts a problems c c' k⦄, language ts a problems → c.Scans ts c' →
    c'.next.token.kind.EndsStatement → k ≤ 1 → GivesWith problems o n c k f c' 1 (some a)

/-- A body is read up to one of some tokens that can stand behind a body. -/
structure ClosesAt (o : Options) (n : Nesting) (atEnd : Reading Bool) (stops : TokenKind → Bool) :
    Prop where
  ends : EndsAt o n atEnd stops
  closes : ∀ kind, stops kind = true → kind.closesBody = true
  resumes : ∀ problems, Obeys (resumption problems).Kept atEnd

theorem ClosesAt.goes {atEnd : Reading Bool} {stops : TokenKind → Bool}
    (h : ClosesAt o n atEnd stops) {kind : TokenKind}
    (hkind : kind.opensStatement = true ∨ kind = .symbol .openBrace) : stops kind = false := by
  rw [Bool.eq_false_iff]
  intro hstop
  have hcloses := h.closes kind hstop
  rcases hkind with hopens | rfl
  · cases kind <;> simp_all [TokenKind.opensStatement, TokenKind.closesBody]
  · simp [TokenKind.closesBody] at hcloses

theorem closesAt_program : ClosesAt o n atEndOfProgram TokenKind.stopsProgram where
  ends := endsAt_program
  closes kind h := by cases kind <;> simp_all [TokenKind.stopsProgram, TokenKind.closesBody]
  resumes _ := inferInstance

theorem closesAt_block : ClosesAt o n atEndOfBlock TokenKind.stopsBlock where
  ends := endsAt_block
  closes kind h := by cases kind <;> simp_all [TokenKind.stopsBlock, TokenKind.closesBody]
  resumes _ := inferInstance

theorem closesAt_branch (inBraces : Bool) :
    ClosesAt o n (atEndOfBranch inBraces) (TokenKind.stopsBranch inBraces) where
  ends := endsAt_branch inBraces
  closes kind h := by
    cases kind with
    | symbol sign => cases sign <;> simp_all [TokenKind.stopsBranch, TokenKind.closesBody]
    | _ => simp_all [TokenKind.stopsBranch, TokenKind.closesBody]
  resumes _ := inferInstance

/-! ## What a body begins with -/

/-- All statements of a lenient language begin like statements. -/
def LenientOpening (language : Lenient Statement) : Prop :=
  ∀ ⦃ts a problems⦄, language ts a problems →
    ∃ token rest, ts = token :: rest ∧ token.kind.opensStatement = true

theorem begins_rejected {problem : Problem} (h : Rejected o room ts problem) :
    ∃ token rest, ts = token :: rest ∧
      (token.kind.opensStatement = true ∨ token.kind = .symbol .openBrace) := by
  cases h with
  | block => exact ⟨_, _, rfl, .inr rfl⟩
  | group | conditional => exact ⟨_, _, rfl, .inl rfl⟩

/-- A token with which a body may go on stands in the source. -/
theorem shows_item {token : Token} {rest : List Token} (h : c.Scans (token :: rest) c')
    (hkind : token.kind.opensStatement = true ∨ token.kind = .symbol .openBrace) :
    c.Shows token ∧ c.next.cursor.Scans rest c' := by
  refine h.shows_of_ne (fun text htext => ?_) fun hline => ?_
  · rcases hkind with hopens | hbrace
    · simp [htext, TokenKind.opensStatement] at hopens
    · simp [htext] at hbrace
  · rcases hkind with hopens | hbrace
    · simp [hline, TokenKind.opensStatement] at hopens
    · simp [hline] at hbrace

theorem begins_mixed {language : Lenient Statement} (hopening : LenientOpening language)
    {as : List Statement} (h : Mixed language (Rejected o room) ts as problems) :
    ts = [] ∨ ∃ token rest, ts = token :: rest ∧
      (token.kind.opensStatement = true ∨ token.kind = .symbol .openBrace) := by
  cases h with
  | nil => exact .inl rfl
  | statement h =>
      obtain ⟨token, rest, rfl, hopens⟩ := hopening h
      exact .inr ⟨token, _, rfl, .inl hopens⟩
  | rejected h =>
      obtain ⟨token, rest, rfl, hkind⟩ := begins_rejected h
      exact .inr ⟨token, _, rfl, hkind⟩

section Mixed

variable {language : Lenient Statement} {as : List Statement} {stops : TokenKind → Bool}
  {atEnd : Reading Bool}

/-- What a body goes on with ends a statement before it. -/
theorem ends_mixed (hopening : LenientOpening language)
    (h : Mixed language (Rejected o room) ts as problems) (hscan : c.Scans ts c')
    (hcloses : c'.next.token.kind.closesBody = true) : c.next.token.kind.EndsStatement := by
  rcases begins_mixed hopening h with rfl | ⟨token, rest, rfl, hkind⟩
  · cases hscan
    exact TokenKind.endsStatement_of_closesBody hcloses
  · rw [(shows_item hscan hkind).1.token]
    rcases hkind with hopens | hbrace
    · exact TokenKind.endsStatement_of_opensStatement hopens
    · rw [hbrace]
      exact TokenKind.endsStatement_openBrace

/-- Skipping a construct ends in front of what the body goes on with. -/
theorem stopsAt_mixed (hopening : LenientOpening language)
    (h : Mixed language (Rejected o room) ts as problems) (hscan : c.Scans ts c')
    (hcloses : c'.next.token.kind.closesBody = true) {skipped : List Token}
    (hbelow : StartsBelow skipped ts) :
    ∀ last ∈ skipped.getLast?,
      ({ forced := false } : Skipping).stopsAt last.span c.next.token = true := by
  intro last hlast
  rcases begins_mixed hopening h with rfl | ⟨token, rest, rfl, hkind⟩
  · cases hscan
    exact Skipping.stopsAt_of_closesBody hcloses _
  · obtain ⟨hline, hbrace⟩ := hbelow last hlast token rfl
    rw [(shows_item hscan hkind).1.token]
    exact Skipping.stopsAt_of_opensStatement (hkind.resolve_right hbrace) hline

/-! ## Turn by turn -/

instance {P : Law} [Composes P] [AsksStop P] {statement : Reading (Option Statement)}
    [Obeys P statement] [Obeys P atEnd] {statements : Array Statement} :
    Obeys P (bodyTurn atEnd statement statements) := by
  unfold bodyTurn
  infer_instance

/-- One more statement. -/
theorem GivesWith.appendStatement {statement : Reading (Option Statement)} {a : Statement}
    (h : GivesWith problems o n c k statement c' 1 (some a)) (statements : Array Statement) :
    GivesWith problems o n c k (appendStatement statement statements) c' 1
      (statements.push a) := by
  intro j hj s hs
  obtain ⟨j', hj', s', t, hs', hagree, hrun⟩ := h j hj s hs
  exact ⟨j', hj', s', t, hs', hagree, by rw [appendStatement_run, hrun]⟩

/-- A turn of a body adds what its statement adds. -/
theorem givesWith_bodyTurn (hatEnd : ClosesAt o n atEnd stops) {token : Token}
    (hshows : c.Shows token)
    (hkind : token.kind.opensStatement = true ∨ token.kind = .symbol .openBrace)
    {statement : Reading (Option Statement)} {before after : Array Statement}
    (h : GivesWith problems o n c 1 (Reading.appendStatement statement before) c' 1 after)
    (hk : k ≤ 1) :
    GivesWith problems o n c k (bodyTurn atEnd statement before) c' 1 (.again after) := by
  refine (hatEnd.ends hshows.clear hk).bind_with ?_
  rw [hshows.token, hatEnd.goes hkind, if_neg Bool.false_ne_true]
  exact h.bind_pure

/-- A body is read turn by turn, up to what closes it. -/
theorem givesWith_mixed (hlimit : o.maxErrors = none) (hroom : n.depth + room = o.maxNestingDepth)
    (hatEnd : ClosesAt o n atEnd stops) (hopening : LenientOpening language)
    (hstatement : CoversLenient o n (Statement.read (room + 1)) language)
    (h : Mixed language (Rejected o room) ts as problems) (hscan : c.Scans ts c')
    (hstop : stops c'.next.token.kind = true) (items : Array Statement) (hk : k ≤ 1) :
    GivesWith problems o n c k (iterate (bodyTurn atEnd (Statement.read (room + 1))) items) c' 1
      (items ++ as) := by
  have hcloses := hatEnd.closes _ hstop
  have := hatEnd.resumes
  induction h generalizing c k items with
  | nil =>
      cases hscan
      rw [Array.appendList_nil]
      refine Gives.with_nil hlimit (Gives.iterate_done ?_)
      refine (hatEnd.ends (.inl hlimit) hk).bind ?_
      rw [hstop, if_pos rfl]
      exact gives_pure
  | @statement first rest a as problems more h hrest ih =>
      obtain ⟨middle, hfirst, hafter⟩ := hscan.split
      have hends := ends_mixed hopening hrest hafter hcloses
      obtain ⟨token, others, rfl, hopens⟩ := hopening h
      obtain ⟨hshows, hothers⟩ := shows_item hfirst (.inl hopens)
      have hturn := (hstatement h hfirst hends (Nat.le_refl 1)).appendStatement items
      rw [Array.appendList_cons]
      exact (givesWith_bodyTurn hatEnd hshows (.inl hopens) hturn hk).iterate_again
        (hothers.left_le.trans_lt hshows.left_lt) (ih hafter (items.push a) (Nat.le_refl 1))
  | @rejected first rest as problem more h hrest hbelow ih =>
      obtain ⟨middle, hfirst, hafter⟩ := hscan.split
      have hstops := stopsAt_mixed hopening hrest hafter hcloses hbelow
      have hturn := givesWith_rejected hlimit hroom h hfirst hstops items (Nat.le_refl 1)
      obtain ⟨token, others, rfl, hkind⟩ := begins_rejected h
      obtain ⟨hshows, hothers⟩ := shows_item hfirst hkind
      exact (givesWith_bodyTurn hatEnd hshows hkind hturn hk).iterate_again
        (hothers.left_le.trans_lt hshows.left_lt) (ih hafter items (Nat.le_refl 1))

end Mixed

/-! ## Bodies -/

/-- A reading of statements reads all bodies that a lenient language allows. -/
def CoversBody (o : Options) (n : Nesting) (f : Reading (Option Statement))
    (body : Lenient (List Statement)) : Prop :=
  ∀ ⦃atEnd stops⦄, ClosesAt o n atEnd stops →
    ∀ ⦃ts as problems c c' k⦄, body ts as problems → c.Scans ts c' →
      stops c'.next.token.kind = true → k ≤ 1 →
      GivesWith problems o n c k (statementsUntil atEnd f) c' 1 as

theorem coversBody_mixed {language : Lenient Statement} (hlimit : o.maxErrors = none)
    (hroom : n.depth + room = o.maxNestingDepth) (hopening : LenientOpening language)
    (hstatement : CoversLenient o n (Statement.read (room + 1)) language) :
    CoversBody o n (Statement.read (room + 1)) (Mixed language (Rejected o room)) := by
  intro atEnd stops hatEnd ts as problems c c' k h hscan hstop hk
  have hbody := givesWith_mixed hlimit hroom hatEnd hopening hstatement h hscan hstop #[] hk
  rw [statementsUntil_eq]
  convert hbody.bind_pure using 1
  simp

section Bodies

variable {statement : Reading (Option Statement)} {body : Lenient (List Statement)}

theorem givesWith_block (hlimit : o.maxErrors = none) (hdepth : n.depth < o.maxNestingDepth)
    (hbody : CoversBody o n.deeper.inBraces statement body) {inside : Body}
    (h : LenientBlock body ts inside problems) (hscan : c.Scans ts c') (expectation : Expectation)
    (hk : k ≤ 1) : GivesWith problems o n c k (block statement expectation) c' 0 inside := by
  obtain ⟨h⟩ := h
  obtain ⟨hopened, hrest⟩ := hscan.shows rfl (by simp)
  obtain ⟨middle, hinside, hlast⟩ := hrest.split
  obtain ⟨hclose, rfl⟩ := hlast.shows_last rfl (by simp)
  have hstatements := hbody closesAt_block h hinside (by rw [hclose.token]; rfl) (Nat.zero_le 1)
  have hbraces : GivesWith problems o n.deeper _ 0
      (between State.openBrace State.closeBrace (statementsUntil atEndOfBlock statement)) middle 1 _ :=
    hstatements.between Nesting.inBraces
      (fun nesting => { nesting with braces := nesting.braces - 1 }) rfl
  refine (GivesWith.nested hdepth
    ((gives_expect hopened expectation hk).bind_with hbraces.bind_pure)).bind_gives hlimit ?_
  exact (gives_warnDuplicates _).bind (gives_closing hclose _ (Nat.le_refl 1)).bind_pure

/-- What a body of a directive is depends on its statements and on what it ends in front of. -/
theorem givesWith_branchBody (hlimit : o.maxErrors = none) {as : List Statement}
    (h : ∀ inBraces, GivesWith problems o n c k (statementsUntil (atEndOfBranch inBraces) statement)
      c' 1 as) (hclean : c'.next.problems = []) :
    GivesWith problems o n c k (branchBody statement) c' 1 (directiveBody as c'.next.token) :=
  givesWith_get fun _ => (h _).bind_gives hlimit ((gives_warnDuplicates as).bind
    (gives_branchSpan as (.inr hclean) (Nat.le_refl 1)).bind_pure)

/-- The body of a directive ends in front of a mark. -/
theorem givesWith_markedBody (hlimit : o.maxErrors = none) (hbody : CoversBody o n statement body)
    {as : List Statement} (h : body ts as problems) (hscan : c.Scans ts c') {next : Token}
    {which : Mark} (hnext : c'.Shows next) (hmark : next.kind = .mark which) (hk : k ≤ 1) :
    GivesWith problems o n c k (branchBody statement) c' 1 (directiveBody as next) := by
  have hkind : c'.next.token.kind = .mark which := by rw [hnext.token, hmark]
  have hstop (inBraces : Bool) : TokenKind.stopsBranch inBraces c'.next.token.kind = true := by
    rw [hkind]
    rfl
  rw [← hnext.token]
  exact givesWith_branchBody hlimit
    (fun inBraces => hbody (closesAt_branch inBraces) h hscan (hstop inBraces) hk) hnext.problems

end Bodies

end Reading

end ConfLang
