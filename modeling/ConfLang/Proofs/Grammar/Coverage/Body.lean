import ConfLang.Proofs.Grammar.Coverage.Expression

/-!
# Bodies of the grammar are read

A body has no mark between its statements.  That reading goes on with the next statement
where the last one ends is due to the first token: what a statement can begin with does not
go on with a statement before it, and neither does what can stand behind a body.
-/

namespace ConfLang

namespace TokenKind

/-- Whether a statement can begin with a token. -/
def opensStatement : TokenKind → Bool
  | opener _ | message _ | passage _ | name _ _ => true
  | keyword word => word ≠ .elseWord
  | _ => false

/-- A token does not go on with a statement. -/
def EndsStatement (kind : TokenKind) : Prop :=
  kind.EndsExpression ∧ kind ≠ .keyword .elseWord

theorem endsStatement_of_opensStatement {kind : TokenKind} (h : kind.opensStatement = true) :
    kind.EndsStatement := by
  cases kind <;>
    simp_all [opensStatement, EndsStatement, EndsExpression, EndsChain, EndsOperand,
      Operator.ofToken?]

/-- A program ends in front of a token. -/
def stopsProgram (kind : TokenKind) : Bool :=
  kind = .endOfFile

/-- A block ends in front of a token. -/
def stopsBlock (kind : TokenKind) : Bool :=
  kind = .symbol .closeBrace ∨ kind = .endOfFile

/-- The body of a conditional directive block ends in front of a token. -/
def stopsBranch (inBraces : Bool) : TokenKind → Bool
  | mark _ | endOfFile => true
  | symbol .closeBrace => inBraces
  | _ => false

theorem stopsBranch_of_opensStatement {kind : TokenKind} (h : kind.opensStatement = true)
    (inBraces : Bool) : kind.stopsBranch inBraces = false := by
  cases kind <;> first | rfl | simp [opensStatement] at h

end TokenKind

namespace Reading

open Grammar

variable {o : Options} {n : Nesting} {c c' : Cursor} {k : Nat} {ts : List Token}

/-- A reading reads all statements that a language allows, and drops none. -/
def CoversStatement (o : Options) (n : Nesting) (f : Reading (Option Statement))
    (language : Language Statement) : Prop :=
  ∀ ⦃ts a c c' k⦄, language ts a → c.Scans ts c' → c'.Clear o →
    c'.next.token.kind.EndsStatement → k ≤ 1 → Gives o n c k f c' 1 (some a)

/-- All statements of a language begin like statements. -/
def Opening (language : Language Statement) : Prop :=
  ∀ ⦃ts a⦄, language ts a → ∃ token rest, ts = token :: rest ∧ token.kind.opensStatement = true

theorem Opening.shows {language : Language Statement} (hopening : Opening language)
    {a : Statement} (h : language ts a) (hscan : c.Scans ts c') :
    ∃ token, c.Shows token ∧ token.kind.opensStatement = true ∧ c'.left < c.left := by
  obtain ⟨token, rest, rfl, hopens⟩ := hopening h
  obtain ⟨hshows, hrest⟩ := hscan.shows_of_ne
    (fun text hkind => by simp [hkind, TokenKind.opensStatement] at hopens)
    (fun hkind => by simp [hkind, TokenKind.opensStatement] at hopens)
  exact ⟨token, hshows, hopens, hrest.left_le.trans_lt hshows.left_lt⟩

/-- A body ends in front of certain tokens. -/
def EndsAt (o : Options) (n : Nesting) (atEnd : Reading Bool) (stops : TokenKind → Bool) : Prop :=
  ∀ ⦃c k⦄, c.Clear o → k ≤ 1 → Gives o n c k atEnd c 1 (stops c.next.token.kind)

theorem endsAt_program : EndsAt o n atEndOfProgram TokenKind.stopsProgram := by
  intro c k hclear hk
  refine (gives_peek hclear hk).bind (leads_get fun _ _ _ hstopped => ?_)
  simp only [hstopped, Bool.false_eq_true, or_false]
  exact gives_pure

theorem endsAt_block : EndsAt o n atEndOfBlock TokenKind.stopsBlock := by
  intro c k hclear hk
  refine (gives_peek hclear hk).bind (leads_get fun _ _ _ hstopped => ?_)
  simp only [hstopped, Bool.false_eq_true, or_false]
  exact gives_pure

theorem endsAt_branch (inBraces : Bool) :
    EndsAt o n (atEndOfBranch inBraces) (TokenKind.stopsBranch inBraces) := by
  intro c k hclear hk
  refine leads_get fun _ _ _ hstopped => ?_
  rw [hstopped, if_neg Bool.false_ne_true]
  refine (gives_peek hclear hk).bind ?_
  cases c.next.token.kind with
  | symbol sign => cases sign <;> exact gives_pure
  | _ => exact gives_pure

/-! ## Statement by statement -/

section Bodies

variable {statement : Reading (Option Statement)} {language : Language Statement}
  {atEnd : Reading Bool} {stops : TokenKind → Bool}

/-- Behind a statement of a body stands another one, or what stands behind the body. -/
theorem ends_many (hopening : Opening language) {as : List Statement}
    (h : Many language ts as) (hscan : c.Scans ts c') (hclear : c'.Clear o)
    (hends : c'.next.token.kind.EndsStatement) :
    c.Clear o ∧ c.next.token.kind.EndsStatement := by
  cases h with
  | nil =>
      cases hscan
      exact ⟨hclear, hends⟩
  | cons h _ =>
      obtain ⟨middle, hfirst, -⟩ := hscan.split
      obtain ⟨token, hshows, hopens, -⟩ := hopening.shows h hfirst
      exact ⟨hshows.clear, hshows.token ▸ TokenKind.endsStatement_of_opensStatement hopens⟩

/-- Reading a body leads to going on behind its first statements. -/
theorem leads_body (hatEnd : EndsAt o n atEnd stops)
    (hstops : ∀ kind : TokenKind, kind.opensStatement = true → stops kind = false)
    (hopening : Opening language) (hstatement : CoversStatement o n statement language)
    {as : List Statement} (h : Many language ts as) (hscan : c.Scans ts c') (hclear : c'.Clear o)
    (hends : c'.next.token.kind.EndsStatement) (items : Array Statement) (hk : k ≤ 1) :
    Leads o n c k (iterate (bodyTurn atEnd statement) items) c' 1
      (iterate (bodyTurn atEnd statement) (items ++ as)) := by
  induction h generalizing c k items with
  | nil =>
      cases hscan
      rw [Array.appendList_nil]
      exact Leads.refl.weaken (Nat.le_refl k) hk
  | @cons first rest a as h hmany ih =>
      obtain ⟨middle, hfirst, hrest⟩ := hscan.split
      obtain ⟨token, hshows, hopens, hless⟩ := hopening.shows h hfirst
      obtain ⟨hmiddle, hends'⟩ := ends_many hopening hmany hrest hclear hends
      rw [Array.appendList_cons]
      refine (Leads.iterate_again ?_ hless).trans (ih hrest (items.push a) (Nat.le_refl 1))
      refine (hatEnd hshows.clear hk).bind ?_
      rw [hshows.token, hstops _ hopens, if_neg Bool.false_ne_true]
      refine Gives.bind_pure (leads_get fun _ _ _ _ => ?_)
      exact (hstatement h hfirst hmiddle hends' (Nat.le_refl 1)).attempt.bind gives_pure

theorem gives_statementsUntil (hatEnd : EndsAt o n atEnd stops)
    (hstops : ∀ kind : TokenKind, kind.opensStatement = true → stops kind = false)
    (hopening : Opening language) (hstatement : CoversStatement o n statement language)
    {as : List Statement} (h : Many language ts as) (hscan : c.Scans ts c') (hclear : c'.Clear o)
    (hends : c'.next.token.kind.EndsStatement) (hstop : stops c'.next.token.kind = true)
    (hk : k ≤ 1) : Gives o n c k (statementsUntil atEnd statement) c' 1 as := by
  have hdone (items : Array Statement) :
      Gives o n c' 1 (iterate (bodyTurn atEnd statement) items) c' 1 items := by
    refine Gives.iterate_done (Gives.bind (hatEnd hclear (Nat.le_refl 1)) ?_)
    rw [hstop, if_pos rfl]
    exact gives_pure
  rw [statementsUntil_eq]
  refine Gives.bind ((leads_body hatEnd hstops hopening hstatement h hscan hclear hends #[]
    hk).trans (hdone _)) ?_
  rw [show (#[] ++ as : Array Statement).toList = as by simp]
  exact gives_pure

theorem gives_warnDuplicates (statements : List Statement) :
    Gives o n c k (warnDuplicates statements) c k () :=
  gives_warnings (isError_duplicateWarnings [] statements)

/-! ## Bodies -/

theorem gives_block (hdepth : n.depth < o.maxNestingDepth) (hopening : Opening language)
    (hstatement : CoversStatement o n.deeper.inBraces statement language) {body : Body}
    (h : Block language ts body) (hscan : c.Scans ts c') (expectation : Expectation)
    (hk : k ≤ 1) : Gives o n c k (block statement expectation) c' 0 body := by
  obtain ⟨h⟩ := h
  obtain ⟨hopened, hrest⟩ := hscan.shows rfl (by simp)
  obtain ⟨middle, hinside, hlast⟩ := hrest.split
  obtain ⟨hclose, rfl⟩ := hlast.shows_last rfl (by simp)
  have hends : middle.next.token.kind.EndsStatement := by
    rw [hclose.token]
    exact ⟨TokenKind.endsExpression_closing .brace, by simp⟩
  have hstatements := gives_statementsUntil endsAt_block
    (fun kind hopens => by
      cases kind <;> first | rfl | simp [TokenKind.opensStatement] at hopens)
    hopening hstatement h hinside hclose.clear hends
    (by rw [hclose.token]; rfl) (Nat.zero_le 1)
  have hbraces := hstatements.between (fun _ => State.openBrace_eq) fun _ => State.closeBrace_eq
  refine Gives.bind (Gives.nested hdepth
    ((gives_expect hopened expectation hk).bind hbraces.bind_pure)) ?_
  exact (gives_warnDuplicates _).bind (gives_closing hclose _ (Nat.le_refl 1)).bind_pure

/-- The place of the body of a directive in front of a token. -/
theorem gives_branchSpan (as : List Statement) (hclear : c.Clear o) (hk : k ≤ 1) :
    Gives o n c k (branchSpan as) c 1 (directiveBody as c.next.token).span := by
  unfold branchSpan directiveBody
  cases as.head? <;> cases as.getLast? <;>
    first
    | exact gives_pure.weaken (Nat.le_refl k) hk
    | exact (gives_peek hclear hk).bind_pure

/-- The body of a directive ends in front of a token that stands in the source. -/
theorem gives_branchBody (hopening : Opening language)
    (hstatement : CoversStatement o n statement language) {as : List Statement}
    (h : Many language ts as) (hscan : c.Scans ts c') {next : Token} {which : Mark}
    (hnext : c'.Shows next) (hmark : next.kind = .mark which) (hk : k ≤ 1) :
    Gives o n c k (branchBody statement) c' 1 (directiveBody as next) := by
  have hkind : c'.next.token.kind = .mark which := by rw [hnext.token, hmark]
  have hends : c'.next.token.kind.EndsStatement := by
    simp [hkind, TokenKind.EndsStatement, TokenKind.EndsExpression, TokenKind.EndsChain,
      TokenKind.EndsOperand, Operator.ofToken?]
  refine leads_get fun _ _ _ _ => ?_
  refine (gives_statementsUntil (endsAt_branch _)
    (fun kind hopens => TokenKind.stopsBranch_of_opensStatement hopens _) hopening hstatement h
    hscan hnext.clear hends (by rw [hkind]; rfl) hk).bind ?_
  rw [← hnext.token]
  exact (gives_warnDuplicates as).bind (gives_branchSpan as hnext.clear (Nat.le_refl 1)).bind_pure

end Bodies

end Reading

end ConfLang
