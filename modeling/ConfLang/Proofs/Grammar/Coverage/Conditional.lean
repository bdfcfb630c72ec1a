import ConfLang.Proofs.Grammar.Coverage.Body

/-!
# Conditional directive blocks of the grammar are read

The line of a directive ends with a token, or with the source.  What is ignored behind a mark
is skipped token by token up to that end.  The branches of a block are read by a repetition,
so the induction over the clauses of the grammar generalizes over the branches read before.
-/

namespace ConfLang.Reading

open Grammar

variable {α : Type} {o : Options} {n : Nesting} {c middle c' : Cursor} {k : Nat} {ts : List Token}

/-! ## The line of a directive -/

theorem gives_conditionExpression {expression : Reading Expression} {e : Expression}
    (hcondition : n.inCondition = false) (h : Gives o n.conditional c k expression c' 1 e) :
    Gives o n c k (conditionExpression expression) c' 1 e :=
  h.between (fun _ => State.setCondition_true_eq) fun _ =>
    State.setCondition_false_eq hcondition

theorem gives_path (kind : ConditionKind) (opened : Span) :
    Gives o n c 0 (path kind opened) c.rawLine.cursor 0 c.rawLine.text := by
  refine gives_rawText.bind ?_
  simp only
  split
  · exact (gives_warning _ _).bind_pure
  · exact gives_pure

/-- The condition of a block is read as the rest of the line of its directive. -/
theorem gives_conditionLine {expression : Reading Expression} {language : Language Expression}
    (hcondition : n.inCondition = false)
    (hexpression : Covers o n.conditional expression language TokenKind.EndsExpression)
    {kind : ConditionKind} {condition : Condition} (h : Conditional language kind ts condition)
    (hscan : c.Scans ts middle) (hline : middle.EndsLine c') (opened : Span) :
    Gives o n c 0 (conditionLine kind opened expression) c' 1 condition := by
  suffices hgives : Gives o n c 0 (conditionOf kind opened expression) middle 1 condition from
    hgives.bind (gives_endOfLine hline _ (Nat.le_refl 1)).bind_pure
  cases h with
  | holds h =>
      exact (gives_conditionExpression hcondition
        (hexpression h hscan hline.clear hline.endsExpression (Nat.zero_le 1))).bind_pure
  | defined hname => exact (gives_name hname hscan _ (Nat.zero_le 1)).bind_pure.loose
  | undefined hname => exact (gives_name hname hscan _ (Nat.zero_le 1)).bind_pure.loose
  | fileExists =>
      obtain ⟨rfl, -, hrest⟩ := hscan.rawLine
      cases hrest
      exact (gives_path _ opened).bind_pure.loose
  | fileMissing =>
      obtain ⟨rfl, -, hrest⟩ := hscan.rawLine
      cases hrest
      exact (gives_path _ opened).bind_pure.loose

theorem gives_lineOrSkip {line : Reading α} {a : α} (h : Gives o n c k line c' 1 a) :
    Gives o n c k (lineOrSkip line) c' 1 (some a) :=
  h.attempt.bind gives_pure

/-- The line that opens a block is read through its end. -/
theorem gives_conditionalHead {expression : Reading Expression} {language : Language Expression}
    (hcondition : n.inCondition = false)
    (hexpression : Covers o n.conditional expression language TokenKind.EndsExpression)
    {kind : ConditionKind} {condition : Condition} (h : Conditional language kind ts condition)
    {opened : Span} (hopened : c.Shows ⟨.opener kind, opened⟩)
    (hscan : c.next.cursor.Scans ts middle) (hline : middle.EndsLine c') (hk : k ≤ 1) :
    Gives o n c k (conditionalHead kind opened expression) c' 1 (some condition) :=
  ((gives_advance hopened).weaken hk (Nat.le_refl 0)).bind ((gives_note _).bind
    (gives_lineOrSkip (gives_conditionLine hcondition hexpression h hscan hline opened)))

/-! ## Marks -/

theorem gives_skipLine (hignored : Ignored ts) (hscan : c.Scans ts middle)
    (hline : middle.EndsLine c') (hk : k ≤ 1) : Gives o n c k skipLine c' 1 () := by
  refine Gives.map (a := ()) ?_
  induction ts generalizing c k with
  | nil =>
      cases hscan
      refine Gives.iterate_done ?_
      rcases hline with ⟨token, hshows, hkind, rfl⟩ | ⟨hdirective, hend, rfl⟩
      · refine (gives_shown hshows hk).bind ?_
        rw [hkind]
        exact (gives_advance hshows).bind_pure.loose
      · refine (gives_peek_end hend hdirective hk).bind ?_
        rw [hend.1]
        exact gives_pure
  | cons token rest ih =>
      rw [Ignored, List.forall_mem_cons] at hignored
      obtain ⟨⟨hkind, htext⟩, hignored⟩ := hignored
      obtain ⟨hshows, hrest⟩ := hscan.shows_of_ne htext hkind
      refine (Leads.iterate_again ?_ hshows.left_lt).trans (ih hignored hrest (Nat.zero_le 1))
      refine (gives_shown hshows hk).bind ?_
      split
      · exact absurd ‹_› hshows.kind
      · exact absurd ‹_› hkind
      · exact (gives_advance hshows).bind_pure

theorem gives_endOfMark (mark : Mark) (hignored : Ignored ts) (hscan : c.Scans ts middle)
    (hline : middle.EndsLine c') (hk : k ≤ 1) : Gives o n c k (endOfMark mark) c' 1 () := by
  cases ts with
  | nil =>
      cases hscan
      rcases hline with ⟨token, hshows, hkind, rfl⟩ | ⟨hdirective, hend, rfl⟩
      · refine (gives_shown hshows hk).bind ?_
        rw [hkind]
        exact (gives_advance hshows).loose.map
      · refine (gives_peek_end hend hdirective hk).bind ?_
        rw [hend.1]
        exact gives_pure
  | cons token rest =>
      obtain ⟨hkind, htext⟩ := hignored token List.mem_cons_self
      obtain ⟨hshows, -⟩ := hscan.shows_of_ne htext hkind
      refine (gives_shown hshows hk).bind ?_
      split
      · exact absurd ‹_› hkind
      · exact absurd ‹_› hshows.kind
      · exact (gives_warning _ _).bind (gives_skipLine hignored hscan hline (Nat.le_refl 1))

/-! ## Branches -/

section Branching

variable {expression : Reading Expression} {condition : Language Expression}
  {statement : Reading (Option Statement)} {language : Language Statement}

/-- Every clause of a block begins with a mark. -/
theorem shows_clauses {branches : List Branch} {last : Option Body} {close : Span} {next : Token}
    (h : Clauses condition language (next :: ts) branches last close)
    (hscan : c.Scans (next :: ts) c') : c.Shows next ∧ ∃ which, next.kind = .mark which := by
  cases h with
  | endif | otherwise | elif => exact ⟨(hscan.shows rfl (by simp)).1, _, rfl⟩

theorem gives_endif {close : Span} (hignored : Ignored ts)
    (hshows : c.Shows ⟨.mark .endif, close⟩) (hscan : c.next.cursor.Scans ts middle)
    (hline : middle.EndsLine c') (kind : ConditionKind) (opened : Span) (hk : k ≤ 1) :
    Gives o n c k (endif kind opened) c' 1 close := by
  refine (gives_shown hshows hk).bind ?_
  rw [if_pos rfl]
  exact (gives_advance hshows).bind
    (gives_endOfMark .endif hignored hscan hline (Nat.zero_le 1)).bind_pure

/-- The condition of a branch.  The branch counts as long as there is no last body. -/
theorem leads_elifBranch (hcondition : n.inCondition = false)
    (hexpression : Covers o n.conditional expression condition TokenKind.EndsExpression)
    {before : Branches} (hnone : before.otherwise = none) {e : Expression} (h : condition ts e)
    (hscan : c.Scans ts middle) {behind : Cursor} (hline : middle.EndsLine behind) (start : Span) :
    Leads o n c 0 (elifBranch expression statement start before) behind 1 (do
      let body ← branchBody statement
      return { before with elifs := before.elifs.push (.mk e body (start.through body.span)) }) := by
  unfold elifBranch
  simp only [hnone, Option.isSome_none, Bool.false_eq_true, if_false]
  have hcond : Gives o n c 0 (branchCondition expression) behind 1 e :=
    (gives_conditionExpression hcondition (hexpression h hscan hline.clear hline.endsExpression
      (Nat.zero_le 1))).bind (gives_endOfLine hline _ (Nat.le_refl 1)).bind_pure
  exact (gives_lineOrSkip hcond).bind .refl

theorem gives_elifBranch (hcondition : n.inCondition = false)
    (hexpression : Covers o n.conditional expression condition TokenKind.EndsExpression)
    (hopening : Opening language) (hstatement : CoversStatement o n statement language)
    {before : Branches} (hnone : before.otherwise = none) {e : Expression} (h : condition ts e)
    (hscan : c.Scans ts middle) {behind : Cursor} (hline : middle.EndsLine behind)
    {body : List Token} {statements : List Statement} (hbody : Many language body statements)
    (hbody' : behind.Scans body c') {next : Token} {which : Mark} (hnext : c'.Shows next)
    (hmark : next.kind = .mark which) (start : Span) :
    Gives o n c 0 (elifBranch expression statement start before) c' 1
      { before with elifs := before.elifs.push (.mk e (directiveBody statements next)
        (start.through (directiveBody statements next).span)) } :=
  (leads_elifBranch hcondition hexpression hnone h hscan hline start).trans
    (gives_branchBody hopening hstatement hbody hbody' hnext hmark (Nat.le_refl 1)).bind_pure

/-- The line of the last branch.  Its body counts if there is no other one. -/
theorem leads_otherwiseBranch {before : Branches} (hnone : before.otherwise = none)
    (hignored : Ignored ts) (hscan : c.Scans ts middle) {behind : Cursor}
    (hline : middle.EndsLine behind) (start : Span) :
    Leads o n c 0 (otherwiseBranch statement start before) behind 1 (do
      let body ← branchBody statement
      return { before with otherwise := some body }) := by
  unfold otherwiseBranch
  simp only [hnone, Option.isSome_none, Bool.false_eq_true, if_false]
  exact (gives_endOfMark .otherwise hignored hscan hline (Nat.zero_le 1)).bind .refl

theorem gives_otherwiseBranch (hopening : Opening language)
    (hstatement : CoversStatement o n statement language)
    {before : Branches} (hnone : before.otherwise = none) (hignored : Ignored ts)
    (hscan : c.Scans ts middle) {behind : Cursor} (hline : middle.EndsLine behind)
    {body : List Token} {statements : List Statement} (hbody : Many language body statements)
    (hbody' : behind.Scans body c') {next : Token} {which : Mark} (hnext : c'.Shows next)
    (hmark : next.kind = .mark which) (start : Span) :
    Gives o n c 0 (otherwiseBranch statement start before) c' 1
      { before with otherwise := some (directiveBody statements next) } :=
  (leads_otherwiseBranch hnone hignored hscan hline start).trans
    (gives_branchBody hopening hstatement hbody hbody' hnext hmark (Nat.le_refl 1)).bind_pure

theorem leads_branch_elif {start : Span} (h : c.Shows ⟨.mark .elif, start⟩) (before : Branches)
    (hk : k ≤ 1) : Leads o n c k (branch expression statement before) c.next.cursor 0
      (return .again (← elifBranch expression statement start before)) :=
  (gives_shown h hk).bind ((gives_advance h).bind .refl)

theorem leads_branch_otherwise {start : Span} (h : c.Shows ⟨.mark .otherwise, start⟩)
    (before : Branches) (hk : k ≤ 1) :
    Leads o n c k (branch expression statement before) c.next.cursor 0
      (return .again (← otherwiseBranch statement start before)) :=
  (gives_shown h hk).bind ((gives_advance h).bind .refl)

/-- The branches of a block are read up to the mark that closes it. -/
theorem gives_clauses (hcondition : n.inCondition = false)
    (hexpression : Covers o n.conditional expression condition TokenKind.EndsExpression)
    (hopening : Opening language) (hstatement : CoversStatement o n statement language)
    {branches : List Branch} {last : Option Body} {close : Span}
    (h : Clauses condition language ts branches last close) (hscan : c.Scans ts c')
    (before : Branches) (hbefore : before.otherwise = none ∨ branches = [] ∧ last = none)
    (kind : ConditionKind) (opened : Span) (hk : k ≤ 1) :
    ∃ middle, Gives o n c k (iterate (branch expression statement) before) middle 1
        ⟨before.elifs ++ branches, before.otherwise.or last⟩ ∧
      Gives o n middle 1 (endif kind opened) c' 1 close := by
  -- The induction is on the clauses, with any branches read in front of them.
  induction h generalizing c k before with
  | endif hignored =>
      obtain ⟨_, _, hshows, hrest, hline, hnil, -⟩ := hscan.directiveLine rfl
      obtain ⟨⟩ := hnil
      refine ⟨c, ?_, gives_endif hignored hshows hrest hline kind opened (Nat.le_refl 1)⟩
      rw [Array.appendList_nil, Option.or_none]
      exact Gives.iterate_done ((gives_shown hshows hk).bind gives_pure)
  | otherwise hignored hbody hclauses ih =>
      obtain ⟨_, hclause, hlast⟩ := hscan.split
      obtain ⟨_, _, hshows, hignored', hline, hbody', hbehind⟩ := hclause.directiveLine rfl
      obtain ⟨hnext, which, hmark⟩ := shows_clauses hclauses hlast
      have hnone : before.otherwise = none := by simpa using hbefore
      have hless := hbody'.left_le.trans_lt hbehind
      obtain ⟨middle, hbranches, hclose⟩ := ih hlast
        { before with otherwise := some (directiveBody _ _) } (.inr ⟨rfl, rfl⟩) (Nat.le_refl 1)
      rw [hnone, Option.none_or]
      refine ⟨middle, (Leads.iterate_again ?_ hless).trans hbranches, hclose⟩
      exact (leads_branch_otherwise hshows before hk).trans (gives_otherwiseBranch hopening
        hstatement hnone hignored hignored' hline hbody hbody' hnext hmark _).bind_pure
  | @elif _ _ _ _ _ _ _ _ start _ _ hcond hbody hclauses ih =>
      obtain ⟨_, hclause, hlast⟩ := hscan.split
      obtain ⟨_, _, hshows, hcond', hline, hbody', hbehind⟩ := hclause.directiveLine rfl
      obtain ⟨hnext, which, hmark⟩ := shows_clauses hclauses hlast
      have hnone : before.otherwise = none := by simpa using hbefore
      have hless := hbody'.left_le.trans_lt hbehind
      obtain ⟨middle, hbranches, hclose⟩ := ih hlast
        { before with elifs := before.elifs.push (.mk _ _ _) } (.inl hnone) (Nat.le_refl 1)
      rw [Array.appendList_cons]
      refine ⟨middle, (Leads.iterate_again ?_ hless).trans hbranches, hclose⟩
      exact (leads_branch_elif hshows before hk).trans (gives_elifBranch hcondition hexpression
        hopening hstatement hnone hcond hcond' hline hbody hbody' hnext hmark start).bind_pure

/-! ## Blocks -/

/-- A conditional directive block is read as a whole, and not dropped. -/
theorem gives_conditionalFrom (hdepth : n.depth < o.maxNestingDepth)
    (hcondition : n.inCondition = false)
    (hexpression : ∀ m : Nesting, m.depth = n.depth + 1 → m.inCondition = true →
      Covers o m expression condition TokenKind.EndsExpression)
    (hopening : Opening language) (hstatement : CoversStatement o n.deeper.inChain statement language)
    {kind : ConditionKind} {condition' : Condition} (h : Conditional condition kind ts condition')
    {opened : Span} (hopened : c.Shows ⟨.opener kind, opened⟩)
    (hscan : c.next.cursor.Scans ts middle) {behind : Cursor} (hline : middle.EndsLine behind)
    {body : List Token} {statements : List Statement} (hbody : Many language body statements)
    {next : Token} {rest : List Token} {branches : List Branch} {last : Option Body} {close : Span}
    {ahead : Cursor} (hbody' : behind.Scans body ahead)
    (hclauses : Clauses condition language (next :: rest) branches last close)
    (hrest : ahead.Scans (next :: rest) c') (hk : k ≤ 1) :
    Gives o n c k (conditionalFrom kind opened expression statement) c' 1
      (some (.conditional condition' (directiveBody statements next) branches last
        (opened.through close))) := by
  obtain ⟨hnext, which, hmark⟩ := shows_clauses hclauses hrest
  obtain ⟨_, hbranches, hclose⟩ := gives_clauses (n := n.deeper.inChain) hcondition
    (hexpression _ rfl rfl) hopening hstatement hclauses hrest {} (.inl rfl) kind opened
    (Nat.le_refl 1)
  have hbranching : Gives o n.deeper.inChain behind 1
      (branching kind opened expression statement) c' 1
      ⟨directiveBody statements next, ⟨#[] ++ branches, last⟩, close⟩ :=
    (gives_branchBody hopening hstatement hbody hbody' hnext hmark (Nat.le_refl 1)).bind
      (Gives.bind hbranches hclose.bind_pure)
  have hchain := hbranching.between (fun _ => State.openChain_eq) fun _ => State.closeChain_eq
  have hhead := gives_conditionalHead (n := n.deeper) hcondition (hexpression _ rfl rfl) h hopened
    hscan hline hk
  rw [conditionalFrom_eq]
  refine Gives.bind (Gives.nested hdepth (hhead.bind hchain.bind_pure)) ((gives_note _).bind ?_)
  rw [show ((#[] : Array Branch) ++ branches).toList = branches by simp]
  exact gives_pure

end Branching

end ConfLang.Reading
