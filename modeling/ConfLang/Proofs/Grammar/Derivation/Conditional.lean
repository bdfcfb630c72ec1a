import ConfLang.Proofs.Grammar.Coverage.Conditional
import ConfLang.Proofs.Grammar.Derivation.Body

/-!
# What is read as a conditional directive block is derived

The end of the source ends the line of a directive only while that line goes on, so the
statements here carry that the line is that of a directive.  The clauses of a block are read
from the first one on, but the grammar derives them from the last one on; the invariant of
the repetition says what can be made of any clauses that follow (`BranchedSoFar`).
-/

namespace ConfLang.Reading

open Grammar

variable {α : Type} {o : Options} {n : Nesting} {c c' : Cursor} {k : Nat}

/-! ## The line of a directive -/

/-- The rest of the line of a directive is derived, and the line ends behind it. -/
def DerivedLine (language : Language α) (c : Cursor) (a : α) (c' : Cursor) : Prop :=
  ∃ middle, Derived language c a middle ∧ middle.EndsLine c'

section Lines

variable {expression : Reading Expression} {language : Language Expression}

theorem yields_conditionExpression (hcondition : n.inCondition = false)
    (hexpression : Derives o n.conditional expression language) (hk : k ≤ 1) :
    Yields o n c k (conditionExpression expression) 1 (Derived language c) :=
  Yields.between (fun _ => State.setCondition_true_eq)
    (fun _ => State.setCondition_false_eq hcondition) (fun s => s.grows_renest _) (hexpression hk)

/-- Expressions and names do not leave the line of a directive. -/
theorem isDirective_of_worded {begins : TokenKind → Bool} {language : Language α}
    (hl : Worded begins language) {ts : List Token} {a : α} (h : language ts a)
    (hscan : c.Scans ts c') (hline : c.mode.isDirective = true) : c'.mode.isDirective = true :=
  (hscan.isDirective (hl.plain h)).trans hline

theorem yields_conditionOf (hcondition : n.inCondition = false)
    (hexpression : Derives o n.conditional expression language)
    (hl : Worded TokenKind.beginsExpression language) (hline : c.mode.isDirective = true)
    (kind : ConditionKind) (opened : Span) :
    Yields o n c 0 (conditionOf kind opened expression) 1 fun condition c' =>
      Derived (Conditional language kind) c condition c' ∧ c'.mode.isDirective = true := by
  cases kind with
  | holds =>
      refine (yields_conditionExpression hcondition hexpression (Nat.zero_le 1)).bind
        inferInstance ?_
      rintro e c' ⟨ts, h, hscan⟩
      exact yields_pure ⟨⟨ts, .holds h, hscan⟩, isDirective_of_worded hl h hscan hline⟩
  | defined =>
      refine ((yields_identifier (Nat.zero_le 1)).bind inferInstance ?_).loose
      rintro name c' ⟨ts, h, hscan⟩
      exact yields_pure ⟨⟨ts, .defined h, hscan⟩, isDirective_of_worded worded_name h hscan hline⟩
  | undefined =>
      refine ((yields_identifier (Nat.zero_le 1)).bind inferInstance ?_).loose
      rintro name c' ⟨ts, h, hscan⟩
      exact yields_pure
        ⟨⟨ts, .undefined h, hscan⟩, isDirective_of_worded worded_name h hscan hline⟩
  | fileExists =>
      exact (yields_of_gives (gives_path _ opened).bind_pure
        ⟨⟨_, .fileExists, .text .nil⟩, hline⟩).loose
  | fileMissing =>
      exact (yields_of_gives (gives_path _ opened).bind_pure
        ⟨⟨_, .fileMissing, .text .nil⟩, hline⟩).loose

theorem yields_conditionLine (hcondition : n.inCondition = false)
    (hexpression : Derives o n.conditional expression language)
    (hl : Worded TokenKind.beginsExpression language) (hline : c.mode.isDirective = true)
    (kind : ConditionKind) (opened : Span) :
    Yields o n c 0 (conditionLine kind opened expression) 1
      (DerivedLine (Conditional language kind) c) := by
  unfold conditionLine
  refine (yields_conditionOf hcondition hexpression hl hline kind opened).bind inferInstance ?_
  rintro condition middle ⟨h, hmiddle⟩
  refine (yields_endOfLine hmiddle (Nat.le_refl 1)).bind inferInstance ?_
  exact fun _ c' hends => yields_pure ⟨middle, h, hends⟩

theorem yields_branchCondition (hcondition : n.inCondition = false)
    (hexpression : Derives o n.conditional expression language)
    (hl : Worded TokenKind.beginsExpression language) (hline : c.mode.isDirective = true)
    (hk : k ≤ 1) :
    Yields o n c k (branchCondition expression) 1 (DerivedLine language c) := by
  unfold branchCondition
  refine (yields_conditionExpression hcondition hexpression hk).bind inferInstance ?_
  rintro e middle ⟨ts, h, hscan⟩
  have hmiddle := isDirective_of_worded hl h hscan hline
  refine (yields_endOfLine hmiddle (Nat.le_refl 1)).bind inferInstance ?_
  exact fun _ c' hends => yields_pure ⟨middle, ⟨ts, h, hscan⟩, hends⟩

end Lines

theorem yields_lineOrSkip {line : Reading α} {k' : Nat} {Q : α → Cursor → Prop}
    (h : Yields o n c k line k' Q) :
    Yields o n c k (lineOrSkip line) k' fun a c' => ∃ b, a = some b ∧ Q b c' := by
  unfold lineOrSkip
  refine h.attempt (fun _ => inferInstance) (fun a c' h => yields_pure ⟨a, rfl, h⟩) fun _ => ?_
  exact spoils_report rfl

/-- The line that opens a block is derived with its condition. -/
theorem yields_conditionalHead {expression : Reading Expression} [Adds expression]
    {language : Language Expression} (hcondition : n.inCondition = false)
    (hexpression : Derives o n.conditional expression language)
    (hl : Worded TokenKind.beginsExpression language) {kind : ConditionKind}
    (hopened : c.next.token.kind = .opener kind) (hk : k ≤ 1) :
    Yields o n c k (conditionalHead kind c.next.token.span expression) 1 fun found c' =>
      ∃ condition, found = some condition ∧ c.Shows ⟨.opener kind, c.next.token.span⟩ ∧
        DerivedLine (Conditional language kind) c.next.cursor condition c' := by
  unfold conditionalHead
  refine yields_advance inferInstance (by simp [hopened]) fun hshows => ?_
  have hshows := hshows.of_kind hopened
  refine Yields.of_leads ((gives_note _).bind .refl) ?_
  refine Yields.weaken (k := 0) ?_ (by omega) (Nat.le_refl 1)
  refine (yields_lineOrSkip (yields_conditionLine hcondition hexpression hl
    (hshows.isDirective rfl) kind _)).imp ?_
  rintro _ c' ⟨condition, rfl, hline⟩
  exact ⟨condition, rfl, hshows, hline⟩

/-! ## Marks -/

/-- The rest of the line of a mark is ignored, and the line ends behind it. -/
def IgnoredLine (c c' : Cursor) : Prop :=
  ∃ ts middle, Ignored ts ∧ c.Scans ts middle ∧ middle.EndsLine c'

/-- A token that does not end the line of a directive is ignored, and the line goes on. -/
theorem ignored_of_shows {token : Token} (h : c.Shows token) (hkind : token.kind ≠ .endOfLine)
    (hline : c.mode.isDirective = true) :
    Ignored [token] ∧ c.next.cursor.mode.isDirective = true := by
  constructor
  · intro other hother
    obtain rfl := List.mem_singleton.mp hother
    exact ⟨hkind, fun text => h.token ▸ Cursor.next_ne_restOfLine text⟩
  · rw [Cursor.isDirective_next, hline, Bool.true_or]
    · exact h.token ▸ h.kind
    · exact h.token ▸ hkind

theorem yields_skipLine (hline : c.mode.isDirective = true) (hk : k ≤ 1) :
    Yields o n c k skipLine 1 fun _ c' => IgnoredLine c c' := by
  rw [skipLine_eq]
  refine Yields.map (Q := fun _ c' => IgnoredLine c c') ?_ fun _ _ h => h
  refine Yields.weaken (Yields.iterate (k := 1) (I := fun _ middle => ∃ ts, Ignored ts ∧
    c.Scans ts middle ∧ middle.mode.isDirective = true) (fun _ => inferInstance) ?_
    ⟨[], by simp [Ignored], .nil, hline⟩) hk (Nat.le_refl 1)
  rintro _ middle ⟨ts, hignored, hscan, hmiddle⟩
  unfold lineTurn
  by_cases hend : middle.next.token.kind = .endOfFile
  · refine yields_peek_end (fun _ => by split <;> infer_instance) hmiddle hend (Nat.le_refl 1)
      fun hends => ?_
    rw [hend]
    exact yields_pure ⟨ts, middle, hignored, hscan, hends⟩
  · refine yields_peek (Nat.le_refl 1) ?_
    split
    · exact absurd ‹_› hend
    · rename_i hkind
      refine yields_advance inferInstance hend fun hshows => ?_
      exact (yields_pure ⟨ts, middle, hignored, hscan, .inl ⟨_, hshows, hkind, rfl⟩⟩).loose
    · rename_i hkind
      refine yields_advance inferInstance hend fun hshows => ?_
      obtain ⟨hone, hmode⟩ := ignored_of_shows hshows hkind hmiddle
      refine (yields_pure ⟨⟨_, ?_, hscan.append (hshows.scans .nil), hmode⟩,
        hshows.left_lt⟩).loose
      exact List.forall_mem_append.mpr ⟨hignored, hone⟩

/-- What is ignored is skipped with a warning, which does no harm. -/
theorem yields_endOfMark (mark : Mark) (hline : c.mode.isDirective = true) (hk : k ≤ 1) :
    Yields o n c k (endOfMark mark) 1 fun _ c' => IgnoredLine c c' := by
  unfold endOfMark
  by_cases hend : c.next.token.kind = .endOfFile
  · refine yields_peek_end (fun _ => by split <;> infer_instance) hline hend hk fun hends => ?_
    rw [hend]
    exact yields_pure ⟨[], c, by simp [Ignored], .nil, hends⟩
  · refine yields_peek hk ?_
    split
    · rename_i hkind
      refine Yields.map (Q := fun _ c' => IgnoredLine c c') ?_ fun _ _ h => h
      rw [← bind_pure advance]
      refine yields_advance inferInstance hend fun hshows => ?_
      exact (yields_pure ⟨[], c, by simp [Ignored], .nil, .inl ⟨_, hshows, hkind, rfl⟩⟩).loose
    · exact absurd ‹_› hend
    · exact Yields.of_leads ((gives_warning _ _).bind .refl) (yields_skipLine hline (Nat.le_refl 1))

/-! ## Branches -/

section Branching

variable {expression : Reading Expression} {condition : Language Expression}
  {statement : Reading (Option Statement)} {language : Language Statement}

theorem yields_endif (kind : ConditionKind) (opened : Span) (hk : k ≤ 1) :
    Yields o n c k (endif kind opened) 1 fun close c' => ∃ ts line, Ignored ts ∧
      c.Scans (⟨.mark .endif, close⟩ :: ts ++ [⟨.endOfLine, line⟩]) c' := by
  unfold endif
  refine yields_peek hk ?_
  split
  · rename_i hkind
    refine yields_advance inferInstance (by simp [hkind]) fun hshows => ?_
    have hshows := hshows.of_kind hkind
    refine (yields_endOfMark .endif (hshows.isDirective rfl) (Nat.zero_le 1)).bind inferInstance ?_
    rintro _ c' ⟨ts, middle, hignored, hscan, hends⟩
    obtain ⟨line, hline⟩ := hends.scans .nil
    exact yields_pure ⟨ts, line, hignored, hshows.scans (hscan.append hline)⟩
  · exact yields_fail

variable [Adds expression] [Adds statement]

/-- A branch with a condition is an error behind the last body. -/
theorem yields_elifBranch (hcondition : n.inCondition = false)
    (hexpression : Derives o n.conditional expression condition)
    (hl : Worded TokenKind.beginsExpression condition) (hopening : Opening language)
    (hstatement : DerivesStatement o n statement language) (hline : c.mode.isDirective = true)
    (start : Span) (before : Branches) :
    Yields o n c 0 (elifBranch expression statement start before) 1 fun branches c' =>
      before.otherwise = none ∧ ∃ e statements middle, DerivedLine condition c e middle ∧
        Derived (Many language) middle statements c' ∧
        branches = { before with elifs := before.elifs.push (.mk e
          (directiveBody statements c'.next.token)
          (start.through (directiveBody statements c'.next.token).span)) } := by
  unfold elifBranch
  cases hnone : before.otherwise with
  | some body =>
      simp only [Option.isSome_some, if_true]
      exact (spoils_report rfl).yields
  | none =>
      simp only [Option.isSome_none, Bool.false_eq_true, if_false]
      refine (yields_lineOrSkip (yields_branchCondition hcondition hexpression hl hline
        (Nat.zero_le 1))).bind (fun found => by cases found <;> infer_instance) ?_
      rintro _ middle ⟨e, rfl, he⟩
      refine (yields_branchBody hopening hstatement (Nat.le_refl 1)).bind inferInstance ?_
      rintro _ c' ⟨statements, h, rfl⟩
      exact yields_pure ⟨trivial, e, statements, middle, he, h, rfl⟩

/-- A second last body is an error. -/
theorem yields_otherwiseBranch (hopening : Opening language)
    (hstatement : DerivesStatement o n statement language) (hline : c.mode.isDirective = true)
    (start : Span) (before : Branches) :
    Yields o n c 0 (otherwiseBranch statement start before) 1 fun branches c' =>
      before.otherwise = none ∧ ∃ statements middle, IgnoredLine c middle ∧
        Derived (Many language) middle statements c' ∧
        branches = { before with otherwise := some (directiveBody statements c'.next.token) } := by
  unfold otherwiseBranch
  cases hnone : before.otherwise with
  | some body =>
      simp only [Option.isSome_some, if_true]
      exact (spoils_report rfl).yields
  | none =>
      simp only [Option.isSome_none, Bool.false_eq_true, if_false]
      refine (yields_endOfMark .otherwise hline (Nat.zero_le 1)).bind inferInstance ?_
      intro _ middle hignored
      refine (yields_branchBody hopening hstatement (Nat.le_refl 1)).bind inferInstance ?_
      rintro _ c' ⟨statements, h, rfl⟩
      exact yields_pure ⟨trivial, statements, middle, hignored, h, rfl⟩

/-- The branches that were read make, with any clauses that follow, the clauses of the block.
Behind a last body only the end can follow. -/
def BranchedSoFar (condition : Language Expression) (language : Language Statement) (c : Cursor)
    (before : Branches) (c' : Cursor) : Prop :=
  ∃ ts, c.Scans ts c' ∧ ∀ ⦃rest branches last close⦄,
    Clauses condition language (c'.next.token :: rest) branches last close →
    before.otherwise = none ∨ branches = [] ∧ last = none →
    Clauses condition language (ts ++ c'.next.token :: rest) (before.elifs.toList ++ branches)
      (before.otherwise.or last) close

theorem branchedSoFar_none : BranchedSoFar condition language c {} c :=
  ⟨[], .nil, fun _ _ _ _ h _ => by simpa using h⟩

theorem BranchedSoFar.elif {before : Branches} {middle behind : Cursor}
    (h : BranchedSoFar condition language c before middle) (hnone : before.otherwise = none)
    {start : Span} (hmark : middle.Shows ⟨.mark .elif, start⟩) {e : Expression}
    (hcondition : DerivedLine condition middle.next.cursor e behind) {statements : List Statement}
    (hbody : Derived (Many language) behind statements c') :
    BranchedSoFar condition language c { before with elifs := before.elifs.push (.mk e
      (directiveBody statements c'.next.token)
      (start.through (directiveBody statements c'.next.token).span)) } c' := by
  obtain ⟨ts, hscan, hclauses⟩ := h
  obtain ⟨ahead, ⟨cond, he, hcond⟩, hends⟩ := hcondition
  obtain ⟨body, hbody, hbody'⟩ := hbody
  obtain ⟨line, hline⟩ := hends.scans hbody'
  refine ⟨_, hscan.append (hmark.scans (hcond.append hline)),
    fun rest branches last close hrest _ => ?_⟩
  have hmore : Clauses condition language (⟨.mark .elif, start⟩ :: cond ++ ⟨.endOfLine, line⟩ ::
      body ++ c'.next.token :: rest) _ last close := .elif he hbody hrest
  rw [hmark.token] at hclauses
  have hall := hclauses hmore (.inl hnone)
  simpa [hnone] using hall

theorem BranchedSoFar.otherwise {before : Branches} {middle behind : Cursor}
    (h : BranchedSoFar condition language c before middle) (hnone : before.otherwise = none)
    {start : Span} (hmark : middle.Shows ⟨.mark .otherwise, start⟩)
    (hignored : IgnoredLine middle.next.cursor behind) {statements : List Statement}
    (hbody : Derived (Many language) behind statements c') :
    BranchedSoFar condition language c
      { before with otherwise := some (directiveBody statements c'.next.token) } c' := by
  obtain ⟨ts, hscan, hclauses⟩ := h
  obtain ⟨ignored, ahead, hignored, hignored', hends⟩ := hignored
  obtain ⟨body, hbody, hbody'⟩ := hbody
  obtain ⟨line, hline⟩ := hends.scans hbody'
  refine ⟨_, hscan.append (hmark.scans (hignored'.append hline)),
    fun rest branches last close hrest hlast => ?_⟩
  obtain ⟨rfl, rfl⟩ : branches = [] ∧ last = none := by simpa using hlast
  have hmore : Clauses condition language (⟨.mark .otherwise, start⟩ :: ignored ++
      ⟨.endOfLine, line⟩ :: body ++ c'.next.token :: rest) _ _ close := .otherwise hignored hbody hrest
  rw [hmark.token] at hclauses
  have hall := hclauses hmore (.inl hnone)
  simpa [hnone] using hall

theorem yields_branch (hcondition : n.inCondition = false)
    (hexpression : Derives o n.conditional expression condition)
    (hl : Worded TokenKind.beginsExpression condition) (hopening : Opening language)
    (hstatement : DerivesStatement o n statement language) {before : Branches} {middle : Cursor}
    (h : BranchedSoFar condition language c before middle) :
    Yields o n middle 1 (branch expression statement before) 1
      (Turned (BranchedSoFar condition language c) (BranchedSoFar condition language c) middle) := by
  unfold branch
  refine yields_peek (Nat.le_refl 1) ?_
  split
  · rename_i hkind
    refine yields_advance inferInstance (by simp [hkind]) fun hshows => ?_
    have hmark := hshows.of_kind hkind
    refine (yields_elifBranch hcondition hexpression hl hopening hstatement
      (hmark.isDirective rfl) _ before).bind inferInstance ?_
    rintro _ c' ⟨hnone, e, statements, behind, hline, hbody, rfl⟩
    refine yields_pure ⟨h.elif hnone hmark hline hbody, ?_⟩
    obtain ⟨ahead, ⟨_, -, hcond⟩, hends⟩ := hline
    obtain ⟨_, -, hbody⟩ := hbody
    exact (hbody.left_le.trans (hends.left_le.trans hcond.left_le)).trans_lt hmark.left_lt
  · rename_i hkind
    refine yields_advance inferInstance (by simp [hkind]) fun hshows => ?_
    have hmark := hshows.of_kind hkind
    refine (yields_otherwiseBranch hopening hstatement (hmark.isDirective rfl) _ before).bind
      inferInstance ?_
    rintro _ c' ⟨hnone, statements, behind, hignored, hbody, rfl⟩
    refine yields_pure ⟨h.otherwise hnone hmark hignored hbody, ?_⟩
    obtain ⟨_, ahead, -, hscan, hends⟩ := hignored
    obtain ⟨_, -, hbody⟩ := hbody
    exact (hbody.left_le.trans (hends.left_le.trans hscan.left_le)).trans_lt hmark.left_lt
  · exact yields_pure h

/-- What follows the condition of a block is derived from its clauses. -/
theorem yields_branching (hcondition : n.inCondition = false)
    (hexpression : Derives o n.conditional expression condition)
    (hl : Worded TokenKind.beginsExpression condition) (hopening : Opening language)
    (hstatement : DerivesStatement o n statement language) (kind : ConditionKind) (opened : Span)
    (hk : k ≤ 1) :
    Yields o n c k (branching kind opened expression statement) 1 fun parts c' =>
      ∃ statements next rest middle, Derived (Many language) c statements middle ∧
        parts.thenBody = directiveBody statements next ∧ middle.Scans (next :: rest) c' ∧
        Clauses condition language (next :: rest) parts.branches.elifs.toList
          parts.branches.otherwise parts.close := by
  unfold branching
  refine (yields_branchBody hopening hstatement hk).bind inferInstance ?_
  rintro _ middle ⟨statements, hbody, rfl⟩
  refine (Yields.iterate (I := BranchedSoFar condition language middle) (k := 1)
    (fun _ => inferInstance) (fun _ _ h => yields_branch hcondition hexpression hl hopening
      hstatement h) branchedSoFar_none).bind inferInstance ?_
  rintro branches behind ⟨ts, hscan, hclauses⟩
  refine (yields_endif kind opened (Nat.le_refl 1)).bind inferInstance ?_
  rintro close c' ⟨ignored, line, hignored, hscan'⟩
  obtain ⟨hshows, -⟩ := hscan'.shows rfl (by simp)
  have hend : Clauses condition language
      (⟨.mark .endif, close⟩ :: ignored ++ [⟨.endOfLine, line⟩]) [] none close := .endif hignored
  rw [List.cons_append, ← hshows.token] at hend
  have hall := hclauses hend (.inr ⟨rfl, rfl⟩)
  have hscan := hscan.append hscan'
  rw [List.cons_append, ← hshows.token] at hscan
  rw [List.append_nil, Option.or_none] at hall
  obtain ⟨next, rest', htokens⟩ : ∃ next rest',
      ts ++ behind.next.token :: (ignored ++ [⟨.endOfLine, line⟩]) = next :: rest' := by
    cases ts <;> exact ⟨_, _, rfl⟩
  rw [htokens] at hall hscan
  refine yields_pure ⟨statements, next, rest', middle, hbody, ?_, hscan, hall⟩
  rw [(shows_clauses hall hscan).1.token]

end Branching

/-! ## Blocks -/

/-- A block that was not dropped is derived, and was read with room for one more construct. -/
theorem yields_conditionalFrom {inner : Inner} [Adds inner.expression] [Adds inner.statement]
    {deeper : Option Deeper} (hinner : DerivesBelow o n inner deeper)
    (hcondition : n.inCondition = false) {kind : ConditionKind}
    (hopened : c.next.token.kind = .opener kind) (inBlock : Bool) (language : Language Expression)
    (hk : k ≤ 1) :
    Yields o n c k (conditionalFrom kind c.next.token.span inner.expression inner.statement) 1
      fun a c' => ∃ statement, a = some statement ∧
        Derived (IsStatement o inBlock language deeper) c statement c' := by
  have hnested : Yields o n c k (nested (conditionalHead kind c.next.token.span inner.expression >>=
      fun condition => between State.openChain State.closeChain
        (branching kind c.next.token.span inner.expression inner.statement) >>=
          fun parts => pure (condition, parts))) 1 fun result c' => ∃ condition,
        result.1 = some condition ∧ Derived (IsStatement o inBlock language deeper) c
          (.conditional condition result.2.thenBody result.2.branches.elifs.toList
            result.2.branches.otherwise (c.next.token.span.through result.2.close)) c' := by
    have : Adds (between State.openChain State.closeChain
        (branching kind c.next.token.span inner.expression inner.statement)) :=
      adds_between (fun s => s.grows_renest _) fun s => s.grows_renest _
    refine (Yields.nested fun hdepth => ?_).imp fun _ _ h => h.2
    obtain ⟨d, hd, hderives⟩ := hinner hdepth
    refine (yields_conditionalHead (n := n.deeper) hcondition (hderives.condition _ rfl rfl)
      hderives.worded hopened hk).bind inferInstance ?_
    rintro _ behind ⟨condition, rfl, hshows, ahead, ⟨ts, hts, hscan⟩, hends⟩
    have hbranching := yields_branching (n := n.deeper.inChain) hcondition
      (hderives.condition _ rfl rfl) hderives.worded (hderives.opening _)
      (hderives.statement n.deeper.inChain rfl hcondition) kind c.next.token.span
      (c := behind) (Nat.le_refl 1)
    refine (hbranching.between (fun _ => State.openChain_eq) (fun _ => State.closeChain_eq)
      fun s => s.grows_renest _).bind inferInstance ?_
    rintro ⟨_, parts, close⟩ c' ⟨statements, next, rest, middle, ⟨body, hbody, hscan'⟩, rfl, hrest,
      hclauses⟩
    obtain ⟨line, hline⟩ := hends.scans (hscan'.append hrest)
    -- the tokens of the parts, put together, are those of the block
    have hall : c.Scans (⟨.opener kind, c.next.token.span⟩ :: ts ++ ⟨.endOfLine, line⟩ :: body ++
        next :: rest) c' := by
      rw [List.append_assoc, List.cons_append, List.cons_append]
      exact hshows.scans (hscan.append hline)
    exact yields_pure ⟨condition, rfl, _, .conditional hd hts hbody hclauses, hall⟩
  rw [conditionalFrom_eq]
  refine hnested.bind (fun _ => inferInstance) ?_
  rintro ⟨_, parts⟩ c' ⟨condition, rfl, hderived⟩
  refine Yields.of_leads ((gives_note _).bind .refl) ?_
  exact yields_pure ⟨_, rfl, hderived⟩

end ConfLang.Reading
