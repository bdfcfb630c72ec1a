import ConfLang.Proofs.Alteration.Line

/-!
# Conditional directive blocks of sources that follow tokens

The branches of a block are read one after the other, without those whose conditions are gone.  The
block is read through its end even if its own condition is gone, and then nothing is given for it.
So all that is inside it is read for nothing, but in the same way as elsewhere.
-/

namespace ConfLang.Setting

open Reading Alteration Grammar TokenKind

variable {S : Setting} {n : Nesting} {k level : Nat} {current : Token} {ts rest : List Token}
  {lineEnd opened : Span} {condition : Language Expression} {language : Language Statement}

/-! ## Heads -/

/-- A token may be looked at before it is taken. -/
theorem brings_advance_of_peek {P : State → Prop} {Q : Token → State → Prop}
    {R : Token → State → Prop} (hpeek : Brings P peek Q) (h : ∀ token, Brings (Q token) advance R) :
    Brings P advance R := by
  intro s hs
  obtain ⟨token, _, hrun, hQ⟩ := hpeek s hs
  rw [run_peek] at hrun
  obtain ⟨rfl, rfl⟩ := EStateM.Result.ok.inj hrun
  obtain ⟨taken, s', hrun', hR⟩ := h _ _ hQ
  refine ⟨taken, s', ?_, hR⟩
  rw [run_advance] at hrun' ⊢
  rwa [State.advanced, s.peeked_peeked] at hrun'

/-- What is read behind a directive, if its condition is not gone. -/
def Keeps {α : Type} (S : Setting) (start : Span) (unplaced : α → α) (value : α)
    (found : Option α) : Prop :=
  found.map unplaced = if S.alteration.gone start.start then none else some (unplaced value)

theorem keeps_gone {α : Type} {unplaced : α → α} {value : α}
    (hgone : S.alteration.gone opened.start = true) : S.Keeps opened unplaced value none := by
  rw [Keeps, if_pos hgone]
  rfl

theorem keeps_some {α : Type} {unplaced : α → α} {value found : α}
    (hkept : S.alteration.gone opened.start ≠ true) (h : unplaced found = unplaced value) :
    S.Keeps opened unplaced value (some found) := by
  rw [Keeps, if_neg hkept, ← h]
  rfl

/-- What is read tells whether the condition is gone. -/
theorem Keeps.gone_or_some {α : Type} {unplaced : α → α} {value : α} {found : Option α}
    (h : S.Keeps opened unplaced value found) :
    (S.alteration.gone opened.start = true ∧ found = none) ∨
      (S.alteration.gone opened.start ≠ true ∧
        ∃ kept, found = some kept ∧ unplaced kept = unplaced value) := by
  rw [Keeps] at h
  split at h
  · rename_i hgone
    exact .inl ⟨hgone, Option.map_eq_none_iff.mp h⟩
  · rename_i hkept
    exact .inr ⟨hkept, Option.map_eq_some_iff.mp h⟩

section Heads

/-- The place of a directive does not matter for the reading of its condition. -/
theorem lineValue?_of_fails {o : Options} {kind : ConditionKind} {start : Nat} {place : Cursor}
    (hlevel : level = o.maxNestingDepth + 1 - n.depth) (hexists : kind ≠ .fileExists)
    (hmissing : kind ≠ .fileMissing) (h : (⟨kind, start, n⟩ : ConditionLine).Fails o place)
    (opened : Span) : place.lineValue? o n
      (conditionLine kind opened (Expression.read level Operator.lowestPrecedence)) = none := by
  subst hlevel
  have hvalue : place.lineValue? o n ((fun _ => ()) <$> conditionLine kind {}
      (Expression.read (o.maxNestingDepth + 1 - n.depth) Operator.lowestPrecedence)) = none := h
  rw [Cursor.lineValue?_map, Option.map_eq_none_iff] at hvalue
  cases kind with
  | holds | defined | undefined => exact hvalue
  | fileExists => exact absurd rfl hexists
  | fileMissing => exact absurd rfl hmissing

theorem lineValue?_of_elif_fails {o : Options} {start : Nat} {place : Cursor}
    (hlevel : level = o.maxNestingDepth + 1 - n.depth)
    (h : (⟨none, start, n⟩ : ConditionLine).Fails o place) : place.lineValue? o n
      (branchCondition (Expression.read level Operator.lowestPrecedence)) = none := by
  subst hlevel
  have hvalue : place.lineValue? o n ((fun _ => ()) <$> branchCondition
      (Expression.read (o.maxNestingDepth + 1 - n.depth) Operator.lowestPrecedence)) = none := h
  rwa [Cursor.lineValue?_map, Option.map_eq_none_iff] at hvalue

variable {kind : ConditionKind} {which : Condition} {e : Expression}
  (hcondition : n.inCondition = false)
  (hexpression : S.ReadsAll n.conditional (Expression.read level Operator.lowestPrecedence)
    condition EndsExpression (Expression.unplaced id))
  (hlevel : level = S.options.maxNestingDepth + 1 - n.depth)
include hcondition hexpression hlevel

/-- The directive that opens a block is read with the rest of its line. -/
theorem brings_conditionalHead (h : Conditional condition kind ts which)
    (hwords : ∀ token ∈ ts, token.kind ≠ .endOfLine)
    (hmisses : S.Misses [⟨kind, opened.start, n⟩]) (hk : k ≤ 1) (place : Span) :
    Brings (S.At n .code (⟨.opener kind, opened⟩ :: ts ++ ⟨.endOfLine, lineEnd⟩ :: rest) k)
      (conditionalHead kind place (Expression.read level Operator.lowestPrecedence))
      fun found s => S.Keeps opened (Condition.unplaced id) which found ∧
        S.At n .code rest 1 s := by
  have hpeek : Brings
      (S.At n .code (⟨.opener kind, opened⟩ :: (ts ++ ⟨.endOfLine, lineEnd⟩ :: rest)) k) peek
      fun current s => S.Ahead n .code
        (⟨.opener kind, opened⟩ :: (ts ++ ⟨.endOfLine, lineEnd⟩ :: rest)) 0 current s :=
    brings_peek (looked_of_isFirm rfl) hk
  -- A condition that is gone fails, and its line is skipped; any other one is read as it was.
  by_cases hgone : S.alteration.gone opened.start = true
  · obtain ⟨⟨hexists, hmissing⟩, hfails⟩ := hmisses.head hgone
    have hexists : kind ≠ .fileExists := fun hkind => hexists (congrArg some hkind)
    have hmissing : kind ≠ .fileMissing := fun hkind => hmissing (congrArg some hkind)
    refine (brings_advance_of_peek hpeek fun _ =>
      brings_advance_gone rfl hgone hwords).bind fun _ => ?_
    refine Brings.bind (R := fun _ => S.Astray n rest)
      (brings_modify fun s hs => hs.note _) fun _ => ?_
    exact (brings_lineOrSkip_gone (fun c behind hline => finishes_conditionLine S.unlimited
      hcondition hexists hmissing place level hline (Nat.zero_le 1)) fun _ hplace =>
        lineValue?_of_fails hlevel hexists hmissing (hfails _ hplace) place).imp
      (fun s hs => hs) fun found s hs => ⟨hs.1 ▸ keeps_gone hgone, hs.2.weaken (Nat.zero_le 1)⟩
  · have htake (current : Token) : Brings
        (S.Ahead n .code (⟨.opener kind, opened⟩ :: (ts ++ ⟨.endOfLine, lineEnd⟩ :: rest)) 0 current)
        advance fun _ s => S.At n (opener kind).zone (ts ++ ⟨.endOfLine, lineEnd⟩ :: rest) 0 s :=
      (brings_advance rfl (fun _ => by simpa using hgone) (Zone.notices_code _)).imp
        (fun _ hs => hs) fun _ _ hs => hs.2
    refine (brings_advance_of_peek hpeek htake).bind fun _ => ?_
    refine Brings.bind (R := fun _ => S.At n (opener kind).zone
      (ts ++ ⟨.endOfLine, lineEnd⟩ :: rest) 0)
      (brings_modify fun s hs => hs.note _) fun _ => ?_
    refine (brings_lineOrSkip (reads_conditionLine hcondition hexpression h place)).imp
      (fun s hs => hs) ?_
    rintro _ s ⟨found, rfl, hsame, hs⟩
    exact ⟨keeps_some hgone hsame, hs⟩

/-- The condition of a further branch is read with the rest of its line. -/
theorem brings_elifHead (h : condition ts e) (hwords : ∀ token ∈ ts, token.kind ≠ .endOfLine)
    (hmisses : S.Misses [⟨none, opened.start, n⟩]) :
    Brings (S.Ahead n .code (⟨.mark .elif, opened⟩ :: ts ++ ⟨.endOfLine, lineEnd⟩ :: rest) 0 current)
      (advance >>= fun _ =>
        lineOrSkip (branchCondition (Expression.read level Operator.lowestPrecedence)))
      fun found s => S.Keeps opened (Expression.unplaced id) e found ∧ S.At n .code rest 1 s := by
  by_cases hgone : S.alteration.gone opened.start = true
  · obtain ⟨-, hfails⟩ := hmisses.head hgone
    refine (brings_advance_gone rfl hgone hwords).bind fun _ => ?_
    exact (brings_lineOrSkip_gone (fun c behind hline => finishes_branchCondition S.unlimited
      hcondition level hline (Nat.zero_le 1)) fun _ hplace =>
        lineValue?_of_elif_fails hlevel (hfails _ hplace)).imp
      (fun s hs => hs) fun found s hs => ⟨hs.1 ▸ keeps_gone hgone, hs.2.weaken (Nat.zero_le 1)⟩
  · refine (brings_advance rfl (fun _ => by simpa using hgone)
      (Zone.notices_code _)).bind fun _ => ?_
    have hends : Upcoming EndsExpression (⟨.endOfLine, lineEnd⟩ :: rest) :=
      upcoming_endOfLine (by simp [EndsExpression, EndsChain, EndsOperand, Operator.ofToken?])
        (by simp [EndsExpression, EndsChain, EndsOperand, Operator.ofToken?])
    have hline : S.Reads n (ts ++ ⟨.endOfLine, lineEnd⟩ :: rest) 0
        (branchCondition (Expression.read level Operator.lowestPrecedence)) rest 1
        fun found => found.unplaced id = e.unplaced id := by
      refine (reads_conditionExpression hcondition
        (hexpression h hends (Nat.zero_le 1))).bind fun found => ?_
      refine .of_fact (fun s hs => hs.1) fun hsame => ?_
      exact ((reads_endOfLine _ (Nat.le_refl 1)).from fun s hs => hs.2).bind_pure
        fun _ s hs => ⟨hsame, hs.2⟩
    refine (brings_lineOrSkip hline).imp (fun s hs => hs.2) ?_
    rintro _ s ⟨found, rfl, hsame, hs⟩
    exact ⟨keeps_some hgone hsame, hs⟩

end Heads

/-! ## Branches -/

theorem misses_nil : S.Misses [] := nofun

/-- What is read is what is left of the branches behind some others. -/
def LeavesBranches (S : Setting) (before : Branches) (branches : List Branch) (last : Option Body)
    (found : Branches) : Prop :=
  Branch.unplacedList id found.elifs.toList = Branch.unplacedList id before.elifs.toList ++
      Branch.unplacedList id (Branch.withoutList S.alteration.gone branches) ∧
    Body.unplacedOption id found.otherwise = (Body.unplacedOption id before.otherwise).or
      (Body.unplacedOption id (Body.withoutOption S.alteration.gone last))

/-- What is left of some clauses, and then of those behind them. -/
theorem LeavesBranches.append {before found result : Branches} {branches more : List Branch}
    {last last' : Option Body} (h : S.LeavesBranches before branches last found)
    (hmore : S.LeavesBranches found more last' result) :
    S.LeavesBranches before (branches ++ more) (last.or last') result := by
  obtain ⟨helifs, hotherwise⟩ := h
  obtain ⟨helifs', hotherwise'⟩ := hmore
  refine ⟨?_, ?_⟩
  · rw [helifs', helifs, List.append_assoc, ← Branch.unplacedList_append,
      ← Branch.withoutList_append]
  · rw [hotherwise', hotherwise, Option.or_assoc]
    cases last <;> rfl

theorem LeavesBranches.otherwise_eq_none {before found : Branches} {branches : List Branch}
    (h : S.LeavesBranches before branches none found) (hnone : before.otherwise = none) :
    found.otherwise = none := by
  have hlast := h.2
  rw [hnone] at hlast
  cases hfound : found.otherwise with
  | none => rfl
  | some body =>
      rw [hfound] at hlast
      cases hlast

section Branch

variable {before : Branches} {e : Expression} {body : Body} {span : Span}

theorem leaves_goneBranch (hnone : before.otherwise = none) (hstart : span.start = opened.start)
    (hgone : S.alteration.gone opened.start = true) :
    S.LeavesBranches before [.mk e body span] none before := by
  refine ⟨?_, ?_⟩
  · simp [Branch.withoutList, Branch.unplacedList, hstart, hgone]
  · simp [hnone, Body.withoutOption, Body.unplacedOption]

/-- What is left of a branch, put together from what is left of its parts. -/
theorem leaves_keptBranch {condition : Expression} {read : Body} {span' : Span}
    (hnone : before.otherwise = none) (hstart : span.start = opened.start)
    (hkept : S.alteration.gone opened.start ≠ true)
    (hsame : condition.unplaced id = e.unplaced id) (hbody : S.LeavesBody body read) :
    S.LeavesBranches before [.mk e body span] none
      ⟨before.elifs.push (.mk condition read span'), none⟩ := by
  unfold LeavesBody at hbody
  refine ⟨?_, ?_⟩
  · simp [Branch.unplacedList_append, Branch.withoutList, Branch.unplacedList, hstart, hkept,
      hsame, hbody]
  · simp [hnone, Body.withoutOption, Body.unplacedOption]

end Branch

/-- A state stands in front of the mark that closes a block. -/
def AtEndif (S : Setting) (n : Nesting) (rest : List Token) (s : State) : Prop :=
  ∃ close ignored line, Ignored ignored ∧
    S.At n .code (⟨.mark .endif, close⟩ :: ignored ++ ⟨.endOfLine, line⟩ :: rest) 1 s

theorem brings_endif (kind : ConditionKind) (place : Span) :
    Brings (S.AtEndif n rest) (endif kind place) fun _ s => S.At n .code rest 1 s := by
  rintro s ⟨close, ignored, line, hignored, hs⟩
  have hfirm : (Token.mk (.mark .endif) close).kind.isFirm = true := rfl
  refine brings_shown hfirm (Nat.le_refl 1) (fun current hkind => ?_) s hs
  rw [if_pos hkind]
  refine (brings_advance rfl (fun hopens => by cases hopens) rfl).bind fun _ => ?_
  exact ((brings_endOfMark .endif hignored (Nat.zero_le 1)).from fun s hs => hs.2).bind_pure
    fun _ s hs => hs

/-- Every clause of a block begins with a mark. -/
theorem exists_mark {next : Token} {branches : List Branch} {last : Option Body} {close : Span}
    (h : Clauses condition language (next :: ts) branches last close) :
    ∃ which, next.kind = .mark which := by
  cases h with
  | endif | otherwise | elif => exact ⟨_, rfl⟩

/-- The last branch, behind its mark. -/
theorem brings_otherwiseBranch (hopening : Opening language)
    (hstatement : S.ReadsStatements n (Statement.read level) language) {before : Branches}
    (hnone : before.otherwise = none) (hignored : Ignored ts) {body : List Token}
    {statements : List Statement} (hbody : Many language body statements)
    (hmisses : S.Misses (Statement.conditionLinesList n statements)) {next : Token} {which : Mark}
    (hmark : next.kind = .mark which) (place : Span) :
    Brings (S.At n (.mark .otherwise) (ts ++ ⟨.endOfLine, lineEnd⟩ :: (body ++ next :: rest)) 0)
      (otherwiseBranch (Statement.read level) place before) fun found s =>
        S.LeavesBranches before [] (some (directiveBody statements next)) found ∧
          S.At n .code (next :: rest) 1 s := by
  unfold otherwiseBranch
  simp only [hnone, Option.isSome_none, Bool.false_eq_true, if_false]
  refine (brings_endOfMark .otherwise hignored (Nat.zero_le 1)).bind fun _ => ?_
  refine (reads_branchBody hopening hstatement hbody hmisses hmark (Nat.le_refl 1)).bind_pure
    fun found s hs => ⟨⟨?_, ?_⟩, hs.2⟩
  · simp [Branch.withoutList, Branch.unplacedList]
  · have hsame := hs.1
    unfold LeavesBody at hsame
    simp [hnone, Body.withoutOption, Body.unplacedOption, hsame]

section Branching

variable (hcondition : n.inCondition = false)
  (hexpression : S.ReadsAll n.conditional (Expression.read level Operator.lowestPrecedence)
    condition EndsExpression (Expression.unplaced id))
  (hwords : ∀ ⦃ts e⦄, condition ts e → ∀ token ∈ ts, token.kind ≠ .endOfLine)
  (hlevel : level = S.options.maxNestingDepth + 1 - n.depth)
  (hopening : Opening language)
  (hstatement : S.ReadsStatements n (Statement.read level) language)
include hcondition hexpression hwords hlevel hopening hstatement

/-- A further branch counts if its condition is not gone. -/
theorem brings_elifBranch {before : Branches} (hnone : before.otherwise = none) {e : Expression}
    (h : condition ts e) {body : List Token} {statements : List Statement}
    (hbody : Many language body statements) {next : Token} {which : Mark}
    (hmark : next.kind = .mark which)
    (hmisses : S.Misses (⟨none, opened.start, n⟩ :: Statement.conditionLinesList n statements))
    (place : Span) :
    Brings (S.Ahead n .code (⟨.mark .elif, opened⟩ :: ts ++
        ⟨.endOfLine, lineEnd⟩ :: (body ++ next :: rest)) 0 current)
      (advance >>= fun _ => elifBranch (Expression.read level Operator.lowestPrecedence)
        (Statement.read level) place before) fun found s =>
        S.LeavesBranches before [.mk e (directiveBody statements next)
          (opened.through (directiveBody statements next).span)] none found ∧
            S.At n .code (next :: rest) 1 s := by
  unfold elifBranch
  simp only [hnone, Option.isSome_none, Bool.false_eq_true, if_false]
  rw [← bind_assoc]
  have hline : S.Misses [⟨none, opened.start, n⟩] :=
    fun line hmem => hmisses line (List.mem_of_mem_head? (List.mem_singleton.mp hmem ▸ rfl))
  refine (brings_elifHead hcondition hexpression hlevel h (hwords h) hline).bind fun found => ?_
  refine .of_fact (fun s hs => hs.1) fun hkeeps => ?_
  refine ((reads_branchBody hopening hstatement hbody hmisses.tail hmark (Nat.le_refl 1)).from
    fun s hs => hs.2).bind fun read => .of_fact (fun s hs => hs.1) fun hbody => ?_
  have hstart : (opened.through (directiveBody statements next).span).start = opened.start := rfl
  rcases hkeeps.gone_or_some with ⟨hgone, rfl⟩ | ⟨hkept, condition, rfl, hsame⟩
  · exact brings_pure fun s hs => ⟨leaves_goneBranch hnone hstart hgone, hs.2⟩
  · exact brings_pure fun s hs => ⟨leaves_keptBranch hnone hstart hkept hsame hbody, hs.2⟩

/-- The branches of a block are read up to the mark that closes it. -/
theorem brings_clauses {branches : List Branch} {last : Option Body} {close : Span}
    (h : Clauses condition language ts branches last close)
    (hmisses : S.Misses (Branch.conditionLinesList n branches ++ Body.conditionLinesOption n last))
    (before : Branches) (hbefore : before.otherwise = none ∨ branches = [] ∧ last = none)
    (hk : k ≤ 1) :
    Brings (S.At n .code (ts ++ rest) k) (iterate (branch
      (Expression.read level Operator.lowestPrecedence) (Statement.read level)) before)
      fun found s => S.LeavesBranches before branches last found ∧ S.AtEndif n rest s := by
  induction h generalizing k before with
  | @endif ignored close line hignored =>
      simp only [List.cons_append, List.append_assoc, List.nil_append]
      refine Brings.iterate_done (brings_shown rfl hk fun current hkind => ?_)
      rw [hkind]
      refine brings_pure fun s hs => ⟨before, rfl, ⟨?_, ?_⟩, close, ignored, line, hignored, hs.at⟩
      · simp [Branch.withoutList, Branch.unplacedList]
      · simp [Body.withoutOption, Body.unplacedOption]
  | @otherwise ignored body statements next tail start line close hignored hbody hclauses ih =>
      obtain ⟨which, hmark⟩ := exists_mark hclauses
      have hnone : before.otherwise = none := by simpa using hbefore
      simp only [List.cons_append, List.append_assoc]
      refine Brings.iterate (fun found s =>
          S.LeavesBranches before [] (some (directiveBody statements next)) found ∧
            S.At n .code (next :: (tail ++ rest)) 1 s)
        (progresses_branch before) (fun s hs => hs.ordered) ?_ fun found => ?_
      · refine brings_shown rfl hk fun current hkind => ?_
        rw [hkind]
        refine (brings_advance rfl (fun hopens => by cases hopens) rfl).bind fun _ => ?_
        exact ((brings_otherwiseBranch hopening hstatement hnone hignored hbody hmisses.right hmark
          _).from fun s hs => hs.2).bind_pure fun found s hs => hs
      · refine .of_fact (fun s hs => hs.1) fun hleaves => ?_
        exact (ih misses_nil found (.inr ⟨rfl, rfl⟩) (Nat.le_refl 1)).imp
          (fun s hs => hs.2) fun result s hs => ⟨hleaves.append hs.1, hs.2⟩
  | @elif cond e body statements next tail branches last start line close hcond hbody hclauses ih =>
      obtain ⟨which, hmark⟩ := exists_mark hclauses
      have hnone : before.otherwise = none := by simpa using hbefore
      have hmisses : S.Misses ((⟨none, start.start, n⟩ ::
          Statement.conditionLinesList n statements) ++ (Branch.conditionLinesList n branches ++
            Body.conditionLinesOption n last)) := by
        rwa [Branch.conditionLinesList, List.cons_append, List.append_assoc] at hmisses
      simp only [List.cons_append, List.append_assoc]
      refine Brings.iterate (fun found s =>
          S.LeavesBranches before [.mk e (directiveBody statements next)
            (start.through (directiveBody statements next).span)] none found ∧
              S.At n .code (next :: (tail ++ rest)) 1 s)
        (progresses_branch before) (fun s hs => hs.ordered) ?_ fun found => ?_
      · refine brings_shown rfl hk fun current hkind => ?_
        rw [hkind]
        simp only
        rw [← bind_assoc]
        exact (brings_elifBranch hcondition hexpression hwords hlevel hopening hstatement hnone
          hcond hbody hmark hmisses.left _).bind_pure fun found s hs => hs
      · refine .of_fact (fun s hs => hs.1) fun hleaves => ?_
        exact (ih hmisses.right found (.inl (hleaves.otherwise_eq_none hnone)) (Nat.le_refl 1)).imp
          (fun s hs => hs.2) fun result s hs => ⟨hleaves.append hs.1, hs.2⟩

/-- A block is read behind its first line. -/
theorem brings_branching {body : List Token} {statements : List Statement}
    (hbody : Many language body statements) {next : Token} {tail : List Token}
    {branches : List Branch} {last : Option Body} {close : Span}
    (hclauses : Clauses condition language (next :: tail) branches last close)
    (hmisses : S.Misses (Statement.conditionLinesList n statements ++
      (Branch.conditionLinesList n branches ++ Body.conditionLinesOption n last)))
    (kind : ConditionKind) (place : Span) :
    Brings (S.At n .code (body ++ next :: (tail ++ rest)) 1)
      (branching kind place (Expression.read level Operator.lowestPrecedence) (Statement.read level))
      fun parts s => (S.LeavesBody (directiveBody statements next) parts.thenBody ∧
        S.LeavesBranches {} branches last parts.branches) ∧ S.At n .code rest 1 s := by
  obtain ⟨mark, hmark⟩ := exists_mark hclauses
  refine (reads_branchBody hopening hstatement hbody hmisses.left hmark
    (Nat.le_refl 1)).bind fun thenBody => .of_fact (fun s hs => hs.1) fun hthen => ?_
  refine ((brings_clauses hcondition hexpression hwords hlevel hopening hstatement hclauses
    hmisses.right {} (.inl rfl) (Nat.le_refl 1)).from fun s hs => hs.2).bind
      fun found => .of_fact (fun s hs => hs.1) fun hbranches => ?_
  exact ((brings_endif kind place).from fun s hs => hs.2).bind_pure fun _ s hs =>
    ⟨⟨hthen, hbranches⟩, hs⟩

end Branching

/-! ## Blocks -/

theorem kind_of_conditional {kind : ConditionKind} {which : Condition}
    (h : Conditional condition kind ts which) : which.kind = kind := by
  cases h <;> rfl

theorem words_of_conditional {kind : ConditionKind} {which : Condition}
    (hwords : ∀ ⦃ts e⦄, condition ts e → ∀ token ∈ ts, token.kind ≠ .endOfLine)
    (h : Conditional condition kind ts which) : ∀ token ∈ ts, token.kind ≠ .endOfLine := by
  cases h with
  | holds h => exact hwords h
  | defined hname | undefined hname => obtain ⟨⟩ := hname; simp
  | fileExists | fileMissing => simp

/-- What is left of a block, put together from what is left of its parts. -/
theorem leaves_conditional {which : Condition} {found : Option Condition} {body thenBody : Body}
    {branches : List Branch} {last : Option Body} {read : Branches} {span span' : Span}
    (hstart : span.start = opened.start) (hkeeps : S.Keeps opened (Condition.unplaced id) which found)
    (hthen : S.LeavesBody body thenBody) (hbranches : S.LeavesBranches {} branches last read) :
    S.Leaves (.conditional which body branches last span) (found.map fun condition =>
      .conditional condition thenBody read.elifs.toList read.otherwise span') := by
  obtain ⟨helifs, hlast⟩ := hbranches
  unfold LeavesBody at hthen
  rw [Leaves, Statement.without?, hstart]
  rcases hkeeps.gone_or_some with ⟨hgone, rfl⟩ | ⟨hkept, condition, rfl, hsame⟩
  · rw [if_pos hgone]
    rfl
  · rw [if_neg hkept]
    have helifs : Branch.unplacedList id read.elifs.toList =
        Branch.unplacedList id (Branch.withoutList S.alteration.gone branches) := helifs
    have hlast : Body.unplacedOption id read.otherwise =
        Body.unplacedOption id (Body.withoutOption S.alteration.gone last) := hlast
    simp only [Option.map_some, Statement.unplaced, hsame, hthen, helifs, hlast]

/-- A block is read through its end.  Nothing is given for it if its condition is gone. -/
theorem reads_conditionalFrom (hdepth : n.depth < S.options.maxNestingDepth)
    (hcondition : n.inCondition = false)
    (hexpression : ∀ m : Nesting, m.depth = n.depth + 1 → m.inCondition = true →
      S.ReadsAll m (Expression.read level Operator.lowestPrecedence) condition EndsExpression
        (Expression.unplaced id))
    (hwords : ∀ ⦃ts e⦄, condition ts e → ∀ token ∈ ts, token.kind ≠ .endOfLine)
    (hlevel : level = S.options.maxNestingDepth + 1 - (n.depth + 1))
    (hopening : Opening language)
    (hstatement : S.ReadsStatements n.deeper.inChain (Statement.read level) language)
    {kind : ConditionKind} {which : Condition} (h : Conditional condition kind ts which)
    {body : List Token} {statements : List Statement} (hbody : Many language body statements)
    {next : Token} {tail : List Token} {branches : List Branch} {last : Option Body} {close : Span}
    (hclauses : Clauses condition language (next :: tail) branches last close)
    (hmisses : S.Misses (Statement.conditionLines n (.conditional which
      (directiveBody statements next) branches last (opened.through close))))
    (hk : k ≤ 1) (place : Span) :
    S.Reads n (⟨.opener kind, opened⟩ :: ts ++ ⟨.endOfLine, lineEnd⟩ ::
        (body ++ next :: (tail ++ rest))) k
      (conditionalFrom kind place (Expression.read level Operator.lowestPrecedence)
        (Statement.read level)) rest 1 (S.Leaves (.conditional which (directiveBody statements next)
          branches last (opened.through close))) := by
  rw [Statement.conditionLines, kind_of_conditional h, List.append_assoc] at hmisses
  have hhead : S.Misses [⟨kind, opened.start, n.deeper⟩] := hmisses.take 1
  have hnested : Brings (S.At n.deeper .code (⟨.opener kind, opened⟩ :: ts ++ ⟨.endOfLine, lineEnd⟩ ::
        (body ++ next :: (tail ++ rest))) k)
      (conditionalHead kind place (Expression.read level Operator.lowestPrecedence) >>=
        fun found => between State.openChain State.closeChain (branching kind place
          (Expression.read level Operator.lowestPrecedence) (Statement.read level)) >>=
            fun parts => pure (found, parts))
      fun read s => (S.Keeps opened (Condition.unplaced id) which read.1 ∧
        S.LeavesBody (directiveBody statements next) read.2.thenBody ∧
          S.LeavesBranches {} branches last read.2.branches) ∧ S.At n.deeper .code rest 1 s := by
    refine (brings_conditionalHead (n := n.deeper) hcondition (hexpression _ rfl rfl) hlevel h
      (words_of_conditional hwords h) hhead hk place).bind fun found => ?_
    refine .of_fact (fun s hs => hs.1) fun hkeeps => ?_
    refine Brings.bind_pure (Brings.from (brings_between (fun _ => State.openChain_eq)
      (fun _ => State.closeChain_eq) ?_) fun s hs => hs.2)
        fun parts s hs => ⟨⟨hkeeps, hs.1⟩, hs.2⟩
    exact brings_branching (n := n.deeper.inChain) hcondition (hexpression _ rfl rfl) hwords hlevel
      hopening hstatement hbody hclauses hmisses.tail kind place
  rw [conditionalFrom_eq]
  refine (brings_nested hdepth hnested).bind fun read => ?_
  refine .of_fact (fun s hs => hs.1) fun ⟨hkeeps, hthen, hbranches⟩ => ?_
  refine Brings.bind (R := fun _ => S.At n .code rest 1)
    (brings_modify fun s hs => hs.2.note _) fun _ => brings_pure fun s hs => ⟨?_, hs⟩
  exact leaves_conditional rfl hkeeps hthen hbranches

end ConfLang.Setting
