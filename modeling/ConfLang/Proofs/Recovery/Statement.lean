import ConfLang.Proofs.Grammar.Exact
import ConfLang.Proofs.Recovery.Body

/-!
# Programs with constructs that cannot be read

Without a limit of errors, a source of the lenient grammar is read as the program that is left
without the constructs that cannot be read, and its errors are the problems of those constructs,
one for each.

The induction on the room that is left for nesting is the one for the grammar; statements
without such constructs are read as there.
-/

namespace ConfLang

namespace Reading

open Grammar

variable {o : Options} {n : Nesting} {c middle c' : Cursor} {k : Nat} {ts : List Token}
  {problems : List Problem}

/-! ## Conditional directive blocks -/

section Conditional

variable {expression : Reading Expression} {condition : Language Expression}
  {statement : Reading (Option Statement)} {body : Lenient (List Statement)}
  [∀ problems, Obeys (resumption problems).Kept expression]
  [∀ problems, Obeys (resumption problems).Kept statement]

/-- Every clause of a block begins with a mark. -/
theorem shows_lenientClauses {branches : List Branch} {last : Option Body} {close : Span}
    {next : Token} (h : LenientClauses condition body (next :: ts) branches last close problems)
    (hscan : c.Scans (next :: ts) c') : c.Shows next ∧ ∃ which, next.kind = .mark which := by
  cases h with
  | endif | otherwise | elif => exact ⟨(hscan.shows rfl (by simp)).1, _, rfl⟩

/-- The branches of a block are read up to the mark that closes it. -/
theorem givesWith_clauses (hlimit : o.maxErrors = none) (hcondition : n.inCondition = false)
    (hexpression : Covers o n.conditional expression condition TokenKind.EndsExpression)
    (hbody : CoversBody o n statement body) {branches : List Branch} {last : Option Body}
    {close : Span} (h : LenientClauses condition body ts branches last close problems)
    (hscan : c.Scans ts c') (before : Branches)
    (hbefore : before.otherwise = none ∨ branches = [] ∧ last = none)
    (kind : ConditionKind) (opened : Span) (hk : k ≤ 1) :
    ∃ middle, GivesWith problems o n c k (iterate (branch expression statement) before) middle 1
        ⟨before.elifs ++ branches, before.otherwise.or last⟩ ∧
      Gives o n middle 1 (endif kind opened) c' 1 close := by
  -- The induction is on the clauses, with any branches read in front of them.
  induction h generalizing c k before with
  | endif hignored =>
      obtain ⟨_, _, hshows, hrest, hline, hnil, -⟩ := hscan.directiveLine rfl
      obtain ⟨⟩ := hnil
      refine ⟨c, ?_, gives_endif hignored hshows hrest hline kind opened (Nat.le_refl 1)⟩
      rw [Array.appendList_nil, Option.or_none]
      exact Gives.with_nil hlimit (Gives.iterate_done ((gives_shown hshows hk).bind gives_pure))
  | @otherwise _ _ _ _ _ _ start _ _ hignored h hclauses ih =>
      obtain ⟨_, hclause, hlast⟩ := hscan.split
      obtain ⟨_, _, hshows, hignored', hline, hbody', hbehind⟩ := hclause.directiveLine rfl
      obtain ⟨hnext, which, hmark⟩ := shows_lenientClauses hclauses hlast
      have hnone : before.otherwise = none := by simpa using hbefore
      have hless := hbody'.left_le.trans_lt hbehind
      obtain ⟨middle, hbranches, hclose⟩ := ih hlast
        { before with otherwise := some (directiveBody _ _) } (.inr ⟨rfl, rfl⟩) (Nat.le_refl 1)
      have hbranch := (leads_otherwiseBranch hnone hignored hignored' hline start).gives
        (givesWith_markedBody hlimit hbody h hbody' hnext hmark (Nat.le_refl 1)).bind_pure
      have hturn : GivesWith _ o n c k (branch expression statement before) _ 1 _ :=
        (leads_branch_otherwise hshows before hk).gives hbranch.bind_pure
      have hall := hturn.iterate_again hless hbranches
      rw [List.append_nil] at hall
      rw [hnone, Option.none_or]
      exact ⟨middle, hall, hclose⟩
  | @elif _ _ _ _ _ _ _ _ _ _ start _ _ hcond h hclauses ih =>
      obtain ⟨_, hclause, hlast⟩ := hscan.split
      obtain ⟨_, _, hshows, hcond', hline, hbody', hbehind⟩ := hclause.directiveLine rfl
      obtain ⟨hnext, which, hmark⟩ := shows_lenientClauses hclauses hlast
      have hnone : before.otherwise = none := by simpa using hbefore
      have hless := hbody'.left_le.trans_lt hbehind
      obtain ⟨middle, hbranches, hclose⟩ := ih hlast
        { before with elifs := before.elifs.push (.mk _ _ _) } (.inl hnone) (Nat.le_refl 1)
      have hbranch := (leads_elifBranch hcondition hexpression hnone hcond hcond' hline start).gives
        (givesWith_markedBody hlimit hbody h hbody' hnext hmark (Nat.le_refl 1)).bind_pure
      have hturn : GivesWith _ o n c k (branch expression statement before) _ 1 _ :=
        (leads_branch_elif hshows before hk).gives hbranch.bind_pure
      rw [Array.appendList_cons]
      exact ⟨middle, hturn.iterate_again hless hbranches, hclose⟩

/-- A conditional directive block is read as a whole, and not dropped. -/
theorem givesWith_conditionalFrom (hlimit : o.maxErrors = none)
    (hdepth : n.depth < o.maxNestingDepth) (hcondition : n.inCondition = false)
    (hexpression : ∀ m : Nesting, m.depth = n.depth + 1 → m.inCondition = true →
      Covers o m expression condition TokenKind.EndsExpression)
    (hbody : CoversBody o n.deeper.inChain statement body)
    {kind : ConditionKind} {condition' : Condition} (h : Conditional condition kind ts condition')
    {opened : Span} (hopened : c.Shows ⟨.opener kind, opened⟩)
    (hscan : c.next.cursor.Scans ts middle) {behind : Cursor} (hline : middle.EndsLine behind)
    {inside : List Token} {statements : List Statement} (hinside : body inside statements problems)
    {next : Token} {rest : List Token} {branches : List Branch} {last : Option Body} {close : Span}
    {ahead : Cursor} (hinside' : behind.Scans inside ahead) {more : List Problem}
    (hclauses : LenientClauses condition body (next :: rest) branches last close more)
    (hrest : ahead.Scans (next :: rest) c') (hk : k ≤ 1) :
    GivesWith (problems ++ more) o n c k (conditionalFrom kind opened expression statement) c' 1
      (some (.conditional condition' (directiveBody statements next) branches last
        (opened.through close))) := by
  obtain ⟨hnext, which, hmark⟩ := shows_lenientClauses hclauses hrest
  obtain ⟨_, hbranches, hclose⟩ := givesWith_clauses (n := n.deeper.inChain) hlimit hcondition
    (hexpression _ rfl rfl) hbody hclauses hrest {} (.inl rfl) kind opened (Nat.le_refl 1)
  have hbranching : GivesWith (problems ++ more) o n.deeper.inChain behind 1
      (branching kind opened expression statement) c' 1
      ⟨directiveBody statements next, ⟨#[] ++ branches, last⟩, close⟩ :=
    (givesWith_markedBody hlimit hbody hinside hinside' hnext hmark (Nat.le_refl 1)).bind
      (hbranches.bind_gives hlimit hclose.bind_pure)
  have hchain : GivesWith (problems ++ more) o n.deeper behind 1
      (between State.openChain State.closeChain (branching kind opened expression statement)) c' 1
      _ :=
    hbranching.between Nesting.inChain
      (fun nesting => { nesting with chains := nesting.chains - 1 }) rfl
  have hhead := gives_conditionalHead (n := n.deeper) hcondition (hexpression _ rfl rfl) h hopened
    hscan hline hk
  rw [conditionalFrom_eq]
  refine GivesWith.bind_gives hlimit (GivesWith.nested hdepth (hhead.bind_with hchain.bind_pure))
    ((gives_note _).bind ?_)
  rw [show ((#[] : Array Branch) ++ branches).toList = branches by simp]
  exact gives_pure

end Conditional

/-! ## Statements -/

theorem opening_lenientStatement (room : Nat) (inBlock : Bool) :
    LenientOpening (lenientStatement o room inBlock) := by
  intro ts a problems h
  cases room with
  | zero => exact opening_statement h.1
  | succ room =>
      cases h with
      | plain h => exact opening_statement h
      | _ => exact ⟨_, _, rfl, rfl⟩

/-- Statements with lenient bodies are read with as much room for nesting as the lenient grammar
gives them. -/
theorem covers_lenientStatement (hlimit : o.maxErrors = none) {room : Nat}
    (hroom : n.depth + room = o.maxNestingDepth) (hcondition : n.inCondition = false) :
    CoversLenient o n (Statement.read (room + 1))
      (lenientStatement o room (decide (0 < n.chains))) := by
  induction room generalizing n with
  | zero =>
      rintro ts a problems c c' k ⟨h, rfl⟩ hscan hends hk
      exact (covers_statement hroom hcondition h hscan (.inl hlimit) hends hk).with_nil hlimit
  | succ room ih =>
      have hdepth : n.depth < o.maxNestingDepth := by omega
      have hbody {m : Nesting} (hm : m.depth = n.depth + 1) (hm' : m.inCondition = false) :
          CoversBody o m (Statement.read (room + 1))
            (Mixed (lenientStatement o room (decide (0 < m.chains))) (Rejected o room)) :=
        have hroom' : m.depth + room = o.maxNestingDepth := by omega
        coversBody_mixed hlimit hroom' (opening_lenientStatement room _) (ih hroom' hm')
      have hexpression : Covers o n (Expression.read (room + 2) Operator.lowestPrecedence)
          (Grammar.expression false (room + 1)) TokenKind.EndsExpression :=
        hcondition ▸ covers_expression hroom
      have hone := Nat.le_refl 1
      intro ts a problems c c' k h hscan hends hk
      cases h with
      | plain h =>
          exact (covers_statement hroom hcondition h hscan (.inl hlimit) hends hk).with_nil hlimit
      | @group _ _ name _ _ _ hname h =>
          obtain ⟨_, hhead, hblock⟩ := hscan.split
          obtain ⟨hstart, -⟩ := hhead.shows rfl (by simp)
          have hinside := givesWith_block hlimit hdepth (hbody (m := n.deeper.inBraces) rfl hcondition)
            h hblock (.blockAfterGroup name.name) (Nat.zero_le 1)
          exact ((gives_shown hstart hk).bind_with
            ((leads_group hname hhead hone).gives hinside.bind_pure).map).loose
      | choice he h =>
          obtain ⟨_, hhead, hblock⟩ := hscan.split
          obtain ⟨hstart, -⟩ := hhead.shows rfl (by simp)
          obtain ⟨hclose, hblock⟩ := hblock.shows rfl (by simp)
          have hinside := givesWith_block hlimit hdepth (hbody (m := n.deeper.inBraces) rfl hcondition)
            h hblock .blockAfterCondition (Nat.zero_le 1)
          have hchoice := (leads_choiceHead hexpression he hhead hclose hone).gives
            (hinside.bind_gives hlimit
              (gives_noElse (.inl hlimit) hends.2 (Nat.zero_le 1)).bind_pure)
          exact (gives_shown hstart hk).bind_with hchoice.map
      | choiceElse he h h' =>
          obtain ⟨_, hhead, helse⟩ := hscan.split
          obtain ⟨_, hhead, hblock⟩ := hhead.split
          obtain ⟨hstart, -⟩ := hhead.shows rfl (by simp)
          obtain ⟨hclose, hblock⟩ := hblock.shows rfl (by simp)
          obtain ⟨hword, helse⟩ := helse.shows rfl (by simp)
          have hdeeper := hbody (m := n.deeper.inBraces) rfl hcondition
          have hinside := givesWith_block hlimit hdepth hdeeper h hblock .blockAfterCondition
            (Nat.zero_le 1)
          have hother := (leads_else hword (Nat.zero_le 1)).gives (givesWith_block hlimit hdepth
            hdeeper h' helse .blockAfterElse (Nat.zero_le 1)).bind_pure
          have hchoice := (leads_choiceHead hexpression he hhead hclose hone).gives
            (hinside.bind hother.bind_pure)
          exact (gives_shown hstart hk).bind_with hchoice.map.loose
      | conditional hcond h hclauses =>
          obtain ⟨_, hhead, hclauses'⟩ := hscan.split
          obtain ⟨_, _, hopened, hcond', hline, hbody', -⟩ := hhead.directiveLine rfl
          have hinner {m : Nesting} (hm : m.depth = n.depth + 1) (hm' : m.inCondition = true) :
              Covers o m (Expression.read (room + 1) Operator.lowestPrecedence)
                (Grammar.expression true room) TokenKind.EndsExpression :=
            hm' ▸ covers_expression (by omega)
          exact (gives_shown hopened hk).bind_with (givesWith_conditionalFrom hlimit hdepth
            hcondition (fun m => hinner) (hbody (m := n.deeper.inChain) rfl hcondition) hcond hopened
            hcond' hline h hbody' hclauses hclauses' hone)

end Reading

end ConfLang
