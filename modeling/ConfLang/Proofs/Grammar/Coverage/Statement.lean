import ConfLang.Proofs.Grammar.Coverage.Conditional

/-!
# Statements and programs of the grammar are read

The first token of a statement tells its kind, and each kind of statement is read from its
derivation.  The induction on the room that is left for nesting ties the kinds together
(`covers_statement`), and a whole program is read statement by statement
(`leads_program`).
-/

namespace ConfLang.Reading

open Grammar

variable {o : Options} {n : Nesting} {c middle c' : Cursor} {k : Nat} {ts : List Token}

/-! ## Declarations and assignments -/

section Simple

variable {expression : Reading Expression} {language : Language Expression}
  {label : List Token} {name : Identifier} {value : Expression} {start sign : Span}

theorem endsExpression_assign : (TokenKind.symbol .assign).EndsExpression := by
  simp [TokenKind.EndsExpression, TokenKind.EndsChain, TokenKind.EndsOperand, Operator.ofToken?]

theorem gives_noType (hclear : c.Clear o) (hcolon : c.next.token.kind ≠ .symbol .colon)
    (hk : k ≤ 1) : Gives o n c k (declaredType expression) c 1 none := by
  refine (gives_not_accept hclear hcolon hk).bind ?_
  rw [if_neg Bool.false_ne_true]
  exact gives_pure

theorem gives_type (hexpression : Covers o n expression language TokenKind.EndsExpression)
    {type : Expression} (h : language ts type) {colon : Span}
    (hscan : c.Scans (⟨.symbol .colon, colon⟩ :: ts) c') (hclear : c'.Clear o)
    (hends : c'.next.token.kind.EndsExpression) (hk : k ≤ 1) :
    Gives o n c k (declaredType expression) c' 1 (some type) := by
  obtain ⟨hcolon, htype⟩ := hscan.shows rfl (by simp)
  refine (gives_accept hcolon hk).bind ?_
  rw [if_pos rfl]
  exact (hexpression h htype hclear hends (Nat.zero_le 1)).bind_pure

theorem gives_constant (hexpression : Covers o n expression language TokenKind.EndsExpression)
    (hname : Name label name) (h : language ts value)
    (hscan : c.Scans (⟨.keyword .constant, start⟩ :: label ++ ⟨.symbol .assign, sign⟩ :: ts) c')
    (hclear : c'.Clear o) (hends : c'.next.token.kind.EndsExpression) (hk : k ≤ 1) :
    Gives o n c k (constant expression) c' 1
      (.constant name none value (start.through value.span)) := by
  obtain ⟨_, hhead, hvalue⟩ := hscan.split
  obtain ⟨hstart, hlabel⟩ := hhead.shows rfl (by simp)
  obtain ⟨hsign, hvalue⟩ := hvalue.shows rfl (by simp)
  refine ((gives_advance hstart).weaken hk (Nat.le_refl 0)).bind ?_
  refine (gives_name hname hlabel _ (Nat.zero_le 1)).bind ?_
  refine (gives_noType hsign.clear (by simp [hsign.token]) (Nat.zero_le 1)).bind ?_
  refine (gives_expect hsign _ (Nat.le_refl 1)).bind ?_
  exact (hexpression h hvalue hclear hends (Nat.zero_le 1)).bind_pure

theorem gives_typedConstant
    (hexpression : Covers o n expression language TokenKind.EndsExpression)
    (hname : Name label name) {type : Expression} (htype : language ts type)
    {ts' : List Token} (h : language ts' value) {colon : Span}
    (hscan : c.Scans (⟨.keyword .constant, start⟩ :: label ++ ⟨.symbol .colon, colon⟩ :: ts ++
      ⟨.symbol .assign, sign⟩ :: ts') c')
    (hclear : c'.Clear o) (hends : c'.next.token.kind.EndsExpression) (hk : k ≤ 1) :
    Gives o n c k (constant expression) c' 1
      (.constant name (some type) value (start.through value.span)) := by
  obtain ⟨_, hhead, hvalue⟩ := hscan.split
  obtain ⟨_, hhead, htype'⟩ := hhead.split
  obtain ⟨hstart, hlabel⟩ := hhead.shows rfl (by simp)
  obtain ⟨hsign, hvalue⟩ := hvalue.shows rfl (by simp)
  refine ((gives_advance hstart).weaken hk (Nat.le_refl 0)).bind ?_
  refine (gives_name hname hlabel _ (Nat.zero_le 1)).bind ?_
  refine (gives_type hexpression htype htype' hsign.clear
    (hsign.token ▸ endsExpression_assign) (Nat.zero_le 1)).bind ?_
  refine (gives_expect hsign _ (Nat.le_refl 1)).bind ?_
  exact (hexpression h hvalue hclear hends (Nat.zero_le 1)).bind_pure

theorem gives_assign (hexpression : Covers o n expression language TokenKind.EndsExpression)
    (hname : Name label name) (h : language ts value)
    (hscan : c.Scans (label ++ ⟨.symbol .assign, sign⟩ :: ts) c')
    (hclear : c'.Clear o) (hends : c'.next.token.kind.EndsExpression) (hk : k ≤ 1) :
    Gives o n c k (assignment expression) c' 1
      (.assign name value (name.span.through value.span)) := by
  obtain ⟨_, hlabel, hvalue⟩ := hscan.split
  obtain ⟨hsign, hvalue⟩ := hvalue.shows rfl (by simp)
  refine (gives_name hname hlabel _ hk).bind ((gives_shown hsign (Nat.zero_le 1)).bind ?_)
  refine (gives_advance hsign).bind ?_
  exact (hexpression h hvalue hclear hends (Nat.zero_le 1)).bind_pure

theorem gives_append (hexpression : Covers o n expression language TokenKind.EndsExpression)
    (hname : Name label name) (h : language ts value)
    (hscan : c.Scans (label ++ ⟨.symbol .append, sign⟩ :: ts) c')
    (hclear : c'.Clear o) (hends : c'.next.token.kind.EndsExpression) (hk : k ≤ 1) :
    Gives o n c k (assignment expression) c' 1
      (.append name value (name.span.through value.span)) := by
  obtain ⟨_, hlabel, hvalue⟩ := hscan.split
  obtain ⟨hsign, hvalue⟩ := hvalue.shows rfl (by simp)
  refine (gives_name hname hlabel _ hk).bind ((gives_shown hsign (Nat.zero_le 1)).bind ?_)
  refine (gives_advance hsign).bind ?_
  exact (hexpression h hvalue hclear hends (Nat.zero_le 1)).bind_pure

/-- Inside a conditional directive block a text can be assigned. -/
theorem gives_expand (hchains : n.chains > 0) (hoption : o.expandingAssign = true)
    (hname : Name label name) {text : String} {place : Span}
    (hscan : c.Scans (label ++ [⟨.symbol .plus, sign⟩, ⟨.restOfLine text, place⟩]) c')
    (hk : k ≤ 1) :
    Gives o n c k (assignment expression) c' 0 (.expand name text (name.span.through place)) := by
  obtain ⟨_, hlabel, hrest⟩ := hscan.split
  obtain ⟨hsign, hrest⟩ := hrest.shows rfl (by simp)
  obtain ⟨rfl, rfl, hnil⟩ := hrest.rawLine
  obtain ⟨⟩ := hnil
  refine (gives_name hname hlabel _ hk).bind ((gives_shown hsign (Nat.zero_le 1)).bind ?_)
  refine leads_get fun _ hoptions hnesting _ => ?_
  rw [hnesting, hoptions, if_pos ⟨hchains, hoption⟩]
  exact (gives_advance hsign).bind gives_rawText.bind_pure

theorem gives_message {severity : Severity} {text : String} {place line : Span}
    (hscan : c.Scans [⟨.message severity, start⟩, ⟨.restOfLine text, place⟩, ⟨.endOfLine, line⟩] c')
    (hk : k ≤ 1) :
    Gives o n c k (message severity) c' 1 (.message severity text (start.through place)) := by
  obtain ⟨hstart, htext⟩ := hscan.shows rfl (by simp)
  obtain ⟨rfl, rfl, hrest⟩ := htext.rawLine
  obtain ⟨_, hline, hnil⟩ := hrest.endsLine
  obtain ⟨⟩ := hnil
  refine ((gives_advance hstart).weaken hk (Nat.le_refl 0)).bind (gives_rawText.bind ?_)
  exact (gives_endOfLine hline _ (Nat.zero_le 1)).bind_pure

end Simple

/-! ## Blocks of statements -/

section Blocks

variable {expression : Reading Expression} {language : Language Expression}
  {statement : Reading (Option Statement)} {inside : Language Statement}
  {start : Span} {body : Body}

/-- A group up to its block. -/
theorem leads_group {label : List Token} {name : Identifier} (hname : Name label name)
    (hscan : c.Scans (⟨.keyword .group, start⟩ :: label) c') (hk : k ≤ 1) :
    Leads o n c k (group statement) c' 0 (do
      let body ← block statement (.blockAfterGroup name.name)
      return .group name body (start.through body.span)) := by
  obtain ⟨hstart, hlabel⟩ := hscan.shows rfl (by simp)
  refine ((gives_advance hstart).weaken hk (Nat.le_refl 0)).bind ?_
  exact (gives_name hname hlabel _ (Nat.zero_le 1)).bind .refl

theorem gives_group (hdepth : n.depth < o.maxNestingDepth) (hopening : Opening inside)
    (hstatement : CoversStatement o n.deeper.inBraces statement inside) {label : List Token}
    {name : Identifier} (hname : Name label name) (h : Block inside ts body)
    (hscan : c.Scans (⟨.keyword .group, start⟩ :: label ++ ts) c') (hk : k ≤ 1) :
    Gives o n c k (group statement) c' 0 (.group name body (start.through body.span)) := by
  obtain ⟨_, hhead, hbody⟩ := hscan.split
  exact (leads_group hname hhead hk).trans
    (gives_block hdepth hopening hstatement h hbody _ (Nat.zero_le 1)).bind_pure

/-- A choice up to its first block. -/
theorem leads_choiceHead (hexpression : Covers o n expression language TokenKind.EndsExpression)
    {e : Expression} (he : language ts e) {opened close : Span}
    (hscan : c.Scans (⟨.keyword .ifWord, start⟩ :: ⟨.symbol .openParen, opened⟩ :: ts) middle)
    (hclose : middle.Shows ⟨.symbol .closeParen, close⟩) (hk : k ≤ 1) :
    Leads o n c k (choice expression statement) middle.next.cursor 0 (do
      let thenBody ← block statement .blockAfterCondition
      let elseBody ← elseBlock statement
      return .choice e thenBody elseBody
        (start.through (elseBody.getD thenBody).span)) := by
  obtain ⟨hstart, hrest⟩ := hscan.shows rfl (by simp)
  obtain ⟨hopened, he'⟩ := hrest.shows rfl (by simp)
  refine ((gives_advance hstart).weaken hk (Nat.le_refl 0)).bind ?_
  refine (gives_expect hopened _ (Nat.zero_le 1)).bind ?_
  refine (hexpression he he' hclose.clear
    (hclose.token ▸ TokenKind.endsExpression_closing .paren) (Nat.zero_le 1)).bind ?_
  exact (gives_closing hclose _ (Nat.le_refl 1)).bind .refl

/-- A choice through its first block. -/
theorem leads_choice (hexpression : Covers o n expression language TokenKind.EndsExpression)
    (hdepth : n.depth < o.maxNestingDepth) (hopening : Opening inside)
    (hstatement : CoversStatement o n.deeper.inBraces statement inside) {e : Expression}
    (he : language ts e) {ts' : List Token} (h : Block inside ts' body) {opened close : Span}
    (hscan : c.Scans (⟨.keyword .ifWord, start⟩ :: ⟨.symbol .openParen, opened⟩ :: ts ++
      ⟨.symbol .closeParen, close⟩ :: ts') c') (hk : k ≤ 1) :
    Leads o n c k (choice expression statement) c' 0 (do
      let elseBody ← elseBlock statement
      return .choice e body elseBody (start.through (elseBody.getD body).span)) := by
  obtain ⟨_, hhead, hbody⟩ := hscan.split
  obtain ⟨hclose, hbody⟩ := hbody.shows rfl (by simp)
  exact (leads_choiceHead hexpression he hhead hclose hk).trans
    ((gives_block hdepth hopening hstatement h hbody _ (Nat.zero_le 1)).bind .refl)

theorem gives_noElse (hclear : c.Clear o) (helse : c.next.token.kind ≠ .keyword .elseWord)
    (hk : k ≤ 1) : Gives o n c k (elseBlock statement) c 1 none := by
  refine (gives_not_accept hclear helse hk).bind ?_
  rw [if_neg Bool.false_ne_true]
  exact gives_pure

theorem leads_else {word : Span} (h : c.Shows ⟨.keyword .elseWord, word⟩) (hk : k ≤ 1) :
    Leads o n c k (elseBlock statement) c.next.cursor 0
      (return some (← block statement .blockAfterElse)) := by
  refine (gives_accept h hk).bind ?_
  rw [if_pos rfl]
  exact .refl

theorem gives_else (hdepth : n.depth < o.maxNestingDepth) (hopening : Opening inside)
    (hstatement : CoversStatement o n.deeper.inBraces statement inside)
    (h : Block inside ts body) {word : Span}
    (hscan : c.Scans (⟨.keyword .elseWord, word⟩ :: ts) c') (hk : k ≤ 1) :
    Gives o n c k (elseBlock statement) c' 0 (some body) := by
  obtain ⟨hword, hbody⟩ := hscan.shows rfl (by simp)
  exact (leads_else hword hk).trans
    (gives_block hdepth hopening hstatement h hbody _ (Nat.zero_le 1)).bind_pure

end Blocks

/-! ## All statements -/

theorem opening_statement {inBlock : Bool} {language : Language Expression}
    {inner : Option Deeper} : Opening (IsStatement o inBlock language inner) := by
  intro ts a h
  cases h with
  | assign hname | append hname | expand _ _ hname =>
      obtain ⟨⟩ := hname
      exact ⟨_, _, rfl, rfl⟩
  | _ => exact ⟨_, _, rfl, rfl⟩

/-- What may stand one level deeper is read there, and there is room for it. -/
structure CoversDeeper (o : Options) (n : Nesting) (inner : Inner) (deeper : Deeper) : Prop where
  depth : n.depth < o.maxNestingDepth
  opening : ∀ inBlock, Opening (deeper.statement inBlock)
  statement : ∀ m : Nesting, m.depth = n.depth + 1 → m.inCondition = false →
    CoversStatement o m inner.statement (deeper.statement (decide (0 < m.chains)))
  condition : ∀ m : Nesting, m.depth = n.depth + 1 → m.inCondition = true →
    Covers o m inner.expression deeper.condition TokenKind.EndsExpression

theorem covers_anyStatement {expression : Reading Expression} {language : Language Expression}
    {inner : Inner} {deeper : Option Deeper} (hcondition : n.inCondition = false)
    (hexpression : Covers o n expression language TokenKind.EndsExpression)
    (hdeeper : ∀ d ∈ deeper, CoversDeeper o n inner d) :
    CoversStatement o n (Reading.statement expression inner)
      (IsStatement o (decide (0 < n.chains)) language deeper) := by
  intro ts a c c' k h hscan hclear hends hk
  have hone := Nat.le_refl 1
  cases h with
  | constant hname h =>
      obtain ⟨hstart, -⟩ := hscan.shows rfl (by simp)
      exact (gives_shown hstart hk).bind
        (gives_constant hexpression hname h hscan hclear hends.1 hone).map
  | typedConstant hname htype h =>
      obtain ⟨hstart, -⟩ := hscan.shows rfl (by simp)
      exact (gives_shown hstart hk).bind
        (gives_typedConstant hexpression hname htype h hscan hclear hends.1 hone).map
  | group hd hname h =>
      obtain ⟨hdepth, hopening, hstatement, -⟩ := hdeeper _ hd
      obtain ⟨hstart, -⟩ := hscan.shows rfl (by simp)
      exact (gives_shown hstart hk).bind (gives_group hdepth (hopening _)
        (hstatement n.deeper.inBraces rfl hcondition) hname h hscan hone).map.loose
  | assign hname h =>
      have hassign := gives_assign hexpression hname h hscan hclear hends.1 hone
      obtain ⟨⟩ := hname
      obtain ⟨hstart, -⟩ := hscan.shows rfl (by simp)
      exact (gives_shown hstart hk).bind hassign.map
  | append hname h =>
      have happend := gives_append hexpression hname h hscan hclear hends.1 hone
      obtain ⟨⟩ := hname
      obtain ⟨hstart, -⟩ := hscan.shows rfl (by simp)
      exact (gives_shown hstart hk).bind happend.map
  | expand hblock hoption hname =>
      have hscan' := hscan
      obtain ⟨⟩ := id hname
      obtain ⟨hstart, -⟩ := hscan'.shows rfl (by simp)
      exact (gives_shown hstart hk).bind
        (gives_expand (by simpa using hblock) hoption hname hscan hone).map.loose
  | choice hd he h =>
      obtain ⟨hdepth, hopening, hstatement, -⟩ := hdeeper _ hd
      obtain ⟨hstart, -⟩ := hscan.shows rfl (by simp)
      -- Without `else` the token behind the block is looked at, and not taken.
      have hchoice := leads_choice hexpression hdepth (hopening _)
        (hstatement n.deeper.inBraces rfl hcondition) he h hscan hone
      exact (gives_shown hstart hk).bind (Gives.map (hchoice.trans
        (gives_noElse hclear hends.2 (Nat.zero_le 1)).bind_pure))
  | choiceElse hd he h h' =>
      obtain ⟨hdepth, hopening, hstatement, -⟩ := hdeeper _ hd
      obtain ⟨hstart, -⟩ := hscan.shows rfl (by simp)
      obtain ⟨_, hfirst, hlast⟩ := hscan.split
      have hchoice := leads_choice hexpression hdepth (hopening _)
        (hstatement n.deeper.inBraces rfl hcondition) he h hfirst hone
      have helse := gives_else hdepth (hopening _)
        (hstatement n.deeper.inBraces rfl hcondition) h' hlast (Nat.zero_le 1)
      exact (gives_shown hstart hk).bind (Gives.map (hchoice.trans helse.bind_pure)).loose
  | conditional hd hcond hbody hclauses =>
      obtain ⟨hdepth, hopening, hstatement, hcovers⟩ := hdeeper _ hd
      obtain ⟨_, hhead, hclauses'⟩ := hscan.split
      obtain ⟨_, _, hopened, hcond', hline, hbody', -⟩ := hhead.directiveLine rfl
      exact (gives_shown hopened hk).bind (gives_conditionalFrom hdepth hcondition hcovers
        (hopening _) (hstatement n.deeper.inChain rfl hcondition) hcond hopened hcond' hline hbody
        hbody' hclauses hclauses' hone)
  | message =>
      obtain ⟨hstart, -⟩ := hscan.shows rfl (by simp)
      exact (gives_shown hstart hk).bind (gives_message hscan hone).map
  | passage =>
      obtain ⟨hstart, rfl⟩ := hscan.shows_last rfl (by simp)
      exact (gives_shown hstart hk).bind (gives_advance hstart).bind_pure.loose

/-- Statements are read with as much room for nesting as the grammar gives them. -/
theorem covers_statement {room : Nat} (hroom : n.depth + room = o.maxNestingDepth)
    (hcondition : n.inCondition = false) :
    CoversStatement o n (Statement.read (room + 1))
      (Grammar.statement o room (decide (0 < n.chains))) := by
  have hexpression {room : Nat} {m : Nesting} (hroom : m.depth + room = o.maxNestingDepth)
      {b : Bool} (hb : m.inCondition = b) :
      Covers o m (Expression.read (room + 1) Operator.lowestPrecedence)
        (Grammar.expression b room) TokenKind.EndsExpression :=
    hb ▸ covers_expression hroom
  induction room generalizing n with
  | zero => exact covers_anyStatement hcondition (hexpression hroom hcondition) nofun
  | succ room ih =>
      refine covers_anyStatement hcondition (hexpression hroom hcondition) fun d hd => ?_
      obtain rfl := Option.mem_some.mp hd
      have hdeeper {m : Nesting} (hm : m.depth = n.depth + 1) :
          m.depth + room = o.maxNestingDepth := by omega
      refine ⟨by omega, fun inBlock => ?_, fun m hm => ih (hdeeper hm),
        fun m hm => hexpression (hdeeper hm)⟩
      cases room <;> exact opening_statement

/-! ## Programs -/

theorem opening_program {room : Nat} {inBlock : Bool} :
    Opening (Grammar.statement o room inBlock) := by
  cases room <;> exact opening_statement

/-- From the beginning of a source reading leads behind any statements that it begins with. -/
theorem leads_program (hn : n = {}) {as : List Statement}
    (h : Many (Grammar.statement o o.maxNestingDepth false) ts as) (hscan : c.Scans ts c')
    (hclear : c'.Clear o) (hends : c'.next.token.kind.EndsStatement) (items : Array Statement)
    (hk : k ≤ 1) :
    Leads o n c k (iterate (programTurn (o.maxNestingDepth + 1)) items) c' 1
      (iterate (programTurn (o.maxNestingDepth + 1)) (items ++ as)) := by
  subst hn
  have hstatement := covers_statement (o := o) (n := {}) (Nat.zero_add _) rfl
  exact leads_body endsAt_program
    (fun kind hopens => by cases kind <;> first | rfl | simp [TokenKind.opensStatement] at hopens)
    opening_program hstatement h hscan hclear hends items hk

end ConfLang.Reading
