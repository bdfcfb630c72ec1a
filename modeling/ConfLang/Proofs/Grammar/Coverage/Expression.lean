import ConfLang.Proofs.Grammar.Leads
import ConfLang.Proofs.Grammar.Words

/-!
# Expressions of the grammar are read

Whatever the grammar allows as an expression is read as that expression, as long as the token
behind it cannot go on with it.  The induction is on the derivation.  A chain of operators
groups to the left, so it is read by a repetition that has to come to its end for no part of
the derivation but the whole: for a part the statement is that reading the chain *leads* to
going on with that part (`leads_chain`, `leads_suffixed`).
-/

namespace ConfLang

namespace TokenKind

/-- A token does not go on with an operand. -/
def EndsOperand (kind : TokenKind) : Prop :=
  kind ≠ .symbol .dot ∧ kind ≠ .symbol .openParen

/-- A token does not go on with a chain of operators that bind at least as tightly as
`least`. -/
def EndsChain (least : Nat) (kind : TokenKind) : Prop :=
  kind.EndsOperand ∧ kind ≠ .symbol .plus ∧
    ∀ operator ∈ Operator.ofToken? kind, operator.precedence < least

/-- A token does not go on with an expression. -/
def EndsExpression (kind : TokenKind) : Prop :=
  kind.EndsChain Operator.lowestPrecedence

theorem endsOperand_operator (operator : Operator) :
    (TokenKind.symbol operator.symbol).EndsOperand := by
  cases operator <;> simp [EndsOperand, Operator.symbol]

theorem endsExpression_closing (bracket : Bracket) :
    (TokenKind.symbol bracket.closing).EndsExpression := by
  cases bracket <;>
    simp [EndsExpression, EndsChain, EndsOperand, Bracket.closing, Operator.ofToken?]

end TokenKind

theorem Cursor.EndsLine.endsExpression {cursor after : Cursor} (h : cursor.EndsLine after) :
    cursor.next.token.kind.EndsExpression := by
  have hkind : cursor.next.token.kind = .endOfLine ∨ cursor.next.token.kind = .endOfFile := by
    rcases h with ⟨_, hshows, hkind, -⟩ | ⟨-, hend, -⟩
    · exact .inl (hshows.token ▸ hkind)
    · exact .inr hend.1
  rcases hkind with hkind | hkind <;>
    simp [hkind, TokenKind.EndsExpression, TokenKind.EndsChain, TokenKind.EndsOperand,
      Operator.ofToken?]

theorem Operator.ofToken?_symbol (operator : Operator) :
    Operator.ofToken? (.symbol operator.symbol) = some operator := by
  cases operator <;> rfl

namespace Reading

open Grammar

variable {α : Type} {o : Options} {n : Nesting} {c c' : Cursor} {k : Nat} {ts : List Token}

/-- A reading reads all that a language allows, in front of tokens that end it. -/
def Covers (o : Options) (n : Nesting) (f : Reading α) (language : Language α)
    (ends : TokenKind → Prop) : Prop :=
  ∀ ⦃ts a c c' k⦄, language ts a → c.Scans ts c' → c'.Clear o → ends c'.next.token.kind →
    k ≤ 1 → Gives o n c k f c' 1 a

/-! ## Binary operators -/

section Chain

variable {operand : Reading Expression} {language : Language Expression}

/-- A chain ends in front of a token that does not go on with it. -/
theorem gives_chain_done {least : Nat} {e : Expression} (hclear : c.Clear o)
    (hends : c.next.token.kind.EndsChain least) (hk : k ≤ 1) :
    Gives o n c k (iterate (chainTurn operand least) e) c 1 e := by
  refine Gives.iterate_done ((gives_operator? hclear hends.2.1 hk).bind ?_)
  cases hoperator : Operator.ofToken? c.next.token.kind with
  | none => exact gives_pure
  | some operator =>
      have hless := hends.2.2 operator hoperator
      simp only [if_neg (Nat.not_le.mpr hless)]
      exact gives_pure

/-- Reading a chain leads to going on with any part of it that is derived by itself. -/
theorem leads_chain (hoperand : Covers o n operand language TokenKind.EndsOperand)
    {bound least : Nat} {e : Expression} (h : Binary language bound ts e)
    (hle : least ≤ bound) (hscan : c.Scans ts c') (hclear : c'.Clear o)
    (hends : c'.next.token.kind.EndsOperand) (hplus : c'.next.token.kind ≠ .symbol .plus)
    (hlow : ∀ operator ∈ Operator.ofToken? c'.next.token.kind, operator.precedence ≤ bound)
    (hk : k ≤ 1) :
    Leads o n c k (chain operand least) c' 1 (iterate (chainTurn operand least) e) := by
  induction h generalizing c c' k least with
  | operand h =>
      rw [chain_eq]
      exact (hoperand h hscan hclear hends hk).bind .refl
  | @operation bound first rest left right sign operator hbound _ _ ihleft ihright =>
      obtain ⟨middle, hfirst, hrest⟩ := hscan.split
      obtain ⟨hsign, hrest⟩ := hrest.shows rfl (by simp)
      have hkind : middle.next.token.kind = .symbol operator.symbol := by rw [hsign.token]
      have hsame : Operator.ofToken? middle.next.token.kind = some operator := by
        rw [hkind, Operator.ofToken?_symbol]
      have hmiddle : middle.next.token.kind ≠ .symbol .plus := by
        rw [hkind]
        cases operator <;> simp [Operator.symbol]
      refine (ihleft (hle.trans hbound) hfirst hsign.clear
        (hkind ▸ TokenKind.endsOperand_operator operator) hmiddle (by simp [hsame]) hk).trans ?_
      refine Leads.iterate_again ?_ (hrest.left_le.trans_lt hsign.left_lt)
      refine (gives_operator? hsign.clear hmiddle (Nat.le_refl 1)).bind ?_
      simp only [hsame, if_pos (hle.trans hbound)]
      refine (gives_advance hsign).bind (Gives.bind_pure ?_)
      -- The right side ends where the whole chain does, since it binds more tightly.
      have hends' : c'.next.token.kind.EndsChain (operator.precedence + 1) :=
        ⟨hends, hplus, fun other hother =>
          Nat.lt_succ_of_le ((hlow other hother).trans hbound)⟩
      refine (ihright (Nat.le_refl _) hrest hclear hends hplus (fun other hother => ?_)
        (Nat.zero_le 1)).trans (gives_chain_done hclear hends' (Nat.le_refl 1))
      exact (Nat.lt_succ_iff.mp (hends'.2.2 other hother)).trans (Nat.le_succ _)

theorem covers_chain (hoperand : Covers o n operand language TokenKind.EndsOperand)
    (least : Nat) :
    Covers o n (chain operand least) (Binary language least) (TokenKind.EndsChain least) := by
  intro ts e c c' k h hscan hclear hends hk
  exact (leads_chain hoperand h (Nat.le_refl least) hscan hclear hends.1 hends.2.1
    (fun operator hoperator => (hends.2.2 operator hoperator).le) hk).trans
    (gives_chain_done hclear hends (Nat.le_refl 1))

end Chain

/-! ## Lists -/

section Lists

variable {item : Reading α} {language : Language α} {bracket : Bracket}

theorem beginsItem_ne {kind : TokenKind} (h : kind.beginsItem = true) (bracket : Bracket) :
    kind ≠ .symbol bracket.closing ∧ kind ≠ .endOfFile ∧ kind ≠ .endOfLine ∧
      kind ≠ .symbol .comma := by
  cases bracket <;>
    refine ⟨?_, ?_, ?_, ?_⟩ <;>
      (rintro rfl; simp [TokenKind.beginsItem, TokenKind.beginsExpression, TokenKind.beginsPrimary,
        Bracket.closing] at h)

theorem gives_extraCommas (hclear : c.Clear o) (hcomma : c.next.token.kind ≠ .symbol .comma)
    (hk : k ≤ 1) : Gives o n c k (extraCommas bracket) c 1 () := by
  refine Gives.iterate_done ((gives_peek hclear hk).bind ?_)
  rw [if_neg hcomma]
  exact gives_pure

/-- Behind a comma of a list stands another element or the closing bracket. -/
theorem shows_items (hl : Worded TokenKind.beginsItem language) {as : List α}
    (h : Items language ts as) (hscan : c.Scans ts c') {close : Span}
    (hclose : c'.Shows ⟨.symbol bracket.closing, close⟩) :
    ∃ token, c.Shows token ∧ token.kind ≠ .symbol .comma := by
  cases h with
  | nil =>
      cases hscan
      exact ⟨_, hclose, by cases bracket <;> simp [Bracket.closing]⟩
  | last h =>
      obtain ⟨token, hshows, hbegins⟩ := hl.shows h hscan
      exact ⟨token, hshows, (beginsItem_ne hbegins bracket).2.2.2⟩
  | cons h _ =>
      obtain ⟨middle, hfirst, -⟩ := hscan.split
      obtain ⟨token, hshows, hbegins⟩ := hl.shows h hfirst
      exact ⟨token, hshows, (beginsItem_ne hbegins bracket).2.2.2⟩

/-- In front of an element a turn reads that element. -/
theorem leads_element (hl : Worded TokenKind.beginsItem language)
    (hitem : Covers o n item language TokenKind.EndsExpression) {a : α} (h : language ts a)
    (hscan : c.Scans ts c') (hclear : c'.Clear o) (hends : c'.next.token.kind.EndsExpression)
    (hk : k ≤ 1) (items : Array α) :
    Leads o n c k (element bracket item items) c' 1 (do
      if ← accept (.symbol .comma) then
        extraCommas bracket
        return .again (items.push a)
      else return .done (items.push a)) := by
  obtain ⟨token, hshows, hbegins⟩ := hl.shows h hscan
  obtain ⟨hclosing, hfile, hline, -⟩ := beginsItem_ne hbegins bracket
  refine (gives_shown hshows hk).bind ?_
  rw [if_neg (by simp [hclosing, hfile, hline])]
  exact (hitem h hscan hclear hends (Nat.le_refl 1)).bind .refl

/-- The elements of a list are read one after the other up to the closing bracket. -/
theorem gives_items (hl : Worded TokenKind.beginsItem language)
    (hitem : Covers o n item language TokenKind.EndsExpression) {as : List α}
    (h : Items language ts as) (hscan : c.Scans ts c') {close : Span}
    (hclose : c'.Shows ⟨.symbol bracket.closing, close⟩) (items : Array α) (hk : k ≤ 1) :
    Gives o n c k (iterate (element bracket item) items) c' 1 (items ++ as) := by
  have hkind : c'.next.token.kind = .symbol bracket.closing := by rw [hclose.token]
  have hends : c'.next.token.kind.EndsExpression :=
    hkind ▸ TokenKind.endsExpression_closing bracket
  induction h generalizing c k items with
  | nil =>
      cases hscan
      refine Gives.iterate_done ((gives_shown hclose hk).bind ?_)
      rw [if_pos (.inl rfl), Array.appendList_nil]
      exact gives_pure
  | last h =>
      refine Gives.iterate_done
        ((leads_element hl hitem h hscan hclose.clear hends hk items).trans ?_)
      have hcomma : c'.next.token.kind ≠ .symbol .comma := by
        rw [hkind]
        cases bracket <;> simp [Bracket.closing]
      refine (gives_not_accept hclose.clear hcomma (Nat.le_refl 1)).bind ?_
      rw [if_neg Bool.false_ne_true, Array.appendList_cons, Array.appendList_nil]
      exact gives_pure
  | @cons first rest a as comma h hitems ih =>
      obtain ⟨middle, hfirst, hrest⟩ := hscan.split
      obtain ⟨hcomma, hrest⟩ := hrest.shows rfl (by simp)
      obtain ⟨token, hshows, hne⟩ := shows_items hl hitems hrest hclose
      have hends' : middle.next.token.kind.EndsExpression := by
        rw [hcomma.token]
        simp [TokenKind.EndsExpression, TokenKind.EndsChain, TokenKind.EndsOperand,
          Operator.ofToken?]
      -- an element takes its comma at least
      have hless : middle.next.cursor.left < c.left := hcomma.left_lt.trans_le hfirst.left_le
      rw [Array.appendList_cons]
      refine (Leads.iterate_again
        ((leads_element hl hitem h hfirst hcomma.clear hends' hk items).trans ?_) hless).trans
        (ih hrest (items.push a) (Nat.le_refl 1))
      refine (gives_accept hcomma (Nat.le_refl 1)).bind ?_
      rw [if_pos rfl]
      exact (gives_extraCommas hshows.clear (by rw [hshows.token]; exact hne)
        (Nat.zero_le 1)).bind gives_pure

theorem gives_elements (bracket : Bracket) (hl : Worded TokenKind.beginsItem language)
    (hitem : Covers o n item language TokenKind.EndsExpression) {as : List α}
    (h : Items language ts as) (hscan : c.Scans ts c') {close : Span}
    (hclose : c'.Shows ⟨.symbol bracket.closing, close⟩) (opened : Span) (hk : k ≤ 1) :
    Gives o n c k (elements bracket opened item) c'.next.cursor 0 (as, close) := by
  refine (gives_items hl hitem h hscan hclose #[] hk).bind ?_
  refine (gives_closing hclose opened (Nat.le_refl 1)).bind ?_
  rw [show (#[] ++ as : Array α).toList = as by simp]
  exact gives_pure

end Lists

/-! ## Operands -/

section Operands

variable {inner : Reading Expression} {language : Language Expression}

/-- A name takes one token. -/
theorem gives_name {name : Identifier} (h : Name ts name) (hscan : c.Scans ts c')
    (expectation : Expectation) (hk : k ≤ 1) :
    Gives o n c k (identifier expectation) c' 0 name := by
  obtain ⟨⟩ := h
  obtain ⟨hshows, rfl⟩ := hscan.shows_last rfl (by simp)
  exact gives_identifier hshows expectation hk

/-- What may be nested is read one level deeper, and there is room for it. -/
def CoversInside (o : Options) (n : Nesting) (f : Reading Expression)
    (inner : Option (Language Expression)) (ends : TokenKind → Prop) : Prop :=
  ∀ language ∈ inner, n.depth < o.maxNestingDepth ∧
    Worded TokenKind.beginsExpression language ∧ Covers o n.deeper f language ends

theorem covers_argument (hl : Worded TokenKind.beginsExpression language)
    (hinner : Covers o n inner language TokenKind.EndsExpression) :
    Covers o n (argument inner) (LabelledArgument language) TokenKind.EndsExpression := by
  intro ts a c c' k h hscan hclear hends hk
  cases h with
  | positional h =>
      obtain ⟨token, hshows, hbegins⟩ := hl.shows h hscan
      have hdot : c.next.token.kind ≠ .symbol .dot := by
        rw [hshows.token]
        intro hkind
        simp [hkind, TokenKind.beginsExpression, TokenKind.beginsPrimary] at hbegins
      refine (gives_not_accept hshows.clear hdot hk).bind ?_
      rw [if_neg Bool.false_ne_true]
      exact (hinner h hscan hclear hends (Nat.le_refl 1)).bind_pure
  | labelled hname h =>
      obtain ⟨hdot, hscan⟩ := hscan.shows rfl (by simp)
      obtain ⟨middle, hlabel, hscan⟩ := hscan.split
      obtain ⟨hsign, hscan⟩ := hscan.shows rfl (by simp)
      refine (gives_accept hdot hk).bind ?_
      rw [if_pos rfl]
      refine (gives_name hname hlabel .labelName (Nat.zero_le 1)).bind ?_
      refine (gives_expect hsign _ (Nat.zero_le 1)).bind ?_
      exact (hinner h hscan hclear hends (Nat.zero_le 1)).bind_pure

theorem gives_primary {b : Bool} {languages : Option (Language Expression)}
    (hb : n.inCondition = b) (hinner : CoversInside o n inner languages TokenKind.EndsExpression)
    {e : Expression} (h : Primary b languages ts e) (hscan : c.Scans ts c')
    (hasks : asksDefined b ts → c'.Clear o ∧ c'.next.token.kind ≠ .symbol .openParen)
    (hk : k ≤ 1) : Gives o n c k (primary inner) c' 1 e := by
  subst hb
  cases h with
  | integer | float | string =>
      obtain ⟨hshows, rfl⟩ := hscan.shows_last rfl (by simp)
      exact (gives_shown hshows hk).bind (gives_advance hshows).bind_pure.loose
  | name hname =>
      obtain ⟨⟩ := hname
      rename_i text quoted span
      obtain ⟨hshows, rfl⟩ := hscan.shows_last rfl (by simp)
      refine (gives_shown hshows hk).bind ?_
      cases quoted with
      | true => exact (gives_advance hshows).bind_pure.loose
      | false =>
          have hword (hin : n.inCondition = true) (htext : text = "defined") :=
            hasks ⟨hin, span, by rw [htext]⟩
          refine (gives_isDefinedQuestion hshows.clear (fun hin htext => (hword hin htext).1)
            (Nat.le_refl 1)).bind ?_
          rw [if_neg (by simpa using fun hin htext => (hword hin htext).2)]
          exact (gives_advance hshows).bind_pure
  | defined hin hname =>
      obtain ⟨hstart, hrest⟩ := hscan.shows rfl (by simp)
      obtain ⟨hopened, hinside⟩ := hrest.shows rfl (by simp)
      obtain ⟨middle, hname', hlast⟩ := hinside.split
      obtain ⟨hclose, rfl⟩ := hlast.shows_last rfl (by simp)
      refine (gives_shown hstart hk).bind ?_
      refine (gives_isDefinedQuestion hstart.clear (fun _ _ => hopened.clear) (Nat.le_refl 1)).bind ?_
      rw [if_pos (by simp [hin, hopened.token])]
      refine (gives_advance hstart).bind ?_
      refine (gives_expect hopened _ (Nat.le_refl 1)).bind ?_
      refine (gives_name hname hname' _ (Nat.zero_le 1)).bind ?_
      exact (gives_closing hclose _ (Nat.zero_le 1)).bind_pure.loose
  | group hlanguage h =>
      obtain ⟨hdepth, -, hcovers⟩ := hinner _ hlanguage
      obtain ⟨hopened, hrest⟩ := hscan.shows rfl (by simp)
      obtain ⟨middle, hinside, hlast⟩ := hrest.split
      obtain ⟨hclose, rfl⟩ := hlast.shows_last rfl (by simp)
      have hends : middle.next.token.kind.EndsExpression :=
        hclose.token ▸ TokenKind.endsExpression_closing .paren
      refine (gives_shown hopened hk).bind ((gives_advance hopened).bind ?_)
      refine ((hcovers h hinside hclose.clear hends (Nat.zero_le 1)).nested hdepth).bind ?_
      exact (gives_closing hclose _ (Nat.le_refl 1)).bind_pure.loose
  | array hlanguage h =>
      obtain ⟨hdepth, hl, hcovers⟩ := hinner _ hlanguage
      obtain ⟨hopened, hrest⟩ := hscan.shows rfl (by simp)
      obtain ⟨middle, hinside, hlast⟩ := hrest.split
      obtain ⟨hclose, rfl⟩ := hlast.shows_last rfl (by simp)
      refine (gives_shown hopened hk).bind ((gives_advance hopened).bind ?_)
      exact ((gives_elements .square hl.item hcovers h hinside hclose _ (Nat.zero_le 1)).nested
        hdepth).bind_pure.loose

/-! ## Calls and member accesses -/

/-- An operand ends in front of a token that does not go on with it. -/
theorem gives_suffix_done {e : Expression} (hclear : c.Clear o)
    (hends : c.next.token.kind.EndsOperand) (hk : k ≤ 1) :
    Gives o n c k (iterate (suffix inner) e) c 1 e := by
  refine Gives.iterate_done ((gives_peek hclear hk).bind ?_)
  split
  · exact absurd ‹_› hends.1
  · exact absurd ‹_› hends.2
  · exact gives_pure

/-- Reading an operand leads to going on with any part of it that is derived by itself. -/
theorem leads_suffixed {b : Bool} {languages : Option (Language Expression)}
    (hb : n.inCondition = b) (hinner : CoversInside o n inner languages TokenKind.EndsExpression)
    {e : Expression} (h : Suffixed b languages ts e) (hscan : c.Scans ts c')
    (hasks : asksDefined b ts → c'.Clear o ∧ c'.next.token.kind ≠ .symbol .openParen)
    (hk : k ≤ 1) :
    Leads o n c k (suffixed inner) c' 1 (iterate (suffix inner) e) := by
  induction h generalizing c' with
  | primary h => exact (gives_primary hb hinner h hscan hasks hk).bind .refl
  | member hobject hname ih =>
      obtain ⟨middle, hfirst, hrest⟩ := hscan.split
      obtain ⟨hdot, hname'⟩ := hrest.shows rfl (by simp)
      refine (ih hfirst fun _ => ⟨hdot.clear, by simp [hdot.token]⟩).trans ?_
      refine Leads.iterate_again ?_ (hname'.left_le.trans_lt hdot.left_lt)
      refine (gives_shown hdot (Nat.le_refl 1)).bind ((gives_advance hdot).bind ?_)
      exact (gives_name hname hname' _ (Nat.zero_le 1)).bind_pure.loose
  | call hlanguage hcallee hnot harguments ih =>
      obtain ⟨hdepth, hl, hcovers⟩ := hinner _ hlanguage
      obtain ⟨behind, hcall, hlast⟩ := hscan.split
      obtain ⟨middle, hfirst, hrest⟩ := hcall.split
      obtain ⟨hopened, hinside⟩ := hrest.shows rfl (by simp)
      obtain ⟨hclose, rfl⟩ := hlast.shows_last rfl (by simp)
      have hless := hclose.left_lt.trans (hinside.left_le.trans_lt hopened.left_lt)
      refine (ih hfirst fun h => absurd h hnot).trans (Leads.iterate_again ?_ hless)
      refine (gives_shown hopened (Nat.le_refl 1)).bind ((gives_advance hopened).bind ?_)
      exact ((gives_elements .paren (worded_labelledArgument hl) (covers_argument hl hcovers)
        harguments hinside hclose _ (Nat.zero_le 1)).nested hdepth).bind_pure.loose

/-! ## All expressions -/

theorem covers_negated {b : Bool} {languages : Option (Language Expression)}
    {operand : Reading Expression} (hb : n.inCondition = b)
    (hoperand : CoversInside o n operand languages TokenKind.EndsOperand) :
    Covers o n (negated operand (suffixed (chain operand Operator.lowestPrecedence)))
      (Operand b languages) TokenKind.EndsOperand := by
  intro ts e c c' k h hscan hclear hends hk
  cases h with
  | negation hlanguage h =>
      obtain ⟨hdepth, -, hcovers⟩ := hoperand _ hlanguage
      obtain ⟨hsign, hrest⟩ := hscan.shows rfl (by simp)
      refine (gives_shown hsign hk).bind ?_
      rw [if_pos rfl]
      refine (gives_advance hsign).bind ?_
      exact ((hcovers h hrest hclear hends (Nat.zero_le 1)).nested hdepth).bind_pure
  | suffixed h =>
      have hinner : CoversInside o n (chain operand Operator.lowestPrecedence)
          (languages.map fun operand => Binary operand Operator.lowestPrecedence)
          TokenKind.EndsExpression := by
        intro language hlanguage
        obtain ⟨inside, hinside, rfl⟩ := Option.map_eq_some_iff.mp hlanguage
        obtain ⟨hdepth, hl, hcovers⟩ := hoperand inside hinside
        exact ⟨hdepth, worded_binary hl, covers_chain hcovers _⟩
      have hl : Worded TokenKind.beginsPrimary (Suffixed b _) :=
        worded_suffixed fun language hlanguage => (hinner language hlanguage).2.1
      obtain ⟨token, hshows, hbegins⟩ := hl.shows h hscan
      refine (gives_shown hshows hk).bind ?_
      rw [if_neg fun hkind => by simp [hkind, TokenKind.beginsPrimary] at hbegins]
      exact (leads_suffixed hb hinner h hscan (fun _ => ⟨hclear, hends.2⟩) (Nat.le_refl 1)).trans
        (gives_suffix_done hclear hends (Nat.le_refl 1))

/-- Operands are read with as much room for nesting as the grammar gives them. -/
theorem covers_operand {room : Nat} (hroom : n.depth + room = o.maxNestingDepth) :
    Covers o n (Reading.operand (room + 1)) (Grammar.operand n.inCondition room)
      TokenKind.EndsOperand := by
  induction room generalizing n with
  | zero => exact covers_negated rfl (by simp [CoversInside])
  | succ room ih =>
      refine covers_negated rfl fun language hlanguage => ?_
      obtain rfl := Option.mem_some.mp hlanguage
      have hdeeper : n.deeper.depth + room = o.maxNestingDepth := by
        rw [← hroom, Nat.add_comm room 1, ← Nat.add_assoc]
        rfl
      exact ⟨by omega, worded_operand _ room, ih hdeeper⟩

theorem covers_expression {room : Nat} (hroom : n.depth + room = o.maxNestingDepth) :
    Covers o n (Expression.read (room + 1) Operator.lowestPrecedence)
      (Grammar.expression n.inCondition room) TokenKind.EndsExpression :=
  covers_chain (covers_operand hroom) _

end Operands

end Reading

end ConfLang
