import ConfLang.Proofs.Alteration.Token
import ConfLang.Proofs.Grammar.Coverage.Expression

/-!
# Expressions of sources that follow tokens

An expression of the grammar is read from every source that follows its tokens, and what is read is
the same but for its spans.  Only in lists something is special: further commas behind a comma are
skipped and reported, which gives no element, and a comma in front of the closing bracket may be
missing.  So the turn of a list may be its last one or not, depending on the source, where the list
ends with a comma.

The induction is on the derivation, as in the proof that expressions of the grammar are read.  Here
a part of a chain is followed by what is left to be done: `brings_chain` says that whatever can be
reached from behind that part can be reached from the beginning of the chain.
-/

namespace ConfLang

/-- An argument without its spans. -/
def Argument.bare : Argument → Argument
  | .mk label value => .mk (label.map (Identifier.unplaced id)) (value.unplaced id)

theorem Expression.unplacedList_eq_map (view : String → String) (elements : List Expression) :
    unplacedList view elements = elements.map (unplaced view) := by
  induction elements with
  | nil => rfl
  | cons first rest ih => rw [unplacedList, ih, List.map_cons]

theorem Argument.unplacedList_eq_map (arguments : List Argument) :
    unplacedList id arguments = arguments.map bare := by
  induction arguments with
  | nil => rfl
  | cons first rest ih =>
      obtain ⟨label, value⟩ := first
      rw [unplacedList, ih, List.map_cons, bare]

namespace Alteration

/-- Whatever is found where some tokens are to come has a property. -/
def Upcoming (property : TokenKind → Prop) (ts : List Token) : Prop :=
  Looked ts ∧ ∀ kind, Meets ts kind → property kind

variable {property : TokenKind → Prop} {token : Token} {ts : List Token}

theorem Upcoming.imp {other : TokenKind → Prop} (h : Upcoming property ts)
    (himp : ∀ kind, property kind → other kind) : Upcoming other ts :=
  ⟨h.1, fun kind hmeets => himp kind (h.2 kind hmeets)⟩

theorem upcoming_of_isFirm (hfirm : token.kind.isFirm = true) (h : property token.kind) :
    Upcoming property (token :: ts) :=
  ⟨looked_of_isFirm hfirm, fun kind hmeets => by rwa [hmeets.eq_of_isFirm hfirm]⟩

/-- Where a comma is to come, there is one or the bracket that closes a list. -/
theorem upcoming_comma {span : Span} (hcomma : property (.symbol .comma))
    (hparen : property (.symbol .closeParen)) (hbracket : property (.symbol .closeBracket)) :
    Upcoming property (⟨.symbol .comma, span⟩ :: ts) := by
  refine ⟨looked_cons (by simp), fun kind hmeets => ?_⟩
  rcases hmeets with rfl | ⟨-, hcloses⟩ | ⟨hline, -⟩
  · exact hcomma
  · simp only [TokenKind.closesList, decide_eq_true_eq] at hcloses
    rcases hcloses with rfl | rfl
    · exact hparen
    · exact hbracket
  · cases hline

theorem upcoming_endOfLine {span : Span} (hline : property .endOfLine)
    (hend : property .endOfFile) : Upcoming property (⟨.endOfLine, span⟩ :: ts) := by
  refine ⟨Setting.looked_endOfLine, fun kind hmeets => ?_⟩
  rcases hmeets.endOfLine with rfl | rfl
  · exact hline
  · exact hend

end Alteration

namespace Setting

open Reading Alteration Grammar TokenKind

variable {α β : Type} {S : Setting} {n : Nesting} {k : Nat} {ts rest : List Token}

/-- A reading reads all that a language allows, in front of tokens that end it. -/
def ReadsAll (S : Setting) (n : Nesting) (f : Reading α) (language : Language α)
    (ends : TokenKind → Prop) (bare : α → β) : Prop :=
  ∀ ⦃ts a rest k⦄, language ts a → Upcoming ends rest → k ≤ 1 →
    S.Reads n (ts ++ rest) k f rest 1 fun b => bare b = bare a

theorem isCommon_of_beginsItem {kind : TokenKind} (h : kind.beginsItem = true) :
    kind.isCommon = true := by
  cases kind with
  | symbol sign => cases sign <;> first | rfl | simp [beginsItem, beginsExpression, beginsPrimary] at h
  | _ => first | rfl | simp [beginsItem, beginsExpression, beginsPrimary] at h

theorem isFirm_of_beginsItem {kind : TokenKind} (h : kind.beginsItem = true) :
    kind.isFirm = true :=
  (isFirm_of_isCommon (isCommon_of_beginsItem h)).1

/-! ## Binary operators -/

section Chain

variable {operand : Reading Expression} {language : Language Expression} {e : Expression}
  {R : Expression → State → Prop}

/-- A chain ends in front of a token that does not go on with it. -/
theorem reads_chain_done {least : Nat} (hends : Upcoming (EndsChain least) rest) (hk : k ≤ 1) :
    S.Reads n rest k (iterate (chainTurn operand least) e) rest 1 (· = e) := by
  refine Brings.iterate_done ?_
  unfold chainTurn operator?
  rw [bind_assoc]
  refine brings_looking hends.1 hk fun current hmeets => ?_
  obtain ⟨-, hplus, hlow⟩ := hends.2 _ hmeets
  rw [if_neg hplus, pure_bind]
  cases hoperator : Operator.ofToken? current.kind with
  | none => exact brings_pure fun s hs => ⟨e, rfl, rfl, hs.at⟩
  | some operator =>
      simp only [if_neg (Nat.not_le.mpr (hlow operator hoperator))]
      exact brings_pure fun s hs => ⟨e, rfl, rfl, hs.at⟩

variable [Obeys order.Kept operand] [Adds operand]

/-- What can be reached from behind a part of a chain can be reached from in front of it. -/
theorem brings_chain
    (hoperand : S.ReadsAll n operand language EndsOperand (Expression.unplaced id))
    {bound least : Nat} (h : Binary language bound ts e) (hle : least ≤ bound)
    (hends : Upcoming (EndsChain (bound + 1)) rest) (hk : k ≤ 1)
    (hrest : ∀ e', e'.unplaced id = e.unplaced id →
      Brings (S.At n .code rest 1) (iterate (chainTurn operand least) e') R) :
    Brings (S.At n .code (ts ++ rest) k) (chain operand least) R := by
  induction h generalizing rest k least R with
  | operand h =>
      rw [chain_eq]
      refine (hoperand h (hends.imp fun _ h => h.1) hk).bind fun e' => ?_
      exact .of_fact (fun s hs => hs.1) fun hsame => (hrest e' hsame).from fun s hs => hs.2
  | @operation bound first second left right sign operator hbound _ _ ihleft ihright =>
      have hfirm : (TokenKind.symbol operator.symbol).isFirm = true := by cases operator <;> rfl
      have hcommon : (TokenKind.symbol operator.symbol).isCommon = true := by
        cases operator <;> rfl
      have hplus : TokenKind.symbol operator.symbol ≠ .symbol .plus := by
        cases operator <;> simp [Operator.symbol]
      have hsign : Upcoming (EndsChain (operator.precedence + 1))
          (⟨.symbol operator.symbol, sign⟩ :: (second ++ rest)) :=
        upcoming_of_isFirm hfirm ⟨endsOperand_operator operator, hplus, by
          simp [Operator.ofToken?_symbol]⟩
      rw [List.append_assoc, List.cons_append]
      refine ihleft (hle.trans hbound) hsign hk fun left' hleft => ?_
      refine Brings.iterate (fun e' s => e'.unplaced id = Expression.unplaced id
          (.binary operator left right (left.span.through right.span)) ∧ S.At n .code rest 1 s)
        (progresses_chainTurn least left') (fun s hs => hs.ordered) ?_
        fun e' => .of_fact (fun s hs => hs.1) fun hsame => (hrest e' hsame).from fun s hs => hs.2
      unfold chainTurn operator?
      rw [bind_assoc]
      refine brings_shown hfirm (Nat.le_refl 1) fun current hkind => ?_
      rw [hkind, if_neg hplus, pure_bind, Operator.ofToken?_symbol]
      simp only [if_pos (hle.trans hbound)]
      refine (brings_take hcommon).bind fun _ => ?_
      -- The right side ends where the whole chain does, since it binds more tightly.
      have hends' : Upcoming (EndsChain (operator.precedence + 1)) rest :=
        hends.imp fun kind hkind => ⟨hkind.1, hkind.2.1, fun other hother =>
          (hkind.2.2 other hother).trans_le (Nat.succ_le_succ hbound)⟩
      refine Brings.bind_pure (R := fun right' s => right'.unplaced id = right.unplaced id ∧
        S.At n .code rest 1 s) ?_ fun right' s hs => ⟨?_, hs.2⟩
      · refine (ihright (Nat.le_refl _) (hends'.imp fun kind hkind => ⟨hkind.1, hkind.2.1,
          fun other hother => (hkind.2.2 other hother).trans (Nat.lt_succ_self _)⟩)
          (Nat.zero_le 1) fun right' hright => ?_).from fun s hs => hs.2
        exact (reads_chain_done hends' (Nat.le_refl 1)).imp (fun _ h => h)
          fun _ s hs => ⟨hs.1 ▸ hright, hs.2⟩
      · simp only [Expression.unplaced, hleft, hs.1]

theorem readsAll_chain
    (hoperand : S.ReadsAll n operand language EndsOperand (Expression.unplaced id))
    (least : Nat) : S.ReadsAll n (chain operand least) (Binary language least) (EndsChain least)
      (Expression.unplaced id) := by
  intro ts e rest k h hends hk
  refine brings_chain hoperand h (Nat.le_refl least) (hends.imp fun kind hkind => ⟨hkind.1,
    hkind.2.1, fun other hother => (hkind.2.2 other hother).trans (Nat.lt_succ_self _)⟩) hk
    fun e' hsame => ?_
  exact (reads_chain_done hends (Nat.le_refl 1)).imp (fun _ h => h)
    fun _ s hs => ⟨hs.1 ▸ hsame, hs.2⟩

end Chain

/-! ## Lists -/

section Lists

variable {item : Reading α} {language : Language α} {bracket : Bracket} {bare : α → β}
  {close : Span} {as : List α}

theorem isFirm_closing (bracket : Bracket) : (symbol bracket.closing).isFirm = true := by
  cases bracket <;> rfl

/-- Behind a comma of a list no other one is to come. -/
theorem upcoming_items (bracket : Bracket) (close : Span) (rest : List Token)
    (hl : Worded beginsItem language) (h : Items language ts as) :
    Upcoming (· ≠ .symbol .comma) (ts ++ ⟨.symbol bracket.closing, close⟩ :: rest) := by
  have hitem {ts : List Token} {a : α} (h : language ts a) (rest : List Token) :
      Upcoming (· ≠ .symbol .comma) (ts ++ rest) := by
    obtain ⟨token, more, rfl, hbegins⟩ := hl.begins h
    exact upcoming_of_isFirm (isFirm_of_beginsItem hbegins) (beginsItem_ne hbegins .paren).2.2.2
  cases h with
  | nil => exact upcoming_of_isFirm (isFirm_closing bracket) (by cases bracket <;> simp [Bracket.closing])
  | last h => exact hitem h _
  | cons h _ =>
      rw [List.append_assoc]
      exact hitem h _

/-- In front of a bracket that closes a list there are no more items. -/
theorem items_eq_nil {token : Token} {more tail : List Token} (hl : Worded beginsItem language)
    (hcloses : token.kind.closesList = true) (h : Items language ts as)
    (hfirst : ts ++ tail = token :: more) : ts = [] ∧ as = [] := by
  have hbegins {ts tail : List Token} {a : α} (h : language ts a)
      (hts : ts ++ tail = token :: more) : False := by
    obtain ⟨_, _, rfl, hbegins⟩ := hl.begins h
    obtain ⟨rfl, -⟩ := List.cons.inj hts
    simp only [closesList, decide_eq_true_eq] at hcloses
    exact hcloses.elim (beginsItem_ne hbegins .paren).1 (beginsItem_ne hbegins .square).1
  cases h with
  | nil => exact ⟨rfl, rfl⟩
  | last h => exact (hbegins h hfirst).elim
  | cons h _ =>
      rw [List.append_assoc] at hfirst
      exact (hbegins h hfirst).elim

/-- In front of an element a turn reads that element. -/
theorem brings_element (hl : Worded beginsItem language)
    (hitem : S.ReadsAll n item language EndsExpression bare) {a : α} (h : language ts a)
    (hends : Upcoming EndsExpression rest) (hk : k ≤ 1) (items : Array α)
    {R : Turn (Array α) → State → Prop}
    (hrest : ∀ a', bare a' = bare a → Brings (S.At n .code rest 1) (do
      if ← accept (.symbol .comma) then
        extraCommas bracket
        return .again (items.push a')
      else return .done (items.push a')) R) :
    Brings (S.At n .code (ts ++ rest) k) (element bracket item items) R := by
  obtain ⟨token, more, rfl, hbegins⟩ := hl.begins h
  obtain ⟨hclosing, hfile, hline, -⟩ := beginsItem_ne hbegins bracket
  refine brings_shown (isFirm_of_beginsItem hbegins) hk fun current hkind => ?_
  rw [if_neg (by simp [hkind, hclosing, hfile, hline])]
  refine Brings.bind ((hitem h hends (Nat.le_refl 1)).from fun s hs => hs.at) fun a' => ?_
  exact .of_fact (fun s hs => hs.1) fun hsame => (hrest a' hsame).from fun s hs => hs.2

variable [Obeys order.Kept item] [Adds item]

/-- The elements of a list are read one after the other up to the closing bracket. -/
theorem brings_items (hl : Worded beginsItem language)
    (hitem : S.ReadsAll n item language EndsExpression bare) (h : Items language ts as)
    (items : Array α) (hk : k ≤ 1) :
    Brings (S.At n .code (ts ++ ⟨.symbol bracket.closing, close⟩ :: rest) k)
      (iterate (element bracket item) items) fun result s =>
        result.toList.map bare = items.toList.map bare ++ as.map bare ∧
          S.At n .code (⟨.symbol bracket.closing, close⟩ :: rest) 1 s := by
  have hfirm := isFirm_closing bracket
  have hclose : Upcoming EndsExpression (⟨.symbol bracket.closing, close⟩ :: rest) :=
    upcoming_of_isFirm hfirm (endsExpression_closing bracket)
  induction h generalizing k items with
  | nil =>
      refine Brings.iterate_done (brings_shown hfirm hk fun current hkind => ?_)
      rw [if_pos (.inl hkind)]
      exact brings_pure fun s hs => ⟨items, rfl, by simp, hs.at⟩
  | last h =>
      refine Brings.iterate_done (brings_element hl hitem h hclose hk items fun a' hsame => ?_)
      have hcomma : ¬ Meets (⟨.symbol bracket.closing, close⟩ :: rest) (.symbol .comma) := by
        intro hmeets
        have hkind := hmeets.eq_of_isFirm hfirm
        cases bracket <;> cases hkind
      refine (brings_not_accept hclose.1 hcomma (Nat.le_refl 1)).bind fun taken => ?_
      refine .of_fact (fun s hs => hs.1) fun htaken => ?_
      rw [if_neg (by simp [htaken])]
      exact brings_pure fun s hs => ⟨_, rfl, by simp [hsame], hs.2⟩
  | @cons first second a as comma h hitems ih =>
      rw [List.append_assoc, List.cons_append]
      have hbehind : Upcoming EndsExpression (⟨.symbol .comma, comma⟩ ::
          (second ++ ⟨.symbol bracket.closing, close⟩ :: rest)) :=
        upcoming_comma (by simp [EndsExpression, EndsChain, EndsOperand, Operator.ofToken?])
          (endsExpression_closing .paren) (endsExpression_closing .square)
      refine Brings.iterate (fun items' s =>
          items'.toList.map bare = items.toList.map bare ++ [bare a] ∧
            S.At n .code (second ++ ⟨.symbol bracket.closing, close⟩ :: rest) 1 s)
        (progresses_element items) (fun s hs => hs.ordered)
        (brings_element hl hitem h hbehind hk items fun a' hsame => ?_) fun items' => ?_
      · refine (brings_acceptComma (Nat.le_refl 1)).bind fun taken => ?_
        rintro s (⟨rfl, spans, hs⟩ | ⟨rfl, ⟨token, more, hfirst, hcloses⟩, hs⟩)
        · -- the comma is there, with any number of others behind it
          have hupcoming := upcoming_items bracket close rest hl hitems
          refine ((brings_extraCommas bracket hupcoming.1 (fun hmeets =>
            hupcoming.2 _ hmeets rfl) (Nat.zero_le 1)).bind fun _ => ?_) s hs
          exact brings_pure fun s hs => ⟨by simp [hsame], hs⟩
        · -- the comma is missing, so there is no other element
          obtain ⟨rfl, rfl⟩ := items_eq_nil hl hcloses hitems hfirst
          exact ⟨_, s, rfl, by simp [hsame], hs⟩
      · refine .of_fact (fun s hs => hs.1) fun hsame => (ih items' (Nat.le_refl 1)).imp
          (fun s hs => hs.2) fun result s hs => ⟨?_, hs.2⟩
        rw [hs.1, hsame, List.append_assoc]
        rfl

theorem reads_elements (bracket : Bracket) (hl : Worded beginsItem language)
    (hitem : S.ReadsAll n item language EndsExpression bare) (h : Items language ts as)
    (opened : Span) (hk : k ≤ 1) :
    S.Reads n (ts ++ ⟨.symbol bracket.closing, close⟩ :: rest) k (elements bracket opened item)
      rest 0 fun read => read.1.map bare = as.map bare := by
  refine (brings_items hl hitem h #[] hk).bind fun items => ?_
  refine .of_fact (fun s hs => hs.1) fun hsame => ?_
  refine ((reads_closing bracket opened (Nat.le_refl 1)).from fun s hs => hs.2).bind_pure fun _ s hs => ?_
  exact ⟨by simpa using hsame, hs.2⟩

end Lists

/-! ## Operands -/

section Operands

variable {inner : Reading Expression} {language : Language Expression} {e : Expression}

/-- A name takes one token. -/
theorem reads_name {name : Identifier} (h : Name ts name) (expectation : Expectation)
    (hk : k ≤ 1) : S.Reads n (ts ++ rest) k (identifier expectation) rest 0 fun found =>
      found.unplaced id = name.unplaced id := by
  obtain ⟨⟩ := h
  exact reads_identifier expectation hk

theorem readsAll_argument (hl : Worded beginsExpression language)
    (hinner : S.ReadsAll n inner language EndsExpression (Expression.unplaced id)) :
    S.ReadsAll n (argument inner) (LabelledArgument language) EndsExpression Argument.bare := by
  intro ts a rest k h hends hk
  cases h with
  | positional h =>
      obtain ⟨token, more, rfl, hbegins⟩ := hl.begins h
      have hfirm : token.kind.isFirm = true :=
        isFirm_of_beginsItem (by simp [beginsItem, hbegins])
      have hdot : ¬ Meets (token :: more ++ rest) (.symbol .dot) := by
        intro hmeets
        rw [← hmeets.eq_of_isFirm hfirm] at hbegins
        simp [beginsExpression, beginsPrimary] at hbegins
      refine (brings_not_accept (looked_of_isFirm hfirm) hdot hk).bind fun taken => ?_
      refine .of_fact (fun s hs => hs.1) fun htaken => ?_
      rw [if_neg (by simp [htaken])]
      exact ((hinner h hends (Nat.le_refl 1)).from fun s hs => hs.2).bind_pure
        fun value s hs => ⟨by simp only [Argument.bare, hs.1], hs.2⟩
  | @labelled label ts name e dot sign hname h =>
      rw [List.cons_append, List.cons_append, List.append_assoc, List.cons_append]
      refine (reads_accept rfl hk).bind fun taken => .of_fact (fun s hs => hs.1) fun htaken => ?_
      rw [if_pos htaken]
      refine ((reads_name hname .labelName (Nat.zero_le 1)).from fun s hs => hs.2).bind fun found =>
        .of_fact (fun s hs => hs.1) fun hfound => ?_
      refine ((reads_expect rfl _ (Nat.zero_le 1)).from fun s hs => hs.2).bind fun _ => ?_
      exact ((hinner h hends (Nat.zero_le 1)).from fun s hs => hs.2).bind_pure
        fun value s hs => ⟨by simp only [Argument.bare, Option.map_some, hfound, hs.1], hs.2⟩

/-- What may be nested is read one level deeper, and there is room for it. -/
def ReadsInside (S : Setting) (n : Nesting) (f : Reading Expression)
    (inner : Option (Language Expression)) (ends : TokenKind → Prop) : Prop :=
  ∀ language ∈ inner, n.depth < S.options.maxNestingDepth ∧
    Worded beginsExpression language ∧
      S.ReadsAll n.deeper f language ends (Expression.unplaced id)

/-- Outside of conditions, and for other names, nobody asks whether a name is defined. -/
theorem brings_notAsked {token current : Token} (text : String)
    (hcommon : token.kind.isCommon = true)
    (h : n.inCondition = true → text = "defined" → Upcoming (· ≠ .symbol .openParen) rest) :
    Brings (S.Ahead n .code (token :: rest) 0 current) (isDefinedQuestion text) fun asks s =>
      asks = false ∧ ∃ k ≤ 1, S.Ahead n .code (token :: rest) k current s := by
  obtain ⟨hfirm, hopens, -⟩ := isFirm_of_isCommon hcommon
  refine brings_get fun s hs => ?_
  have hnesting : s.nesting = n := hs.at.nesting
  rw [hnesting]
  split
  · rename_i hasks
    obtain ⟨hlooked, hparen⟩ := h hasks.1 hasks.2
    refine (brings_peekSecond hfirm (by simp [hopens]) hlooked).bind_pure fun second s hs => ?_
    exact ⟨by simpa using hparen _ hs.1, 1, Nat.le_refl 1, hs.2⟩
  · exact brings_pure fun s hs => ⟨rfl, 0, Nat.zero_le 1, hs⟩

/-- In a condition, the word for that asks whether a name is defined in front of a parenthesis. -/
theorem brings_asked {token current : Token} {opened : Span} (hin : n.inCondition = true)
    (hcommon : token.kind.isCommon = true) :
    Brings (S.Ahead n .code (token :: ⟨.symbol .openParen, opened⟩ :: rest) 0 current)
      (isDefinedQuestion "defined") fun asks s => asks = true ∧
        S.Ahead n .code (token :: ⟨.symbol .openParen, opened⟩ :: rest) 1 current s := by
  obtain ⟨hfirm, hopens, -⟩ := isFirm_of_isCommon hcommon
  refine brings_get fun s hs => ?_
  have hnesting : s.nesting = n := hs.at.nesting
  rw [hnesting, if_pos ⟨hin, rfl⟩]
  refine (brings_peekSecond hfirm (by simp [hopens]) (looked_of_isFirm rfl)).bind_pure
    fun second s hs => ⟨?_, hs.2⟩
  simpa using hs.1.eq_of_isFirm rfl

theorem reads_primary {b : Bool} {languages : Option (Language Expression)}
    [Obeys order.Kept inner] [Adds inner] (hb : n.inCondition = b)
    (hinner : S.ReadsInside n inner languages EndsExpression) (h : Primary b languages ts e)
    (hasks : asksDefined b ts → Upcoming (· ≠ .symbol .openParen) rest) (hk : k ≤ 1) :
    S.Reads n (ts ++ rest) k (primary inner) rest 1 fun found =>
      found.unplaced id = e.unplaced id := by
  subst hb
  have hloose {s : State} {ts : List Token} (hs : S.At n .code ts 0 s) : S.At n .code ts 1 s :=
    hs.weaken (Nat.zero_le 1)
  cases h with
  | integer | float | string =>
      refine brings_shown rfl hk fun current hkind => ?_
      rw [hkind]
      exact (brings_take rfl).bind_pure fun _ s hs => ⟨rfl, hloose hs.2⟩
  | name hname =>
      obtain ⟨⟩ := hname
      rename_i text quoted span
      refine brings_shown rfl hk fun current hkind => ?_
      rw [hkind]
      cases quoted with
      | true => exact (brings_take rfl).bind_pure fun _ s hs => ⟨rfl, hloose hs.2⟩
      | false =>
          refine (brings_notAsked text rfl fun hin htext =>
            hasks ⟨hin, span, by rw [htext]⟩).bind fun asks => ?_
          refine .of_fact (fun s hs => hs.1) fun hasks => ?_
          rw [if_neg (by simp [hasks])]
          -- the question may have looked at one more token
          rintro s ⟨-, count, hcount, hs⟩
          exact ((brings_take rfl).bind_pure fun _ s hs => ⟨rfl, hs.2.weaken hcount⟩) s hs
  | @defined _ name start opened close hin hname =>
      simp only [List.cons_append, List.append_assoc, List.nil_append]
      refine brings_shown rfl hk fun current hkind => ?_
      rw [hkind]
      refine (brings_asked hin rfl).bind fun asks => .of_fact (fun s hs => hs.1) fun hasks => ?_
      rw [if_pos hasks]
      refine ((brings_take rfl).from fun s hs => hs.2).bind fun _ => ?_
      refine ((reads_expect rfl _ (Nat.le_refl 1)).from fun s hs => hs.2).bind fun _ => ?_
      refine ((reads_name hname _ (Nat.zero_le 1)).from fun s hs => hs.2).bind fun found =>
        .of_fact (fun s hs => hs.1) fun hfound => ?_
      refine ((reads_closing .paren _ (Nat.zero_le 1)).from fun s hs =>
        hs.2).bind_pure fun _ s hs => ⟨?_, hloose hs.2⟩
      simp only [Expression.unplaced, hfound]
  | @group _ ts e opened close hlanguage h =>
      obtain ⟨hdepth, -, hreads⟩ := hinner _ hlanguage
      simp only [List.cons_append, List.append_assoc, List.nil_append]
      refine brings_shown rfl hk fun current hkind => ?_
      rw [hkind]
      refine (brings_take rfl).bind fun _ => ?_
      have hends : Upcoming EndsExpression (⟨.symbol .closeParen, close⟩ :: rest) :=
        upcoming_of_isFirm rfl (endsExpression_closing .paren)
      refine ((brings_nested hdepth (hreads h hends (Nat.zero_le 1))).from fun s hs =>
        hs.2).bind fun found => .of_fact (fun s hs => hs.1) fun hfound => ?_
      refine ((reads_closing .paren _ (Nat.le_refl 1)).from fun s hs =>
        hs.2).bind_pure fun _ s hs => ⟨?_, hloose hs.2⟩
      simp only [Expression.unplaced, hfound]
  | array hlanguage h =>
      obtain ⟨hdepth, hl, hreads⟩ := hinner _ hlanguage
      simp only [List.cons_append, List.append_assoc, List.nil_append]
      refine brings_shown rfl hk fun current hkind => ?_
      rw [hkind]
      refine (brings_take rfl).bind fun _ => ?_
      refine ((brings_nested hdepth (reads_elements .square hl.item hreads h _
        (Nat.zero_le 1))).from fun s hs => hs.2).bind_pure fun found s hs => ⟨?_, hloose hs.2⟩
      simp only [Expression.unplaced, Expression.unplacedList_eq_map, hs.1]

/-! ## Calls and member accesses -/

/-- An operand ends in front of a token that does not go on with it. -/
theorem reads_suffix_done (hends : Upcoming EndsOperand rest) (hk : k ≤ 1) :
    S.Reads n rest k (iterate (suffix inner) e) rest 1 (· = e) := by
  refine Brings.iterate_done (brings_looking hends.1 hk fun current hmeets => ?_)
  obtain ⟨hdot, hparen⟩ := hends.2 _ hmeets
  split
  · exact absurd ‹_› hdot
  · exact absurd ‹_› hparen
  · exact brings_pure fun s hs => ⟨e, rfl, rfl, hs.at⟩

variable [Obeys order.Kept inner] [Adds inner]

/-- What can be reached from behind a part of an operand can be reached from in front of it. -/
theorem brings_suffixed {b : Bool} {languages : Option (Language Expression)}
    (hb : n.inCondition = b) (hinner : S.ReadsInside n inner languages EndsExpression)
    (h : Suffixed b languages ts e)
    (hasks : asksDefined b ts → Upcoming (· ≠ .symbol .openParen) rest) (hk : k ≤ 1)
    {R : Expression → State → Prop}
    (hrest : ∀ e', e'.unplaced id = e.unplaced id →
      Brings (S.At n .code rest 1) (iterate (suffix inner) e') R) :
    Brings (S.At n .code (ts ++ rest) k) (suffixed inner) R := by
  -- The induction takes away the last suffix; `hrest` goes on with the turns behind it.
  induction h generalizing rest R with
  | primary h =>
      refine (reads_primary hb hinner h hasks hk).bind fun e' => ?_
      exact .of_fact (fun s hs => hs.1) fun hsame => (hrest e' hsame).from fun s hs => hs.2
  | @member first second object member dot hobject hname ih =>
      rw [List.append_assoc, List.cons_append]
      refine ih (fun _ => upcoming_of_isFirm rfl (by simp)) fun object' hobject' => ?_
      refine Brings.iterate (fun e' s => e'.unplaced id = Expression.unplaced id
          (.member object member (object.span.through member.span)) ∧ S.At n .code rest 1 s)
        (progresses_suffix object') (fun s hs => hs.ordered) ?_
        fun e' => .of_fact (fun s hs => hs.1) fun hsame => (hrest e' hsame).from fun s hs => hs.2
      refine brings_shown rfl (Nat.le_refl 1) fun current hkind => ?_
      rw [hkind]
      refine (brings_take rfl).bind fun _ => ?_
      refine ((reads_name hname _ (Nat.le_refl 1)).from fun s hs => hs.2.weaken
        (Nat.zero_le 1)).bind_pure fun found s hs => ⟨?_, hs.2.weaken (Nat.zero_le 1)⟩
      simp only [Expression.unplaced, hobject', hs.1]
  | @call language first second callee arguments opened close hlanguage hcallee hnot harguments ih =>
      obtain ⟨hdepth, hl, hreads⟩ := hinner _ hlanguage
      simp only [List.cons_append, List.append_assoc, List.nil_append]
      refine ih (fun h => absurd h hnot) fun callee' hcallee' => ?_
      refine Brings.iterate (fun e' s => e'.unplaced id = Expression.unplaced id
          (.call callee arguments (callee.span.through close)) ∧ S.At n .code rest 1 s)
        (progresses_suffix callee') (fun s hs => hs.ordered) ?_
        fun e' => .of_fact (fun s hs => hs.1) fun hsame => (hrest e' hsame).from fun s hs => hs.2
      refine brings_shown rfl (Nat.le_refl 1) fun current hkind => ?_
      rw [hkind]
      refine (brings_take rfl).bind fun _ => ?_
      refine ((brings_nested hdepth (reads_elements .paren (worded_labelledArgument hl)
        (readsAll_argument hl hreads) harguments _ (Nat.zero_le 1))).from fun s hs =>
          hs.2).bind_pure fun found s hs => ⟨?_, hs.2.weaken (Nat.zero_le 1)⟩
      simp only [Expression.unplaced, hcallee', Argument.unplacedList_eq_map, hs.1]

/-! ## All expressions -/

theorem readsAll_negated {b : Bool} {languages : Option (Language Expression)}
    {operand : Reading Expression} [Obeys order.Kept operand] [Adds operand]
    (hb : n.inCondition = b) (hoperand : S.ReadsInside n operand languages EndsOperand) :
    S.ReadsAll n (negated operand (suffixed (chain operand Operator.lowestPrecedence)))
      (Operand b languages) EndsOperand (Expression.unplaced id) := by
  intro ts e rest k h hends hk
  cases h with
  | negation hlanguage h =>
      obtain ⟨hdepth, -, hreads⟩ := hoperand _ hlanguage
      refine brings_shown rfl hk fun current hkind => ?_
      rw [if_pos hkind]
      refine (brings_take rfl).bind fun _ => ?_
      refine ((brings_nested hdepth (hreads h hends (Nat.zero_le 1))).from fun s hs =>
        hs.2).bind_pure fun found s hs => ⟨?_, hs.2⟩
      simp only [Expression.unplaced, hs.1]
  | suffixed h =>
      have hinner : S.ReadsInside n (chain operand Operator.lowestPrecedence)
          (languages.map fun operand => Binary operand Operator.lowestPrecedence)
          EndsExpression := by
        intro language hlanguage
        obtain ⟨inside, hinside, rfl⟩ := Option.map_eq_some_iff.mp hlanguage
        obtain ⟨hdepth, hl, hreads⟩ := hoperand inside hinside
        exact ⟨hdepth, worded_binary hl, readsAll_chain hreads _⟩
      have hl : Worded beginsPrimary (Suffixed b _) :=
        worded_suffixed fun language hlanguage => (hinner language hlanguage).2.1
      obtain ⟨token, more, rfl, hbegins⟩ := hl.begins h
      have hfirm : token.kind.isFirm = true :=
        isFirm_of_beginsItem (by simp [beginsItem, beginsExpression, hbegins])
      refine brings_shown hfirm hk fun current hkind => ?_
      rw [if_neg fun hbang => by simp [← hkind, hbang, beginsPrimary] at hbegins]
      refine Brings.from (brings_suffixed hb hinner h (fun _ => hends.imp fun _ h => h.2)
        (Nat.le_refl 1) fun e' hsame => ?_) fun s hs => hs.at
      exact (reads_suffix_done hends (Nat.le_refl 1)).imp (fun _ h => h)
        fun _ s hs => ⟨hs.1 ▸ hsame, hs.2⟩

/-- Operands are read with as much room for nesting as the grammar gives them. -/
theorem readsAll_operand {room : Nat} (hroom : n.depth + room = S.options.maxNestingDepth) :
    S.ReadsAll n (Reading.operand (room + 1)) (Grammar.operand n.inCondition room) EndsOperand
      (Expression.unplaced id) := by
  have hobeys (level : Nat) : Obeys order.Kept (Reading.operand level) := obeys_operand level
  have hadds (level : Nat) : Adds (Reading.operand level) := obeys_operand level
  induction room generalizing n with
  | zero => exact readsAll_negated rfl (by simp [ReadsInside])
  | succ room ih =>
      refine readsAll_negated rfl fun language hlanguage => ?_
      obtain rfl := Option.mem_some.mp hlanguage
      have hdeeper : n.deeper.depth + room = S.options.maxNestingDepth := by
        rw [← hroom, Nat.add_comm room 1, ← Nat.add_assoc]
        rfl
      exact ⟨by omega, worded_operand _ room, ih hdeeper⟩

theorem readsAll_expression {room : Nat} (hroom : n.depth + room = S.options.maxNestingDepth) :
    S.ReadsAll n (Expression.read (room + 1) Operator.lowestPrecedence)
      (Grammar.expression n.inCondition room) EndsExpression (Expression.unplaced id) := by
  have hobeys : Obeys order.Kept (Reading.operand (room + 1)) := obeys_operand _
  have hadds : Adds (Reading.operand (room + 1)) := obeys_operand _
  exact readsAll_chain (readsAll_operand hroom) _

end Operands

end Setting

end ConfLang
