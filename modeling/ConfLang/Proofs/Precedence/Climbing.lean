import ConfLang.Proofs.Precedence.Unique
import ConfLang.Proofs.Precedence.Upcoming

/-!
# Expressions are read as operators bind

Reading an expression, with a least precedence, gives a tree that is grouped as operators bind.  It
takes just the tokens of that tree, and it stops only in front of a token that cannot go on with it.
Since a list of tokens stands for no second such tree, the tree is told by the tokens that were
taken (`expression_grouped`).  This holds from every state that can be reached, whatever is reported
on the way.

## Strategy

There is one lemma for each reading that an expression is made of, and the induction over the levels
of nesting ties them together (`consumes_operand`).  A chain of operators is read by a repetition,
and each right side by the same repetition with a greater least precedence.  Its invariant is
`Climbing`: the operator that comes next does not bind more tightly than the topmost one of the tree
that was built so far.  So the tree can become the left side of that operator.
-/

namespace ConfLang

open Grammar

/-! ## Trees from their parts -/

theorem Expression.mem_outside {e : Expression} {operator : Operator} (h : operator ∈ e.operator?) :
    operator ∈ e.outside := by
  cases e with
  | binary operator' left right span =>
      obtain rfl := Option.mem_some.mp h
      exact List.mem_append_right _ List.mem_cons_self
  | _ => cases h

namespace Grammar.Proper

variable {c : Bool} {ts first rest : List Token}

theorem of_operation {operator : Operator} {sign : Span} {left right : Expression}
    (hleft : Proper c first left) (hright : Proper c rest right)
    (hle : ∀ inner ∈ left.operator?, operator.precedence ≤ inner.precedence)
    (hless : ∀ inner ∈ right.operator?, operator.precedence < inner.precedence) :
    Proper c (first ++ ⟨.symbol operator.symbol, sign⟩ :: rest)
      (.binary operator left right (left.span.through right.span)) where
  traversal := .binary hleft.traversal hright.traversal
  respects := by
    simp only [Expression.respectsPrecedence, Bool.and_eq_true, Option.all_eq_true,
      decide_eq_true_eq]
    exact ⟨⟨⟨hle, hless⟩, hleft.respects⟩, hright.respects⟩
  belongs := by
    rw [Expression.belongs, hleft.belongs, hright.belongs]
    rfl

theorem of_negation {sign : Span} {operand : Expression} (h : Proper c ts operand)
    (hnone : operand.operator? = none) :
    Proper c (⟨.symbol .bang, sign⟩ :: ts) (.negation operand (sign.through operand.span)) where
  traversal := .negation h.traversal
  respects := by
    rw [Expression.respectsPrecedence, hnone, h.respects]
    rfl
  belongs := h.belongs

theorem of_member {dot : Span} {object : Expression} {member : Identifier}
    (h : Proper c first object) (hname : Name rest member)
    (hsuffixable : object.isSuffixable = true) :
    Proper c (first ++ ⟨.symbol .dot, dot⟩ :: rest)
      (.member object member (object.span.through member.span)) where
  traversal := .member h.traversal hname
  respects := by
    rw [Expression.respectsPrecedence, hsuffixable, h.respects]
    rfl
  belongs := h.belongs

theorem of_array {opened close : Span} {elements : List Expression}
    (h : Row (Proper c) ts elements) :
    Proper c (⟨.symbol .openBracket, opened⟩ :: ts ++ [⟨.symbol .closeBracket, close⟩])
      (.array elements (opened.through close)) where
  traversal := .array (h.imp fun _ _ _ h => h.traversal)
  respects := by
    rw [Expression.respectsPrecedence, Expression.respectsPrecedenceList_iff]
    exact fun e he => (h.exists_of_mem he).elim fun _ h => h.respects
  belongs := by
    rw [Expression.belongs, Expression.belongsList_iff]
    exact fun e he => (h.exists_of_mem he).elim fun _ h => h.belongs

theorem of_call {opened close : Span} {callee : Expression} {arguments : List Argument}
    (h : Proper c first callee) (hsuffixable : callee.isSuffixable = true)
    (hword : c = true → callee.isDefinedWord = false)
    (harguments : Row (LabelledArgument (Proper c)) rest arguments) :
    Proper c (first ++ ⟨.symbol .openParen, opened⟩ :: rest ++ [⟨.symbol .closeParen, close⟩])
      (.call callee arguments (callee.span.through close)) := by
  have hvalue {argument : Argument} (hmem : argument ∈ arguments) :
      ∃ ts, Proper c ts argument.value := by
    obtain ⟨ts, h⟩ := harguments.exists_of_mem hmem
    cases h with
    | positional h => exact ⟨_, h⟩
    | labelled _ h => exact ⟨_, h⟩
  refine ⟨.call h.traversal (harguments.imp fun _ _ _ h => ?_), ?_, ?_⟩
  · cases h with
    | positional h => exact .positional h.traversal
    | labelled hname h => exact .labelled hname h.traversal
  · rw [Expression.respectsPrecedence, hsuffixable, h.respects, Bool.true_and, Bool.true_and,
      Argument.respectsPrecedenceList_iff]
    exact fun a ha => (hvalue ha).elim fun _ h => h.respects
  · have hcalled : (c && callee.isDefinedWord) = false := by
      cases c with
      | false => rfl
      | true => exact hword rfl
    rw [Expression.belongs, hcalled, h.belongs, Bool.not_false, Bool.true_and, Bool.true_and,
      Argument.belongsList_iff]
    exact fun a ha => (hvalue ha).elim fun _ h => h.belongs

end Grammar.Proper

namespace Reading

variable {α : Type} {c : Bool} {ahead rest : List Token}

/-- Some tokens were taken, and they stand for a value. -/
def Taken (language : Language α) (ahead : List Token) (a : α) (rest : List Token) : Prop :=
  ∃ ts, ahead = ts ++ rest ∧ language ts a

/-! ## Binary operators -/

section Chain

/-- What an operand is read as: no operation, in front of a token that does not go on with it. -/
def AsOperand (c : Bool) (ahead : List Token) (e : Expression) (rest : List Token) : Prop :=
  Taken (Proper c) ahead e rest ∧ e.operator? = none ∧ (nextKind rest).EndsOperand

/-- What a chain is read as: operators that bind at least as tightly as `least`, in front of a token
that does not go on with it. -/
def AsChain (c : Bool) (least : Nat) (ahead : List Token) (e : Expression) (rest : List Token) :
    Prop :=
  Taken (Proper c) ahead e rest ∧ (∀ operator ∈ e.outside, least ≤ operator.precedence) ∧
    (nextKind rest).EndsChain least

/-- The left part of a chain, which can be the left side of the operator behind it. -/
def Climbing (c : Bool) (least : Nat) (ahead : List Token) (e : Expression) (rest : List Token) :
    Prop :=
  Taken (Proper c) ahead e rest ∧ (∀ operator ∈ e.outside, least ≤ operator.precedence) ∧
    (nextKind rest).EndsOperand ∧ ∀ operator ∈ Operator.ofToken? (nextKind rest),
      ∀ top ∈ e.operator?, operator.precedence ≤ top.precedence

theorem AsOperand.climbing {e : Expression} {least : Nat} (h : AsOperand c ahead e rest) :
    Climbing c least ahead e rest := by
  obtain ⟨⟨ts, hahead, hproper⟩, hnone, hends⟩ := h
  refine ⟨⟨ts, hahead, hproper⟩, fun operator hmem => ?_, hends, fun _ _ top htop => ?_⟩
  · obtain ⟨top, htop, -⟩ := Expression.exists_operator hproper.respects hmem
    simp [hnone] at htop
  · simp [hnone] at htop

/-- The next operator takes the tree that was built so far as its left side. -/
theorem Climbing.operation {operator : Operator} {sign : Span} {left right : Expression}
    {behind : List Token} {least : Nat}
    (hleft : Climbing c least ahead left (⟨.symbol operator.symbol, sign⟩ :: rest))
    (hleast : least ≤ operator.precedence)
    (hright : AsChain c (operator.precedence + 1) rest right behind) :
    Climbing c least ahead (.binary operator left right (left.span.through right.span)) behind := by
  obtain ⟨⟨first, rfl, hfirst⟩, hleast', -, htop⟩ := hleft
  obtain ⟨⟨ts, rfl, hts⟩, hless, hends, -, hnext⟩ := hright
  refine ⟨⟨first ++ ⟨.symbol operator.symbol, sign⟩ :: ts, ?_, hfirst.of_operation hts ?_ ?_⟩,
    fun other hmem => ?_, hends, ?_⟩
  · rw [List.append_assoc, List.cons_append]
  · exact htop operator (Operator.ofToken?_symbol operator)
  · exact fun inner hinner => hless inner (Expression.mem_outside hinner)
  · rcases List.mem_append.mp hmem with hmem | hmem
    · exact hleast' other hmem
    rcases List.mem_cons.mp hmem with rfl | hmem
    · exact hleast
    · exact hleast.trans (Nat.le_of_succ_le (hless other hmem))
  · rintro next hnext' _ ⟨⟩
    exact Nat.le_of_lt_succ (hnext next hnext')

variable {operand : Reading Expression} [Obeys order.Kept operand] [Adds operand]

theorem consumes_chain (hoperand : ∀ ahead, Consumes c ahead operand (AsOperand c ahead))
    (least : Nat) (ahead : List Token) :
    Consumes c ahead (chain operand least) (AsChain c least ahead) := by
  -- the right side of an operator is a chain of operators that bind more tightly, of which there
  -- are finitely many levels
  induction hmeasure : 5 - least using Nat.strongRecOn generalizing least ahead with
  | ind measure ih =>
      subst hmeasure
      rw [chain_eq]
      refine (hoperand ahead).bind fun first middle hfirst => ?_
      refine Consumes.iterate (Climbing c least ahead) (progresses_chainTurn least) ?_
        hfirst.climbing
      intro left middle hleft
      obtain ⟨htaken, hleast, hends, htop⟩ := id hleft
      unfold chainTurn
      refine consumes_operator? fun hplus => ?_
      cases hoperator : Operator.ofToken? (nextKind middle) with
      | none => exact consumes_pure ⟨htaken, hleast, hends, hplus, by simp [hoperator]⟩
      | some operator =>
          have hkind := Operator.eq_symbol_of_ofToken? hoperator
          simp only
          split
          · rename_i hle
            -- what comes next is an operator, so it is not the end of the tokens
            obtain ⟨⟨kind, sign⟩, rest, rfl⟩ : ∃ token rest, middle = token :: rest := by
              cases middle with
              | nil => cases hkind
              | cons token rest => exact ⟨token, rest, rfl⟩
            obtain rfl : kind = .symbol operator.symbol := hkind
            refine consumes_advance ?_
            have hless : 5 - (operator.precedence + 1) < 5 - least := by
              have := operator.precedence_le
              omega
            refine (ih _ hless _ rest rfl).bind fun right behind hright => ?_
            exact consumes_pure (hleft.operation hle hright)
          · rename_i hnot
            refine consumes_pure ⟨htaken, hleast, hends, hplus, fun other hother => ?_⟩
            rw [hoperator] at hother
            obtain rfl := Option.mem_some.mp hother
            exact Nat.lt_of_not_le hnot

end Chain

/-! ## Lists -/

section Lists

variable {item : Reading α} {language : Language α} {bracket : Bracket}

/-- The elements of a list that were read with the commas behind them. -/
def Gathered (language : Language α) (ahead : List Token) (items : Array α) (rest : List Token) :
    Prop :=
  ∃ ts, ahead = ts ++ rest ∧
    ∀ more as, Row language more as → Row language (ts ++ more) (items.toList ++ as)

theorem consumes_extraCommas (bracket : Bracket) (ahead : List Token) :
    Consumes c ahead (extraCommas bracket) fun _ rest =>
      ∃ commas, ahead = commas ++ rest ∧ ∀ token ∈ commas, token.kind = .symbol .comma := by
  rw [extraCommas_eq]
  refine Consumes.iterate (fun _ rest => ∃ commas, ahead = commas ++ rest ∧
    ∀ token ∈ commas, token.kind = .symbol .comma) (fun _ => progresses_commaTurn bracket) ?_
    ⟨[], rfl, nofun⟩
  rintro - middle ⟨commas, rfl, hcommas⟩
  refine consumes_peek fun token hfirst => ?_
  split
  · rename_i hkind
    obtain ⟨rest, rfl⟩ := hfirst.exists_rest (by simp [hkind])
    refine consumes_advance (consumes_report rfl (consumes_pure ⟨commas ++ [token], by simp, ?_⟩))
    rw [List.forall_mem_append]
    exact ⟨hcommas, by simpa using hkind⟩
  · exact consumes_pure ⟨commas, rfl, hcommas⟩

theorem consumes_element (hitem : ∀ ahead, Consumes c ahead item (Taken language ahead))
    {items : Array α} (h : Gathered language ahead items rest) :
    Consumes c rest (element bracket item items) (turnedTo (Gathered language ahead)
      fun items => Taken (Row language) ahead items.toList) := by
  obtain ⟨ts, rfl, hitems⟩ := h
  refine consumes_peek fun token _ => ?_
  simp only
  split
  · refine consumes_pure ⟨ts, rfl, ?_⟩
    simpa using hitems [] [] .nil
  refine (hitem rest).bind fun a middle ha => ?_
  obtain ⟨first, rfl, ha⟩ := ha
  refine (consumes_accept (by simp)).bind ?_
  rintro _ behind (⟨rfl, span, rfl⟩ | ⟨rfl, -, rfl⟩)
  · refine (consumes_extraCommas bracket behind).bind ?_
    rintro - behind ⟨commas, rfl, hcommas⟩
    refine consumes_pure ⟨ts ++ (first ++ ⟨.symbol .comma, span⟩ :: commas), by simp, ?_⟩
    intro more as hmore
    have hrow : Row language (first ++ (⟨.symbol .comma, span⟩ :: commas) ++ more) (a :: as) := by
      refine .cons ha ?_ (by simp) hmore
      rw [List.forall_mem_cons]
      exact ⟨rfl, hcommas⟩
    simpa using hitems _ _ hrow
  · refine consumes_pure ⟨ts ++ first, (List.append_assoc _ _ _).symm, ?_⟩
    have hrow : Row language (first ++ [] ++ []) [a] := .cons ha nofun (fun _ => rfl) .nil
    simpa using hitems _ _ hrow

theorem consumes_elements [Obeys order.Kept item] [Adds item] {opened : Span}
    (hitem : ∀ ahead, Consumes c ahead item (Taken language ahead)) (ahead : List Token) :
    Consumes c ahead (elements bracket opened item) fun result rest =>
      ∃ ts, ahead = ts ++ ⟨.symbol bracket.closing, result.2⟩ :: rest ∧
        Row language ts result.1 := by
  have hnone : Gathered language ahead #[] ahead := ⟨[], rfl, fun more as h => by simpa using h⟩
  refine (Consumes.iterate _ progresses_element
    (fun items rest h => consumes_element hitem h) hnone).bind ?_
  rintro items middle ⟨ts, rfl, hrow⟩
  refine consumes_closing.bind ?_
  rintro close rest rfl
  exact consumes_pure ⟨ts, rfl, hrow⟩

end Lists

/-! ## Operands -/

section Operands

variable {inner : Reading Expression} {language : Language Expression}

theorem consumes_tooDeep {Q : α → List Token → Prop} :
    Consumes c ahead (tooDeep : Reading α) Q := by
  intro s hs a s' hrun
  have hrun' := run_of_ok hrun
  rw [tooDeep_run] at hrun'
  cases hrun'

theorem consumes_argument (hinner : ∀ ahead, Consumes c ahead inner (Taken language ahead))
    (ahead : List Token) :
    Consumes c ahead (argument inner) (Taken (LabelledArgument language) ahead) := by
  unfold argument
  refine (consumes_accept (by simp)).bind ?_
  rintro _ middle (⟨rfl, dot, rfl⟩ | ⟨rfl, -, rfl⟩)
  · refine consumes_identifier.bind ?_
    rintro label middle ⟨ts, rfl, hname⟩
    refine consumes_expect.bind ?_
    rintro sign middle rfl
    refine (hinner middle).bind ?_
    rintro value rest ⟨ts', rfl, hvalue⟩
    exact consumes_pure ⟨⟨.symbol .dot, dot⟩ :: ts ++ ⟨.symbol .assign, sign⟩ :: ts', by simp,
      .labelled hname hvalue⟩
  · refine (hinner middle).bind ?_
    rintro value rest ⟨ts, rfl, hvalue⟩
    exact consumes_pure ⟨ts, rfl, .positional hvalue⟩

/-- What can be called, or what a member can be accessed of, and whether that is meant if a
parenthesis comes next. -/
def Suffixing (c : Bool) (ahead : List Token) (e : Expression) (rest : List Token) : Prop :=
  Taken (Proper c) ahead e rest ∧ e.isSuffixable = true ∧
    (nextKind rest = .symbol .openParen → c = true → e.isDefinedWord = false)

/-- Literals and quoted names are no questions. -/
theorem consumes_leaf {token : Token} {e : Expression} (htraversal : Traversal [token] e)
    (hrespects : e.respectsPrecedence = true) (hbelongs : e.belongs c = true)
    (hsuffixable : e.isSuffixable = true) (hword : e.isDefinedWord = false) :
    Consumes c (token :: rest) (advance >>= fun _ => pure e) (Suffixing c (token :: rest)) :=
  consumes_advance (consumes_pure
    ⟨⟨[token], rfl, htraversal, hrespects, hbelongs⟩, hsuffixable, fun _ _ => hword⟩)

theorem consumes_definedQuestion {start : Span} (hasks : c = true) :
    Consumes c (⟨.name "defined" false, start⟩ :: rest) definedQuestion
      (Suffixing c (⟨.name "defined" false, start⟩ :: rest)) := by
  unfold definedQuestion
  refine consumes_advance ?_
  refine consumes_expect.bind ?_
  rintro opened middle rfl
  refine consumes_identifier.bind ?_
  rintro name middle ⟨ts, rfl, hname⟩
  refine consumes_closing.bind ?_
  rintro close behind rfl
  refine consumes_pure ⟨⟨⟨.name "defined" false, start⟩ :: ⟨.symbol .openParen, opened⟩ ::
    ts ++ [⟨.symbol .closeParen, close⟩], ?_, .defined hname, rfl, hasks⟩, rfl, fun _ _ => rfl⟩
  simp [Bracket.closing]

theorem consumes_primary [Obeys order.Kept inner] [Adds inner]
    (hinner : ∀ ahead, Consumes c ahead inner (Taken (Proper c) ahead)) (ahead : List Token) :
    Consumes c ahead (primary inner) (Suffixing c ahead) := by
  rw [primary_eq]
  refine consumes_peek fun token hfirst => ?_
  obtain ⟨kind, span⟩ := token
  refine primaryAt_cases (motive := fun f => Consumes c ahead f (Suffixing c ahead)) ?integer ?float
    ?string ?quoted ?bare ?group ?array ?other
  case integer =>
    rintro value rfl
    obtain ⟨rest, rfl⟩ := hfirst.exists_rest (by simp)
    exact consumes_leaf .integer rfl rfl rfl rfl
  case float =>
    rintro value rfl
    obtain ⟨rest, rfl⟩ := hfirst.exists_rest (by simp)
    exact consumes_leaf .float rfl rfl rfl rfl
  case string =>
    rintro text rfl
    obtain ⟨rest, rfl⟩ := hfirst.exists_rest (by simp)
    exact consumes_leaf .string rfl rfl rfl rfl
  case quoted =>
    rintro text rfl
    obtain ⟨rest, rfl⟩ := hfirst.exists_rest (by simp)
    exact consumes_leaf (.name .name) rfl rfl rfl (by simp [Expression.isDefinedWord])
  case bare =>
    rintro text rfl
    obtain ⟨rest, rfl⟩ := hfirst.exists_rest (by simp)
    refine consumes_isDefinedQuestion ?_
    split
    · rename_i hasks
      simp only [decide_eq_true_eq] at hasks
      obtain ⟨hcondition, rfl, -⟩ := hasks
      exact consumes_definedQuestion hcondition
    · rename_i hasks
      refine consumes_advance (consumes_pure ⟨⟨[_], rfl, .name .name, rfl, rfl⟩, rfl, ?_⟩)
      -- a bare word in front of a parenthesis is called here, so it is not the one that asks
      intro hparen hcondition
      simp only [decide_eq_true_eq, hparen, hcondition, true_and, and_true] at hasks
      simp [Expression.isDefinedWord, hasks]
  case group =>
    rintro rfl
    obtain ⟨rest, rfl⟩ := hfirst.exists_rest (by simp)
    refine consumes_advance ((hinner rest).nested.bind ?_)
    rintro e middle ⟨ts, rfl, h⟩
    refine consumes_closing.bind ?_
    rintro close behind rfl
    refine consumes_pure ⟨⟨⟨.symbol .openParen, span⟩ :: ts ++ [⟨.symbol .closeParen, close⟩], ?_,
      .group h.traversal, h.respects, h.belongs⟩, rfl, fun _ _ => rfl⟩
    simp [Bracket.closing]
  case array =>
    rintro rfl
    obtain ⟨rest, rfl⟩ := hfirst.exists_rest (by simp)
    refine consumes_advance ((consumes_elements hinner rest).nested.bind ?_)
    rintro ⟨elements, close⟩ behind ⟨ts, rfl, h⟩
    refine consumes_pure ⟨⟨⟨.symbol .openBracket, span⟩ :: ts ++
      [⟨.symbol .closeBracket, close⟩], ?_, .of_array h⟩, rfl, fun _ _ => rfl⟩
    simp [Bracket.closing]
  case other => exact consumes_unexpected

theorem consumes_suffix [Obeys order.Kept inner] [Adds inner]
    (hinner : ∀ ahead, Consumes c ahead inner (Taken (Proper c) ahead)) {operand : Expression}
    (h : Suffixing c ahead operand rest) :
    Consumes c rest (suffix inner operand) (turnedTo (Suffixing c ahead) (AsOperand c ahead)) := by
  obtain ⟨⟨first, rfl, hfirst⟩, hsuffixable, hword⟩ := h
  refine consumes_peek fun token hnext => ?_
  obtain ⟨kind, span⟩ := token
  simp only
  split
  · obtain ⟨rest, rfl⟩ := hnext.exists_rest (by simp)
    refine consumes_advance (consumes_identifier.bind ?_)
    rintro member behind ⟨ts, rfl, hname⟩
    exact consumes_pure ⟨⟨first ++ ⟨.symbol .dot, span⟩ :: ts, by simp,
      hfirst.of_member hname hsuffixable⟩, rfl, fun _ _ => rfl⟩
  · obtain ⟨rest, rfl⟩ := hnext.exists_rest (by simp)
    refine consumes_advance ((consumes_elements (consumes_argument hinner) rest).nested.bind ?_)
    rintro ⟨arguments, close⟩ behind ⟨ts, rfl, harguments⟩
    refine consumes_pure ⟨⟨first ++ ⟨.symbol .openParen, span⟩ :: ts ++
      [⟨.symbol .closeParen, close⟩], ?_, hfirst.of_call hsuffixable (hword rfl) harguments⟩, rfl,
      fun _ _ => rfl⟩
    simp [Bracket.closing]
  · rename_i hdot hparen
    have hnone := Expression.operator?_of_isSuffixable hsuffixable
    refine consumes_pure ⟨⟨first, rfl, hfirst⟩, hnone, ?_⟩
    rw [← hnext.kind]
    exact ⟨hdot, hparen⟩

theorem consumes_suffixed [Obeys order.Kept inner] [Adds inner]
    (hinner : ∀ ahead, Consumes c ahead inner (Taken (Proper c) ahead)) (ahead : List Token) :
    Consumes c ahead (suffixed inner) (AsOperand c ahead) :=
  (consumes_primary hinner ahead).bind fun _ _ hfirst =>
    Consumes.iterate _ progresses_suffix (fun _ _ h => consumes_suffix hinner h) hfirst

theorem consumes_negated {operand plain : Reading Expression}
    (hoperand : ∀ ahead, Consumes c ahead operand (AsOperand c ahead))
    (hplain : ∀ ahead, Consumes c ahead plain (AsOperand c ahead)) (ahead : List Token) :
    Consumes c ahead (negated operand plain) (AsOperand c ahead) := by
  refine consumes_peek fun token hfirst => ?_
  obtain ⟨kind, span⟩ := token
  simp only
  split
  · rename_i hbang
    subst hbang
    obtain ⟨rest, rfl⟩ := hfirst.exists_rest (by simp)
    refine consumes_advance ((hoperand rest).nested.bind ?_)
    rintro e behind ⟨⟨ts, rfl, h⟩, hnone, hends⟩
    exact consumes_pure ⟨⟨⟨.symbol .bang, span⟩ :: ts, rfl, h.of_negation hnone⟩, rfl, hends⟩
  · exact hplain ahead

/-- Operands are read as operands, however many levels of nesting are left. -/
theorem consumes_operand (c : Bool) (level : Nat) (ahead : List Token) :
    Consumes c ahead (operand level) (AsOperand c ahead) := by
  induction level generalizing ahead with
  | zero => exact consumes_tooDeep
  | succ level ih =>
      have := obeys_operand (P := order.Kept) level
      have := obeys_operand (P := growth.Kept) level
      refine consumes_negated ih (fun ahead => consumes_suffixed (fun ahead => ?_) ahead) ahead
      exact (consumes_chain ih Operator.lowestPrecedence ahead).imp fun _ _ h => h.1

theorem consumes_expression (c : Bool) (level least : Nat) (ahead : List Token) :
    Consumes c ahead (Expression.read level least) (AsChain c least ahead) := by
  have := obeys_operand (P := order.Kept) level
  have := obeys_operand (P := growth.Kept) level
  exact consumes_chain (consumes_operand c level) least ahead

end Operands

end Reading

/-! ## Main result -/

variable {options : Options} {source : String} {s s' : State} {least : Nat} {e : Expression}

/-- **Reading an expression gives the tree that is grouped as operators bind.**  From every state
that can be reached, if an expression is read whose operators bind at least as tightly as `least`,
then

* the tokens that were taken are those of the tree from left to right, but for commas that a list
  does not need;
* the tree is grouped as the precedences of its operators tell, and all that are outside of brackets
  bind at least as tightly as `least`;
* the next token is no dot, no opening parenthesis, no plus sign, and no operator that binds at
  least as tightly as `least`;
* the tree belongs into the condition of a directive or elsewhere, as the state does, and no other
  tree over these tokens does and is grouped so. -/
theorem expression_grouped (h : s.Reachable options source)
    (hrun : (Reading.nextExpression least).run s = (.ok e, s')) :
    ∃ ts, s.upcoming = ts ++ s'.upcoming ∧ s'.consumed = s.consumed + ts.length ∧
      Grammar.Traversal ts e ∧ e.respectsPrecedence = true ∧
      (∀ operator ∈ e.outside, least ≤ operator.precedence) ∧
      s'.peeked.1.kind.EndsChain least ∧ e.belongs s.nesting.inCondition = true ∧
      ∀ e', Grammar.Traversal ts e' → e'.respectsPrecedence = true →
        e'.belongs s.nesting.inCondition = true → e' = e := by
  have hstart : s.Awaits s.nesting.inCondition s.upcoming := ⟨h.ordered, rfl, rfl⟩
  obtain ⟨rest, ⟨hs', hcount, -⟩, ⟨ts, hahead, hproper⟩, hleast, hends⟩ :=
    Reading.consumes_expression _ s.levels least _ s hstart e s' (Reading.ok_of_run hrun)
  refine ⟨ts, by rw [hs'.upcoming, hahead], ?_, hproper.traversal, hproper.respects, hleast, ?_,
    hproper.belongs, fun e' htraversal hrespects hbelongs => ?_⟩
  · rw [hahead, List.length_append] at hcount
    omega
  · rw [hs'.isFirst.kind]
    exact hends
  · exact isUnique _ _ ⟨htraversal, hrespects, hbelongs⟩ hproper

/-- Operators of three kinds, a negation, a member and a comma too many.  The equals sign binds too
loosely to be read. -/
theorem exists_grouped : ∃ e s',
    (Reading.nextExpression 3).run (.ofSource "a || !b.c && [x,,y] || d == e" {}) = (.ok e, s') ∧
      e.source = "((a || (!b.c && [x, y])) || d)" ∧ s'.peeked.1.kind = .symbol .equals ∧
      ∃ ts, ts.length = 15 ∧ Grammar.Traversal ts e ∧ ∀ e', Grammar.Traversal ts e' →
        e'.respectsPrecedence = true → e'.belongs false = true → e' = e := by
  let run := (Reading.nextExpression 3).run (.ofSource "a || !b.c && [x,,y] || d == e" {})
  have hsource : run.1.toOption.map Expression.source = some "((a || (!b.c && [x, y])) || d)" := by
    decide +kernel
  have hkind : run.2.peeked.1.kind = .symbol .equals := by decide +kernel
  have hconsumed : run.2.consumed = 15 := by decide +kernel
  cases hvalue : run.1 with
  | error problem => simp [hvalue, Except.toOption] at hsource
  | ok e =>
      have hrun : run = (.ok e, run.2) := Prod.ext hvalue rfl
      obtain ⟨ts, -, hcount, htraversal, -, -, -, -, hunique⟩ := expression_grouped .start hrun
      refine ⟨e, run.2, hrun, by simpa [hvalue, Except.toOption] using hsource, hkind, ts, ?_,
        htraversal, hunique⟩
      rw [hconsumed] at hcount
      exact (hcount.trans (Nat.zero_add _)).symm

end ConfLang
