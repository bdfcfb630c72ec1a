import ConfLang.Proofs.Likeness.Tree

/-!
# Reading expressions alike

Every reading of an expression does the same in alike states, given that the readings of
what is nested in it do.  The induction follows the definitions: over the precedence for
chains of operators, and over the levels of nesting for operands.
-/

namespace ConfLang.Likeness

open Reading StateLikeness

variable {L : Likeness} {n : Nesting} {K : Lasting} {α : Type}

theorem alike_identifier (expectation : Expectation) :
    L.Alike n K (Reading.identifier expectation) (Reading.identifier expectation) L.identifier := by
  unfold Reading.identifier
  refine alike_peek.bind fun token₁ token₂ => .of_kind (fun s hs => hs.2) (fun hkind => ?_)
    (fun text text' hkind hkind' => ?_) fun text text' hkind hkind' => ?_
  · rw [hkind]
    split
    · rename_i text quoted hname
      refine alike_advance.bind fun _ _ => alike_pure fun s hs => ?_
      exact L.identifier_of_token hs.1.2 hname (hkind.trans hname)
    · exact alike_unexpected expectation
  · rw [hkind, hkind']
    exact alike_advance.bind fun _ _ => alike_pure fun s hs =>
      L.identifier_of_token hs.1.2 hkind hkind'
  · rw [hkind, hkind']
    exact alike_unexpected expectation

/-! ## Binary operators -/

theorem alike_operator? : L.Alike n K operator? operator? same := by
  unfold operator?
  refine alike_peek.bind fun token₁ token₂ => .of_kind (fun s hs => hs.2) (fun hkind => ?_)
    (fun _ _ hkind hkind' => ?_) fun _ _ hkind hkind' => ?_
  · rw [hkind]
    split
    · exact alike_fail (fun s hs => L.token_span hs.2) fun _ _ => .inl rfl
    · exact alike_pure fun _ _ => rfl
  all_goals
    rw [hkind, hkind', if_neg nofun, if_neg nofun]
    exact alike_pure fun _ _ => rfl

theorem watches_chainTurn {operand : Reading Expression} {least : Nat} :
    Watches (chainTurn operand least) (chainTurn operand least) := by
  refine watches_of_peek (fun left => bind_assoc peek _ _) fun {left token s left' s'} hkind => ?_
  simp only [hkind, reduceCtorEq, if_false, Operator.ofToken?, pure_bind]
  intro hdone
  cases hdone

theorem alike_chain {c : Bool} {operand operand' : Reading Expression}
    (h : ∀ K, L.Alike n K operand operand' (L.expression c)) (least : Nat) :
    L.Alike n K (chain operand least) (chain operand' least) (L.expression c) := by
  induction hmeasure : 5 - least using Nat.strongRecOn generalizing least K with
  | ind measure ih =>
      subst hmeasure
      rw [chain_eq, chain_eq]
      refine (h K).bind fun first first' => Alike.iterate (fun left left' => ?_) watches_chainTurn
        watches_chainTurn _ _
      refine alike_operator?.bind_same fun operator => ?_
      cases operator with
      | none => exact alike_pure fun s hs => hs.2
      | some operator =>
          simp only
          split
          · rename_i hleast
            have hless : 5 - (operator.precedence + 1) < 5 - least := by
              have := operator.precedence_le
              omega
            refine alike_advance.bind fun _ _ => (ih _ hless _ rfl).bind fun right right' => ?_
            refine alike_pure fun s hs => ?_
            obtain ⟨⟨⟨-, hleft⟩, -⟩, hright⟩ := hs
            exact L.binary hleft hright
              (L.span_through (L.expression_span hleft) (L.expression_span hright))
          · exact alike_pure fun s hs => hs.2

/-! ## Lists -/

theorem alike_extraCommas (bracket : Bracket) :
    L.Alike n K (extraCommas bracket) (extraCommas bracket) same := by
  unfold extraCommas
  refine (Alike.iterate (K := K) (V := same) (fun a b => ?_) ?_ ?_ () ()).weaken
    (fun s hs => ⟨hs, rfl⟩) fun _ _ _ _ hv => hv
  · refine alike_peek.bind fun token₁ token₂ => .of_kind_iff (.symbol .comma) rfl
      (fun s hs => hs.2) fun hkind => ?_
    simp only [hkind]
    split
    · refine alike_advance.bind fun _ _ => (alike_report ?_ (by rfl)).bind fun _ _ => ?_
      · exact fun s hs => ⟨L.token_span hs.1.2, .inl rfl⟩
      · exact alike_pure fun _ _ => rfl
    · exact alike_pure fun _ _ => rfl
  all_goals
    refine watches_of_peek (fun _ => rfl) fun {_ token _ _ _} hkind => ?_
    simp only [hkind, reduceCtorEq, if_false]
    exact nofun

variable {item item' : Reading α} {value : α → α → Lasting}

/-- Arrays of the same length with alike elements. -/
def collected (value : α → α → Lasting) (first second : Array α) : Lasting :=
  .all value first.toList second.toList

theorem collected_push {first second : Array α} {a b : α} {s : State}
    (h : collected value first second s) (hvalue : value a b s) :
    collected value (first.push a) (second.push b) s := by
  simp only [collected, Lasting.all_holds, Array.toList_push] at h ⊢
  exact List.rel_append h (.cons hvalue .nil)

theorem watches_element {bracket : Bracket} :
    Watches (element bracket item) (element bracket item) := by
  refine watches_of_peek (fun _ => rfl) fun {_ token _ _ _} hkind => ?_
  simp only [hkind, true_or, or_true, if_true]
  exact nofun

theorem alike_element (h : ∀ K, L.Alike n K item item' value) (bracket : Bracket)
    (items items' : Array α) :
    L.Alike n (K.and (collected value items items')) (element bracket item items)
      (element bracket item' items') (turned (collected value)) := by
  unfold element
  refine alike_peek.bind fun token₁ token₂ => ?_
  have htoken (s : State) (hs : (K.and (collected value items items')).and (L.token token₁ token₂) s) :=
    hs.2
  refine .of_kind_iff (.symbol bracket.closing) rfl htoken fun hclosing => ?_
  refine .of_kind_iff .endOfFile rfl htoken fun hend => ?_
  refine .of_kind_iff .endOfLine rfl htoken fun hline => ?_
  simp only [hclosing, hend, hline]
  split
  · exact alike_pure fun s hs => hs.1.2
  · refine (h _).bind fun a b => (alike_accept rfl).bind_same fun isThere => ?_
    split
    · refine (alike_extraCommas bracket).bind fun _ _ => alike_pure fun s hs => ?_
      exact collected_push hs.1.1.1.2 hs.1.2
    · exact alike_pure fun s hs => collected_push hs.1.1.2 hs.2

theorem alike_elements (h : ∀ K, L.Alike n K item item' value) (bracket : Bracket)
    {opened₁ opened₂ : Span} (hopened : ∀ s, K s → L.place opened₁ opened₂ s) :
    L.Alike n K (elements bracket opened₁ item) (elements bracket opened₂ item')
      fun first second => (Lasting.all value first.1 second.1).and (L.span first.2 second.2) := by
  unfold elements
  refine Alike.bind (V := collected value) ?_ fun items items' => ?_
  · refine (Alike.iterate (K := K) (alike_element h bracket) watches_element watches_element
      #[] #[]).weaken ?_ ?_
    · exact fun s hs => ⟨hs, .nil⟩
    · exact fun _ _ _ _ hv => hv
  · refine Alike.bind (alike_closing bracket fun s hs => hopened s hs.1) fun close close' => ?_
    exact alike_pure fun s hs => ⟨hs.1.2, hs.2⟩

theorem alike_argument {c : Bool} {expression expression' : Reading Expression}
    (h : ∀ K, L.Alike n K expression expression' (L.expression c)) :
    L.Alike n K (Reading.argument expression) (Reading.argument expression') (L.argument c) := by
  unfold Reading.argument
  refine (alike_accept rfl).bind_same fun isThere => ?_
  split
  · refine (alike_identifier _).bind fun label label' => ?_
    refine Alike.bind (alike_expectAs _ fun s hs => ?_) fun _ _ => (h _).bind fun e e' => ?_
    · exact (L.identifier_name hs.2).imp_left (congrArg Expectation.labelSign)
    · exact alike_pure fun s hs => ⟨hs.1.1.2, hs.2⟩
  · exact (h _).bind fun e e' => alike_pure fun s hs => ⟨trivial, hs.2⟩

/-! ## Operands -/

theorem alike_definedQuestion (hn : n.inCondition = true) :
    L.Alike n K definedQuestion definedQuestion (L.expression n.inCondition) := by
  unfold definedQuestion
  refine alike_advance.bind fun start start' => (alike_expect _ _).bind fun opened opened' => ?_
  refine (alike_identifier _).bind fun name name' => ?_
  refine Alike.bind (alike_closing .paren fun s hs => hs.1.2) fun close close' => ?_
  refine alike_pure fun s hs => ?_
  obtain ⟨⟨⟨⟨-, hstart⟩, -⟩, hname⟩, hclose⟩ := hs
  rw [hn]
  exact L.defined hname (L.span_through (L.token_span hstart) hclose)

theorem alike_isDefinedQuestion (name : String) :
    L.Alike n K (isDefinedQuestion name) (isDefinedQuestion name) fun first second =>
      .sure (second = first ∧ (first = true → n.inCondition = true)) := by
  unfold isDefinedQuestion
  refine alike_get fun s t hst _ => ?_
  rw [(L.nesting hst).1, (L.nesting hst).2]
  split
  · rename_i hcondition
    refine alike_peekSecond.bind fun token₁ token₂ => alike_pure fun s' hs' => ?_
    refine ⟨?_, fun _ => hcondition.1⟩
    simp only [(L.token_kind hs'.2).eq_iff (.symbol .openParen) rfl]
  · exact alike_pure fun _ _ => ⟨rfl, by simp⟩

theorem alike_primary {inner inner' : Reading Expression}
    (h : ∀ K, L.Alike n.deeper K inner inner' (L.expression n.inCondition)) :
    L.Alike n K (primary inner) (primary inner') (L.expression n.inCondition) := by
  rw [primary_eq, primary_eq]
  refine alike_peek.bind fun token₁ token₂ => .of_kind (fun s hs => hs.2) ?_
    (fun text text' hkind hkind' => ?_) fun text text' hkind hkind' => ?_
  · obtain ⟨kind, span₁⟩ := token₁
    obtain ⟨kind', span₂⟩ := token₂
    rintro rfl
    cases kind' with
    | integer value =>
        exact alike_advance.bind fun _ _ => alike_pure fun s hs => L.integer hs.1.2 rfl
    | float value =>
        exact alike_advance.bind fun _ _ => alike_pure fun s hs => L.float hs.1.2 rfl
    | string text =>
        exact alike_advance.bind fun _ _ => alike_pure fun s hs => L.string hs.1.2 rfl rfl
    | name text quoted =>
        cases quoted with
        | true =>
            refine alike_advance.bind fun _ _ => alike_pure fun s hs => ?_
            exact L.name (L.identifier_of_token hs.1.2 rfl rfl)
        | false =>
            refine (alike_isDefinedQuestion text).bind fun first second => ?_
            refine .of_known (fun s hs => hs.2) fun ⟨hsame, hcondition⟩ => ?_
            subst hsame
            split
            · rename_i hquestion
              exact alike_definedQuestion (hcondition hquestion)
            · refine alike_advance.bind fun _ _ => alike_pure fun s hs => ?_
              exact L.name (L.identifier_of_token hs.1.1.2 rfl rfl)
    | symbol sign =>
        cases sign with
        | openParen =>
            refine alike_advance.bind fun _ _ => (Alike.nested (h _)).bind fun e e' => ?_
            refine Alike.bind (alike_closing .paren fun s hs => L.token_place hs.1.1.2 nofun)
              fun close close' => alike_pure fun s hs => ?_
            obtain ⟨⟨⟨⟨-, htoken⟩, -⟩, he⟩, hclose⟩ := hs
            exact L.grouped he (L.span_through (L.token_span htoken) hclose)
        | openBracket =>
            refine alike_advance.bind fun _ _ => ?_
            refine (Alike.nested (alike_elements h .square fun s hs => ?_)).bind
              fun first second => alike_pure fun s hs => ?_
            · exact L.token_place hs.1.2 nofun
            · obtain ⟨⟨⟨-, htoken⟩, -⟩, helements, hclose⟩ := hs
              exact L.array helements (L.span_through (L.token_span htoken) hclose)
        | _ => exact alike_unexpected _
    | _ => exact alike_unexpected _
  -- In quotes the texts may differ.
  · obtain ⟨_, span₁⟩ := token₁
    obtain ⟨_, span₂⟩ := token₂
    subst hkind hkind'
    refine alike_advance.bind fun _ _ => alike_pure fun s hs => ?_
    exact L.name (L.identifier_of_token hs.1.2 rfl rfl)
  · obtain ⟨_, span₁⟩ := token₁
    obtain ⟨_, span₂⟩ := token₂
    subst hkind hkind'
    exact alike_advance.bind fun _ _ => alike_pure fun s hs => L.string hs.1.2 rfl rfl

/-- Expressions that are alike, of which something may be called in a condition. -/
def callable (L : Likeness) (c : Bool) (first second : Expression) : Lasting :=
  (L.expression c first second).and (.sure (first.isDefinedWord = false))

/-- A call or member access is read alike behind an operand that may be called, or that no
parenthesis follows.  In both cases what it makes may be called. -/
theorem alike_suffixFrom {R : State → State → Prop} {W : Expression → Expression → Lasting}
    {inner inner' : Reading Expression} {operand operand' : Expression}
    (h : ∀ K, L.Alike n.deeper K inner inner' (L.expression n.inCondition))
    (hstate : ∀ s t, R s t → L.state n s t ∧ K s)
    (hoperand : ∀ s, K s → L.expression n.inCondition operand operand' s)
    (hdone : ∀ s, K s → W operand operand' s)
    (hcall : ∀ s t, R s t → s.peeked.1.kind = .symbol .openParen → n.inCondition = true →
      operand.isDefinedWord = false) :
    L.AlikeFrom R n (suffix inner operand) (suffix inner' operand')
      (turnedInto (L.callable n.inCondition) W) := by
  unfold suffix
  refine (alike_peek.remember hstate).bind_run fun token₁ token₂ => ?_
  rintro s t ⟨hst, start, other, hstart, hrun⟩
  have hcallee := hcall start other hstart
  rw [run_peek] at hrun
  rw [(EStateM.Result.ok.inj hrun).1] at hcallee
  refine Alike.of_kind (K := K.and (L.token token₁ token₂)) (fun s hs => hs.2) (fun hkind => ?_)
    (fun _ _ hkind hkind' => ?_) (fun _ _ hkind hkind' => ?_) s t hst
  · rw [hkind]
    split
    · refine alike_advance.bind fun _ _ => (alike_identifier _).bind fun member member' => ?_
      refine alike_pure fun s hs => ?_
      obtain ⟨⟨⟨hs, -⟩, -⟩, hmember⟩ := hs
      exact ⟨L.member (hoperand s hs) hmember
        (L.span_through (L.expression_span (hoperand s hs)) (L.identifier_span hmember)), rfl⟩
    · rename_i hparen
      refine alike_advance.bind fun _ _ => ?_
      refine (Alike.nested (alike_elements (fun K => alike_argument h) .paren fun s hs => ?_)).bind
        fun first second => ?_
      · exact L.token_place hs.1.2 (by simp [hparen])
      · refine alike_pure fun s hs => ?_
        obtain ⟨⟨⟨hs, -⟩, -⟩, harguments, hclose⟩ := hs
        exact ⟨L.call (hcallee hparen) (hoperand s hs) harguments
          (L.span_through (L.expression_span (hoperand s hs)) hclose), rfl⟩
    · exact alike_pure fun s hs => hdone s hs.1
  all_goals
    rw [hkind, hkind']
    exact alike_pure fun s hs => hdone s hs.1

theorem watches_suffix {inner : Reading Expression} : Watches (suffix inner) (suffix inner) := by
  refine watches_of_peek (fun _ => rfl) fun {_ token _ _ _} hkind => ?_
  simp only [hkind]
  exact nofun

theorem definedQuestion_value {s s' : State} {e : Expression}
    (hrun : EStateM.run definedQuestion s = .ok e s') : ∃ name span, e = .defined name span := by
  obtain ⟨start, s₁, -, hrun⟩ := ok_of_run_bind hrun
  obtain ⟨opened, s₂, -, hrun⟩ := ok_of_run_bind hrun
  obtain ⟨name, s₃, -, hrun⟩ := ok_of_run_bind hrun
  obtain ⟨close, s₄, -, hrun⟩ := ok_of_run_bind hrun
  cases hrun
  exact ⟨_, _, rfl⟩

/-- Behind a bare `defined` that is read as a name in a condition, the next token was looked at, and
it is no parenthesis. -/
theorem bareName_isDefinedWord {token : Token} {rest : List Token} {text : String} {s s' : State}
    {e : Expression} (hcondition : s.nesting.inCondition = true)
    (hlookahead : s.lookahead = token :: rest) (hkind : token.kind = .name text false)
    (hrun : EStateM.run (isDefinedQuestion text >>= fun asks => if asks = true then definedQuestion
      else advance >>= fun _ => pure (.name ⟨text, false, token.span⟩)) s = .ok e s')
    (hword : e.isDefinedWord = true) : s'.peeked.1.kind ≠ .symbol .openParen := by
  by_cases htext : text = "defined"
  · obtain ⟨second, after, hsecond, ⟨more, hmore⟩, -⟩ := run_peekSecond hlookahead
    simp only [isDefinedQuestion, EStateM.run_bind, EStateM.run_get, hcondition, htext, true_and,
      if_true, hsecond, EStateM.run_pure, decide_eq_true_eq] at hrun
    split at hrun
    · obtain ⟨name, span, rfl⟩ := definedQuestion_value hrun
      cases hword
    · rename_i hparen
      rw [EStateM.run_bind, run_advance, State.advanced, State.peeked_of_cons hmore] at hrun
      simp only [hkind, reduceCtorEq, if_false] at hrun
      cases hrun
      have hnext : (after.take token).lookahead = second :: more := by
        rw [State.take, hmore, List.tail_cons]
      rwa [State.peeked_of_cons hnext]
  · simp only [isDefinedQuestion, EStateM.run_bind, EStateM.run_get, htext, and_false, if_false,
      EStateM.run_pure, Bool.false_eq_true, run_advance] at hrun
    cases hrun
    simp [Expression.isDefinedWord, htext] at hword

/-- A bare `defined` in a condition is the question whether a name is defined if a parenthesis
follows, so behind it nothing is called. -/
theorem primary_isDefinedWord {inner : Reading Expression} {s s' : State} {e : Expression}
    (hcondition : s.nesting.inCondition = true) (hrun : EStateM.run (primary inner) s = .ok e s')
    (hword : e.isDefinedWord = true) : s'.peeked.1.kind ≠ .symbol .openParen := by
  obtain ⟨rest, hrest⟩ := s.lookahead_peeked
  rw [← s.nesting_peeked] at hcondition
  rw [primary_eq, EStateM.run_bind, run_peek] at hrun
  generalize s.peeked.1 = token, s.peeked.2 = start at hrest hcondition hrun
  simp only at hrun
  have hvalue {value : Expression}
      (hrun : EStateM.run (advance >>= fun _ => pure value) start = .ok e s') : e = value := by
    obtain ⟨_, _, -, hrun⟩ := ok_of_run_bind hrun
    cases hrun
    rfl
  revert hrun
  refine primaryAt_cases (motive := fun f => EStateM.run f start = .ok e s' → _) ?integer ?float
    ?string ?quoted ?bare ?group ?array ?other
  case integer | float | string =>
    intro _ _ hrun
    rw [hvalue hrun] at hword
    cases hword
  case quoted =>
    intro text _ hrun
    rw [hvalue hrun] at hword
    simp [Expression.isDefinedWord] at hword
  case bare =>
    exact fun text hkind hrun => bareName_isDefinedWord hcondition hrest hkind hrun hword
  case group =>
    intro _ hrun
    obtain ⟨_, _, -, hrun⟩ := ok_of_run_bind hrun
    obtain ⟨_, _, -, hrun⟩ := ok_of_run_bind hrun
    obtain ⟨_, _, -, hrun⟩ := ok_of_run_bind hrun
    cases hrun
    cases hword
  case array =>
    intro _ hrun
    obtain ⟨_, _, -, hrun⟩ := ok_of_run_bind hrun
    obtain ⟨_, _, -, hrun⟩ := ok_of_run_bind hrun
    cases hrun
    cases hword
  case other =>
    intro hrun
    obtain ⟨_, _, -, hrun⟩ := ok_of_run_bind hrun
    cases hrun

theorem alike_suffixed {inner inner' : Reading Expression}
    (h : ∀ K, L.Alike n.deeper K inner inner' (L.expression n.inCondition)) :
    L.Alike n K (suffixed inner) (suffixed inner') (L.expression n.inCondition) := by
  unfold suffixed
  refine AlikeFrom.bind_run (alike_primary h) fun first first' => ?_
  -- What is known of the first operand depends on the token behind it, wherever that is looked at.
  let R (s t : State) : Prop := (L.state n s t ∧ L.expression n.inCondition first first' s) ∧
    (s.peeked.1.kind = .symbol .openParen → n.inCondition = true → first.isDefinedWord = false)
  have hfirst : L.AlikeFrom R n (suffix inner first) (suffix inner' first')
      (turnedInto (L.callable n.inCondition) (L.expression n.inCondition)) :=
    alike_suffixFrom (K := L.expression n.inCondition first first') h (fun s t hst => hst.1)
      (fun s hs => hs) (fun s hs => hs) fun s t hst => hst.2
  have hnext (e e' : Expression) : L.Alike n ((Lasting.sure True).and (L.callable n.inCondition e e'))
      (suffix inner e) (suffix inner' e') (turned (L.callable n.inCondition)) := by
    refine .of_known (fun s hs => hs.2.2) fun hword => ?_
    intro s t hst
    refine (alike_suffixFrom (R := fun s t => L.state n s t ∧ L.callable n.inCondition e e' s)
      (W := L.callable n.inCondition) h (fun s t hst => hst) (fun s hs => hs.1) (fun s hs => hs)
      (fun _ _ _ _ _ => hword) s t ⟨hst.1, hst.2.2⟩).imp fun turn turn' _ _ => ?_
    cases turn <;> cases turn' <;> exact id
  have hiterate : L.AlikeFrom R n (iterate (suffix inner) first) (iterate (suffix inner') first')
      (L.expression n.inCondition) := by
    refine AlikeFrom.iterate_into (V := L.callable n.inCondition) ?_ (fun _ _ _ hv => hv.1) hfirst
      fun e e' => (Alike.iterate hnext watches_suffix watches_suffix e e').weaken
        (fun s hs => ⟨trivial, hs⟩) fun _ _ _ _ hv => hv
    rintro s t _ _ _ _ ⟨hst, hcall⟩ hf hg _
    refine Ends.remaining_iff hst.1 (fun hpeeked => hfirst _ _ ⟨⟨hpeeked, ?_⟩, ?_⟩)
      (watches_suffix.again hf) (watches_suffix.again hg)
    · exact (L.expression _ _ _).lasts s.grows_peeked hst.2
    · rwa [State.peeked_peeked]
  rintro s t ⟨hst, start, other, hstart, hrun⟩
  refine hiterate s t ⟨hst, fun hkind hcondition => ?_⟩
  by_contra hword
  rw [← (L.nesting hstart.1).1] at hcondition
  exact primary_isDefinedWord hcondition hrun (by simpa using hword) hkind

theorem alike_negated {operand operand' plain plain' : Reading Expression}
    (hoperand : ∀ K, L.Alike n.deeper K operand operand' (L.expression n.inCondition))
    (hplain : ∀ K, L.Alike n K plain plain' (L.expression n.inCondition)) :
    L.Alike n K (negated operand plain) (negated operand' plain')
      (L.expression n.inCondition) := by
  unfold negated
  refine alike_peek.bind fun token₁ token₂ => .of_kind_iff (.symbol .bang) rfl
    (fun s hs => hs.2) fun hkind => ?_
  simp only [hkind]
  split
  · refine alike_advance.bind fun _ _ => (Alike.nested (hoperand _)).bind fun e e' => ?_
    refine alike_pure fun s hs => ?_
    obtain ⟨⟨⟨-, htoken⟩, -⟩, he⟩ := hs
    exact L.negation he (L.span_through (L.token_span htoken) (L.expression_span he))
  · exact hplain _

theorem alike_operand (level : Nat) (n : Nesting) (K : Lasting) :
    L.Alike n K (operand level) (operand level) (L.expression n.inCondition) := by
  induction level generalizing n K with
  | zero => exact alike_tooDeep
  | succ level ih =>
      exact alike_negated (ih n.deeper) fun K =>
        alike_suffixed fun K => alike_chain (ih n.deeper) _

theorem alike_expression (level least : Nat) :
    L.Alike n K (Expression.read level least) (Expression.read level least)
      (L.expression n.inCondition) :=
  alike_chain (alike_operand level n) least

end ConfLang.Likeness
