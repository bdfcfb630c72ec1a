import ConfLang.Proofs.Grammar.Yields
import ConfLang.Proofs.Grammar.Words

/-!
# What is read as an expression is derived

If an expression was read without an error, the tokens that were taken are derived as that
expression by the grammar.  A repetition has an invariant that says so for the part that was
read by then; since the parts of a chain group to the left, it also has to say which
operators the part can be the left side of (`Chained`).
-/

namespace ConfLang

/-- What binds tightly also binds less tightly. -/
theorem Grammar.Binary.mono {operand : Language Expression} {least bound : Nat} {ts : List Token}
    {e : Expression} (h : Binary operand bound ts e) (hle : least ≤ bound) :
    Binary operand least ts e := by
  cases h with
  | operand h => exact .operand h
  | operation hbound hleft hright => exact .operation (hle.trans hbound) hleft hright

theorem Operator.eq_symbol_of_ofToken? {kind : TokenKind} {operator : Operator}
    (h : Operator.ofToken? kind = some operator) : kind = .symbol operator.symbol := by
  unfold ofToken? at h
  split at h <;> cases h <;> rfl

namespace Reading

open Grammar

variable {α : Type} {o : Options} {n : Nesting} {c c' : Cursor} {k : Nat}

/-- What is read without an error is derived from the tokens that were taken. -/
def Derived (language : Language α) (c : Cursor) (a : α) (c' : Cursor) : Prop :=
  ∃ ts, language ts a ∧ c.Scans ts c'

/-- A reading reads nothing but what a language allows. -/
def Derives (o : Options) (n : Nesting) (f : Reading α) (language : Language α) : Prop :=
  ∀ ⦃c k⦄, k ≤ 1 → Yields o n c k f 1 (Derived language c)

/-! ## Binary operators -/

section Chain

variable {operand : Reading Expression} {language : Language Expression}

/-- No operator follows that binds at least as tightly as `bound`. -/
def EndsBelow (bound : Nat) (c : Cursor) : Prop :=
  ∀ operator ∈ Operator.ofToken? c.next.token.kind, operator.precedence < bound

/-- The left part of a chain, which can be the left side of the operator behind it. -/
def Chained (language : Language Expression) (least : Nat) (c : Cursor) (e : Expression)
    (c' : Cursor) : Prop :=
  ∃ bound, least ≤ bound ∧ Derived (Binary language bound) c e c' ∧ EndsBelow (bound + 1) c'

theorem derives_chain [Adds operand] (hoperand : Derives o n operand language) (least : Nat) :
    ∀ ⦃c k⦄, k ≤ 1 → Yields o n c k (chain operand least) 1 fun e c' =>
      Derived (Binary language least) c e c' ∧ EndsBelow least c' := by
  -- The induction is on the levels of precedence that are left: a right side binds more tightly.
  induction hmeasure : 5 - least using Nat.strongRecOn generalizing least with
  | ind measure ih =>
      subst hmeasure
      intro c k hk
      rw [chain_eq]
      refine (hoperand hk).bind inferInstance fun first middle hfirst => ?_
      refine Yields.iterate (I := Chained language least c) inferInstance ?_ ?_
      · rintro left middle ⟨bound, hbound, ⟨ts, hleft, hscan⟩, hends⟩
        unfold chainTurn
        refine yields_operator? (Nat.le_refl 1) ?_
        cases hoperator : Operator.ofToken? middle.next.token.kind with
        | none => exact yields_pure ⟨⟨ts, hleft.mono hbound, hscan⟩, by simp [EndsBelow, hoperator]⟩
        | some operator =>
            have hkind := Operator.eq_symbol_of_ofToken? hoperator
            simp only
            split
            · rename_i hleast
              refine yields_advance inferInstance (by simp [hkind]) fun hshows => ?_
              have hless : 5 - (operator.precedence + 1) < 5 - least := by
                have := operator.precedence_le
                omega
              refine (ih _ hless _ rfl (Nat.zero_le 1)).bind inferInstance ?_
              rintro right behind ⟨⟨ts', hright, hscan'⟩, hends'⟩
              have hbelow : operator.precedence ≤ bound := Nat.le_of_lt_succ (hends _ hoperator)
              exact yields_pure ⟨⟨operator.precedence, hleast,
                ⟨_, .operation (Nat.le_refl _) (hleft.mono hbelow) hright,
                  hscan.append ((hshows.of_kind hkind).scans hscan')⟩, hends'⟩,
                hscan'.left_le.trans_lt hshows.left_lt⟩
            · rename_i hless
              refine yields_pure ⟨⟨ts, hleft.mono hbound, hscan⟩, fun other hother => ?_⟩
              rw [hoperator] at hother
              cases hother
              exact Nat.lt_of_not_le hless
      · obtain ⟨ts, h, hscan⟩ := hfirst
        refine ⟨max least 5, le_max_left _ _, ⟨ts, .operand h, hscan⟩, fun operator _ => ?_⟩
        have := operator.precedence_le
        omega

end Chain

/-! ## Lists -/

section Lists

variable {item : Reading α} {language : Language α} {bracket : Bracket}

/-- The elements of a list that were read with the commas behind them. -/
def Listed (language : Language α) (c : Cursor) (items : Array α) (c' : Cursor) : Prop :=
  ∃ ts, c.Scans ts c' ∧
    ∀ rest as, Items language rest as → Items language (ts ++ rest) (items.toList ++ as)

theorem Listed.snoc {items : Array α} {middle behind : Cursor} {a : α}
    (h : Listed language c items middle) (hitem : Derived language middle a behind) {span : Span}
    (hcomma : behind.Shows ⟨.symbol .comma, span⟩) :
    Listed language c (items.push a) behind.next.cursor := by
  obtain ⟨ts, hscan, hitems⟩ := h
  obtain ⟨ts', ha, hscan'⟩ := hitem
  refine ⟨_, hscan.append (hscan'.append (hcomma.scans .nil)), fun rest as hrest => ?_⟩
  have hmore : Items language (ts ++ (ts' ++ ⟨.symbol .comma, span⟩ :: rest))
      (items.toList ++ a :: as) := hitems _ _ (.cons ha hrest)
  simpa using hmore

/-- A second comma is an error. -/
theorem yields_extraCommas (hk : k ≤ 1) :
    Yields o n c k (extraCommas bracket) 1 fun _ c' => c' = c := by
  unfold extraCommas
  refine (Yields.iterate (k := 1) (I := fun _ c' => c' = c) (R := fun _ c' => c' = c) inferInstance
    ?_ rfl).weaken hk (Nat.le_refl 1)
  rintro _ _ rfl
  refine yields_peek (Nat.le_refl 1) ?_
  split
  · rename_i hkind
    refine yields_advance inferInstance (by simp [hkind]) fun _ => ?_
    exact (spoils_report rfl).yields
  · exact yields_pure rfl

theorem yields_element [Adds item] (hitem : Derives o n item language) {items : Array α}
    {middle : Cursor} (h : Listed language c items middle) :
    Yields o n middle 1 (element bracket item items) 1 (Turned (Listed language c)
      (fun items' c' => Derived (Items language) c items'.toList c') middle) := by
  obtain ⟨ts, hscan, hitems⟩ := id h
  unfold element
  refine yields_peek (Nat.le_refl 1) ?_
  simp only
  split
  · refine yields_pure ⟨ts, ?_, hscan⟩
    simpa using hitems [] [] .nil
  · refine (hitem (Nat.le_refl 1)).bind inferInstance fun a behind ha => ?_
    refine (yields_accept (by simp) (Nat.le_refl 1)).bind inferInstance ?_
    rintro _ _ (⟨rfl, ⟨span, hcomma⟩, rfl⟩ | ⟨rfl, -, rfl⟩)
    · rw [if_pos rfl]
      refine (yields_extraCommas (Nat.le_refl 1)).bind inferInstance ?_
      rintro _ _ rfl
      refine yields_pure ⟨h.snoc ha hcomma, ?_⟩
      obtain ⟨_, _, hscan'⟩ := ha
      exact hcomma.left_lt.trans_le hscan'.left_le
    · rw [if_neg Bool.false_ne_true]
      obtain ⟨ts', ha, hscan'⟩ := ha
      refine yields_pure ⟨_, ?_, hscan.append hscan'⟩
      simpa using hitems _ _ (.last ha)

theorem yields_elements [Adds item] (hitem : Derives o n item language) {opened : Span}
    (hk : k ≤ 1) : Yields o n c k (elements bracket opened item) 0 fun result c' =>
      ∃ middle, Derived (Items language) c result.1 middle ∧
        middle.Shows ⟨.symbol bracket.closing, result.2⟩ ∧ c' = middle.next.cursor := by
  unfold elements
  have hnone : Listed language c #[] c := ⟨[], .nil, fun rest as h => by simpa using h⟩
  have hitems : Yields o n c 1 (iterate (element bracket item) #[]) 1 fun items c' =>
      Derived (Items language) c items.toList c' :=
    Yields.iterate (I := Listed language c) inferInstance
      (fun items middle h => yields_element hitem h) hnone
  refine (hitems.weaken hk (Nat.le_refl 1)).bind inferInstance ?_
  intro items middle hitems
  refine (yields_closing (Nat.le_refl 1)).bind inferInstance ?_
  rintro close _ ⟨hclose, rfl⟩
  exact yields_pure ⟨middle, hitems, hclose, rfl⟩

end Lists

/-! ## Operands -/

section Operands

variable {inner : Reading Expression} {language : Language Expression} [Adds inner]

theorem derives_argument (hinner : Derives o n inner language) :
    Derives o n (argument inner) (LabelledArgument language) := by
  intro c k hk
  unfold argument
  refine (yields_accept (by simp) hk).bind inferInstance ?_
  rintro _ _ (⟨rfl, ⟨span, hdot⟩, rfl⟩ | ⟨rfl, -, rfl⟩)
  · rw [if_pos rfl]
    refine (yields_identifier (Nat.le_refl 1)).bind inferInstance ?_
    rintro label middle ⟨_, hlabel, hscan⟩
    refine (yields_expect (Nat.zero_le 1)).bind inferInstance ?_
    rintro _ _ ⟨hsign, rfl⟩
    refine (hinner (Nat.zero_le 1)).bind inferInstance ?_
    rintro e c' ⟨ts, h, hscan'⟩
    exact yields_pure ⟨_, .labelled hlabel h, hdot.scans (hscan.append (hsign.scans hscan'))⟩
  · rw [if_neg Bool.false_ne_true]
    refine (hinner (Nat.le_refl 1)).bind inferInstance ?_
    rintro e c' ⟨ts, h, hscan⟩
    exact yields_pure ⟨ts, .positional h, hscan⟩

/-- What may be nested is derived one level deeper, if there is room for it. -/
def DerivesInside (o : Options) (n : Nesting) (f : Reading Expression)
    (inner : Option (Language Expression)) : Prop :=
  n.depth < o.maxNestingDepth → ∃ language ∈ inner, Derives o n.deeper f language

/-- A symbol asks nothing. -/
theorem not_asksDefined {inCondition : Bool} {sign : Symbol} {span : Span} {ts : List Token}
    (h : ⟨.symbol sign, span⟩ ∈ ts) : ¬ asksDefined inCondition ts := by
  rintro ⟨-, place, rfl⟩
  simp at h

omit [Adds inner] in
theorem DerivesInside.yields_nested {languages : Option (Language Expression)}
    (hinner : DerivesInside o n inner languages) (hk : k ≤ 1) :
    Yields o n c k (nested inner) 1 fun e c' =>
      ∃ language ∈ languages, Derived language c e c' := by
  refine (Yields.nested fun hdepth => ?_).imp fun e c' h => h.2
  obtain ⟨language, hlanguage, hderives⟩ := hinner hdepth
  exact (hderives hk).imp fun e c' h => ⟨language, hlanguage, h⟩

omit [Adds inner] in
/-- A list in brackets, whose elements are derived from what may be nested. -/
theorem DerivesInside.yields_list {languages : Option (Language Expression)}
    (hinner : DerivesInside o n inner languages) {item : Reading α} [Adds item]
    {elementOf : Language Expression → Language α} (bracket : Bracket) (opened : Span)
    (hitem : ∀ language, Derives o n.deeper inner language →
      Derives o n.deeper item (elementOf language)) (hk : k ≤ 1) :
    Yields o n c k (nested (elements bracket opened item)) 0 fun result c' =>
      ∃ language ∈ languages, ∃ middle, Derived (Items (elementOf language)) c result.1 middle ∧
        middle.Shows ⟨.symbol bracket.closing, result.2⟩ ∧ c' = middle.next.cursor := by
  refine (Yields.nested fun hdepth => ?_).imp fun _ _ h => h.2
  obtain ⟨language, hlanguage, hderives⟩ := hinner hdepth
  exact (yields_elements (hitem language hderives) hk).imp fun _ _ h => ⟨language, hlanguage, h⟩

theorem yields_definedQuestion (languages : Option (Language Expression)) {span : Span}
    (hin : n.inCondition = true)
    (htoken : c.next.token = ⟨.name "defined" false, span⟩) :
    Yields o n c 2 definedQuestion 0 fun e c' =>
      ∃ ts, Primary n.inCondition languages ts e ∧ c.Scans ts c' ∧
        ¬ asksDefined n.inCondition ts := by
  unfold definedQuestion
  refine yields_advance inferInstance (by simp [htoken]) fun hstart => ?_
  refine (yields_expect (Nat.le_refl 1)).bind inferInstance ?_
  rintro opened _ ⟨hopened, rfl⟩
  refine (yields_identifier (Nat.zero_le 1)).bind inferInstance ?_
  rintro name middle ⟨ts, hname, hscan⟩
  refine (yields_closing (Nat.zero_le 1)).bind inferInstance ?_
  rintro close _ ⟨hclose, rfl⟩
  rw [htoken] at hstart ⊢
  exact yields_pure ⟨_, .defined hin hname,
    hstart.scans (hopened.scans (hscan.append (hclose.scans .nil))),
    not_asksDefined (List.mem_cons_of_mem _ List.mem_cons_self)⟩

/-- What is primary is derived, and a bare name that could ask whether a name is defined is
not followed by a parenthesis. -/
theorem yields_primary {languages : Option (Language Expression)}
    (hinner : DerivesInside o n inner languages) (hk : k ≤ 1) :
    Yields o n c k (primary inner) 1 fun e c' =>
      ∃ ts, Primary n.inCondition languages ts e ∧ c.Scans ts c' ∧
        (asksDefined n.inCondition ts → c'.next.token.kind ≠ .symbol .openParen) := by
  rw [primary_eq]
  refine yields_peek hk ?_
  refine primaryAt_cases (motive := fun f => Yields o n c 1 f 1 _) ?integer ?float ?string ?quoted
    ?bare ?group ?array ?other
  case integer =>
    intro value hkind
    refine yields_advance inferInstance (by simp [hkind]) fun hshows => ?_
    exact (yields_pure ⟨_, .integer, (hshows.of_kind hkind).scans .nil, by simp [asksDefined]⟩).loose
  case float =>
    intro value hkind
    refine yields_advance inferInstance (by simp [hkind]) fun hshows => ?_
    exact (yields_pure ⟨_, .float, (hshows.of_kind hkind).scans .nil, by simp [asksDefined]⟩).loose
  case string =>
    intro text hkind
    refine yields_advance inferInstance (by simp [hkind]) fun hshows => ?_
    exact (yields_pure ⟨_, .string, (hshows.of_kind hkind).scans .nil, by simp [asksDefined]⟩).loose
  case quoted =>
    intro text hkind
    refine yields_advance inferInstance (by simp [hkind]) fun hshows => ?_
    exact (yields_pure ⟨_, .name .name, (hshows.of_kind hkind).scans .nil,
      by simp [asksDefined]⟩).loose
  case bare =>
    intro text hkind ho
    refine Yields.of_leads ((gives_isDefinedQuestion (.inl ho) (fun _ _ => .inl ho)
      (Nat.le_refl 1)).bind .refl) ?_ ho
    -- The question is asked by the bare word in a condition, in front of a parenthesis.
    split
    · rename_i hasks
      simp only [decide_eq_true_eq] at hasks
      obtain ⟨hin, rfl, hopened⟩ := hasks
      have htoken : c.next.token = ⟨.name "defined" false, c.next.token.span⟩ := by rw [← hkind]
      refine (yields_definedQuestion languages hin htoken).loose.imp fun e c' h => ?_
      obtain ⟨ts, h, hscan, hnot⟩ := h
      exact ⟨ts, h, hscan, fun hasks => absurd hasks hnot⟩
    · rename_i hasks
      refine yields_advance inferInstance (by simp [hkind]) fun hshows => ?_
      refine yields_pure ⟨_, .name .name, (hshows.of_kind hkind).scans .nil, ?_⟩
      rintro ⟨hin, span, htokens⟩ hopened
      simp only [List.cons.injEq, Token.mk.injEq, TokenKind.name.injEq, and_true] at htokens
      exact hasks (by simp [hin, htokens.1, hopened])
  case group =>
    intro hkind
    refine yields_advance inferInstance (by simp [hkind]) fun hopened => ?_
    refine (hinner.yields_nested (Nat.zero_le 1)).bind inferInstance ?_
    rintro e middle ⟨language, hlanguage, ts, h, hscan⟩
    refine (yields_closing (Nat.le_refl 1)).bind inferInstance ?_
    rintro close _ ⟨hclose, rfl⟩
    refine (yields_pure ⟨_, .group hlanguage h, (hopened.of_kind hkind).scans
      (hscan.append (hclose.scans .nil)),
      fun hasks => absurd hasks (not_asksDefined List.mem_cons_self)⟩).loose
  case array =>
    intro hkind
    refine yields_advance inferInstance (by simp [hkind]) fun hopened => ?_
    refine (hinner.yields_list .square c.next.token.span (fun _ h => h) (Nat.zero_le 1)).bind
      (fun _ => inferInstance) ?_
    rintro ⟨es, close⟩ _ ⟨language, hlanguage, middle, ⟨ts, h, hscan⟩, hclose, rfl⟩
    refine (yields_pure ⟨_, .array hlanguage h, (hopened.of_kind hkind).scans
      (hscan.append (hclose.scans .nil)),
      fun hasks => absurd hasks (not_asksDefined List.mem_cons_self)⟩).loose
  case other => exact yields_unexpected

/-! ## Calls and member accesses -/

/-- An operand that was read so far, which a call can go on with unless it asks whether a name
is defined. -/
def SuffixedSoFar (inCondition : Bool) (languages : Option (Language Expression)) (c : Cursor)
    (e : Expression) (c' : Cursor) : Prop :=
  ∃ ts, Suffixed inCondition languages ts e ∧ c.Scans ts c' ∧
    (asksDefined inCondition ts → c'.next.token.kind ≠ .symbol .openParen)

theorem yields_suffix {languages : Option (Language Expression)}
    (hinner : DerivesInside o n inner languages) {e : Expression} {middle : Cursor}
    (h : SuffixedSoFar n.inCondition languages c e middle) :
    Yields o n middle 1 (suffix inner e) 1
      (Turned (SuffixedSoFar n.inCondition languages c)
        (Derived (Suffixed n.inCondition languages) c) middle) := by
  obtain ⟨ts, h, hscan, hasks⟩ := h
  unfold suffix
  refine yields_peek (Nat.le_refl 1) ?_
  split
  · rename_i hkind
    refine yields_advance inferInstance (by simp [hkind]) fun hdot => ?_
    refine (yields_identifier (Nat.zero_le 1)).bind inferInstance ?_
    rintro member behind ⟨ts', hmember, hscan'⟩
    exact (yields_pure ⟨⟨_, .member h hmember,
      hscan.append ((hdot.of_kind hkind).scans hscan'), fun hasks => absurd hasks
        (not_asksDefined (List.mem_append_right _ List.mem_cons_self))⟩,
      hscan'.left_le.trans_lt hdot.left_lt⟩).loose
  · rename_i hkind
    refine yields_advance inferInstance (by simp [hkind]) fun hopened => ?_
    refine (hinner.yields_list .paren middle.next.token.span (fun _ => derives_argument)
      (Nat.zero_le 1)).bind (fun _ => inferInstance) ?_
    rintro ⟨arguments, close⟩ _ ⟨language, hlanguage, behind, ⟨ts', h', hscan'⟩, hclose, rfl⟩
    have hnot : ¬ asksDefined n.inCondition ts := fun hasks' => hasks hasks' hkind
    exact (yields_pure ⟨⟨_, .call hlanguage h hnot h',
      (hscan.append ((hopened.of_kind hkind).scans hscan')).append (hclose.scans .nil),
      fun hasks => absurd hasks (not_asksDefined (List.mem_append_right _ List.mem_cons_self))⟩,
      hclose.left_lt.trans (hscan'.left_le.trans_lt hopened.left_lt)⟩).loose
  · exact yields_pure ⟨ts, h, hscan⟩

theorem derives_suffixed {languages : Option (Language Expression)}
    (hinner : DerivesInside o n inner languages) :
    Derives o n (suffixed inner) (Suffixed n.inCondition languages) := by
  intro c k hk
  unfold suffixed
  refine (yields_primary hinner hk).bind inferInstance ?_
  rintro e middle ⟨ts, h, hscan, hasks⟩
  exact Yields.iterate inferInstance (fun e middle h => yields_suffix hinner h)
    ⟨ts, .primary h, hscan, hasks⟩

/-! ## All expressions -/

theorem derives_negated {languages : Option (Language Expression)} {operand : Reading Expression}
    [Adds operand] (hoperand : DerivesInside o n operand languages) :
    Derives o n (negated operand (suffixed (chain operand Operator.lowestPrecedence)))
      (Operand n.inCondition languages) := by
  intro c k hk
  unfold negated
  refine yields_peek hk ?_
  split
  · rename_i hkind
    refine yields_advance inferInstance (by simp [hkind]) fun hsign => ?_
    refine (hoperand.yields_nested (Nat.zero_le 1)).bind inferInstance ?_
    rintro e c' ⟨language, hlanguage, ts, h, hscan⟩
    exact yields_pure ⟨_, .negation hlanguage h, (hsign.of_kind hkind).scans hscan⟩
  · have hinner : DerivesInside o n (chain operand Operator.lowestPrecedence)
        (languages.map fun operand => Binary operand Operator.lowestPrecedence) := by
      intro hdepth
      obtain ⟨language, hlanguage, hderives⟩ := hoperand hdepth
      exact ⟨_, Option.map_eq_some_iff.mpr ⟨language, hlanguage, rfl⟩,
        fun c k hk => (derives_chain hderives _ hk).imp fun _ _ h => h.1⟩
    refine (derives_suffixed hinner (Nat.le_refl 1)).imp ?_
    rintro e c' ⟨ts, h, hscan⟩
    exact ⟨ts, .suffixed h, hscan⟩

/-- Operands are read with no more room for nesting than the grammar gives them. -/
theorem derives_operand {room : Nat} (hroom : n.depth + room = o.maxNestingDepth) :
    Derives o n (Reading.operand (room + 1)) (Grammar.operand n.inCondition room) := by
  induction room generalizing n with
  | zero =>
      have := obeys_operand (P := growth.Kept) 0
      exact derives_negated fun hdepth => absurd hroom (Nat.ne_of_lt hdepth)
  | succ room ih =>
      have := obeys_operand (P := growth.Kept) (room + 1)
      have hdeeper : n.deeper.depth + room = o.maxNestingDepth := by
        rw [← hroom, Nat.add_comm room 1, ← Nat.add_assoc]
        rfl
      exact derives_negated fun _ => ⟨_, rfl, ih hdeeper⟩

theorem derives_expression {room : Nat} (hroom : n.depth + room = o.maxNestingDepth) :
    Derives o n (Expression.read (room + 1) Operator.lowestPrecedence)
      (Grammar.expression n.inCondition room) := by
  have := obeys_operand (P := growth.Kept) (room + 1)
  exact fun c k hk => (derives_chain (derives_operand hroom) _ hk).imp fun _ _ h => h.1

end Operands

end Reading

end ConfLang
