import ConfLang.Proofs.Likeness.Basic

/-!
# Looking at tokens alike

The steps that look at tokens and take them do the same in alike states.
-/

namespace ConfLang

namespace StateLikeness

open Reading

variable {L : StateLikeness} {n : Nesting} {K : Lasting} {α β : Type}

theorem alike_scan : L.Alike n K Reading.scan Reading.scan L.token := by
  intro s t ⟨hst, _⟩
  have hafter := L.scan hst
  refine ⟨hafter, ⟨s.precedes_scan, t.precedes_scan⟩, ?_⟩
  have hlookahead := L.lookahead hafter
  rw [State.lookahead_scan, State.lookahead_scan] at hlookahead
  have hlast := Lasting.all_getLast hlookahead (List.concat_ne_nil _ _) (List.concat_ne_nil _ _)
  rw [List.getLast_concat, List.getLast_concat] at hlast
  exact hlast

theorem alike_peek : L.Alike n K peek peek L.token := by
  intro s t ⟨hst, hs⟩
  have hlookahead := L.lookahead hst
  rw [run_peek, run_peek]
  match hfirst : s.lookahead, hsecond : t.lookahead with
  | [], [] =>
      rw [State.peeked_of_nil hfirst, State.peeked_of_nil hsecond]
      exact alike_scan s t ⟨hst, hs⟩
  | token₁ :: rest₁, token₂ :: rest₂ =>
      rw [State.peeked_of_cons hfirst, State.peeked_of_cons hsecond]
      simp only [hfirst, hsecond, Lasting.all_holds, List.forall₂_cons] at hlookahead
      exact ⟨hst, .refl s t, hlookahead.1⟩
  | [], _ :: _ => simp [hfirst, hsecond] at hlookahead
  | _ :: _, [] => simp [hfirst, hsecond] at hlookahead

/-- Alike states are alike after looking at the current tokens. -/
theorem alike_peeked {s t : State} (hst : L.state n s t) :
    L.state n s.peeked.2 t.peeked.2 ∧ Later s t s.peeked.2 t.peeked.2 ∧
      L.token s.peeked.1 t.peeked.1 s.peeked.2 := by
  have hends := alike_peek (K := .sure True) s t ⟨hst, trivial⟩
  rw [run_peek, run_peek] at hends
  exact hends

theorem alike_peekSecond : L.Alike n K peekSecond peekSecond L.token := by
  unfold peekSecond
  refine alike_peek.bind fun token₁ token₂ => alike_get fun s t hst _ => ?_
  have hlookahead := L.lookahead hst
  match hfirst : s.lookahead, hsecond : t.lookahead with
  | [], [] => exact alike_scan
  | [_], [_] => exact alike_scan
  | _ :: second₁ :: _, _ :: second₂ :: _ =>
      simp only [hfirst, hsecond, Lasting.all_holds, List.forall₂_cons] at hlookahead
      exact alike_pure fun s' hs' => (L.token _ _).lasts hs'.2 hlookahead.2.1
  | [], _ :: _ => simp [hfirst, hsecond] at hlookahead
  | _ :: _, [] => simp [hfirst, hsecond] at hlookahead
  | [_], _ :: _ :: _ => simp [hfirst, hsecond] at hlookahead
  | _ :: _ :: _, [_] => simp [hfirst, hsecond] at hlookahead

/-- The current token is the end of the file on both sides or on none. -/
theorem endOfFile_iff {token₁ token₂ : Token} {s : State} (h : L.token token₁ token₂ s) :
    token₂.kind = .endOfFile ↔ token₁.kind = .endOfFile :=
  (L.token_kind h).eq_iff _ rfl

/-- Unless the source is at its end, taking a token begins a reading. -/
theorem alike_advance_begun : L.Alike n K advance advance fun token₁ token₂ =>
    (L.token token₁ token₂).and (.given (token₁.kind ≠ .endOfFile) .begun) := by
  intro s t ⟨hst, _⟩
  obtain ⟨hafter, hlater, htoken⟩ := alike_peeked hst
  obtain ⟨rest₁, hrest₁⟩ := s.lookahead_peeked
  obtain ⟨rest₂, hrest₂⟩ := t.lookahead_peeked
  rw [run_advance, run_advance, State.advanced, State.advanced,
    if_congr (endOfFile_iff htoken) rfl rfl]
  split
  · rename_i hend
    exact ⟨hafter, hlater, htoken, fun hkind => absurd hend hkind⟩
  · rename_i hend
    exact ⟨L.take hafter hrest₁ hrest₂ hend,
      hlater.trans ⟨State.precedes_take hrest₁, State.precedes_take hrest₂⟩,
      (L.token _ _).lasts (State.grows_take _ _) htoken, fun _ => Nat.succ_pos _⟩

theorem alike_advance : L.Alike n K advance advance L.token :=
  alike_advance_begun.weaken (fun _ hs => hs) fun _ _ _ _ hv => hv.1

theorem alike_rawText : L.Alike n K rawText rawText fun first second =>
    (Lasting.sure (second.1 = first.1 ∧ L.text first.1)).and (L.span first.2 second.2) := by
  unfold rawText
  intro s t ⟨hst, hs⟩
  have hlookahead := L.lookahead hst
  rw [EStateM.run_bind, EStateM.run_bind, EStateM.run_get, EStateM.run_get]
  match hfirst : s.lookahead, hsecond : t.lookahead with
  | [], [] =>
      simp only [hfirst, hsecond, EStateM.run_bind, EStateM.run_modify, EStateM.run_pure]
      obtain ⟨hafter, htexts, htext, hspan⟩ := L.takeRaw hst hfirst
      exact ⟨hafter, ⟨State.precedes_takeRaw hfirst, State.precedes_takeRaw hsecond⟩,
        ⟨htexts, htext⟩, hspan⟩
  | token₁ :: rest₁, token₂ :: rest₂ =>
      simp only [hfirst, hsecond, Lasting.all_holds, List.forall₂_cons] at hlookahead
      simp only [hfirst, hsecond, EStateM.run_pure]
      exact ⟨hst, .refl s t, ⟨rfl, L.text_empty⟩, L.span_origin (L.token_span hlookahead.1)⟩
  | [], _ :: _ => simp [hfirst, hsecond] at hlookahead
  | _ :: _, [] => simp [hfirst, hsecond] at hlookahead

/-! ## Tokens that are asked for -/

/-- What is done with two alike tokens may depend on their kind.  It is the same, or both are quoted
texts. -/
theorem Alike.of_kind {token₁ token₂ : Token} {f : Reading α} {g : Reading β}
    {V : α → β → Lasting} (htoken : ∀ s, K s → L.token token₁ token₂ s)
    (hsame : token₂.kind = token₁.kind → L.Alike n K f g V)
    (hname : ∀ text text', token₁.kind = .name text true → token₂.kind = .name text' true →
      L.Alike n K f g V)
    (hstring : ∀ text text', token₁.kind = .string text → token₂.kind = .string text' →
      L.Alike n K f g V) : L.Alike n K f g V := by
  intro s t hst
  have hkinds := L.token_kind (htoken s hst.2)
  revert hsame hname hstring
  generalize token₁.kind = kind₁, token₂.kind = kind₂ at hkinds ⊢
  intro hsame hname hstring
  cases hkinds with
  | same kind => exact hsame rfl s t hst
  | name _ => exact hname _ _ rfl rfl s t hst
  | string _ => exact hstring _ _ rfl rfl s t hst

/-- Whether a token is of a kind that is no quoted text is known alike. -/
theorem Alike.of_kind_iff {token₁ token₂ : Token} {f : Reading α} {g : Reading β}
    {V : α → β → Lasting} (kind : TokenKind) (hkind : kind.isQuoted = false)
    (htoken : ∀ s, K s → L.token token₁ token₂ s)
    (h : (token₂.kind = kind ↔ token₁.kind = kind) → L.Alike n K f g V) : L.Alike n K f g V :=
  .of_known (fun s hs => (L.token_kind (htoken s hs)).eq_iff _ hkind) h

theorem alike_isAt {kind : TokenKind} (hkind : kind.isQuoted = false) :
    L.Alike n K (isAt kind) (isAt kind) same := by
  unfold isAt
  refine alike_peek.bind fun token₁ token₂ => alike_pure fun s hs => ?_
  simp only [same, Lasting.sure_holds, (L.token_kind hs.2).eq_iff _ hkind]

theorem alike_accept {kind : TokenKind} (hkind : kind.isQuoted = false) :
    L.Alike n K (accept kind) (accept kind) same := by
  unfold accept
  refine (alike_isAt hkind).bind_same fun isThere => ?_
  split
  · exact alike_advance.bind fun _ _ => alike_pure fun _ _ => rfl
  · exact alike_pure fun _ _ => rfl

/-- Two readings fail alike that expect the same, or anything where it does not count. -/
theorem alike_unexpectedAs {expectation expectation' : Expectation} {value : α → β → Lasting}
    (h : ∀ s, K s → expectation' = expectation ∨ L.muted s) :
    L.Alike n K (unexpected expectation) (unexpected expectation') value := by
  unfold unexpected
  refine alike_peek.bind fun token₁ token₂ => alike_fail ?_ ?_
  · exact fun s hs => L.token_span hs.2
  · intro s hs
    rcases h s hs.1, L.kind_eq hs.2 with ⟨rfl | hmuted, hkind | hmuted⟩
    · exact .inl (by rw [hkind]; rfl)
    all_goals exact .inr hmuted

theorem alike_unexpected (expectation : Expectation) {value : α → β → Lasting} :
    L.Alike n K (unexpected expectation) (unexpected expectation) value :=
  alike_unexpectedAs fun _ _ => .inl rfl

theorem alike_expectAs (sign : Symbol) {expectation expectation' : Expectation}
    (h : ∀ s, K s → expectation' = expectation ∨ L.muted s) :
    L.Alike n K (expect sign expectation) (expect sign expectation') L.place := by
  unfold expect
  refine alike_peek.bind fun token₁ token₂ => .of_kind_iff (.symbol sign) rfl
    (fun s hs => hs.2) fun hkind => ?_
  simp only [hkind]
  split
  · rename_i hsign
    refine alike_advance.bind fun _ _ => alike_pure fun s hs => ?_
    exact L.token_place hs.1.2 (by simp [hsign])
  · exact alike_unexpectedAs fun s hs => h s hs.1

theorem alike_expect (sign : Symbol) (expectation : Expectation) :
    L.Alike n K (expect sign expectation) (expect sign expectation) L.place :=
  alike_expectAs sign fun _ _ => .inl rfl

theorem alike_closing (bracket : Bracket) {opened₁ opened₂ : Span}
    (hopened : ∀ s, K s → L.place opened₁ opened₂ s) :
    L.Alike n K (closing bracket opened₁) (closing bracket opened₂) L.span := by
  unfold closing
  refine alike_peek.bind fun token₁ token₂ => .of_kind_iff (.symbol bracket.closing) rfl
    (fun s hs => hs.2) fun hkind => ?_
  simp only [hkind]
  split
  · refine alike_advance.bind fun _ _ => alike_pure fun s hs => ?_
    exact L.token_span hs.1.2
  · refine alike_fail (fun s hs => L.place_span (hopened s hs.1)) fun s hs => ?_
    exact (L.kind_eq hs.2).imp_left fun hsame => ⟨_, hopened s hs.1, by rw [hsame]⟩

theorem alike_endOfLine (expectation : Expectation) :
    L.Alike n K (endOfLine expectation) (endOfLine expectation) same := by
  unfold endOfLine
  refine alike_peek.bind fun token₁ token₂ => .of_kind (fun s hs => hs.2) (fun hkind => ?_)
    (fun _ _ hkind hkind' => ?_) fun _ _ hkind hkind' => ?_
  · rw [hkind]
    split
    · exact alike_advance.map fun _ _ _ _ => rfl
    · exact alike_pure fun _ _ => rfl
    · exact alike_unexpected expectation
  all_goals
    rw [hkind, hkind']
    exact alike_unexpected expectation

/-! ## Nesting -/

theorem alike_tooDeep {value : α → β → Lasting} : L.Alike n K tooDeep tooDeep value := by
  unfold tooDeep
  refine alike_peek.bind fun token₁ token₂ => alike_get fun s t hst _ => ?_
  rw [L.options hst]
  exact alike_fail (fun s' hs' => L.token_span hs'.1.2) fun _ _ => .inl rfl

/-- A construct is alike if what is inside of it is.  States that are too deep for another
construct have to be alike as they are. -/
theorem AlikeFrom.nested {R S : State → State → Prop} {f : Reading α} {g : Reading β}
    {value : α → β → Lasting}
    (houtside : ∀ s t, R s t → s.nesting = n ∧ t.nesting = n ∧ t.options = s.options)
    (hopening : ∀ s t, R s t → S s.enter t.enter)
    (hdeep : ∀ s t, R s t → n.depth < s.options.maxNestingDepth ∨ L.state n s t)
    (h : L.AlikeFrom S n.deeper f g value) :
    L.AlikeFrom R n (nested f) (nested g) value := by
  have hbetween : L.AlikeFrom R n (Reading.between State.enter State.leave f)
      (Reading.between State.enter State.leave g) value := by
    refine h.between (fun s t hst => ⟨hopening s t hst, ?_⟩) fun _ => State.leave_eq
    exact ⟨s.precedes_renest _, t.precedes_renest _⟩
  intro s t hst
  obtain ⟨hfirst, hsecond, hoptions⟩ := houtside s t hst
  simp only [Reading.nested, EStateM.run_bind, EStateM.run_get]
  rw [hfirst, hsecond, hoptions]
  split
  · exact hbetween s t hst
  · rename_i hdepth
    have halike := (hdeep s t hst).resolve_left hdepth
    exact alike_tooDeep (K := .sure True) s t ⟨halike, trivial⟩

theorem Alike.nested {f : Reading α} {g : Reading β} {value : α → β → Lasting}
    (h : L.Alike n.deeper K f g value) :
    L.Alike n K (nested f) (nested g) value := by
  refine AlikeFrom.nested (fun s t hst => ?_) (fun s t hst => ?_) (fun s t hst => .inr hst.1) h
  · exact ⟨(L.nesting hst.1).1, (L.nesting hst.1).2, L.options hst.1⟩
  · have henter := L.renest n.deeper hst.1
    rw [State.enter, State.enter, (L.nesting hst.1).1, (L.nesting hst.1).2]
    exact ⟨henter, K.lasts (s.grows_renest _) hst.2⟩

end StateLikeness

end ConfLang
