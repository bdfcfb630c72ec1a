import ConfLang.Proofs.Placement.Limit

/-!
# The first statement of a source

Before the first token is taken there is no place of a last token.  A first token that
begins a statement is taken by that statement before anything is reported; any other one
is reported once and then skipped.  In both cases everything lies in the source behind it.
-/

namespace ConfLang

/-- Whether a statement is begun by a token, and read by taking it. -/
def TokenKind.beginsStatement (options : Options) : TokenKind → Bool
  | .opener _ => 0 < options.maxNestingDepth
  | .message _ | .passage _ | .name _ _ => true
  | .keyword .constant | .keyword .group | .keyword .ifWord => true
  | _ => false

section FirstStatement

open Reading StateLikeness Likeness

variable {source : List Char} {n : Nesting} {token : Token} {options : Options}

/-- The same state twice, in front of a token that was looked at. -/
structure Opens (source : List Char) (options : Options) (token : Token) (n : Nesting)
    (s t : State) : Prop where
  same : t = s
  looks : s.LooksInto source
  nesting : s.nesting = n
  options : s.options = options
  lookahead : ∃ rest, s.lookahead = token :: rest

theorem Opens.peeked {s t : State} (h : Opens source options token n s t) :
    s.peeked = (token, s) := by
  obtain ⟨rest, hrest⟩ := h.lookahead
  exact State.peeked_of_cons hrest

theorem advance_opens (hkind : token.kind ≠ .endOfFile) :
    (placement source).likeness.AlikeFrom (Opens source options token n) n advance advance
      fun first second => ((placement source).likeness.token first second).and
        (.sure (first = token)) := by
  intro s t h
  have hpeeked := h.peeked
  obtain ⟨rfl, hlooks, hnesting, -, rest, hrest⟩ := h
  rw [run_advance, State.advanced, hpeeked, if_neg hkind]
  have hlater := State.precedes_take hrest
  refine ⟨⟨⟨t.log, rfl⟩, hnesting, hlooks.take hrest⟩, ⟨hlater, hlater⟩, ⟨rfl, ?_⟩, rfl⟩
  exact hlooks.lookahead token (by simp [hrest])

theorem advance_opens_token (hkind : token.kind ≠ .endOfFile) :
    (placement source).likeness.AlikeFrom (Opens source options token n) n advance advance
      (placement source).likeness.token :=
  fun s t h => (advance_opens hkind s t h).imp fun _ _ _ _ hv => hv.1

theorem identifier_opens {text : String} {quoted : Bool} (hkind : token.kind = .name text quoted)
    (expectation : Expectation) :
    (placement source).likeness.AlikeFrom (Opens source options token n) n
      (Reading.identifier expectation) (Reading.identifier expectation)
      (placement source).likeness.identifier := by
  have hend : token.kind ≠ .endOfFile := by simp [hkind]
  intro s t h
  have hrun : EStateM.run (Reading.identifier expectation) s =
      .ok ⟨text, quoted, token.span⟩ (s.take token) := by
    simp only [Reading.identifier, EStateM.run_bind, run_peek, h.peeked, hkind, run_advance,
      State.advanced, EStateM.run_pure, reduceCtorEq, if_false]
  have hends := advance_opens hend s t h
  obtain rfl := h.same
  rw [run_advance, State.advanced, h.peeked, if_neg hend] at hends
  rw [hrun]
  exact ⟨hends.1, hends.2.1, rfl, hends.2.2.1.2⟩

/-- A statement that a token begins is read alike, although nothing was taken before. -/
theorem statement_opens (hbegins : token.kind.beginsStatement options = true) :
    (placement source).likeness.AlikeFrom (Opens source options token {}) {}
      (Statement.read (options.maxNestingDepth + 1)) (Statement.read (options.maxNestingDepth + 1))
      (.option ((placement source).likeness.statement false)) := by
  have hend : token.kind ≠ .endOfFile := by
    intro hkind
    simp [hkind, TokenKind.beginsStatement] at hbegins
  have hexpression (K : Lasting) := (placement source).likeness.alike_expression (n := {})
    (K := K) (options.maxNestingDepth + 1) Operator.lowestPrecedence
  have hstatement := (placement source).likeness.alike_read options.maxNestingDepth
  have hadvance : (placement source).likeness.AlikeFrom (Opens source options token {}) {} advance
      advance (placement source).likeness.token := advance_opens_token hend
  have hsome {f : Reading Statement} (h : (placement source).likeness.AlikeFrom
      (Opens source options token {}) {} f f ((placement source).likeness.statement false)) :
      (placement source).likeness.AlikeFrom (Opens source options token {}) {} (some <$> f)
        (some <$> f) (.option ((placement source).likeness.statement false)) :=
    h.map fun _ _ _ hv => hv
  -- Both runs are in one state, in which the first token was looked at.
  intro s t h
  have hpeeked := h.peeked
  have hst := h
  obtain rfl := h.same
  simp only [Statement.read, Reading.statement, EStateM.run_bind, run_peek, hpeeked]
  split
  · rename_i kind hopener
    have hdepth : 0 < options.maxNestingDepth := by
      simpa [hopener, TokenKind.beginsStatement] using hbegins
    refine alike_conditionalFrom (n := {}) rfl (R := Opens source options token {})
      (S := Opens source options token (Nesting.deeper {})) ?_ ?_ ?_ ?_ ?_ ?_ _ _ hst
    · rintro s' _ ⟨rfl, -, hnesting, -⟩
      exact ⟨hnesting, hnesting, rfl⟩
    · rintro s' _ ⟨rfl, hlooks, hnesting, hoptions, hrest⟩
      refine ⟨rfl, ⟨hlooks.cursor, hlooks.lookahead, hlooks.diagnostics⟩, ?_, hoptions, hrest⟩
      rw [State.enter, hnesting, Nesting.deeper]
    · rintro s' _ ⟨rfl, -, -, hoptions, -⟩
      exact .inl (hoptions ▸ hdepth)
    · intro s' t' hst'
      refine (advance_opens hend s' t' hst').imp fun first _ s' _ hv => ?_
      obtain ⟨⟨-, hspan⟩, rfl⟩ := hv
      exact ⟨rfl, hspan⟩
    · intro m K hm
      rw [← hm]
      exact (placement source).likeness.alike_expression options.maxNestingDepth _
    · exact fun K => hstatement _ K true rfl fun _ => rfl
  · exact hsome (alike_message _ hadvance) _ _ hst
  · rename_i text htext
    refine AlikeFrom.bind (advance_opens hend) (fun first _ => alike_pure fun s hs => ?_) _ _ hst
    obtain ⟨⟨-, hspan⟩, rfl⟩ := hs
    exact ⟨⟨rfl, hspan⟩, rfl, by simp [Statement.declaredName?]⟩
  · rename_i hmark
    simp [hmark, TokenKind.beginsStatement] at hbegins
  · exact hsome (alike_constant hadvance hexpression) _ _ hst
  · exact hsome (alike_group hadvance fun K => hstatement _ K false rfl
      fun h => absurd h (Nat.lt_irrefl 0)) _ _ hst
  · exact hsome (alike_choice hadvance hexpression
      fun K => hstatement _ K false rfl fun h => absurd h (Nat.lt_irrefl 0)) _ _ hst
  · rename_i text quoted hname
    exact hsome (alike_assignment (identifier_opens hname _) (by simp) hexpression) _ _ hst
  · exfalso
    revert hbegins
    cases hkind : token.kind with
    | keyword word => cases word <;> simp_all [TokenKind.beginsStatement]
    | _ => simp_all [TokenKind.beginsStatement]

/-- Any other token leads to an error there, and is not taken. -/
theorem run_statement_of_not_begins {s : State} {rest : List Token} (level : Nat)
    (hlookahead : s.lookahead = token :: rest) (hdepth : s.nesting.depth = 0)
    (hbegins : token.kind.beginsStatement s.options = false) :
    ∃ cause, EStateM.run (Statement.read (level + 1)) s = .error ⟨cause, token.span⟩ s := by
  have hpeeked := State.peeked_of_cons hlookahead
  have hunexpected (expectation : Expectation) :
      EStateM.run (unexpected expectation : Reading (Option Statement)) s =
        .error ⟨.unexpected expectation token.kind, token.span⟩ s := by
    simp only [unexpected, EStateM.run_bind, run_peek, hpeeked, run_fail]
  simp only [Statement.read, Reading.statement, EStateM.run_bind, run_peek, hpeeked]
  split <;> rename_i hkind <;> simp only [hkind, TokenKind.beginsStatement, reduceCtorEq] at hbegins
  · have hmax : ¬ s.nesting.depth < s.options.maxNestingDepth := by simpa [hdepth] using hbegins
    simp only [conditionalFrom, nested, EStateM.run_bind, EStateM.run_get, hmax, if_false, tooDeep,
      run_peek, hpeeked, run_fail]
    exact ⟨_, rfl⟩
  · exact ⟨_, rfl⟩
  · exact ⟨_, hunexpected _⟩

/-- Skipping that has to take the first token takes it alike. -/
theorem recover_opens (hkind : token.kind ≠ .endOfFile) :
    (placement source).likeness.AlikeFrom
      (fun s t => Opens source options token n s t ∧ s.consumed = 0) n (recover 0) (recover 0)
      same := by
  have hturn : (placement source).likeness.AlikeFrom (Opens source options token n) n
      (skipTurn ⟨true, 0, 0⟩) (skipTurn ⟨true, 0, 0⟩) (turned skippingAlike) := by
    intro s t h
    have hends := advance_opens hkind s t h
    have hpeeked := h.peeked
    obtain rfl := h.same
    rw [run_advance, State.advanced, hpeeked, if_neg hkind] at hends
    obtain ⟨⟨-, hnesting, hlies⟩, hlater, -⟩ := hends
    simp only [run_skipTurn, hpeeked, State.advanced, if_neg hkind, Bool.not_true,
      Bool.false_and, Bool.false_eq_true, if_false]
    exact ⟨⟨⟨_, rfl⟩, hnesting, (placement source).note _ hlies⟩,
      hlater.trans ⟨State.precedes_note _ _, State.precedes_note _ _⟩, rfl, fun _ => Nat.succ_pos _⟩
  rintro s t ⟨h, hconsumed⟩
  obtain rfl := h.same
  simp only [recover, EStateM.run_bind, EStateM.run_get, hconsumed, BEq.rfl]
  refine AlikeFrom.map (V := skippingAlike) ?_ (fun _ _ _ _ => rfl) t t h
  refine AlikeFrom.iterate ?_ hturn fun first second => ?_
  · rintro s t _ _ s' t' ⟨rfl, -⟩ - - ⟨⟨_, rfl⟩, -⟩
    rfl
  · exact (alike_skipTurns (K := .sure True) first second).weaken (fun _ hs => ⟨trivial, hs⟩)
      fun _ _ _ _ hv => hv

end FirstStatement

end ConfLang
