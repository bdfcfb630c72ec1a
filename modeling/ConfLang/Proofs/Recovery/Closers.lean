import ConfLang.Proofs.Bodies.StrayMark
import ConfLang.Proofs.Precedence.Upcoming
import ConfLang.Proofs.Recovery.Counting

/-!
# Recovery never takes what closes the body around it

From every state a parser can be in, recovery skips some of the tokens in front of it and ends
(`Recovers`).  It ends in front of the first token that is a boundary for what was opened and closed
on the way, and it goes over no token that closes what was not opened on the way.  Only the first
token may be such a one, if it is skipped by force because nothing was taken before.

A body tests its current token before a statement is read.  So the token that is skipped by force
does not close the body, and neither do the other ones (`Enclosure.Holds`).

## Strategy

`skipTurn_cases` says what one turn of the loop does.  By induction on its turns, skipping goes over
a list of tokens in the sense of `Skipping.Passes`, and what holds of such lists is known
(`Skims.recovers`).
-/

namespace ConfLang

open Reading Skipping

variable {s s' : State} {skipping : Skipping} {skipped : List Token} {forced : Bool}

/-! ## One turn -/

namespace Reading

/-- One turn ends skipping in front of a token and takes nothing, or it takes the current token. -/
theorem skipTurn_cases {turn : Turn Skipping}
    (h : (skipTurn skipping).run s = (.ok turn, s')) :
    turn = .done skipping ∧ s'.upcoming = s.upcoming ∧ s'.consumed = s.consumed ∧
        skipping.stopsAt s.previous s'.peeked.1 = true ∨
      ∃ token, turn = .again (skipping.skip token.kind) ∧
        (skipping.forced = true ∨ skipping.stopsAt s.previous token = false) ∧
        s.upcoming = token :: s'.upcoming ∧ s'.consumed = s.consumed + 1 ∧
        s'.previous = token.span := by
  have hrun := run_skipTurn skipping s
  rw [previous_peeked] at hrun
  split at hrun
  · rename_i hstops
    obtain ⟨hturn, rfl⟩ := Prod.mk.inj (h.symm.trans (run_of_ok hrun))
    rw [Bool.and_eq_true] at hstops
    refine .inl ⟨Except.ok.inj hturn, s.upcoming_peeked, s.consumed_peeked, ?_⟩
    rw [s.peeked_peeked]
    exact hstops.2
  · rename_i hgoes
    obtain ⟨hturn, rfl⟩ := Prod.mk.inj (h.symm.trans (run_of_ok hrun))
    obtain rfl := Except.ok.inj hturn
    rw [State.advanced, s.peeked_peeked]
    obtain ⟨rest, hfirst⟩ := s.lookahead_peeked
    by_cases hend : s.peeked.1.kind = .endOfFile
    · -- the end of the file is not taken, not even by force
      rw [if_pos hend, if_pos hend]
      refine .inl ⟨rfl, s.upcoming_peeked, s.consumed_peeked, ?_⟩
      have hsame : (s.peeked.2.note (.skipped s.peeked.1)).lookahead = s.peeked.1 :: rest := hfirst
      rw [State.peeked_of_cons hsame, stopsAt, hend]
    · rw [if_neg hend, if_neg hend]
      refine .inr ⟨s.peeked.1, rfl, ?_, ?_, ?_, rfl⟩
      · simpa [or_iff_not_imp_left] using hgoes
      · rw [← s.upcoming_peeked]
        exact State.upcoming_of_cons hfirst hend
      · exact congrArg (· + 1) s.consumed_peeked

/-- A turn in front of some others. -/
theorem Rounds.cons {σ : Type} {step : σ → Reading (Turn σ)} {value value' value'' : σ}
    {s'' : State} (hturn : (step value).run s = (.ok (.again value'), s'))
    (hless : s'.remaining < s.remaining) (h : Rounds step value' s' value'' s'') :
    Rounds step value s value'' s'' := by
  induction h with
  | none => exact .more .none hturn hless
  | more _ hturn' hless' ih => exact .more ih hturn' hless'

end Reading

/-! ## The whole loop -/

/-- Skipping goes over some tokens, and ends behind them. -/
structure Skims (skipping : Skipping) (s : State) (skipped : List Token) (s' : State) : Prop where
  upcoming : s.upcoming = skipped ++ s'.upcoming
  consumed : s'.consumed = s.consumed + skipped.length
  passes : skipping.Passes s.previous skipped
  rounds : ∀ before, before <+: skipped → ∃ middle,
    Rounds skipTurn skipping s (skipping.after before) middle ∧
      s.upcoming = before ++ middle.upcoming
  ends : (skipping.after skipped).stopsAt (lastPlace s.previous skipped) s'.peeked.1 = true

theorem Skims.cons {middle : State} {token : Token}
    (hturn : (skipTurn skipping).run s = (.ok (.again (skipping.skip token.kind)), middle))
    (hless : middle.remaining < s.remaining)
    (hgoes : skipping.forced = true ∨ skipping.stopsAt s.previous token = false)
    (hupcoming : s.upcoming = token :: middle.upcoming)
    (hconsumed : middle.consumed = s.consumed + 1) (hprevious : middle.previous = token.span)
    (h : Skims (skipping.skip token.kind) middle skipped s') :
    Skims skipping s (token :: skipped) s' where
  upcoming := by rw [hupcoming, h.upcoming, List.cons_append]
  consumed := by
    rw [h.consumed, hconsumed, List.length_cons]
    omega
  passes := .cons hgoes (hprevious ▸ h.passes)
  rounds before hbefore := by
    rcases List.prefix_cons_iff.mp hbefore with rfl | ⟨before, rfl, hrest⟩
    · exact ⟨s, .none, rfl⟩
    · obtain ⟨last, hrounds, htokens⟩ := h.rounds before hrest
      exact ⟨last, hrounds.cons hturn hless, by rw [hupcoming, htokens, List.cons_append]⟩
  ends := by
    rw [after_cons, lastPlace_cons, ← hprevious]
    exact h.ends

/-- Skipping goes over tokens until it ends by itself. -/
theorem skims_of_loops {result : Except Problem Skipping × State}
    (h : Loops skipTurn skipping s result) (hs : s.Ordered) :
    ∃ skipped s', result = (.ok (skipping.after skipped), s') ∧ Skims skipping s skipped s' := by
  induction h with
  | @done skipping value s s' hturn =>
      rcases skipTurn_cases hturn with ⟨hdone, hupcoming, hconsumed, hstops⟩ | ⟨_, hagain, -⟩
      · cases hdone
        refine ⟨[], s', rfl, hupcoming.symm, hconsumed, .nil, fun before hbefore => ?_, hstops⟩
        obtain rfl := List.prefix_nil.mp hbefore
        exact ⟨s, .none, rfl⟩
      · cases hagain
  | @again skipping value s middle result hturn _ ih =>
      obtain ⟨hordered, hless⟩ := progresses_skipTurn skipping s value middle hs hturn
      obtain ⟨skipped, s', rfl, hskims⟩ := ih hordered
      rcases skipTurn_cases hturn with
        ⟨hdone, -⟩ | ⟨token, hagain, hgoes, htoken, hconsumed, hplace⟩
      · cases hdone
      · cases hagain
        exact ⟨token :: skipped, s', rfl, hskims.cons hturn hless hgoes htoken hconsumed hplace⟩
  | @failed skipping problem s s' hturn =>
      have hrun := run_skipTurn skipping s
      split at hrun
      · cases hturn.symm.trans (run_of_ok hrun)
      · cases hturn.symm.trans (run_of_ok hrun)

/-! ## Recovery -/

/-- Recovery from a state skips some tokens and ends in another state.  If nothing was taken before,
the first token is skipped by force. -/
structure Recovers (forced : Bool) (s : State) (skipped : List Token) (s' : State) : Prop where
  /-- The skipped tokens are the next ones of the source. -/
  upcoming : s.upcoming = skipped ++ s'.upcoming
  consumed : s'.consumed = s.consumed + skipped.length
  /-- No front of them closes more than it opens. -/
  balanced : ∀ (pairing : Pairing) before, before <+: counted forced skipped →
    pairing.closed before ≤ pairing.opened before
  /-- The marks among them are inside of blocks that are opened among them. -/
  marks : ∀ before which span rest, counted forced skipped = before ++ ⟨.mark which, span⟩ :: rest →
    Pairing.chains.closed before < Pairing.chains.opened before
  /-- Behind each front, the loop has counted what is open.  So nothing was taken away from zero. -/
  counts : ∀ before, before <+: skipped → ∃ skipping middle,
    Rounds skipTurn { forced } s skipping middle ∧ s.upcoming = before ++ middle.upcoming ∧
      ∀ pairing : Pairing, pairing.count skipping + pairing.closed (counted forced before) =
        pairing.opened (counted forced before)
  /-- None of them is a boundary, but for the one that is skipped by force. -/
  goesOn : ∀ before token rest, skipped = before ++ token :: rest →
    forced = true ∧ before = [] ∨
      stopsBehind (counted forced before) (lastPlace s.previous before) token = false
  /-- The token behind them is a boundary. -/
  ends : stopsBehind (counted forced skipped) (lastPlace s.previous skipped) s'.peeked.1 = true

theorem Skims.recovers (h : Skims { forced } s skipped s') : Recovers forced s skipped s' where
  upcoming := h.upcoming
  consumed := h.consumed
  balanced pairing _ hbefore := (h.passes.inside pairing).closed_le hbefore
  marks before which span rest hsplit := h.passes.inside .chains before _ rest hsplit rfl
  counts before hbefore := by
    obtain ⟨middle, hrounds, htokens⟩ := h.rounds before hbefore
    exact ⟨_, middle, hrounds, htokens, h.passes.exact hbefore⟩
  goesOn before token rest hsplit := by
    subst hsplit
    rw [← h.passes.stopsAt_after (List.prefix_append before _)]
    refine h.passes.goesOn.imp_left fun hforced => ?_
    obtain rfl := eq_nil_of_forced_after hforced
    exact ⟨hforced, rfl⟩
  ends := by
    rw [← h.passes.stopsAt_after (List.prefix_refl skipped)]
    exact h.ends

/-- As long as nothing is taken, the current token is the first one that is skipped. -/
theorem Skims.first_eq {token : Token} {rest : List Token} {s₁ s₂ : State}
    (h : Skims skipping s₂ (token :: rest) s') (hcontinues : s₂.Continues s₁.peeked.2)
    (hsame : s₂.consumed = s₁.peeked.2.consumed) (hkind : s₁.peeked.1.kind ≠ .endOfFile) :
    token = s₁.peeked.1 := by
  obtain ⟨more, hfirst⟩ := s₁.lookahead_peeked
  rcases hcontinues.current _ _ hfirst with ⟨-, more', hfirst'⟩ | ⟨htaken, -⟩
  · have hupcoming := h.upcoming
    rw [State.upcoming_of_cons hfirst' hkind] at hupcoming
    exact (List.cons.inj hupcoming).1.symm
  · exact absurd hsame (Nat.ne_of_gt htaken)

theorem exists_skims (hs : s.Ordered) (start : Nat) : ∃ skipped s',
    (recover start).run s = (.ok (), s') ∧
      Skims { forced := s.consumed == start } s skipped s' := by
  have hloops := loops_iterate progresses_skipTurn hs { forced := s.consumed == start }
  obtain ⟨skipped, s', hrun, hskims⟩ := skims_of_loops hloops hs
  refine ⟨skipped, s', ?_, hskims⟩
  rw [recover_run, bind_run, hrun]
  rfl

/-! ## Bodies -/

namespace Enclosure

/-- The pairs of which a closer ends the statements of a body. -/
def isEndedBy : Enclosure → Pairing → Bool
  | braces, .braces => true
  | branch _, .chains => true
  | branch inBraces, .braces => inBraces
  | _, _ => false

/-- Some tokens stand in a body from its beginning on, and none of them closes it. -/
def Holds (enclosure : Enclosure) (ts : List Token) : Prop :=
  ∀ pairing, enclosure.isEndedBy pairing = true → pairing.Inside ts

theorem Holds.append {enclosure : Enclosure} {ts more : List Token} (h : enclosure.Holds ts)
    (hmore : enclosure.Holds more) : enclosure.Holds (ts ++ more) :=
  fun pairing hended => (h pairing hended).append (hmore pairing hended)

end Enclosure

namespace Reading

theorem run_atEndOfBlock (h : atEndOfBlock.run s = (.ok false, s')) :
    s' = s.peeked.2 ∧ s.peeked.1.kind ≠ .symbol .closeBrace := by
  rw [atEndOfBlock, bind_run, run_of_ok (run_peek s)] at h
  change (Except.ok (decide _), _) = _ at h
  obtain ⟨hend, rfl⟩ := Prod.mk.inj h
  have hend := of_decide_eq_false (Except.ok.inj hend)
  exact ⟨rfl, fun hkind => hend (.inl hkind)⟩

/-- Where a statement of a body is read, the current token does not close the body. -/
theorem not_ends_of_atEnd {enclosure : Enclosure} (h : enclosure.atEnd.run s = (.ok false, s'))
    {pairing : Pairing} (hended : enclosure.isEndedBy pairing = true) :
    pairing.ends s.peeked.1.kind = false := by
  cases enclosure with
  | program => cases pairing <;> cases hended
  | braces =>
      obtain ⟨-, hbrace⟩ := run_atEndOfBlock h
      cases pairing with
      | braces =>
          generalize s.peeked.1.kind = kind at hbrace
          cases kind <;> simp_all [Pairing.ends]
      | chains => cases hended
  | branch inBraces =>
      obtain ⟨-, hmark, -, hbrace⟩ := run_atEndOfBranch h
      generalize s.peeked.1.kind = kind at hmark hbrace
      cases pairing <;> cases kind <;> simp_all [Pairing.ends, Enclosure.isEndedBy]

/-- Where a statement of a body cannot be read, none of the tokens that are skipped closes the
body. -/
theorem holds_of_failure {enclosure : Enclosure} {level : Nat} {s₁ s₂ : State} {problem : Problem}
    (hs : s.Ordered) (hend : enclosure.atEnd.run s = (.ok false, s₁))
    (hread : (Statement.read level).run s₁ = (.error problem, s₂)) :
    ∃ skipped s', (recover s₁.consumed).run (s₂.report problem.diagnostic) = (.ok (), s') ∧
      Skims { forced := s₂.consumed == s₁.consumed } (s₂.report problem.diagnostic) skipped s' ∧
      enclosure.Holds skipped := by
  obtain ⟨hkind, rfl⟩ := atEnd_run_false hend
  have hread' := continues_of_run (continues_peeked hs).ordered hread
  have hcontinues := hread'.trans
    (order.report s₂ problem.diagnostic trivial hread'.ordered)
  have hconsumed : (s₂.report problem.diagnostic).consumed = s₂.consumed := by
    rw [State.report_frame]
  obtain ⟨skipped, s', hrun, hskims⟩ := exists_skims hcontinues.ordered s.peeked.2.consumed
  refine ⟨skipped, s', hrun, hconsumed ▸ hskims, fun pairing hended => ?_⟩
  refine (hskims.passes.inside pairing).of_counted fun hforced token rest hskipped => ?_
  subst hskipped
  rw [hskims.first_eq hcontinues (beq_iff_eq.mp hforced) hkind]
  exact not_ends_of_atEnd hend hended

end Reading

/-! ## Main result -/

/-- **Recovery takes no closer that is not its own.**  From every reachable state, whatever the
count of tokens was in front of the statement that failed, recovery skips tokens as `Recovers` says.
And where a body tests that it does not end, and the statement behind cannot be read, recovery goes
on to the next turn of that body without taking what closes it: if all that was read of the body
before is inside of it, so are the tokens that are skipped. -/
theorem recovery_keeps_closers {options : Options} {source : String}
    (h : s.Reachable options source) :
    (∀ start, ∃ skipped s', (recover start).run s = (.ok (), s') ∧
      Recovers (s.consumed == start) s skipped s') ∧
    ∀ (enclosure : Enclosure) level s₁ problem s₂, enclosure.atEnd.run s = (.ok false, s₁) →
      (Statement.read level).run s₁ = (.error problem, s₂) → ∃ skipped s',
        (∀ statements, (bodyTurn enclosure.atEnd (Statement.read level) statements).run s =
          (.ok (.again statements), s')) ∧
        Recovers (s₂.consumed == s₁.consumed) (s₂.report problem.diagnostic) skipped s' ∧
        ∀ read, enclosure.Holds read → enclosure.Holds (read ++ skipped) := by
  constructor
  · intro start
    obtain ⟨skipped, s', hrun, hskims⟩ := exists_skims h.ordered start
    exact ⟨skipped, s', hrun, hskims.recovers⟩
  · intro enclosure level s₁ problem s₂ hend hread
    obtain ⟨skipped, s', hrun, hskims, hholds⟩ := holds_of_failure h.ordered hend hread
    refine ⟨skipped, s', fun statements => ?_, hskims.recovers, fun read hread =>
      hread.append hholds⟩
    have happend : (appendStatement (Statement.read level) statements).run s₁ =
        (.ok statements, s') := by
      rw [appendStatement_run, hread]
      simp only [bind_run, hrun]
      rfl
    rw [bodyTurn, bind_run, hend]
    simp only [Bool.false_eq_true, if_false, bind_run, happend]
    rfl

/-- A bracket begins no statement, and a pair of braces behind it is skipped.  The brace behind the
pair closes the body and is left. -/
theorem closers_kept_in_block :
    let s := State.ofSource "[ \x7b \x7d ] \x7d" {}
    s.Reachable {} "[ \x7b \x7d ] \x7d" ∧ Enclosure.braces.atEnd.run s = (.ok false, s.peeked.2) ∧
      ∃ problem s₂ skipped s', (Statement.read 1).run s.peeked.2 = (.error problem, s₂) ∧
        (bodyTurn Enclosure.braces.atEnd (Statement.read 1) #[]).run s = (.ok (.again #[]), s') ∧
        Recovers true (s₂.report problem.diagnostic) skipped s' ∧ Enclosure.braces.Holds skipped ∧
        s'.consumed = 4 ∧ s'.peeked.1.kind = .symbol .closeBrace := by
  intro s
  have hreachable : s.Reachable {} "[ \x7b \x7d ] \x7d" := .start
  have hend : Enclosure.braces.atEnd.run s = (.ok false, s.peeked.2) := by
    rw [Enclosure.atEnd, atEndOfBlock, bind_run, run_of_ok (run_peek s)]
    exact congrArg (Except.ok ·, s.peeked.2) (by decide +kernel)
  have hfails : ((Statement.read 1).run s.peeked.2).1.isOk = false := by decide +kernel
  have hforced : ((Statement.read 1).run s.peeked.2).2.consumed = s.peeked.2.consumed := by
    decide +kernel
  have hconsumed :
      ((bodyTurn Enclosure.braces.atEnd (Statement.read 1) #[]).run s).2.consumed = 4 := by
    decide +kernel
  have hkind : ((bodyTurn Enclosure.braces.atEnd (Statement.read 1) #[]).run s).2.peeked.1.kind =
      .symbol .closeBrace := by decide +kernel
  cases hread : (Statement.read 1).run s.peeked.2 with
  | mk result s₂ =>
      rw [hread] at hfails hforced
      cases result with
      | ok _ => cases hfails
      | error problem =>
          obtain ⟨skipped, s', hrun, hrecovers, hholds⟩ :=
            (recovery_keeps_closers hreachable).2 .braces 1 s.peeked.2 problem s₂ hend hread
          rw [hrun] at hconsumed hkind
          rw [beq_iff_eq.mpr hforced] at hrecovers
          have hnone : Enclosure.braces.Holds [] := fun pairing _ before token rest hsplit =>
            absurd hsplit (by simp)
          exact ⟨hreachable, hend, problem, s₂, skipped, s', rfl, hrun #[], hrecovers,
            hholds [] hnone, hconsumed, hkind⟩

end ConfLang
