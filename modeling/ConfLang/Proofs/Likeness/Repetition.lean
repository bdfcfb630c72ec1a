import ConfLang.Proofs.Likeness.Token

/-!
# Repeating steps alike

A repetition ends when its step asks for no other turn, or when a turn has taken nothing from the
source.  The first question is decided alike in alike readings.  The second one is about bytes,
which need not be as many on both sides; but a step asks for another turn only in front of a token
that it has looked at (`Reading.Watches`), and taking that token leaves less of either source.
-/

namespace ConfLang

open Reading

variable {σ : Type}

/-! ## Steps that look ahead -/

/-- A step that asks for another turn does so in front of a token that is not the end of the file.
Once that token was looked at, what is left to do is `behind`. -/
structure Reading.Watches (step behind : σ → Reading (Turn σ)) : Prop where
  again : ∀ {value s value' s'}, EStateM.run (step value) s = .ok (.again value') s' →
    s.peeked.1.kind ≠ .endOfFile ∧ EStateM.run (behind value) s.peeked.2 = .ok (.again value') s'

/-- A step that begins by looking at the current token would do the same if that token had been
looked at before. -/
theorem Reading.watches_of_peek {step : σ → Reading (Turn σ)} {rest : σ → Token → Reading (Turn σ)}
    (hstep : ∀ value, step value = peek >>= rest value)
    (hend : ∀ {value token s value' s'}, token.kind = .endOfFile →
      EStateM.run (rest value token) s ≠ .ok (.again value') s') : Watches step step := by
  refine ⟨fun {value s value' s'} hrun => ?_⟩
  rw [hstep, EStateM.run_bind, run_peek] at hrun ⊢
  refine ⟨fun hkind => hend hkind hrun, ?_⟩
  rw [State.peeked_peeked]
  exact hrun

/-! ### Where a body ends -/

/-- A question whether a body ends says that it goes on only behind a look at a token, which is not
the end of the file. -/
structure Reading.WatchesEnd (atEnd : Reading Bool) : Prop where
  goesOn : ∀ {s s'}, EStateM.run atEnd s = .ok false s' →
    s.peeked.1.kind ≠ .endOfFile ∧ s' = s.peeked.2

theorem Reading.watchesEnd_program : WatchesEnd atEndOfProgram := by
  refine ⟨fun {s s'} hrun => ?_⟩
  simp only [atEndOfProgram, EStateM.run_bind, run_peek, EStateM.run_get, EStateM.run_pure,
    EStateM.Result.ok.injEq, decide_eq_false_iff_not, not_or] at hrun
  exact ⟨hrun.1.1, hrun.2.symm⟩

theorem Reading.watchesEnd_block : WatchesEnd atEndOfBlock := by
  refine ⟨fun {s s'} hrun => ?_⟩
  simp only [atEndOfBlock, EStateM.run_bind, run_peek, EStateM.run_get, EStateM.run_pure,
    EStateM.Result.ok.injEq, decide_eq_false_iff_not, not_or] at hrun
  exact ⟨hrun.1.2.1, hrun.2.symm⟩

theorem Reading.watchesEnd_branch {inBraces : Bool} : WatchesEnd (atEndOfBranch inBraces) := by
  refine ⟨fun {s s'} hrun => ?_⟩
  rw [atEndOfBranch, EStateM.run_bind, EStateM.run_get] at hrun
  simp only at hrun
  split at hrun
  · cases hrun
  · rw [EStateM.run_bind, run_peek] at hrun
    simp only at hrun
    split at hrun
    · cases hrun
    · cases hrun
    · rename_i hclose
      cases hrun
      exact ⟨by simp [hclose], rfl⟩
    · rename_i hend _
      cases hrun
      exact ⟨hend, rfl⟩

/-- The turn of a body goes on with the next statement. -/
theorem Reading.watches_bodyTurn {atEnd : Reading Bool} {statement : Reading (Option Statement)}
    (h : WatchesEnd atEnd) : Watches (bodyTurn atEnd statement)
      fun statements => .again <$> appendStatement statement statements := by
  refine ⟨fun {statements s statements' s'} hrun => ?_⟩
  obtain ⟨isEnd, middle, hend, hrest⟩ := ok_of_run_bind hrun
  cases isEnd with
  | true => cases hrest
  | false =>
      obtain ⟨hkind, rfl⟩ := h.goesOn hend
      refine ⟨hkind, ?_⟩
      rw [← bind_pure_comp]
      exact hrest

theorem State.remaining_peeked (s : State) : s.peeked.2.remaining = s.remaining := by
  cases hlookahead : s.lookahead with
  | nil =>
      rw [peeked_of_nil hlookahead, scan_eq, foldl_report_frame]
      rfl
  | cons token rest => rw [peeked_of_cons hlookahead]

namespace StateLikeness

variable {L : StateLikeness} {n : Nesting} {K : Lasting}

/-! ## Turns -/

/-- How the turns of repetitions are alike that need less to end than to go on. -/
def turnedInto (V W : σ → σ → Lasting) : Reading.Turn σ → Reading.Turn σ → Lasting
  | .again a, .again b => V a b
  | .done a, .done b => W a b
  | _, _ => .sure False

/-- How the turns of repetitions are alike. -/
def turned (V : σ → σ → Lasting) : Reading.Turn σ → Reading.Turn σ → Lasting
  | .again a, .again b => V a b
  | .done a, .done b => V a b
  | _, _ => .sure False

theorem turnedInto_of_turned {V : σ → σ → Lasting} {turn turn' : Reading.Turn σ} {s : State}
    (h : turned V turn turn' s) : turnedInto V V turn turn' s := by
  cases turn <;> cases turn' <;> exact h

/-! ## Repetitions -/

variable {V W : σ → σ → Lasting} {step step' : σ → Reading (Reading.Turn σ)} {a b : σ}

/-- One round of a repetition, and what is known of the rounds behind it. -/
theorem Ends.iterate {s t : State}
    (hremaining : ∀ {a' b' s' t'}, EStateM.run (step a) s = .ok (.again a') s' →
      EStateM.run (step' b) t = .ok (.again b') t' → L.state n s' t' →
      (s'.remaining < s.remaining ↔ t'.remaining < t.remaining))
    (hvalue : ∀ a b s, V a b s → W a b s)
    (hfirst : L.Ends n s t (turnedInto V W) (EStateM.run (step a) s) (EStateM.run (step' b) t))
    (hrest : ∀ a b s' t', s'.remaining < s.remaining → s.Grows s' → L.state n s' t' → V a b s' →
      L.Ends n s' t' W (EStateM.run (Reading.iterate step a) s')
        (EStateM.run (Reading.iterate step' b) t')) :
    L.Ends n s t W (EStateM.run (Reading.iterate step a) s)
      (EStateM.run (Reading.iterate step' b) t) := by
  rw [Reading.run_iterate, Reading.run_iterate]
  cases hf : EStateM.run (step a) s <;> cases hg : EStateM.run (step' b) t <;>
    simp only [hf, hg, Ends] at hfirst
  · rename_i turn s' turn' t'
    obtain ⟨hst', hlater, hturn⟩ := hfirst
    cases turn <;> cases turn' <;> simp only [turnedInto, Lasting.sure_holds] at hturn
    · simp only [← hremaining hf hg hst']
      split
      · rename_i hless
        exact (hrest _ _ s' t' hless hlater.grows hst' hturn).from_earlier hlater
      · exact ⟨hst', hlater, hvalue _ _ _ hturn⟩
    · exact ⟨hst', hlater, hturn⟩
  · exact hfirst

/-- Where both steps ask for another turn, less is left on both sides or on none. -/
theorem Ends.remaining_iff {α β : Type} {V : α → β → Lasting} {f : Reading α} {g : Reading β}
    {a : α} {b : β} {s t s' t' : State} (hst : L.state n s t)
    (hends : L.state n s.peeked.2 t.peeked.2 → L.Ends n s.peeked.2 t.peeked.2 V
      (EStateM.run f s.peeked.2) (EStateM.run g t.peeked.2))
    (hf : s.peeked.1.kind ≠ .endOfFile ∧ EStateM.run f s.peeked.2 = .ok a s')
    (hg : t.peeked.1.kind ≠ .endOfFile ∧ EStateM.run g t.peeked.2 = .ok b t') :
    s'.remaining < s.remaining ↔ t'.remaining < t.remaining := by
  have hpeeked := (alike_peeked hst).1
  have hboth := hends hpeeked
  rw [hf.2, hg.2] at hboth
  rw [← s.remaining_peeked, ← t.remaining_peeked]
  exact L.remaining hpeeked hboth.1 hboth.2.1.first hboth.2.1.second (State.looks_peeked hf.1)
    (State.looks_peeked hg.1)

variable {behind behind' : σ → Reading (Reading.Turn σ)}

/-- A repetition does the same on both sides if its step does. -/
theorem Alike.iterate_behind
    (hstep : ∀ a b, L.Alike n (K.and (V a b)) (step a) (step' b) (turned V))
    (hbehind : ∀ a b, L.Alike n (K.and (V a b)) (behind a) (behind' b) (turned V))
    (hwatches : Watches step behind) (hwatches' : Watches step' behind')
    (a b : σ) : L.Alike n (K.and (V a b)) (Reading.iterate step a)
      (Reading.iterate step' b) V := by
  -- The induction is on what is left of the first source; what is left of the second one may be
  -- less or more.
  intro s
  induction hmeasure : s.remaining using Nat.strongRecOn generalizing a b s with
  | ind measure ih =>
      subst hmeasure
      intro t ⟨hst, hs⟩
      refine Ends.iterate (V := V) (fun hf hg _ => ?_) (fun _ _ _ hv => hv) ?_
        fun a' b' s' t' hless hgrows hst' hv => ?_
      · have hlasts := (K.and (V a b)).lasts s.grows_peeked hs
        exact Ends.remaining_iff hst (fun hpeeked => hbehind a b _ _ ⟨hpeeked, hlasts⟩)
          (hwatches.again hf) (hwatches'.again hg)
      · exact (hstep a b s t ⟨hst, hs⟩).imp fun _ _ _ _ => turnedInto_of_turned
      · exact ih _ hless a' b' s' rfl t' ⟨hst', K.lasts hgrows hs.1, hv⟩

theorem Alike.iterate
    (hstep : ∀ a b, L.Alike n (K.and (V a b)) (step a) (step' b) (turned V))
    (hwatches : Watches step step) (hwatches' : Watches step' step')
    (a b : σ) : L.Alike n (K.and (V a b)) (Reading.iterate step a)
      (Reading.iterate step' b) V :=
  .iterate_behind hstep hstep hwatches hwatches' a b

/-- The first round of a repetition need not start from alike states if it is known alike whether
it is the last one, and if it is, it may end with less than it would go on with. -/
theorem AlikeFrom.iterate_into {R : State → State → Prop}
    (hremaining : ∀ {s t a' b' s' t'}, R s t → EStateM.run (step a) s = .ok (.again a') s' →
      EStateM.run (step' b) t = .ok (.again b') t' → L.state n s' t' →
      (s'.remaining < s.remaining ↔ t'.remaining < t.remaining))
    (hvalue : ∀ a b s, V a b s → W a b s)
    (hfirst : L.AlikeFrom R n (step a) (step' b) (turnedInto V W))
    (hrest : ∀ a b, L.Alike n (V a b) (Reading.iterate step a) (Reading.iterate step' b) V) :
    L.AlikeFrom R n (Reading.iterate step a) (Reading.iterate step' b) W := by
  intro s t hst
  refine Ends.iterate (hremaining hst) hvalue (hfirst s t hst) fun a' b' s' t' _ _ hst' hv => ?_
  exact (hrest a' b' s' t' ⟨hst', hv⟩).imp fun a b s _ => hvalue a b s

theorem AlikeFrom.iterate {R : State → State → Prop}
    (hremaining : ∀ {s t a' b' s' t'}, R s t → EStateM.run (step a) s = .ok (.again a') s' →
      EStateM.run (step' b) t = .ok (.again b') t' → L.state n s' t' →
      (s'.remaining < s.remaining ↔ t'.remaining < t.remaining))
    (hfirst : L.AlikeFrom R n (step a) (step' b) (turned V))
    (hrest : ∀ a b, L.Alike n (V a b) (Reading.iterate step a) (Reading.iterate step' b) V) :
    L.AlikeFrom R n (Reading.iterate step a) (Reading.iterate step' b) V :=
  .iterate_into hremaining (fun _ _ _ hv => hv)
    (fun s t hst => (hfirst s t hst).imp fun _ _ _ _ => turnedInto_of_turned) hrest

end StateLikeness

end ConfLang
