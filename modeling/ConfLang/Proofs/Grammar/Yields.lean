import ConfLang.Proofs.Grammar.Leads
import ConfLang.Proofs.Grammar.Language
import ConfLang.Proofs.Adding

/-!
# What readings yield

`Yields o n c k f k' Q` says that whenever `f` gives a value `a` from a state at the cursor `c`,
and no error was reported by then, it has come to a cursor `c'` with `Q a c'`.  Errors are
never taken back, so no error was reported in between either: a rule for two steps needs that
the second one only adds (`Adds`), and a step that reports an error yields anything.

Errors are not limited here.  With a limit, looking at a token could stop the reading.
-/

namespace ConfLang

/-- No error was reported. -/
structure State.Fine (state : State) : Prop where
  stopped : state.stopped = false
  errors : state.errors = []

theorem State.Fine.of_grows {s s' : State} (h : s'.Fine) (hgrows : s.Grows s') : s.Fine where
  stopped := by
    by_contra hstopped
    have := (hgrows.stopped (by simpa using hstopped)).1
    simp [h.stopped] at this
  errors := by
    obtain ⟨rest, hrest⟩ := hgrows.diagnostics
    have herrors := h.errors
    rw [State.errors, ← hrest, List.filter_append, List.append_eq_nil_iff] at herrors
    exact herrors.1

theorem State.not_fine_report {s : State} {diagnostic : Diagnostic}
    (h : diagnostic.isError = true) : ¬ (s.report diagnostic).Fine := by
  intro hfine
  by_cases hstopped : s.stopped = true
  · have := ((s.grows_report diagnostic).stopped hstopped).1
    simp [hfine.stopped] at this
  · have hserious : diagnostic ∈ (s.report diagnostic).errors := by
      unfold report
      rw [if_neg hstopped]
      simp only [h, if_true]
      unfold countError
      simp only
      split
      · split <;> simp [errors, stop, note, h]
      · simp [errors, h]
    simp [hfine.errors] at hserious

namespace Reading

variable {α β σ : Type}

/-- If nothing goes wrong on the way, a reading comes to a cursor that fits its value. -/
def Yields (o : Options) (n : Nesting) (c : Cursor) (k : Nat) (f : Reading α) (k' : Nat)
    (Q : α → Cursor → Prop) : Prop :=
  o.maxErrors = none → ∀ j ≤ k, ∀ s : State, s.Sees o n j c → ∀ a s',
    EStateM.run f s = .ok a s' → s'.Fine → ∃ j' ≤ k', ∃ c', s'.Sees o n j' c' ∧ Q a c'

variable {o : Options} {n m : Nesting} {c c' : Cursor} {k k' k'' : Nat} {f g : Reading α}
  {Q : α → Cursor → Prop}

/-! ## Rules -/

theorem Yields.of_leads (hfg : Leads o n c k f c' k' g) (hg : Yields o n c' k' g k'' Q) :
    Yields o n c k f k'' Q := by
  intro ho j hj s hs a s' hrun hfine
  obtain ⟨j', hj', middle, hmiddle, hsame⟩ := hfg j hj s hs
  exact hg ho j' hj' middle hmiddle a s' (hsame.symm.trans hrun) hfine

theorem yields_of_gives {a : α} (hf : Gives o n c k f c' k' a) (h : Q a c') :
    Yields o n c k f k' Q :=
  Yields.of_leads hf fun _ j hj s hs b s' hrun _ => by
    cases hrun
    exact ⟨j, hj, c', hs, h⟩

theorem yields_pure {a : α} (h : Q a c) : Yields o n c k (pure a) k Q :=
  yields_of_gives gives_pure h

theorem Yields.imp {R : α → Cursor → Prop} (hf : Yields o n c k f k' Q)
    (himp : ∀ a c', Q a c' → R a c') : Yields o n c k f k' R := by
  intro ho j hj s hs a s' hrun hfine
  obtain ⟨j', hj', c', hs', h⟩ := hf ho j hj s hs a s' hrun hfine
  exact ⟨j', hj', c', hs', himp a c' h⟩

theorem Yields.weaken {l l' : Nat} (hf : Yields o n c k f k' Q) (hl : l ≤ k) (hl' : k' ≤ l') :
    Yields o n c l f l' Q := by
  intro ho j hj s hs a s' hrun hfine
  obtain ⟨j', hj', h⟩ := hf ho j (hj.trans hl) s hs a s' hrun hfine
  exact ⟨j', hj'.trans hl', h⟩

theorem Yields.loose (hf : Yields o n c k f 0 Q) : Yields o n c k f 1 Q :=
  hf.weaken (Nat.le_refl k) (Nat.zero_le 1)

theorem Yields.bind {rest : α → Reading β} {R : β → Cursor → Prop} (hf : Yields o n c k f k' Q)
    (hadds : ∀ a, Adds (rest a)) (hrest : ∀ a c', Q a c' → Yields o n c' k' (rest a) k'' R) :
    Yields o n c k (f >>= rest) k'' R := by
  intro ho j hj s hs b s' hrun hfine
  rw [EStateM.run_bind] at hrun
  cases hf' : EStateM.run f s with
  | error problem middle => simp [hf'] at hrun
  | ok a middle =>
      rw [hf'] at hrun
      obtain ⟨j', hj', c', hmiddle, hQ⟩ :=
        hf ho j hj s hs a middle hf' (hfine.of_grows (Adds.of_ok hrun))
      exact hrest a c' hQ ho j' hj' middle hmiddle b s' hrun hfine

theorem Yields.map {g : α → β} {R : β → Cursor → Prop} (hf : Yields o n c k f k' Q)
    (himp : ∀ a c', Q a c' → R (g a) c') : Yields o n c k (g <$> f) k' R := by
  rw [← bind_pure_comp]
  exact hf.bind inferInstance fun a c' h => yields_pure (himp a c' h)

/-- The state can be asked for its options and its nesting, and has not stopped. -/
theorem yields_get {rest : State → Reading α}
    (h : ∀ s : State, s.options = o → s.nesting = n → s.stopped = false →
      Yields o n c k (rest s) k' Q) : Yields o n c k (get >>= rest) k' Q :=
  fun ho j hj s hs => h s hs.options hs.nesting hs.stopped ho j hj s hs

theorem yields_fail {cause : Cause} {span : Span} : Yields o n c k (fail cause span : Reading α) k' Q := by
  intro _ _ _ s _ a s' hrun
  simp [run_fail] at hrun

/-! ## Errors -/

/-- A reading that reports an error whenever it gives a value. -/
def Spoils (f : Reading α) : Prop :=
  ∀ s a s', EStateM.run f s = .ok a s' → ¬ s'.Fine

theorem spoils_report {diagnostic : Diagnostic} (h : diagnostic.isError = true)
    {rest : Unit → Reading α} [Adds (rest ())] : Spoils (report diagnostic >>= rest) := by
  intro s a s' hrun hfine
  rw [EStateM.run_bind, run_report] at hrun
  exact State.not_fine_report h (hfine.of_grows (Adds.of_ok hrun))

theorem Spoils.yields (hf : Spoils f) : Yields o n c k f k' Q :=
  fun _ _ _ s _ a s' hrun hfine => absurd hfine (hf s a s' hrun)

/-- A failure of an attempt is an error, so it need not be looked at if that is reported. -/
theorem Yields.attempt {rest : Except Problem α → Reading β} {R : β → Cursor → Prop}
    (hf : Yields o n c k f k' Q) (hadds : ∀ a, Adds (rest (.ok a)))
    (hok : ∀ a c', Q a c' → Yields o n c' k' (rest (.ok a)) k'' R)
    (herror : ∀ problem, Spoils (rest (.error problem))) :
    Yields o n c k (attempt f >>= rest) k'' R := by
  intro ho j hj s hs b s' hrun hfine
  rw [EStateM.run_bind, run_attempt] at hrun
  cases hf' : EStateM.run f s with
  | error problem middle =>
      rw [hf'] at hrun
      exact absurd hfine (herror problem middle b s' hrun)
  | ok a middle =>
      rw [hf'] at hrun
      obtain ⟨j', hj', c', hmiddle, hQ⟩ :=
        hf ho j hj s hs a middle hf' (hfine.of_grows (Adds.of_ok hrun))
      exact hok a c' hQ ho j' hj' middle hmiddle b s' hrun hfine

/-! ## Nesting and repetition -/

theorem Yields.between {opening closing : State → State}
    (hopening : ∀ s : State, s.nesting = n → opening s = { s with nesting := m })
    (hclosing : ∀ s : State, s.nesting = m → closing s = { s with nesting := n })
    (hgrows : ∀ s : State, s.Grows (closing s)) (hf : Yields o m c k f k' Q) :
    Yields o n c k (between opening closing f) k' Q := by
  intro ho j hj s hs a s' hrun hfine
  rw [run_between, hopening s hs.nesting] at hrun
  cases hf' : EStateM.run f { s with nesting := m } with
  | error problem middle => simp [hf'] at hrun
  | ok b middle =>
      simp only [hf', EStateM.Result.ok.injEq] at hrun
      obtain ⟨rfl, rfl⟩ := hrun
      obtain ⟨j', hj', c', hmiddle, hQ⟩ :=
        hf ho j hj _ (hs.renest m) b middle hf' (hfine.of_grows (hgrows middle))
      rw [hclosing middle hmiddle.nesting]
      exact ⟨j', hj', c', hmiddle.renest n, hQ⟩

/-- What is nested was read with room for one more construct. -/
theorem Yields.nested (hf : n.depth < o.maxNestingDepth → Yields o n.deeper c k f k' Q) :
    Yields o n c k (nested f) k' fun a c' => n.depth < o.maxNestingDepth ∧ Q a c' := by
  refine yields_get fun s hoptions hnesting _ => ?_
  rw [hoptions, hnesting]
  split
  · rename_i hdepth
    exact ((hf hdepth).between (fun _ => State.enter_eq) (fun _ => State.leave_eq)
      fun s => s.grows_renest _).imp fun _ _ h => ⟨hdepth, h⟩
  · intro _ j _ s _ a s' hrun
    unfold tooDeep at hrun
    simp [EStateM.run_bind, run_peek, EStateM.run_get, run_fail] at hrun

/-- A turn of a repetition gets further and keeps an invariant if it asks for more, or else
comes to the result. -/
def Turned (I R : σ → Cursor → Prop) (c : Cursor) : Turn σ → Cursor → Prop
  | .again value, c' => I value c' ∧ c'.left < c.left
  | .done value, c' => R value c'

theorem Yields.iterate {step : σ → Reading (Turn σ)} {I R : σ → Cursor → Prop}
    (hadds : ∀ value, Adds (step value))
    (hstep : ∀ value c, I value c → Yields o n c k (step value) k (Turned I R c))
    {value : σ} (h : I value c) : Yields o n c k (iterate step value) k R := by
  intro ho
  induction hmeasure : c.left using Nat.strongRecOn generalizing value c with
  | ind measure ih =>
      subst hmeasure
      intro j hj s hs a s' hrun hfine
      rw [run_iterate] at hrun
      cases hturn : EStateM.run (step value) s with
      | error problem middle => simp [hturn] at hrun
      | ok turn middle =>
          rw [hturn] at hrun
          cases turn with
          | done value' =>
              simp only [EStateM.Result.ok.injEq] at hrun
              obtain ⟨rfl, rfl⟩ := hrun
              exact hstep value c h ho j hj s hs _ middle hturn hfine
          | again value' =>
              have hfine' : middle.Fine := by
                simp only at hrun
                split at hrun
                · exact hfine.of_grows (Adds.of_ok hrun)
                · cases hrun
                  exact hfine
              obtain ⟨j', hj', c', hmiddle, hI, hless⟩ :=
                hstep value c h ho j hj s hs _ middle hturn hfine'
              simp only [hs.remaining, hmiddle.remaining, hless, if_true] at hrun
              exact ih _ hless hI rfl j' hj' middle hmiddle a s' hrun hfine

/-! ## Tokens -/

theorem yields_peek {rest : Token → Reading α} (hk : k ≤ 1)
    (h : Yields o n c 1 (rest c.next.token) k' Q) : Yields o n c k (peek >>= rest) k' Q :=
  fun ho => Yields.of_leads ((gives_peek (.inl ho) hk).bind .refl) h ho

/-- Behind a look at the next token, nothing wrong stands in front of it if all ends without an
error. -/
theorem clean_of_peek {rest : Token → Reading α} (hadds : ∀ token, Adds (rest token)) (hk : k ≤ 1)
    (ho : o.maxErrors = none) {j : Nat} (hj : j ≤ k) {s s' : State} (hs : s.Sees o n j c) {a : α}
    (hrun : EStateM.run (peek >>= rest) s = .ok a s') (hfine : s'.Fine) :
    ∃ t, t.Sees o n 1 c ∧ EStateM.run (rest c.next.token) t = .ok a s' ∧ c.next.problems = [] := by
  obtain ⟨htoken, hpeeked⟩ := hs.peeked fun _ => .inl ho
  rw [Nat.max_eq_right (hj.trans hk)] at hpeeked
  rw [EStateM.run_bind, run_peek, htoken] at hrun
  refine ⟨s.peeked.2, hpeeked, hrun, ?_⟩
  have herrors := hpeeked.errors
  rw [(hfine.of_grows (Adds.of_ok hrun)).errors] at herrors
  simpa [Cursor.pending] using List.map_eq_nil_iff.mp herrors.symm

/-- Nothing wrong stands in front of a token that was looked at. -/
theorem yields_peek_clean {rest : Token → Reading α} (hadds : ∀ token, Adds (rest token))
    (hk : k ≤ 1) (h : c.next.problems = [] → Yields o n c 1 (rest c.next.token) k' Q) :
    Yields o n c k (peek >>= rest) k' Q := by
  intro ho j hj s hs a s' hrun hfine
  obtain ⟨t, ht, hrest, hproblems⟩ := clean_of_peek hadds hk ho hj hs hrun hfine
  exact h hproblems ho 1 (Nat.le_refl 1) t ht a s' hrest hfine

/-- A token that was taken stands in the source with nothing wrong in front of it. -/
theorem yields_advance {rest : Token → Reading α} (hadds : ∀ token, Adds (rest token))
    (hkind : c.next.token.kind ≠ .endOfFile)
    (h : c.Shows c.next.token → Yields o n c.next.cursor (k - 1) (rest c.next.token) k' Q) :
    Yields o n c k (advance >>= rest) k' Q := by
  intro ho j hj s hs a s' hrun hfine
  obtain ⟨htoken, hpeeked⟩ := hs.peeked fun _ => .inl ho
  rw [show max j 1 = j - 1 + 1 by omega] at hpeeked
  rw [EStateM.run_bind, run_advance, State.advanced, htoken, if_neg hkind] at hrun
  -- Taking the token reports nothing, so what is wrong about it is still there at the end.
  have hfine' : s.peeked.2.Fine :=
    (hfine.of_grows (Adds.of_ok hrun)).of_grows (State.grows_take _ _)
  have hproblems : c.next.problems = [] := by
    have herrors := hpeeked.errors
    rw [hfine'.errors, Cursor.pending] at herrors
    have hnil := List.map_eq_nil_iff.mp herrors.symm
    exact (List.append_eq_nil_iff.mp hnil).1
  exact h ⟨rfl, hproblems, hkind⟩ ho (j - 1) (Nat.sub_le_sub_right hj 1) _
    (hpeeked.take hproblems) a s' hrun hfine

theorem yields_unexpected {expectation : Expectation} :
    Yields o n c k (unexpected expectation : Reading α) k' Q := by
  intro _ _ _ s _ a s' hrun
  simp [unexpected, EStateM.run_bind, run_peek, run_fail] at hrun

theorem yields_accept {kind : TokenKind} (hkind : kind ≠ .endOfFile) (hk : k ≤ 1) :
    Yields o n c k (accept kind) 1 fun taken c' =>
      (taken = true ∧ (∃ span, c.Shows ⟨kind, span⟩) ∧ c' = c.next.cursor) ∨
        (taken = false ∧ c.next.token.kind ≠ kind ∧ c' = c) := by
  unfold accept isAt
  simp only [bind_assoc, pure_bind, decide_eq_true_eq]
  refine yields_peek hk ?_
  split
  · rename_i hsame
    refine yields_advance inferInstance (hsame ▸ hkind) fun hshows => ?_
    exact (yields_pure (.inl ⟨rfl, ⟨_, hshows.of_kind hsame⟩, rfl⟩)).weaken (Nat.le_refl _)
      (Nat.zero_le 1)
  · rename_i hne
    exact yields_pure (.inr ⟨rfl, hne, rfl⟩)

theorem yields_operator? {rest : Option Operator → Reading α} (hk : k ≤ 1)
    (h : Yields o n c 1 (rest (Operator.ofToken? c.next.token.kind)) k' Q) :
    Yields o n c k (operator? >>= rest) k' Q := by
  by_cases hplus : c.next.token.kind = .symbol .plus
  · unfold operator?
    rw [bind_assoc]
    refine yields_peek hk ?_
    rw [if_pos hplus]
    intro _ _ _ s _ a s' hrun
    simp [EStateM.run_bind, run_fail] at hrun
  · exact fun ho => Yields.of_leads ((gives_operator? (.inl ho) hplus hk).bind .refl) h ho

theorem yields_expect {sign : Symbol} {expectation : Expectation} (hk : k ≤ 1) :
    Yields o n c k (expect sign expectation) 0 fun span c' =>
      c.Shows ⟨.symbol sign, span⟩ ∧ c' = c.next.cursor := by
  unfold expect
  refine yields_peek hk ?_
  split
  · rename_i hkind
    refine yields_advance inferInstance (by simp [hkind]) fun hshows => ?_
    exact yields_pure ⟨hshows.of_kind hkind, rfl⟩
  · exact yields_unexpected

theorem yields_identifier {expectation : Expectation} (hk : k ≤ 1) :
    Yields o n c k (identifier expectation) 0 fun name c' =>
      ∃ ts, Grammar.Name ts name ∧ c.Scans ts c' := by
  unfold identifier
  refine yields_peek hk ?_
  split
  · rename_i hkind
    refine yields_advance inferInstance (by simp [hkind]) fun hshows => ?_
    exact yields_pure ⟨_, .name, (hshows.of_kind hkind).scans .nil⟩
  · exact yields_unexpected

theorem yields_closing {bracket : Bracket} {opened : Span} (hk : k ≤ 1) :
    Yields o n c k (closing bracket opened) 0 fun span c' =>
      c.Shows ⟨.symbol bracket.closing, span⟩ ∧ c' = c.next.cursor := by
  unfold closing
  refine yields_peek hk ?_
  split
  · rename_i hkind
    refine yields_advance inferInstance (by simp [hkind]) fun hshows => ?_
    exact yields_pure ⟨hshows.of_kind hkind, rfl⟩
  · exact yields_fail

/-- At the end of the source the line of a directive ends when the end is looked at. -/
theorem yields_peek_end {rest : Token → Reading α} (hadds : ∀ token, Adds (rest token))
    (hline : c.mode.isDirective = true) (hkind : c.next.token.kind = .endOfFile) (hk : k ≤ 1)
    (h : c.EndsLine c.lineEnded → Yields o n c.lineEnded 1 (rest c.next.token) k' Q) :
    Yields o n c k (peek >>= rest) k' Q := by
  intro ho j hj s hs a s' hrun hfine
  obtain ⟨t, ht, hrest, hproblems⟩ := clean_of_peek hadds hk ho hj hs hrun hfine
  have hend : c.AtEnd := ⟨hkind, hproblems⟩
  exact h (.inr ⟨hline, hend, rfl⟩) ho 1 (Nat.le_refl 1) t (ht.lineEnded hend hline) a s' hrest hfine

theorem yields_endOfLine {expectation : Expectation} (hline : c.mode.isDirective = true)
    (hk : k ≤ 1) : Yields o n c k (endOfLine expectation) 1 fun _ c' => c.EndsLine c' := by
  unfold endOfLine
  by_cases hend : c.next.token.kind = .endOfFile
  · refine yields_peek_end (fun _ => by split <;> infer_instance) hline hend hk fun hends => ?_
    rw [hend]
    exact yields_pure hends
  · refine yields_peek hk ?_
    split
    · rename_i hkind
      change Yields o n c 1 (Function.const Token PUnit.unit <$> advance) 1 _
      rw [← bind_pure_comp]
      refine yields_advance inferInstance hend fun hshows => ?_
      exact (yields_pure (.inl ⟨_, hshows, hkind, rfl⟩)).loose
    · exact absurd ‹_› hend
    · exact yields_unexpected

end Reading

end ConfLang
