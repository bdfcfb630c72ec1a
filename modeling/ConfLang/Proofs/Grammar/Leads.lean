import ConfLang.Proofs.Grammar.View

/-!
# Where readings lead

`Leads o n c k f c' k' g` says that from any state at the cursor `c` that has looked at
`k` tokens or fewer, `f` ends in the same way as `g` does from some state at the cursor `c'`
that has looked at `k'` tokens or fewer.  So `f` has come from `c` to `c'` without an error,
and `g` is what is left to do.  If nothing is left but to give a value, this is `Gives`.

How many tokens were looked at matters for one thing only: raw text can be taken if there are
none.  No more than one token is looked at in front of any construct of the language.
-/

namespace ConfLang.Reading

variable {α β σ : Type}

/-- Between two cursors, a reading does what is missing to another one, and nothing goes
wrong. -/
def Leads (o : Options) (n : Nesting) (c : Cursor) (k : Nat) (f : Reading α) (c' : Cursor)
    (k' : Nat) (g : Reading α) : Prop :=
  ∀ j ≤ k, ∀ s : State, s.Sees o n j c →
    ∃ j' ≤ k', ∃ s' : State, s'.Sees o n j' c' ∧ EStateM.run f s = EStateM.run g s'

/-- Between two cursors, a reading gives a value, and nothing goes wrong. -/
def Gives (o : Options) (n : Nesting) (c : Cursor) (k : Nat) (f : Reading α) (c' : Cursor)
    (k' : Nat) (a : α) : Prop :=
  Leads o n c k f c' k' (pure a)

variable {o : Options} {n m : Nesting} {c c' c'' : Cursor} {k k' k'' : Nat}
  {f g h : Reading α} {a : α}

/-! ## Rules -/

theorem Leads.refl : Leads o n c k f c k f :=
  fun j hj s hs => ⟨j, hj, s, hs, rfl⟩

theorem Leads.trans (hfg : Leads o n c k f c' k' g) (hgh : Leads o n c' k' g c'' k'' h) :
    Leads o n c k f c'' k'' h := by
  intro j hj s hs
  obtain ⟨j', hj', s', hs', hrun⟩ := hfg j hj s hs
  obtain ⟨j'', hj'', s'', hs'', hrun'⟩ := hgh j' hj' s' hs'
  exact ⟨j'', hj'', s'', hs'', hrun.trans hrun'⟩

/-- Fewer tokens were looked at before, or more afterwards. -/
theorem Leads.weaken {l l' : Nat} (hfg : Leads o n c k f c' k' g) (hl : l ≤ k) (hl' : k' ≤ l') :
    Leads o n c l f c' l' g := by
  intro j hj s hs
  obtain ⟨j', hj', h⟩ := hfg j (hj.trans hl) s hs
  exact ⟨j', hj'.trans hl', h⟩

theorem Leads.bind {rest : α → Reading β} (hfg : Leads o n c k f c' k' g) :
    Leads o n c k (f >>= rest) c' k' (g >>= rest) := by
  intro j hj s hs
  obtain ⟨j', hj', s', hs', hrun⟩ := hfg j hj s hs
  exact ⟨j', hj', s', hs', by rw [EStateM.run_bind, hrun, EStateM.run_bind]⟩

theorem gives_pure : Gives o n c k (pure a) c k a := Leads.refl

theorem Gives.weaken {l l' : Nat} (hf : Gives o n c k f c' k' a) (hl : l ≤ k) (hl' : k' ≤ l') :
    Gives o n c l f c' l' a :=
  Leads.weaken hf hl hl'

/-- To have looked at no token is as good as to have looked at one. -/
theorem Gives.loose (hf : Gives o n c k f c' 0 a) : Gives o n c k f c' 1 a :=
  hf.weaken (Nat.le_refl k) (Nat.zero_le 1)

theorem Gives.bind {rest : α → Reading β} {g : Reading β} (hf : Gives o n c k f c' k' a)
    (hrest : Leads o n c' k' (rest a) c'' k'' g) : Leads o n c k (f >>= rest) c'' k'' g :=
  (Leads.bind hf).trans hrest

theorem Gives.bind_pure {rest : α → β} (hf : Gives o n c k f c' k' a) :
    Gives o n c k (f >>= fun a => pure (rest a)) c' k' (rest a) :=
  hf.bind gives_pure

theorem Gives.map {rest : α → β} (hf : Gives o n c k f c' k' a) :
    Gives o n c k (rest <$> f) c' k' (rest a) := by
  rw [← bind_pure_comp]
  exact hf.bind_pure

/-- The state can be asked for its options and its nesting, and has not stopped. -/
theorem leads_get {rest : State → Reading β} {g : Reading β}
    (h : ∀ s : State, s.options = o → s.nesting = n → s.stopped = false →
      Leads o n c k (rest s) c' k' g) :
    Leads o n c k (get >>= rest) c' k' g :=
  fun j hj s hs => h s hs.options hs.nesting hs.stopped j hj s hs

theorem Gives.attempt (hf : Gives o n c k f c' k' a) :
    Gives o n c k (attempt f) c' k' (.ok a) := by
  intro j hj s hs
  obtain ⟨j', hj', s', hs', hrun⟩ := hf j hj s hs
  exact ⟨j', hj', s', hs', by rw [run_attempt, hrun]; rfl⟩

theorem Gives.between {opening closing : State → State}
    (hopening : ∀ s : State, s.nesting = n → opening s = { s with nesting := m })
    (hclosing : ∀ s : State, s.nesting = m → closing s = { s with nesting := n })
    (hf : Gives o m c k f c' k' a) : Gives o n c k (between opening closing f) c' k' a := by
  intro j hj s hs
  obtain ⟨j', hj', s', hs', hrun⟩ := hf j hj _ (hs.renest m)
  refine ⟨j', hj', _, hs'.renest n, ?_⟩
  rw [run_between, hopening s hs.nesting, hrun]
  change EStateM.Result.ok a (closing s') = _
  rw [hclosing s' hs'.nesting]
  rfl

/-- With room for one more construct a reading can be nested. -/
theorem Gives.nested (hdepth : n.depth < o.maxNestingDepth) (hf : Gives o n.deeper c k f c' k' a) :
    Gives o n c k (nested f) c' k' a := by
  refine leads_get fun _ hoptions hnesting _ => ?_
  rw [hoptions, hnesting, if_pos hdepth]
  exact Gives.between (fun _ => State.enter_eq) (fun _ => State.leave_eq) hf

theorem Leads.iterate_again {step : σ → Reading (Turn σ)} {value value' : σ}
    (hstep : Gives o n c k (step value) c' k' (.again value')) (hless : c'.left < c.left) :
    Leads o n c k (iterate step value) c' k' (iterate step value') := by
  intro j hj s hs
  obtain ⟨j', hj', s', hs', hrun⟩ := hstep j hj s hs
  refine ⟨j', hj', s', hs', ?_⟩
  rw [run_iterate, hrun, EStateM.run_pure]
  simp only [hs.remaining, hs'.remaining, hless, if_true]

theorem Gives.iterate_done {step : σ → Reading (Turn σ)} {value value' : σ}
    (hstep : Gives o n c k (step value) c' k' (.done value')) :
    Gives o n c k (iterate step value) c' k' value' := by
  intro j hj s hs
  obtain ⟨j', hj', s', hs', hrun⟩ := hstep j hj s hs
  exact ⟨j', hj', s', hs', by rw [run_iterate, hrun]; rfl⟩

/-! ## Notes and warnings -/

theorem gives_note (event : Event) : Gives o n c k (note event) c k () :=
  fun j hj _ hs => ⟨j, hj, _, hs.note event, rfl⟩

theorem gives_warnings {diagnostics : List Diagnostic}
    (h : ∀ diagnostic ∈ diagnostics, diagnostic.isError = false) :
    Gives o n c k (modify fun state => diagnostics.foldl State.report state) c k () :=
  fun j hj _ hs => ⟨j, hj, _, hs.foldl_report h, rfl⟩

theorem gives_warning (cause : Cause) (span : Span) :
    Gives o n c k (report (.warning cause span)) c k () := by
  have hwarning : ∀ diagnostic ∈ [Diagnostic.warning cause span], diagnostic.isError = false := by
    simp [Diagnostic.isError, Diagnostic.warning]
  exact gives_warnings hwarning

/-! ## Tokens -/

theorem gives_peek (hclear : c.Clear o) (hk : k ≤ 1) : Gives o n c k peek c 1 c.next.token := by
  intro j hj s hs
  obtain ⟨htoken, hpeeked⟩ := hs.peeked fun _ => hclear
  refine ⟨max j 1, max_le (hj.trans hk) (Nat.le_refl 1), _, hpeeked, ?_⟩
  rw [run_peek, htoken, EStateM.run_pure]

theorem gives_peekSecond (hclear : c.Clear o) (hnext : c.next.cursor.Clear o) (hk : k ≤ 1) :
    Gives o n c k peekSecond c 2 c.next.cursor.next.token := by
  intro j hj s hs
  obtain ⟨-, hpeeked⟩ := hs.peeked fun _ => hclear
  rw [Nat.max_eq_right (hj.trans hk)] at hpeeked
  obtain ⟨htoken, hscanned⟩ := hpeeked.scan hnext
  refine ⟨2, Nat.le_refl 2, _, hscanned, ?_⟩
  have hlookahead := hpeeked.lookahead
  simp only [Cursor.ahead] at hlookahead
  simp only [peekSecond, EStateM.run_bind, run_peek, EStateM.run_get, hlookahead, run_scan]
  rw [htoken, EStateM.run_pure]
  rfl

theorem gives_advance {token : Token} (h : c.Shows token) :
    Gives o n c k advance c.next.cursor (k - 1) token := by
  intro j hj s hs
  obtain ⟨htoken, hpeeked⟩ := hs.peeked fun _ => .inr h.problems
  have hkind : s.peeked.1.kind ≠ .endOfFile := by rw [htoken, h.token]; exact h.kind
  rw [show max j 1 = j - 1 + 1 by omega] at hpeeked
  refine ⟨j - 1, Nat.sub_le_sub_right hj 1, _, hpeeked.take h.problems, ?_⟩
  rw [run_advance, State.advanced, if_neg hkind, htoken, h.token, EStateM.run_pure]

theorem gives_rawText : Gives o n c 0 rawText c.rawLine.cursor 0 (c.rawLine.text, c.rawLine.span) := by
  intro j hj s hs
  obtain rfl := Nat.le_zero.mp hj
  refine ⟨0, Nat.le_refl 0, _, hs.takeRaw, ?_⟩
  rw [rawText, EStateM.run_bind, EStateM.run_get]
  simp only [hs.lookahead, Cursor.ahead, hs.cursor, Cursor.behind, EStateM.run_bind,
    EStateM.run_modify]

/-! ## Tokens that are asked for -/

variable {token : Token} {kind : TokenKind} {span : Span}

theorem gives_shown (h : c.Shows token) (hk : k ≤ 1) : Gives o n c k peek c 1 token :=
  h.token ▸ gives_peek h.clear hk

theorem gives_accept (h : c.Shows ⟨kind, span⟩) (hk : k ≤ 1) :
    Gives o n c k (accept kind) c.next.cursor 0 true := by
  refine ((gives_shown h hk).bind_pure).bind ?_
  rw [if_pos (by simp)]
  exact (gives_advance h).bind_pure

/-- What does not stand there is not taken. -/
theorem gives_not_accept (hclear : c.Clear o) (hkind : c.next.token.kind ≠ kind) (hk : k ≤ 1) :
    Gives o n c k (accept kind) c 1 false := by
  refine ((gives_peek hclear hk).bind_pure).bind ?_
  rw [if_neg (by simpa using hkind)]
  exact gives_pure

theorem gives_expect {sign : Symbol} (h : c.Shows ⟨.symbol sign, span⟩)
    (expectation : Expectation) (hk : k ≤ 1) :
    Gives o n c k (expect sign expectation) c.next.cursor 0 span := by
  refine (gives_shown h hk).bind ?_
  rw [if_pos rfl]
  exact (gives_advance h).bind_pure

theorem gives_identifier {text : String} {quoted : Bool} (h : c.Shows ⟨.name text quoted, span⟩)
    (expectation : Expectation) (hk : k ≤ 1) :
    Gives o n c k (identifier expectation) c.next.cursor 0 ⟨text, quoted, span⟩ := by
  refine (gives_shown h hk).bind ?_
  exact (gives_advance h).bind_pure

theorem gives_closing {bracket : Bracket} (h : c.Shows ⟨.symbol bracket.closing, span⟩)
    (opened : Span) (hk : k ≤ 1) :
    Gives o n c k (closing bracket opened) c.next.cursor 0 span := by
  refine (gives_shown h hk).bind ?_
  rw [if_pos rfl]
  exact (gives_advance h).bind_pure

theorem gives_operator? (hclear : c.Clear o) (hplus : c.next.token.kind ≠ .symbol .plus)
    (hk : k ≤ 1) : Gives o n c k operator? c 1 (Operator.ofToken? c.next.token.kind) := by
  refine (gives_peek hclear hk).bind ?_
  rw [if_neg hplus]
  exact gives_pure

/-- A bare name asks whether a name is defined if it is the word for that, in a condition, in
front of a parenthesis. -/
theorem gives_isDefinedQuestion {text : String} (hclear : c.Clear o)
    (hnext : n.inCondition = true → text = "defined" → c.next.cursor.Clear o) (hk : k ≤ 1) :
    Gives o n c k (isDefinedQuestion text) c 2 (decide (n.inCondition = true ∧ text = "defined" ∧
      c.next.cursor.next.token.kind = .symbol .openParen)) := by
  refine leads_get fun _ _ hnesting _ => ?_
  rw [hnesting]
  split
  · rename_i h
    simp only [h, true_and]
    exact (gives_peekSecond hclear (hnext h.1 h.2) hk).bind_pure
  · rename_i h
    rw [decide_eq_false (fun h' => h ⟨h'.1, h'.2.1⟩)]
    exact gives_pure.weaken (Nat.le_refl k) (hk.trans (Nat.le_succ 1))

/-- At the end of the source the line of a directive ends when the end is looked at. -/
theorem gives_peek_end (hend : c.AtEnd) (hline : c.mode.isDirective = true) (hk : k ≤ 1) :
    Gives o n c k peek c.lineEnded 1 c.next.token := by
  intro j hj s hs
  obtain ⟨htoken, hpeeked⟩ := hs.peeked fun _ => .inr hend.2
  rw [Nat.max_eq_right (hj.trans hk)] at hpeeked
  refine ⟨1, Nat.le_refl 1, _, hpeeked.lineEnded hend hline, ?_⟩
  rw [run_peek, htoken, EStateM.run_pure]

theorem gives_endOfLine (h : c.EndsLine c') (expectation : Expectation) (hk : k ≤ 1) :
    Gives o n c k (endOfLine expectation) c' 1 () := by
  unfold endOfLine
  rcases h with ⟨token, hshows, hkind, rfl⟩ | ⟨hline, hend, rfl⟩
  · refine (gives_shown hshows hk).bind ?_
    rw [hkind]
    exact (gives_advance hshows).loose.map
  · refine (gives_peek_end hend hline hk).bind ?_
    rw [hend.1]
    exact gives_pure

end ConfLang.Reading
