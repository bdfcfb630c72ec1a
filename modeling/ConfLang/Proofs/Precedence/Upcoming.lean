import ConfLang.Proofs.Progress.Ends
import ConfLang.Proofs.Scanning.Lines

/-!
# The tokens in front of a state

A state has a list of tokens in front of it, through the last one of the source: those that were
looked at and not taken, and those that are still to be scanned (`State.upcoming`).  To look at
tokens changes nothing about this list, and to take a token takes its first one away.

`Consumes` follows a reading along the list.  It says from which tokens the reading takes some away,
and what is known of its value and of the tokens that are left, if it gives a value at all.  On the
way there may be errors of all kinds, but no warnings.  There is one rule for each step of which
readings are made, and one for repetitions, which end by themselves because every turn takes a token
(`loops_iterate`).
-/

namespace ConfLang

open Reading

/-! ## Upcoming tokens -/

/-- The kind of the first of some tokens, or else the end of the file. -/
def nextKind : List Token → TokenKind
  | [] => .endOfFile
  | token :: _ => token.kind

namespace State

variable {s : State} {token : Token} {rest : List Token}

/-- The tokens in front of a state, without the end of the file. -/
def upcoming (s : State) : List Token :=
  (s.lookahead ++ s.cursor.scans.map Scan.token).takeWhile (·.kind ≠ .endOfFile)

theorem upcoming_report (s : State) (diagnostic : Diagnostic) :
    (s.report diagnostic).upcoming = s.upcoming := by
  rw [report_frame]
  rfl

theorem upcoming_looked (s : State) : s.looked.upcoming = s.upcoming := by
  change ((s.lookahead ++ [s.cursor.next.token]) ++
    s.cursor.next.cursor.scans.map Scan.token).takeWhile (·.kind ≠ .endOfFile) = _
  rw [upcoming, List.append_assoc]
  by_cases hkind : s.cursor.next.token.kind = .endOfFile
  · -- nothing behind the end of the file counts
    rw [Cursor.scans_of_endOfFile hkind]
    simp [List.takeWhile_append, hkind]
  · rw [Cursor.scans_of_ne hkind, List.singleton_append, List.map_cons]

theorem upcoming_scan (s : State) : s.scan.2.upcoming = s.upcoming := by
  rw [scan_eq, upcoming, foldl_report_frame]
  exact s.upcoming_looked

theorem upcoming_of_cons (h : s.lookahead = token :: rest) (hkind : token.kind ≠ .endOfFile) :
    s.upcoming = token :: (s.take token).upcoming := by
  rw [upcoming, upcoming, take, h, List.cons_append,
    List.takeWhile_cons_of_pos (by simpa using hkind)]
  rfl

theorem upcoming_eq_nil (h : s.lookahead = token :: rest) (hkind : token.kind = .endOfFile) :
    s.upcoming = [] := by
  rw [upcoming, h, List.cons_append, List.takeWhile_cons_of_neg (by simpa using hkind)]

theorem upcoming_peeked (s : State) : s.peeked.2.upcoming = s.upcoming := by
  cases h : s.lookahead with
  | nil => rw [peeked_of_nil h, upcoming_scan]
  | cons token rest => rw [peeked_of_cons h]

theorem upcoming_ne_endOfFile (hmem : token ∈ s.upcoming) : token.kind ≠ .endOfFile := by
  simpa using List.mem_takeWhile_imp hmem

/-- The warnings among the diagnostics. -/
def warnings (state : State) : List Diagnostic :=
  state.diagnostics.toList.filter (!·.isError)

theorem warnings_countError (s : State) : s.countError.warnings = s.warnings := by
  have hlimit (limit : Nat) : (Diagnostic.error (.tooManyErrors limit) s.previous).isError = true :=
    rfl
  unfold countError
  simp only
  split
  · split
    · simp [warnings, stop, note, hlimit]
    · rfl
  · rfl

theorem warnings_report (s : State) {diagnostic : Diagnostic} (h : diagnostic.isError = true) :
    (s.report diagnostic).warnings = s.warnings := by
  unfold report
  split
  · rfl
  · simp only [warnings_countError]
    simp [warnings, h]

theorem warnings_scan (s : State) : s.scan.2.warnings = s.warnings := by
  rw [scan_eq]
  suffices hall : ∀ (problems : List Problem) (s : State),
      ((problems.map Problem.diagnostic).foldl report s).warnings = s.warnings from hall _ _
  intro problems
  induction problems with
  | nil => exact fun _ => rfl
  | cons problem rest ih => exact fun s => (ih _).trans (s.warnings_report rfl)

theorem warnings_peeked (s : State) : s.peeked.2.warnings = s.warnings := by
  cases h : s.lookahead with
  | nil => rw [peeked_of_nil h, warnings_scan]
  | cons token rest => rw [peeked_of_cons h]

theorem warnings_advanced (s : State) : s.advanced.warnings = s.warnings := by
  rw [advanced, ← s.warnings_peeked]
  split <;> rfl

/-- A state in order with some tokens in front of it, in the condition of a directive or
elsewhere. -/
structure Awaits (s : State) (inCondition : Bool) (ahead : List Token) : Prop where
  ordered : s.Ordered
  inCondition : s.nesting.inCondition = inCondition
  upcoming : s.upcoming = ahead

end State

/-- A token is the first of some tokens, or else the end of the file. -/
def Token.IsFirst (token : Token) (ahead : List Token) : Prop :=
  (∃ rest, ahead = token :: rest) ∨ ahead = [] ∧ token.kind = .endOfFile

theorem Token.IsFirst.kind {token : Token} {ahead : List Token} (h : token.IsFirst ahead) :
    token.kind = nextKind ahead := by
  rcases h with ⟨rest, rfl⟩ | ⟨rfl, hkind⟩
  · rfl
  · exact hkind

theorem Token.IsFirst.exists_rest {token : Token} {ahead : List Token} (h : token.IsFirst ahead)
    (hkind : token.kind ≠ .endOfFile) : ∃ rest, ahead = token :: rest := by
  rcases h with hrest | ⟨-, hend⟩
  · exact hrest
  · exact absurd hend hkind

namespace State.Awaits

variable {s : State} {inCondition : Bool} {ahead : List Token}

theorem of_holds (h : s.Awaits inCondition ahead) {s' : State} (hordered : s'.Ordered)
    (hnesting : s'.nesting = s.nesting) (hupcoming : s'.upcoming = s.upcoming) :
    s'.Awaits inCondition ahead :=
  ⟨hordered, by rw [hnesting, h.inCondition], by rw [hupcoming, h.upcoming]⟩

theorem enter (h : s.Awaits inCondition ahead) : s.enter.Awaits inCondition ahead :=
  ⟨⟨h.ordered.size, h.ordered.tokens⟩, h.inCondition, h.upcoming⟩

theorem leave (h : s.Awaits inCondition ahead) : s.leave.Awaits inCondition ahead :=
  ⟨⟨h.ordered.size, h.ordered.tokens⟩, h.inCondition, h.upcoming⟩

theorem peeked (h : s.Awaits inCondition ahead) : s.peeked.2.Awaits inCondition ahead :=
  h.of_holds (continues_peeked h.ordered).ordered s.nesting_peeked s.upcoming_peeked

theorem isFirst (h : s.Awaits inCondition ahead) : s.peeked.1.IsFirst ahead := by
  obtain ⟨rest, hfirst⟩ := s.lookahead_peeked
  rw [← h.upcoming, ← s.upcoming_peeked]
  by_cases hkind : s.peeked.1.kind = .endOfFile
  · exact .inr ⟨upcoming_eq_nil hfirst hkind, hkind⟩
  · exact .inl ⟨_, upcoming_of_cons hfirst hkind⟩

/-- To take the current token takes the first one away. -/
theorem advanced {token : Token} {rest : List Token} (h : s.Awaits inCondition (token :: rest)) :
    s.peeked.1 = token ∧ s.advanced.Awaits inCondition rest ∧
      s.advanced.consumed = s.consumed + 1 := by
  have hkind : token.kind ≠ .endOfFile :=
    upcoming_ne_endOfFile (s := s) (h.upcoming ▸ List.mem_cons_self)
  have htoken : s.peeked.1 = token := by
    rcases h.isFirst with ⟨rest', hrest⟩ | ⟨hnil, -⟩
    · exact (List.cons.inj hrest).1.symm
    · cases hnil
  obtain ⟨more, hfirst⟩ := s.lookahead_peeked
  rw [← htoken] at hkind
  refine ⟨htoken, ?_, consumed_advanced hkind⟩
  have hpeeked := h.peeked
  rw [State.advanced, if_neg hkind]
  have hupcoming := upcoming_of_cons hfirst hkind
  rw [hpeeked.upcoming, htoken] at hupcoming
  exact ⟨hpeeked.ordered.take hfirst, hpeeked.inCondition, (List.cons.inj hupcoming).2.symm ▸ rfl⟩

/-- To look at the second token tells what it is, and takes nothing. -/
theorem second {token : Token} {rest : List Token} (h : s.Awaits inCondition (token :: rest)) :
    ∃ second s', EStateM.run peekSecond s = .ok second s' ∧ second.kind = nextKind rest ∧
      s'.Awaits inCondition (token :: rest) ∧ s'.consumed = s.consumed ∧
      s'.warnings = s.warnings := by
  have hpeeked := h.peeked
  obtain ⟨htoken, -⟩ := h.advanced
  obtain ⟨more, hfirst⟩ := s.lookahead_peeked
  obtain ⟨second, s', hrun, ⟨more', hsecond⟩, hsame⟩ := run_peekSecond hfirst
  have hs' : s'.Awaits inCondition (token :: rest) ∧ s'.consumed = s.consumed ∧
      s'.warnings = s.warnings := by
    rw [← s.consumed_peeked, ← s.warnings_peeked]
    -- the second token is scanned now, or was before
    rcases hsame with ⟨-, rfl⟩ | ⟨rfl, -⟩
    · refine ⟨hpeeked.of_holds ?_ ?_ (upcoming_scan _), ?_, warnings_scan _⟩
      · exact continues_of_run hpeeked.ordered (run_of_ok (run_scan _)) |>.ordered
      · rw [scan_eq, foldl_report_frame]
        rfl
      · rw [scan_eq, foldl_report_frame]
        rfl
    · exact ⟨hpeeked, rfl, rfl⟩
  refine ⟨second, s', ?_, ?_, hs'⟩
  · rw [← hrun]
    simp only [peekSecond, EStateM.run_bind, run_peek, s.peeked_peeked]
  · obtain ⟨-, hbehind, -⟩ := hs'.1.advanced
    have hkind : s.peeked.1.kind ≠ .endOfFile := by
      rw [htoken]
      exact upcoming_ne_endOfFile (s := s) (h.upcoming ▸ List.mem_cons_self)
    have hlookahead : s'.advanced.lookahead = second :: more' := by
      rw [State.advanced, peeked_of_cons hsecond, if_neg hkind, State.take, hsecond, List.tail_cons]
    have hsecond := hbehind.isFirst.kind
    rwa [peeked_of_cons hlookahead] at hsecond

end State.Awaits

namespace Reading

variable {α β σ : Type} {c : Bool} {ahead rest : List Token} {token : Token} {f : Reading α}
  {Q : α → List Token → Prop}

/-! ## Rules -/

/-- From a state in front of some tokens, another one in front of the rest of them is reached by
taking those away that lie in between, without a warning. -/
structure Passes (c : Bool) (s : State) (ahead : List Token) (s' : State) (rest : List Token) :
    Prop where
  awaits : s'.Awaits c rest
  count : s'.consumed + rest.length = s.consumed + ahead.length
  warnings : s'.warnings = s.warnings

theorem Passes.refl {s : State} (h : s.Awaits c ahead) : Passes c s ahead s ahead :=
  ⟨h, rfl, rfl⟩

theorem Passes.trans {s s' s'' : State} {middle : List Token} (h : Passes c s ahead s' middle)
    (h' : Passes c s' middle s'' rest) : Passes c s ahead s'' rest :=
  ⟨h'.awaits, h'.count.trans h.count, h'.warnings.trans h.warnings⟩

/-- Where some tokens are ahead, a reading that gives a value takes away some of them, and what is
left fits the value. -/
def Consumes (c : Bool) (ahead : List Token) (f : Reading α) (Q : α → List Token → Prop) : Prop :=
  ∀ s : State, s.Awaits c ahead → ∀ a s', EStateM.run f s = .ok a s' →
    ∃ rest, Passes c s ahead s' rest ∧ Q a rest

theorem consumes_pure {a : α} (h : Q a ahead) : Consumes c ahead (pure a) Q := by
  rintro s hs _ _ ⟨⟩
  exact ⟨ahead, .refl hs, h⟩

theorem Consumes.imp {R : α → List Token → Prop} (h : Consumes c ahead f Q)
    (himp : ∀ a rest, Q a rest → R a rest) : Consumes c ahead f R := by
  intro s hs a s' hrun
  obtain ⟨rest, hpasses, hvalue⟩ := h s hs a s' hrun
  exact ⟨rest, hpasses, himp a rest hvalue⟩

theorem Consumes.bind {g : α → Reading β} {R : β → List Token → Prop} (h : Consumes c ahead f Q)
    (hg : ∀ a rest, Q a rest → Consumes c rest (g a) R) : Consumes c ahead (f >>= g) R := by
  intro s hs b s' hrun
  obtain ⟨a, middle, hfirst, hlast⟩ := ok_of_run_bind hrun
  obtain ⟨rest, hpasses, hvalue⟩ := h s hs a middle hfirst
  obtain ⟨rest', hpasses', hvalue'⟩ := hg a rest hvalue middle hpasses.awaits b s' hlast
  exact ⟨rest', hpasses.trans hpasses', hvalue'⟩

/-- A step that always gives a value leads to what is done with that. -/
theorem consumes_step {g : α → Reading β} {a : α} {Q : β → List Token → Prop}
    (hstep : ∀ s : State, s.Awaits c ahead →
      ∃ s₁, EStateM.run f s = .ok a s₁ ∧ Passes c s ahead s₁ rest)
    (h : Consumes c rest (g a) Q) : Consumes c ahead (f >>= g) Q := by
  intro s hs b s' hrun
  obtain ⟨s₁, hfirst, hpasses⟩ := hstep s hs
  rw [EStateM.run_bind, hfirst] at hrun
  obtain ⟨rest', hpasses', hvalue⟩ := h s₁ hpasses.awaits b s' hrun
  exact ⟨rest', hpasses.trans hpasses', hvalue⟩

theorem consumes_fail {cause : Cause} {span : Span} : Consumes c ahead (fail cause span) Q := by
  intro s hs a s' hrun
  cases hrun

/-- The current token is looked at and stays where it is. -/
theorem consumes_peek {g : Token → Reading α}
    (h : ∀ token, token.IsFirst ahead → Consumes c ahead (g token) Q) :
    Consumes c ahead (peek >>= g) Q := by
  intro s hs a s' hrun
  rw [EStateM.run_bind, run_peek] at hrun
  obtain ⟨rest, hpasses, hvalue⟩ := h s.peeked.1 hs.isFirst _ hs.peeked a s' hrun
  have hpeeked : Passes c s ahead s.peeked.2 ahead :=
    ⟨hs.peeked, by rw [State.consumed_peeked], s.warnings_peeked⟩
  exact ⟨rest, hpeeked.trans hpasses, hvalue⟩

theorem consumes_advance {g : Token → Reading α} (h : Consumes c rest (g token) Q) :
    Consumes c (token :: rest) (advance >>= g) Q := by
  refine consumes_step (fun s hs => ⟨s.advanced, ?_, ?_⟩) h
  · rw [run_advance, hs.advanced.1]
  · obtain ⟨-, hadvanced, hconsumed⟩ := hs.advanced
    refine ⟨hadvanced, ?_, s.warnings_advanced⟩
    rw [hconsumed, List.length_cons]
    omega

theorem consumes_report {diagnostic : Diagnostic} {g : Unit → Reading α}
    (herror : diagnostic.isError = true) (h : Consumes c ahead (g ()) Q) :
    Consumes c ahead (report diagnostic >>= g) Q := by
  refine consumes_step (fun s hs => ⟨s.report diagnostic, run_report diagnostic s, ?_⟩) h
  refine ⟨?_, by rw [State.report_frame], s.warnings_report herror⟩
  exact hs.of_holds (hs.ordered.report diagnostic) (by rw [State.report_frame])
    (s.upcoming_report diagnostic)

/-- Between two changes of the nesting. -/
theorem Consumes.between {c' : Bool} {opening closing : State → State}
    (hopening : ∀ s : State, s.Awaits c ahead → Passes c' s ahead (opening s) ahead)
    (hclosing : ∀ (s : State) rest, s.Awaits c' rest → Passes c s rest (closing s) rest)
    (h : Consumes c' ahead f Q) : Consumes c ahead (between opening closing f) Q := by
  intro s hs a s' hrun
  have hopened := hopening s hs
  rw [run_between] at hrun
  cases hinside : EStateM.run f (opening s) with
  | error problem middle =>
      rw [hinside] at hrun
      cases hrun
  | ok b middle =>
      rw [hinside] at hrun
      cases hrun
      obtain ⟨rest, hpasses, hvalue⟩ := h _ hopened.awaits a middle hinside
      have hclosed := hclosing middle rest hpasses.awaits
      refine ⟨rest, ⟨hclosed.awaits, ?_, ?_⟩, hvalue⟩
      · exact hclosed.count.trans (hpasses.count.trans hopened.count)
      · exact hclosed.warnings.trans (hpasses.warnings.trans hopened.warnings)

theorem Consumes.nested (h : Consumes c ahead f Q) : Consumes c ahead (nested f) Q := by
  intro s hs a s' hrun
  have hrun' := run_of_ok hrun
  rw [nested_run] at hrun'
  split at hrun'
  · have hbetween : Consumes c ahead (Reading.between State.enter State.leave f) Q :=
      h.between (fun s hs => ⟨hs.enter, rfl, rfl⟩) fun s rest hs => ⟨hs.leave, rfl, rfl⟩
    exact hbetween s hs a s' (ok_of_run hrun')
  · rw [tooDeep_run] at hrun'
    cases hrun'

/-- A turn of a repetition that asks for another one, or comes to the result. -/
def turnedTo (invariant result : σ → List Token → Prop) : Turn σ → List Token → Prop
  | .again value => invariant value
  | .done value => result value

theorem Consumes.iterate {turn : σ → Reading (Turn σ)} {result : σ → List Token → Prop}
    (invariant : σ → List Token → Prop) (hprogresses : ∀ value, Progresses (turn value))
    (hturn : ∀ value ahead, invariant value ahead →
      Consumes c ahead (turn value) (turnedTo invariant result))
    {value : σ} (h : invariant value ahead) : Consumes c ahead (iterate turn value) result := by
  intro s hs a s' hrun
  have hloops := loops_iterate hprogresses hs.ordered value
  generalize hresult : (Reading.iterate turn value).run s = run at hloops
  rw [run_of_ok hrun] at hresult
  clear hrun
  -- the turns were finitely many, as each of them took a token
  induction hloops generalizing ahead with
  | failed => cases hresult
  | done hdone =>
      cases hresult
      exact hturn _ ahead h _ hs _ _ (ok_of_run hdone)
  | again hagain _ ih =>
      obtain ⟨rest, hpasses, hvalue⟩ := hturn _ ahead h _ hs _ _ (ok_of_run hagain)
      obtain ⟨rest', hpasses', hvalue'⟩ := ih hvalue hpasses.awaits hresult
      exact ⟨rest', hpasses.trans hpasses', hvalue'⟩

/-! ## Tokens that are asked for -/

theorem consumes_unexpected {expectation : Expectation} :
    Consumes c ahead (unexpected expectation : Reading α) Q :=
  consumes_peek fun _ _ => consumes_fail

/-- Whether the current token is of a kind, and is taken then. -/
def Accepted (kind : TokenKind) (ahead : List Token) (taken : Bool) (rest : List Token) : Prop :=
  (taken = true ∧ ∃ span, ahead = ⟨kind, span⟩ :: rest) ∨
    (taken = false ∧ nextKind ahead ≠ kind ∧ rest = ahead)

theorem consumes_accept {kind : TokenKind} (hkind : kind ≠ .endOfFile) :
    Consumes c ahead (accept kind) (Accepted kind ahead) := by
  unfold accept isAt
  simp only [bind_assoc, pure_bind, decide_eq_true_eq]
  refine consumes_peek fun token hfirst => ?_
  split
  · rename_i hsame
    obtain ⟨rest, rfl⟩ := hfirst.exists_rest (hsame ▸ hkind)
    exact consumes_advance (consumes_pure (.inl ⟨rfl, token.span, by rw [← hsame]⟩))
  · rename_i hne
    exact consumes_pure (.inr ⟨rfl, hfirst.kind ▸ hne, rfl⟩)

theorem consumes_expect {sign : Symbol} {expectation : Expectation} :
    Consumes c ahead (expect sign expectation) fun span rest =>
      ahead = ⟨.symbol sign, span⟩ :: rest := by
  refine consumes_peek fun token hfirst => ?_
  split
  · rename_i hkind
    obtain ⟨rest, rfl⟩ := hfirst.exists_rest (by simp [hkind])
    exact consumes_advance (consumes_pure (by rw [← hkind]))
  · exact consumes_unexpected

theorem consumes_closing {bracket : Bracket} {opened : Span} :
    Consumes c ahead (closing bracket opened) fun span rest =>
      ahead = ⟨.symbol bracket.closing, span⟩ :: rest := by
  refine consumes_peek fun token hfirst => ?_
  split
  · rename_i hkind
    obtain ⟨rest, rfl⟩ := hfirst.exists_rest (by simp [hkind])
    exact consumes_advance (consumes_pure (by rw [← hkind]))
  · exact consumes_fail

theorem consumes_identifier {expectation : Expectation} :
    Consumes c ahead (identifier expectation) fun name rest =>
      ∃ ts, ahead = ts ++ rest ∧ Grammar.Name ts name := by
  refine consumes_peek fun token hfirst => ?_
  split
  · rename_i text quoted hkind
    obtain ⟨rest, rfl⟩ := hfirst.exists_rest (by simp [hkind])
    obtain ⟨kind, span⟩ := token
    obtain rfl : kind = .name text quoted := hkind
    exact consumes_advance (consumes_pure ⟨_, rfl, .name⟩)
  · exact consumes_unexpected

/-- Behind a plus sign there is no value. -/
theorem consumes_operator? {g : Option Operator → Reading α}
    (h : nextKind ahead ≠ .symbol .plus →
      Consumes c ahead (g (Operator.ofToken? (nextKind ahead))) Q) :
    Consumes c ahead (operator? >>= g) Q := by
  unfold operator?
  rw [bind_assoc]
  refine consumes_peek fun token hfirst => ?_
  rw [hfirst.kind]
  split
  · exact consumes_fail
  · rename_i hplus
    exact h hplus

/-- A bare name asks whether a name is defined if it is the word for that, in a condition, in front
of a parenthesis. -/
theorem consumes_isDefinedQuestion {text : String} {g : Bool → Reading α}
    (h : Consumes c (token :: rest) (g (decide (c = true ∧ text = "defined" ∧
      nextKind rest = .symbol .openParen))) Q) :
    Consumes c (token :: rest) (isDefinedQuestion text >>= g) Q := by
  refine consumes_step (fun s hs => ?_) h
  simp only [isDefinedQuestion, EStateM.run_bind, EStateM.run_get, hs.inCondition]
  by_cases hasks : c = true ∧ text = "defined"
  · obtain ⟨second, s₁, hsecond, hkind, hs₁, hconsumed, hwarnings⟩ := hs.second
    refine ⟨s₁, ?_, hs₁, by rw [hconsumed], hwarnings⟩
    rw [if_pos hasks, EStateM.run_bind, hsecond]
    have hparen : (c = true ∧ text = "defined" ∧ nextKind rest = .symbol .openParen) ↔
        second.kind = .symbol .openParen := by
      rw [hkind, ← and_assoc, and_iff_right hasks]
    rw [decide_eq_decide.mpr hparen]
    rfl
  · refine ⟨s, ?_, .refl hs⟩
    rw [if_neg hasks, decide_eq_false fun h => hasks ⟨h.1, h.2.1⟩]
    rfl

end Reading

end ConfLang
