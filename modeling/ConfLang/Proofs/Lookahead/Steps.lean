import ConfLang.Proofs.Progress.Carried
import ConfLang.Proofs.Scanning.Pieces

/-!
# Runs step by step

A run changes its state in six ways only, and asks the scanner for something in two of them: when
it looks at one more token, and when it takes raw text.  `State.Goes` follows a run through these
steps and collects what was asked of the scanner.

On its way a run holds at most one token that it has looked at and not taken.  There is one
exception.  In the condition of a directive the token behind the name `defined` tells whether a
question begins there, so both tokens are held until the name is taken.  States in which that is
so are tidy, and a run that begins with at most one token goes through tidy states only
(`Reading.goes`).

## Strategy

`stepping` is a course.  It is not a free one: where a token is held already, a further one may
be looked at behind `defined` only, and this is what a course is asked for in `lookBehind`.
-/

namespace ConfLang

open Reading

/-! ## Steps -/

/-- One step of a run, with what it asks of the scanner.  What is reported in a step of its own
was not found by the scanner. -/
inductive State.Step : State → List Request → State → Prop
  | note {s : State} (event : Event) : s.Step [] (s.note event)
  | report {s : State} (diagnostic : Diagnostic) : diagnostic.kind ≠ .lexical →
    s.Step [] (s.report diagnostic)
  | renest {s : State} (change : Nesting → Nesting) : s.Step [] (s.renest change)
  | scan {s : State} : s.Step [.next] s.scan.2
  | take {s : State} {token : Token} {rest : List Token} : s.lookahead = token :: rest →
    s.Step [] (s.take token)
  | takeRaw {s : State} : s.lookahead = [] → s.Step [.restOfLine] (s.takeRaw s.cursor.rawLine)

/-- At most one token was looked at and not taken. -/
def State.Short (s : State) : Prop :=
  s.lookahead.length ≤ 1

/-- At most one token was looked at and not taken, or in the condition of a directive there is one
more behind the name `defined`. -/
def State.Tidy (s : State) : Prop :=
  s.Short ∨ ∃ token second, s.lookahead = [token, second] ∧ token.kind = .name "defined" false ∧
    s.nesting.inCondition = true

/-- Steps lead from a state to another one through tidy states only, and ask the scanner for
something on the way. -/
inductive State.Goes (s : State) : List Request → State → Prop
  | stay : s.Tidy → s.Goes [] s
  | step {requests more : List Request} {s' s'' : State} : s.Goes requests s' → s'.Step more s'' →
    s''.Tidy → s.Goes (requests ++ more) s''

variable {s s' s'' : State} {requests more : List Request} {token : Token}

namespace State

theorem Tidy.length_le (h : s.Tidy) : s.lookahead.length ≤ 2 := by
  rcases h with hshort | ⟨token, second, htwo, -⟩
  · exact Nat.le_succ_of_le hshort
  · rw [htwo]
    exact Nat.le_refl 2

theorem Short.tidy (h : s.Short) : s.Tidy := .inl h

theorem short_of_nil (h : s.lookahead = []) : s.Short := by
  rw [Short, h]
  exact Nat.zero_le 1

theorem Short.eq_nil {rest : List Token} (h : s.Short) (hfirst : s.lookahead = token :: rest) :
    rest = [] := by
  rw [Short, hfirst, List.length_cons] at h
  exact List.length_eq_zero_iff.mp (by omega)

theorem Short.of_same (h : s.Short) (hsame : s'.lookahead = s.lookahead) : s'.Short := by
  rw [Short, hsame]
  exact h

theorem Short.report (h : s.Short) (diagnostic : Diagnostic) : (s.report diagnostic).Short :=
  h.of_same (by rw [report_frame])

theorem Short.peeked (h : s.Short) : s.peeked.2.Short := by
  cases hnone : s.lookahead with
  | nil =>
      rw [peeked_of_nil hnone, Short, lookahead_scan, hnone]
      exact Nat.le_refl 1
  | cons token rest => rwa [peeked_of_cons hnone]

/-- The token looked at last is the only one that was looked at. -/
theorem Short.lookahead_peeked (h : s.Short) : s.peeked.2.lookahead = [s.peeked.1] := by
  obtain ⟨rest, hrest⟩ := s.lookahead_peeked
  rw [hrest, h.peeked.eq_nil hrest]

/-- Nothing is looked at behind a token that was just taken. -/
theorem Short.lookahead_advanced (h : s.Short) (hkind : s.peeked.1.kind ≠ .endOfFile) :
    s.advanced.lookahead = [] := by
  rw [advanced, if_neg hkind, State.take, h.lookahead_peeked]
  rfl

namespace Goes

theorem single (hs : s.Tidy) (hstep : s.Step requests s') (hs' : s'.Tidy) : s.Goes requests s' :=
  .step (.stay hs) hstep hs'

theorem trans (h : s.Goes requests s') (h' : s'.Goes more s'') : s.Goes (requests ++ more) s'' := by
  induction h' with
  | stay => rwa [List.append_nil]
  | step _ hstep htidy ih =>
      rw [← List.append_assoc]
      exact .step ih hstep htidy

end Goes

/-- A run leads from a state with at most one token to another one. -/
def LeadsTo (s s' : State) : Prop :=
  (∃ requests, s.Goes requests s') ∧ s'.Short

namespace LeadsTo

theorem refl (h : s.Short) : s.LeadsTo s :=
  ⟨⟨[], .stay h.tidy⟩, h⟩

theorem trans (h : s.LeadsTo s') (h' : s'.LeadsTo s'') : s.LeadsTo s'' := by
  obtain ⟨⟨requests, hgoes⟩, -⟩ := h
  obtain ⟨⟨more, hgoes'⟩, hshort⟩ := h'
  exact ⟨⟨requests ++ more, hgoes.trans hgoes'⟩, hshort⟩

theorem step (h : s.Short) (hstep : s.Step requests s') (h' : s'.Short) : s.LeadsTo s' :=
  ⟨⟨requests, .single h.tidy hstep h'.tidy⟩, h'⟩

end LeadsTo

theorem leadsTo_scan (hnone : s.lookahead = []) : s.LeadsTo s.scan.2 := by
  refine .step (short_of_nil hnone) .scan ?_
  rw [Short, lookahead_scan, hnone]
  exact Nat.le_refl 1

/-- The token behind `defined` is held together with it until the name is taken. -/
theorem leadsTo_behind (hasks : s.MayAsk token) : s.LeadsTo (s.scan.2.take token) := by
  have hlookahead : s.scan.2.lookahead = [token, s.scan.1] :=
    lookahead_scan_of_cons hasks.lookahead
  have hcondition : s.scan.2.nesting.inCondition = true := by
    rw [scan_eq, foldl_report_frame]
    exact hasks.inCondition
  have hfirst : s.Short := by
    rw [Short, hasks.lookahead]
    exact Nat.le_refl 1
  have hlast : (s.scan.2.take token).Short := by
    rw [Short, State.take, hlookahead]
    exact Nat.le_refl 1
  have hmiddle : s.scan.2.Tidy := .inr ⟨token, s.scan.1, hlookahead, hasks.kind, hcondition⟩
  exact ⟨⟨_, .step (.single hfirst.tidy .scan hmiddle) (.take hlookahead) hlast.tidy⟩, hlast⟩

theorem leadsTo_take {rest : List Token} (hshort : s.Short) (hfirst : s.lookahead = token :: rest) :
    s.LeadsTo (s.take token) := by
  refine .step hshort (.take hfirst) (short_of_nil ?_)
  rw [State.take, hfirst]
  exact hshort.eq_nil hfirst

theorem leadsTo_renest (change : Nesting → Nesting) (h : s.Short) : s.LeadsTo (s.renest change) :=
  .step h (.renest change) (h.of_same rfl)

end State

/-! ## The course -/

/-- From a state with at most one token every reading leads to another one, and it fails with
nothing that the scanner finds. -/
def stepping : Course where
  holds s s' := s.Short → s.LeadsTo s'
  fails problem := problem.kind ≠ .lexical
  refl _ := .refl
  trans h h' hs := (h hs).trans (h' (h hs).2)
  plain _ hplain := Cause.kind_of_isPlain hplain
  note _ event hs := .step hs (.note event) (hs.of_same rfl)
  report _ diagnostic hkind hs := .step hs (.report diagnostic hkind) (hs.report diagnostic)
  renest opening closing _ h hs := by
    have hopened := State.leadsTo_renest opening hs
    have hinside := h hopened.2
    exact (hopened.trans hinside).trans (State.leadsTo_renest closing hinside.2)
  look hnone _ := State.leadsTo_scan hnone
  lookBehind hasks _ := State.leadsTo_behind hasks
  take hfirst hs := State.leadsTo_take hs hfirst
  takeRaw hnone hs := .step hs (.takeRaw hnone) (State.short_of_nil hnone)

instance : TellsStray stepping.Kept where
  tells _ _ _ := Course.kept_fail nofun

variable {α : Type} {options : Options} {source : String} {call : Call}

/-- Every reading goes step by step. -/
theorem Reading.goes (f : Reading α) [Obeys stepping.Kept f] (h : s.Short) :
    s.LeadsTo (f.run s).2 :=
  (Obeys.obeys (P := stepping.Kept) (f := f) s).1 h

theorem State.short_ofSource (source : String) (options : Options) :
    (State.ofSource source options).Short :=
  State.short_of_nil rfl

theorem carries_short : stepping.Carries State.Short :=
  ⟨fun h hs => (h hs).2, fun _ hs => hs.of_same rfl⟩

/-- Every call is made with at most one token that was looked at. -/
theorem Reached.short (h : Reached options source call s) : s.Short :=
  carries_short.reached (State.short_ofSource source options) h

/-- Every call goes step by step. -/
theorem Call.leadsTo_after (call : Call) (h : s.Short) : s.LeadsTo (call.after s) := by
  have hstepping : stepping.Carries s.LeadsTo :=
    ⟨fun h hs => hs.trans (h hs.2), fun change hs => hs.trans (State.leadsTo_renest change hs.2)⟩
  exact hstepping.after call (.refl h)

end ConfLang
