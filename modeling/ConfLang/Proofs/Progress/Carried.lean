import ConfLang.Proofs.Nesting.Balanced

/-!
# What is carried to every call

Some properties of a state are kept by every reading, whatever the nesting is.  Such a property
is carried from the beginning of a source to every state in which a call is made: through the
steps of a caller, and inside of each of them from a call to the calls that it makes in turn.

`Course.Carries` names what is asked of the property, and `Course.Carries.reached` is the result.
In between there is one lemma for each way in which `Call.Makes` describes what was read in front
of a call.
-/

namespace ConfLang

open Reading

/-- A property of states that is kept along a course, and that does not depend on the nesting. -/
structure Course.Carries (C : Course) (P : State → Prop) : Prop where
  along : ∀ {s s' : State}, C.holds s s' → P s → P s'
  renest : ∀ {s : State} (change : Nesting → Nesting), P s → P (s.renest change)

namespace Course.Carries

variable {α σ : Type} {C : Course} {P : State → Prop} {s s' : State}

theorem run (hC : C.Carries P) (h : P s) (f : Reading α) [Obeys C.Kept f] : P (f.run s).2 :=
  hC.along (Obeys.obeys (P := C.Kept) (f := f) s).1 h

theorem of_run {f : Reading α} [Obeys C.Kept f] {a : α} (hC : C.Carries P) (h : P s)
    (hrun : f.run s = (.ok a, s')) : P s' := by
  have hafter := hC.run h f
  rwa [hrun] at hafter

theorem peeked (hC : C.Carries P) (h : P s) : P s.peeked.2 :=
  hC.of_run h (run_of_ok (run_peek s))

theorem advanced (hC : C.Carries P) (h : P s) : P s.advanced :=
  hC.of_run h (run_of_ok (run_advance s))

theorem rounds {step : σ → Reading (Turn σ)} [∀ value, Obeys C.Kept (step value)]
    {value value' : σ} (hC : C.Carries P) (h : P s) (hrounds : Rounds step value s value' s') :
    P s' := by
  induction hrounds with
  | none => exact h
  | more _ hturn _ ih => exact hC.of_run ih hturn

theorem reachesSuffix {level : Nat} (hC : C.Carries P) (h : P s)
    (hreaches : s.ReachesSuffix level s') : P s' := by
  obtain ⟨first, s₁, operand, hfirst, hrounds⟩ := hreaches
  exact hC.rounds (hC.of_run h hfirst) hrounds

/-! ## What is read in front of a statement -/

theorem opensBraces {expectation : Expectation} (hC : C.Carries P) (h : P s)
    (hopens : s.OpensBraces expectation s') : P s' := by
  obtain ⟨-, opened, after, hrun, rfl⟩ := hopens
  exact hC.renest Nesting.inBraces (hC.of_run (hC.renest Nesting.deeper h) hrun)

theorem opensChain {level : Nat} (hC : C.Carries P) (h : P s)
    (hopens : s.OpensChain (Expression.read level Operator.lowestPrecedence) s') : P s' := by
  obtain ⟨-, kind, condition, after, -, hrun, rfl⟩ := hopens
  exact hC.renest Nesting.inChain (hC.of_run (hC.renest Nesting.deeper (hC.peeked h)) hrun)

variable [TellsStray C.Kept]

theorem reachesStatement {enclosure : Enclosure} {level : Nat} (hC : C.Carries P) (h : P s)
    (hreaches : s.ReachesStatement enclosure level s') : P s' := by
  obtain ⟨statements, s₁, hrounds, hend⟩ := hreaches
  have (statements : Array Statement) : Obeys C.Kept
      (bodyTurn enclosure.atEnd (Statement.read level) statements) := by
    unfold bodyTurn
    infer_instance
  exact hC.of_run (hC.rounds h hrounds) hend

theorem reachesBranch {level : Nat} {branches : Branches} (hC : C.Carries P) (h : P s)
    (hreaches : s.ReachesBranch level branches s') : P s' := by
  obtain ⟨s₁, thenBody, s₂, hchain, hbody, hrounds⟩ := hreaches
  exact hC.rounds (hC.of_run (hC.opensChain h hchain) hbody) hrounds

/-! ## From call to call -/

variable {call call' : Call}

theorem after (hC : C.Carries P) (call : Call) (h : P s) : P (call.after s) := by
  cases call with
  | operand level =>
      have := obeys_operand (P := C.Kept) level
      exact hC.run h _
  | _ => exact hC.run h _

/-- What holds where a call is made holds where it makes its own calls. -/
theorem makes (hC : C.Carries P) (h : call.Makes s call' s') (hs : P s) : P s' := by
  have hoperand (level : Nat) : Obeys C.Kept (Reading.operand level) := obeys_operand level
  cases h with
  | ofProgram hreaches => exact hC.reachesStatement (hC.run hs (Reading.note .started)) hreaches
  | conditional => exact hC.peeked hs
  | type _ hhead | value _ hhead | group _ hhead | assigned _ hhead _ | choice _ hhead
  | thenBlock _ hhead => exact hC.of_run (hC.peeked hs) hhead
  | elseBlock _ hhead hthen helse =>
      exact hC.of_run (hC.of_run (hC.of_run (hC.peeked hs) hhead) hthen) helse
  | ofBlock hbraces hreaches => exact hC.reachesStatement (hC.opensBraces hs hbraces) hreaches
  | opening _ _ hhead => exact hC.of_run (hC.renest Nesting.deeper (hC.peeked hs)) hhead
  | thenBranch hchain hreaches => exact hC.reachesStatement (hC.opensChain hs hchain) hreaches
  | elifOpening hbranch _ hhead =>
      exact hC.of_run (hC.peeked (hC.reachesBranch hs hbranch)) hhead
  | elifBranch hbranch _ hhead hreaches | otherwiseBranch hbranch _ hhead hreaches =>
      have hinside := hC.of_run (hC.peeked (hC.reachesBranch hs hbranch)) hhead
      exact hC.reachesStatement hinside hreaches
  | condition => exact hC.renest Nesting.conditional hs
  | left => exact hs
  | right hfirst hrounds hoperator _ hadvance =>
      have hleft := hC.rounds (hC.of_run hs hfirst) hrounds
      exact hC.of_run (hC.of_run hleft hoperator) hadvance
  | negation _ | parentheses _ => exact hC.renest Nesting.deeper (hC.advanced hs)
  | element _ hrounds _ =>
      exact hC.peeked (hC.rounds (hC.renest Nesting.deeper (hC.advanced hs)) hrounds)
  | argument hsuffix _ hrounds _ hhead =>
      have hopened := hC.advanced (hC.reachesSuffix hs hsuffix)
      exact hC.of_run (hC.peeked (hC.rounds (hC.renest Nesting.deeper hopened) hrounds)) hhead

/-! ## From the beginning of a source -/

variable {options : Options} {source : String}

theorem session (hC : C.Carries P) (hstart : P (.ofSource source options))
    (h : Session options source s) : P s := by
  induction h with
  | start => exact hstart
  | next _ _ ih => exact hC.after _ ih

theorem reached (hC : C.Carries P) (hstart : P (.ofSource source options))
    (h : Reached options source call s) : P s := by
  induction h with
  | begin hsession => exact hC.session hstart hsession
  | make _ hmakes ih => exact hC.makes hmakes ih

end Course.Carries

end ConfLang
