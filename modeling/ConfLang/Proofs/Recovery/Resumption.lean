import ConfLang.Proofs.Accord
import ConfLang.Proofs.Grammar.Leads

/-!
# Readings that report errors on their way

`Gives` is about readings of which nothing goes wrong.  A reading that comes from one cursor
to another and reports some problems meanwhile is described by `GivesWith`.  It supposes that
the number of errors is not limited.

## Strategy

A state behind some errors differs from a state that a parser sees at the same cursor only by
what was reported before.  Two runs from such states are in accord all the way (`resumption`),
so a reading may be followed by another one that was looked at from the beginning
(`GivesWith.bind`).
-/

namespace ConfLang

/-- Without a limit of errors, what is told in the second run begins with the diagnostics of
some earlier problems, and goes on as in the first one. -/
structure Told.Behind (earlier : List Problem) (first second : Told) : Prop where
  unlimited : first.maxErrors = none
  unlimited' : second.maxErrors = none
  running : first.stopped = false
  running' : second.stopped = false
  diagnostics : ∃ prior, second.diagnostics.toList = prior ++ first.diagnostics.toList ∧
    prior.filter (·.isError) = earlier.map Problem.diagnostic

namespace State

variable {earlier : List Problem} {s t : State}

/-- Without a limit of errors a report only adds a diagnostic. -/
theorem told_report (hlimit : s.told.maxErrors = none) (hrunning : s.told.stopped = false)
    (diagnostic : Diagnostic) :
    (s.report diagnostic).told.maxErrors = none ∧ (s.report diagnostic).told.stopped = false ∧
      (s.report diagnostic).told.diagnostics = s.diagnostics.push diagnostic := by
  have hunlimited : s.options.maxErrors = none := hlimit
  have hopen : s.stopped = false := hrunning
  unfold report
  rw [if_neg (by simp [hopen])]
  by_cases herror : diagnostic.isError = true
  · simp only [if_pos herror, countError, hunlimited]
    exact ⟨hunlimited, hopen, rfl⟩
  · simp only [if_neg herror]
    exact ⟨hunlimited, hopen, rfl⟩

theorem behind_report (h : Told.Behind earlier s.told t.told) (diagnostic : Diagnostic) :
    Told.Behind earlier (s.report diagnostic).told (t.report diagnostic).told := by
  obtain ⟨hlimit, hrunning, hdiagnostics⟩ := told_report h.unlimited h.running diagnostic
  obtain ⟨hlimit', hrunning', hdiagnostics'⟩ := told_report h.unlimited' h.running' diagnostic
  obtain ⟨prior, hprior, herrors⟩ := h.diagnostics
  refine ⟨hlimit, hlimit', hrunning, hrunning', prior, ?_, herrors⟩
  have hprior : t.diagnostics.toList = prior ++ s.diagnostics.toList := hprior
  rw [hdiagnostics, hdiagnostics', Array.toList_push, Array.toList_push, hprior,
    List.append_assoc]

end State

/-- A run that goes on behind earlier problems does what a run does that begins there. -/
def resumption (earlier : List Problem) : Accord where
  together := Told.Behind earlier
  apart _ _ := False
  note h _ := { h with }
  report _ h diagnostic := .inl (State.behind_report h diagnostic)
  lasts h _ _ := h

instance {earlier : List Problem} : Reading.AsksStop (resumption earlier).Kept :=
  Accord.asksStop fun h => h.running.trans h.running'.symm

variable {earlier later : List Problem} {s t u : State}

/-- Nothing was reported before. -/
theorem resumption_refl (hlimit : s.options.maxErrors = none) (hstopped : s.stopped = false) :
    (resumption []).Agree s s :=
  ⟨rfl, hlimit, hlimit, hstopped, hstopped, [], rfl, rfl⟩

/-- What was reported before a state that was resumed was reported first. -/
theorem resumption_trans (hlater : (resumption later).Agree s t)
    (hearlier : (resumption earlier).Agree t u) : (resumption (earlier ++ later)).Agree s u := by
  obtain ⟨hbare, hfirst⟩ := hlater
  obtain ⟨hbare', hlast⟩ := hearlier
  obtain ⟨prior, hprior, herrors⟩ := hfirst.diagnostics
  obtain ⟨prior', hprior', herrors'⟩ := hlast.diagnostics
  refine ⟨hbare.trans hbare', hfirst.unlimited, hlast.unlimited', hfirst.running, hlast.running',
    prior' ++ prior, ?_, ?_⟩
  · rw [hprior', hprior, List.append_assoc]
  · rw [List.filter_append, herrors, herrors', List.map_append]

/-! ## Reports -/

namespace State

variable {o : Options} {n : Nesting} {k : Nat} {c : Cursor}

/-- A state in which nothing has been reported yet. -/
def unreported (s : State) : State :=
  { s with diagnostics := #[] }

/-- Where nothing is wrong in front of the next token, no error was reported. -/
theorem Sees.errors_of_problems (hs : s.Sees o n k c) (h : c.next.problems = []) (hk : k ≤ 1) :
    s.errors = [] := by
  have herrors := hs.errors
  obtain rfl | rfl := Nat.le_one_iff_eq_zero_or_eq_one.mp hk
  · exact herrors
  · simpa [Cursor.pending, h] using herrors

theorem Sees.unreported (hs : s.Sees o n k c) (h : c.next.problems = []) (hk : k ≤ 1) :
    s.unreported.Sees o n k c := by
  have hnone : s.unreported.errors = [] := rfl
  refine ⟨hs.options, hs.nesting, hs.stopped, hs.size, hs.previous, hs.lookahead, hs.cursor, ?_⟩
  rw [hnone, ← hs.errors_of_problems h hk, hs.errors]

/-- A report is all that a state behind it has been told. -/
theorem Sees.resumes_report (hs : s.Sees o n k c) (hlimit : o.maxErrors = none)
    (h : c.next.problems = []) (hk : k ≤ 1) (problem : Problem) :
    (resumption [problem]).Agree s.unreported (s.report problem.diagnostic) := by
  have hunlimited : s.options.maxErrors = none := hs.options ▸ hlimit
  obtain ⟨hlimit', hrunning', hdiagnostics⟩ :=
    told_report (s := s) hunlimited hs.stopped problem.diagnostic
  have hnone : s.diagnostics.toList.filter (·.isError) = [] := hs.errors_of_problems h hk
  refine ⟨(bare_report s _).symm, hunlimited, hlimit', hs.stopped, hrunning',
    s.diagnostics.toList ++ [problem.diagnostic], ?_, ?_⟩
  · rw [hdiagnostics, Array.toList_push]
    exact (List.append_nil _).symm
  · rw [List.filter_append, hnone]
    rfl

end State

namespace Reading

variable {α β σ : Type}

/-- Runs that are resumed behind earlier problems end in the same way. -/
theorem run_of_resumption {f : Reading α} [Obeys (resumption earlier).Kept f]
    (hagree : (resumption earlier).Agree s t) {result : Except Problem α} {s' : State}
    (hrun : f.run s = (result, s')) :
    ∃ t', f.run t = (result, t') ∧ (resumption earlier).Agree s' t' := by
  have hends := (Obeys.obeys (P := (resumption earlier).Kept) (f := f)).2 s t hagree
  rw [hrun] at hends
  generalize f.run t = second at hends
  obtain ⟨result', t'⟩ := second
  rcases hends with ⟨hresult, hagree'⟩ | hnever
  · simp only at hresult
    subst hresult
    exact ⟨t', rfl, hagree'⟩
  · exact hnever.elim

/-- Between two cursors, a reading gives a value and reports some problems. -/
def GivesWith (problems : List Problem) (o : Options) (n : Nesting) (c : Cursor) (k : Nat)
    (f : Reading α) (c' : Cursor) (k' : Nat) (a : α) : Prop :=
  ∀ j ≤ k, ∀ s : State, s.Sees o n j c →
    ∃ j' ≤ k', ∃ s' t : State, s'.Sees o n j' c' ∧ (resumption problems).Agree s' t ∧
      f.run s = (.ok a, t)

variable {problems more : List Problem} {o : Options} {n m : Nesting} {c c' c'' : Cursor}
  {k k' k'' : Nat} {f g : Reading α} {a : α}

/-! ## Rules -/

theorem GivesWith.weaken {l l' : Nat} (hf : GivesWith problems o n c k f c' k' a) (hl : l ≤ k)
    (hl' : k' ≤ l') : GivesWith problems o n c l f c' l' a := by
  intro j hj s hs
  obtain ⟨j', hj', h⟩ := hf j (hj.trans hl) s hs
  exact ⟨j', hj'.trans hl', h⟩

/-- To have looked at no token is as good as to have looked at one. -/
theorem GivesWith.loose (hf : GivesWith problems o n c k f c' 0 a) :
    GivesWith problems o n c k f c' 1 a :=
  hf.weaken (Nat.le_refl k) (Nat.zero_le 1)

theorem Gives.with_nil (hlimit : o.maxErrors = none) (hf : Gives o n c k f c' k' a) :
    GivesWith [] o n c k f c' k' a := by
  intro j hj s hs
  obtain ⟨j', hj', s', hs', hrun⟩ := hf j hj s hs
  have hagree := resumption_refl (s := s') (hs'.options ▸ hlimit) hs'.stopped
  exact ⟨j', hj', s', s', hs', hagree, run_of_ok hrun⟩

/-- Problems may come after a part of which nothing goes wrong. -/
theorem Leads.gives (hfg : Leads o n c k f c' k' g)
    (hg : GivesWith problems o n c' k' g c'' k'' a) : GivesWith problems o n c k f c'' k'' a := by
  intro j hj s hs
  obtain ⟨j', hj', s', hs', hrun⟩ := hfg j hj s hs
  obtain ⟨j'', hj'', s'', t, hs'', hagree, hgives⟩ := hg j' hj' s' hs'
  refine ⟨j'', hj'', s'', t, hs'', hagree, ?_⟩
  simp only [run, EStateM.run] at hrun hgives ⊢
  rw [hrun, hgives]

theorem Gives.bind_with {rest : α → Reading β} {b : β} (hf : Gives o n c k f c' k' a)
    (hrest : GivesWith problems o n c' k' (rest a) c'' k'' b) :
    GivesWith problems o n c k (f >>= rest) c'' k'' b :=
  Leads.gives (hf.bind .refl) hrest

theorem GivesWith.bind {rest : α → Reading β} {b : β} (hf : GivesWith problems o n c k f c' k' a)
    (hrest : GivesWith more o n c' k' (rest a) c'' k'' b)
    [Obeys (resumption problems).Kept (rest a)] :
    GivesWith (problems ++ more) o n c k (f >>= rest) c'' k'' b := by
  intro j hj s hs
  obtain ⟨j', hj', s', t, hs', hagree, hrun⟩ := hf j hj s hs
  obtain ⟨j'', hj'', s'', t'', hs'', hagree'', hrun'⟩ := hrest j' hj' s' hs'
  -- what comes next does not mind what was reported before
  obtain ⟨u, hrun'', hagree'⟩ := run_of_resumption hagree hrun'
  refine ⟨j'', hj'', s'', u, hs'', resumption_trans hagree'' hagree', ?_⟩
  rw [bind_run, hrun, ← hrun'']

/-- Nothing goes wrong in what comes next. -/
theorem GivesWith.bind_gives {rest : α → Reading β} {b : β} (hlimit : o.maxErrors = none)
    (hf : GivesWith problems o n c k f c' k' a) (hrest : Gives o n c' k' (rest a) c'' k'' b)
    [Obeys (resumption problems).Kept (rest a)] :
    GivesWith problems o n c k (f >>= rest) c'' k'' b := by
  have hboth := hf.bind (hrest.with_nil hlimit)
  rwa [List.append_nil] at hboth

theorem givesWith_get {rest : State → Reading β} {b : β}
    (h : ∀ s, GivesWith problems o n c k (rest s) c' k' b) :
    GivesWith problems o n c k (get >>= rest) c' k' b :=
  fun j hj s hs => h s j hj s hs

theorem GivesWith.bind_pure {rest : α → β} (hf : GivesWith problems o n c k f c' k' a) :
    GivesWith problems o n c k (f >>= fun a => pure (rest a)) c' k' (rest a) := by
  intro j hj s hs
  obtain ⟨j', hj', s', t, hs', hagree, hrun⟩ := hf j hj s hs
  refine ⟨j', hj', s', t, hs', hagree, ?_⟩
  rw [bind_run, hrun]
  rfl

theorem GivesWith.map {rest : α → β} (hf : GivesWith problems o n c k f c' k' a) :
    GivesWith problems o n c k (rest <$> f) c' k' (rest a) := by
  rw [← bind_pure_comp]
  exact hf.bind_pure

theorem GivesWith.between (opening closing : Nesting → Nesting) (hn : closing (opening n) = n)
    (hf : GivesWith problems o (opening n) c k f c' k' a) :
    GivesWith problems o n c k
      (Reading.between (State.renest opening) (State.renest closing) f) c' k' a := by
  intro j hj s hs
  have hopened : s.renest opening = { s with nesting := opening n } := by
    rw [State.renest, hs.nesting]
  obtain ⟨j', hj', s', t, hs', hagree, hrun⟩ := hf j hj _ (hs.renest (opening n))
  have hclosed : s'.renest closing = { s' with nesting := n } := by
    rw [State.renest, hs'.nesting, hn]
  refine ⟨j', hj', s'.renest closing, t.renest closing, ?_, hagree.renest closing, ?_⟩
  · rw [hclosed]
    exact hs'.renest n
  · rw [between_run, hopened, hrun]

/-- With room for one more construct a reading can be nested. -/
theorem GivesWith.nested (hdepth : n.depth < o.maxNestingDepth)
    (hf : GivesWith problems o n.deeper c k f c' k' a) :
    GivesWith problems o n c k (nested f) c' k' a := by
  have hbetween : GivesWith problems o n c k (Reading.between State.enter State.leave f) c' k' a :=
    hf.between Nesting.deeper (fun nesting => { nesting with depth := nesting.depth - 1 }) rfl
  refine Leads.gives (leads_get fun _ hoptions hnesting _ => ?_) hbetween
  rw [hoptions, hnesting, if_pos hdepth]
  exact .refl

theorem GivesWith.iterate_again {step : σ → Reading (Turn σ)} {value value' result : σ}
    (hstep : GivesWith problems o n c k (step value) c' k' (.again value'))
    (hless : c'.left < c.left)
    (hrest : GivesWith more o n c' k' (iterate step value') c'' k'' result)
    [Obeys (resumption problems).Kept (iterate step value')] :
    GivesWith (problems ++ more) o n c k (iterate step value) c'' k'' result := by
  intro j hj s hs
  obtain ⟨j', hj', s', t, hs', hagree, hrun⟩ := hstep j hj s hs
  obtain ⟨j'', hj'', s'', t'', hs'', hagree'', hrun'⟩ := hrest j' hj' s' hs'
  obtain ⟨u, hrun'', hagree'⟩ := run_of_resumption hagree hrun'
  refine ⟨j'', hj'', s'', u, hs'', resumption_trans hagree'' hagree', ?_⟩
  rw [iterate_run, bind_run, hrun]
  simp only
  rw [afterTurn_again_run, ← hagree.remaining, hs'.remaining, hs.remaining, if_pos hless, hrun'']

end Reading

end ConfLang
