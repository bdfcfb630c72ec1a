import ConfLang.Proofs.Recovery.Skipping

/-!
# Readings that fail behind other errors

`GivesWith` describes a reading that reports some problems and gives a value.  A reading that
reports some problems and then fails with one more is described by `FailsWith`, with one rule for
each way to put readings together: the failure goes through everything that comes behind it, and
the nesting around it is restored.

A body takes such a failure for one statement.  It is reported behind the other problems, and if
the statement has failed at the end of the source, there is nothing to skip
(`FailsWith.appendStatement`).
-/

namespace ConfLang.Reading

variable {α β : Type} {problems more : List Problem} {o : Options} {n : Nesting}
  {c c' c'' : Cursor} {k k' k'' : Nat} {f g : Reading α} {a : α} {problem : Problem}

/-- Between two cursors, a reading reports some problems and then fails with another one. -/
def FailsWith (problems : List Problem) (o : Options) (n : Nesting) (c : Cursor) (k : Nat)
    (f : Reading α) (c' : Cursor) (k' : Nat) (problem : Problem) : Prop :=
  ∀ j ≤ k, ∀ s : State, s.Sees o n j c →
    ∃ j' ≤ k', ∃ s' t : State, s'.Sees o n j' c' ∧ (resumption problems).Agree s' t ∧
      f.run s = (.error problem, t)

/-! ## Rules -/

theorem failsWith_fail (hlimit : o.maxErrors = none) (cause : Cause) (span : Span) :
    FailsWith [] o n c k (fail cause span : Reading α) c k ⟨cause, span⟩ :=
  fun j hj s hs => ⟨j, hj, s, s, hs, resumption_refl (hs.options ▸ hlimit) hs.stopped, rfl⟩

/-- A failure may come after a part of which nothing goes wrong. -/
theorem Leads.failsWith (hfg : Leads o n c k f c' k' g)
    (hg : FailsWith problems o n c' k' g c'' k'' problem) :
    FailsWith problems o n c k f c'' k'' problem := by
  intro j hj s hs
  obtain ⟨j', hj', s', hs', hrun⟩ := hfg j hj s hs
  obtain ⟨j'', hj'', s'', t, hs'', hagree, hfails⟩ := hg j' hj' s' hs'
  refine ⟨j'', hj'', s'', t, hs'', hagree, ?_⟩
  simp only [run, EStateM.run] at hrun hfails ⊢
  rw [hrun, hfails]

theorem Gives.bind_failsWith {rest : α → Reading β} (hf : Gives o n c k f c' k' a)
    (hrest : FailsWith problems o n c' k' (rest a) c'' k'' problem) :
    FailsWith problems o n c k (f >>= rest) c'' k'' problem :=
  Leads.failsWith (hf.bind .refl) hrest

/-- What was reported before a failure was reported first. -/
theorem GivesWith.bind_failsWith {rest : α → Reading β} (hf : GivesWith problems o n c k f c' k' a)
    (hrest : FailsWith more o n c' k' (rest a) c'' k'' problem)
    [Obeys (resumption problems).Kept (rest a)] :
    FailsWith (problems ++ more) o n c k (f >>= rest) c'' k'' problem := by
  intro j hj s hs
  obtain ⟨j', hj', s', t, hs', hagree, hrun⟩ := hf j hj s hs
  obtain ⟨j'', hj'', s'', t'', hs'', hagree'', hrun'⟩ := hrest j' hj' s' hs'
  obtain ⟨u, hrun'', hagree'⟩ := run_of_resumption hagree hrun'
  refine ⟨j'', hj'', s'', u, hs'', resumption_trans hagree'' hagree', ?_⟩
  rw [bind_run, hrun, ← hrun'']

/-- Nothing is done behind a failure. -/
theorem FailsWith.bind {rest : α → Reading β} (hf : FailsWith problems o n c k f c' k' problem) :
    FailsWith problems o n c k (f >>= rest) c' k' problem := by
  intro j hj s hs
  obtain ⟨j', hj', s', t, hs', hagree, hrun⟩ := hf j hj s hs
  exact ⟨j', hj', s', t, hs', hagree, by rw [bind_run, hrun]⟩

theorem FailsWith.between (opening closing : Nesting → Nesting) (hn : closing (opening n) = n)
    (hf : FailsWith problems o (opening n) c k f c' k' problem) :
    FailsWith problems o n c k
      (Reading.between (State.renest opening) (State.renest closing) f) c' k' problem := by
  intro j hj s hs
  have hopened : s.renest opening = { s with nesting := opening n } := by
    rw [State.renest, hs.nesting]
  obtain ⟨j', hj', s', t, hs', hagree, hrun⟩ := hf j hj _ (hs.renest (opening n))
  have hclosed : s'.renest closing = { s' with nesting := n } := by
    rw [State.renest, hs'.nesting, hn]
  refine ⟨j', hj', s'.renest closing, t.renest closing, ?_, hagree.renest closing, ?_⟩
  · rw [hclosed]
    exact hs'.renest n
  · rw [between_run, hopened, hrun]

/-- With room for one more construct it is entered, and left behind the failure. -/
theorem FailsWith.nested (hdepth : n.depth < o.maxNestingDepth)
    (hf : FailsWith problems o n.deeper c k f c' k' problem) :
    FailsWith problems o n c k (nested f) c' k' problem := by
  have hbetween : FailsWith problems o n c k (Reading.between State.enter State.leave f) c' k'
      problem :=
    hf.between Nesting.deeper (fun nesting => { nesting with depth := nesting.depth - 1 }) rfl
  refine Leads.failsWith (leads_get fun _ hoptions hnesting _ => ?_) hbetween
  rw [hoptions, hnesting, if_pos hdepth]
  exact .refl

/-! ## At the end of the source -/

/-- At the end of a source nothing is skipped, not even the token that is skipped in any case. -/
theorem gives_skipTurns_atEnd (hend : c.AtEnd) (skipping : Skipping) :
    Gives o n c 1 (iterate skipTurn skipping) c 1 skipping := by
  have hpeek : Gives o n c 1 peek c 1 c.next.token := gives_peek (.inr hend.2) (Nat.le_refl 1)
  refine Gives.iterate_done (hpeek.bind (leads_get fun s _ _ _ => ?_))
  split
  · exact gives_pure
  · have hadvance : Gives o n c 1 advance c 1 c.next.token := by
      refine hpeek.bind ?_
      simp only [hend.1]
      exact gives_pure
    refine hadvance.bind ((gives_note _).bind ?_)
    rw [if_pos hend.1]
    exact gives_pure

/-- A statement that fails at the end of the source is reported, and leaves nothing in the body. -/
theorem FailsWith.appendStatement (hlimit : o.maxErrors = none)
    {statement : Reading (Option Statement)}
    (h : FailsWith problems o n c k statement c' 1 problem) (hend : c'.AtEnd)
    (statements : Array Statement) :
    GivesWith (problems ++ [problem]) o n c k (appendStatement statement statements) c' 1
      statements := by
  intro j hj s hs
  obtain ⟨j', hj', s', t, hs', hagree, hrun⟩ := h j hj s hs
  obtain ⟨j'', hj'', last, hlast, hskips⟩ := gives_skipTurns_atEnd hend
    { forced := s'.consumed == s.consumed } j' hj' _ (hs'.unreported hend.2 hj')
  have hrecover : (recover s.consumed >>= fun _ => pure statements).run s'.unreported =
      (.ok statements, last) := by
    have hsame : s'.unreported.consumed = s'.consumed := rfl
    rw [bind_run, recover_run, bind_run, hsame, run_of_ok hskips]
    rfl
  -- The failure is reported behind all that was reported on the way to it.
  have hreported : (resumption (problems ++ [problem])).Agree s'.unreported
      (t.report problem.diagnostic) :=
    resumption_trans (hs'.resumes_report hlimit hend.2 hj' problem)
      ((hagree.report problem.diagnostic).resolve_right id)
  obtain ⟨u, hresumed, hagree'⟩ := run_of_resumption hreported hrecover
  refine ⟨j'', hj'', last, u, hlast, hagree', ?_⟩
  rw [appendStatement_run, hrun]
  exact hresumed

end ConfLang.Reading
