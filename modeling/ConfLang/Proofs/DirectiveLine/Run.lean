import ConfLang.Proofs.DirectiveLine.Scan
import ConfLang.Proofs.Recovery.Resumption

/-!
# Readings that stay on the line of a directive

`Comes` tells the whole outcome of a reading at a place: how it ends, where, and which problems it
reports, the last ones from the tokens that it has looked at and not taken.  It is the same from all
states at that place, whatever was reported before.  Errors are not limited here.

A reading stays on the line of a directive (`StaysOnLine`) if from every place on such a line it
ends on it, with a value or not, and everything that it finds wrong is on it.  For this it is
enough that it never takes the end of the line.  So there is one rule for each way to put readings
together, and the rule for taking a token asks what kind of token it is.

## Where to look

* `State.IsAt`: a state and a place.
* `Comes`: rules for single steps, and for steps one after the other.
* `Stays`, `StaysOnLine`: the same rules, when only the line is asked for.
* `Finishes`: a line that is read through its end, or not.
-/

namespace ConfLang

/-- What is reported when the next token of a place is looked at, and some tokens were looked at
already. -/
def Cursor.unseen (cursor : Cursor) (count : Nat) : List Problem :=
  if count = 0 then cursor.next.problems else []

namespace State

variable {s : State} {o : Options} {n : Nesting} {c : Cursor} {k : Nat}

/-- A state is at a place, and has looked at some tokens behind it. -/
structure IsAt (state : State) (o : Options) (n : Nesting) (place : Cursor) (count : Nat) :
    Prop where
  options : state.options = o
  nesting : state.nesting = n
  stopped : state.stopped = false
  size : state.size = place.position.offset + place.left
  previous : state.previous.stop = place.position.offset
  lookahead : state.lookahead = place.ahead count
  cursor : state.cursor = place.behind count

theorem Sees.isAt (h : s.Sees o n k c) : s.IsAt o n c k :=
  ⟨h.options, h.nesting, h.stopped, h.size, h.previous, h.lookahead, h.cursor⟩

namespace IsAt

theorem remaining (h : s.IsAt o n c k) : s.remaining = c.left := by
  rw [State.remaining, h.size, h.previous, Nat.add_sub_cancel_left]

theorem renest (h : s.IsAt o n c k) (nesting : Nesting) :
    { s with nesting }.IsAt o nesting c k :=
  ⟨h.options, rfl, h.stopped, h.size, h.previous, h.lookahead, h.cursor⟩

/-- Reports do not move. -/
theorem foldl_report (h : s.IsAt o n c k) (hlimit : o.maxErrors = none)
    (diagnostics : List Diagnostic) :
    (diagnostics.foldl State.report s).IsAt o n c k ∧
      (diagnostics.foldl State.report s).errors = s.errors ++ diagnostics.filter (·.isError) := by
  have hopen : s.options.maxErrors = none ∨
      ∀ diagnostic ∈ diagnostics, diagnostic.isError = false := .inl (h.options ▸ hlimit)
  obtain ⟨hstopped, herrors⟩ := foldl_report_open h.stopped hopen
  rw [foldl_report_frame] at hstopped ⊢
  exact ⟨⟨h.options, h.nesting, hstopped, h.size, h.previous, h.lookahead, h.cursor⟩, herrors⟩

theorem scan (h : s.IsAt o n c k) (hlimit : o.maxErrors = none) :
    s.scan.1 = (c.behind k).next.token ∧ s.scan.2.IsAt o n c (k + 1) ∧
      s.scan.2.errors = s.errors ++ (c.behind k).next.problems.map Problem.diagnostic := by
  have hlooked : s.looked.IsAt o n c (k + 1) := by
    refine ⟨h.options, h.nesting, h.stopped, h.size, h.previous, ?_, ?_⟩
    · rw [c.ahead_succ, ← h.lookahead, ← h.cursor]
      rfl
    · rw [c.behind_succ, ← h.cursor]
      rfl
  rw [scan_eq, h.cursor]
  obtain ⟨hat, herrors⟩ :=
    hlooked.foldl_report hlimit ((c.behind k).next.problems.map Problem.diagnostic)
  refine ⟨rfl, hat, herrors.trans ?_⟩
  rw [List.filter_eq_self.mpr]
  · rfl
  · simp only [List.forall_mem_map]
    exact fun _ _ => rfl

theorem peeked (h : s.IsAt o n c k) (hlimit : o.maxErrors = none) :
    s.peeked.1 = c.next.token ∧ s.peeked.2.IsAt o n c (max k 1) ∧
      s.peeked.2.errors = s.errors ++ (c.unseen k).map Problem.diagnostic := by
  cases k with
  | zero =>
      rw [peeked_of_nil h.lookahead]
      exact h.scan hlimit
  | succ k =>
      rw [peeked_of_cons h.lookahead, Nat.max_eq_left (Nat.le_add_left 1 k)]
      exact ⟨rfl, h, (List.append_nil _).symm⟩

theorem take (h : s.IsAt o n c (k + 1)) : (s.take c.next.token).IsAt o n c.next.cursor k := by
  have hoffset := c.offset_next
  refine ⟨h.options, h.nesting, h.stopped, h.size.trans hoffset.1.symm, hoffset.2, ?_, h.cursor⟩
  rw [State.take, h.lookahead]
  rfl

/-- A state that has looked at nothing is at one place only. -/
theorem eq_of_sees {m : Nesting} {place : Cursor} {count : Nat} (h : s.IsAt o n c 0)
    (hs : s.Sees o m count place) : count = 0 ∧ place = c := by
  have hahead : place.ahead count = [] := hs.lookahead.symm.trans h.lookahead
  cases count with
  | zero => exact ⟨rfl, hs.cursor.symm.trans h.cursor⟩
  | succ count => cases hahead

/-- States that differ in what was reported are at the same place. -/
theorem of_agree {t : State} {earlier : List Problem} (h : s.IsAt o n c k)
    (hagree : (resumption earlier).Agree s t) : t.IsAt o n c k := by
  have hfield {β : Type} (field : State → β) (hbare : ∀ s, field s.bare = field s) :
      field t = field s := by
    rw [← hbare t, ← hagree.bare, hbare]
  have hlimit : s.options.maxErrors = t.options.maxErrors :=
    hagree.told.unlimited.trans hagree.told.unlimited'.symm
  have hdepth := hfield (·.options.maxNestingDepth) fun _ => rfl
  have hexpanding := hfield (·.options.expandingAssign) fun _ => rfl
  have hoptions : t.options = s.options := by
    cases hs : s.options
    cases ht : t.options
    simp_all
  exact ⟨hoptions.trans h.options, (hfield State.nesting fun _ => rfl).trans h.nesting,
    hagree.told.running', (hfield State.size fun _ => rfl).trans h.size,
    (hfield (·.previous.stop) fun _ => rfl).trans h.previous,
    (hfield State.lookahead fun _ => rfl).trans h.lookahead,
    (hfield State.cursor fun _ => rfl).trans h.cursor⟩

end IsAt

end State

namespace Reading

variable {α β σ : Type}

/-! ## The whole outcome of a reading -/

/-- From one place to another a reading ends in some way, and some problems are reported. -/
def Comes (o : Options) (n : Nesting) (c : Cursor) (k : Nat) (f : Reading α)
    (problems : List Problem) (c' : Cursor) (k' : Nat) (result : Except Problem α) : Prop :=
  ∀ s : State, s.IsAt o n c k → ∃ t : State, f.run s = (result, t) ∧ t.IsAt o n c' k' ∧
    t.errors = s.errors ++ problems.map Problem.diagnostic

variable {o : Options} {n m : Nesting} {c c' c'' behind : Cursor} {k k' k'' : Nat}
  {f g : Reading α} {a : α} {problem : Problem} {problems more : List Problem}
  {result : Except Problem α}

theorem Comes.bind {rest : α → Reading β} {result : Except Problem β}
    (hf : Comes o n c k f problems c' k' (.ok a))
    (hrest : Comes o n c' k' (rest a) more c'' k'' result) :
    Comes o n c k (f >>= rest) (problems ++ more) c'' k'' result := by
  intro s hs
  obtain ⟨t, hrun, ht, herrors⟩ := hf s hs
  obtain ⟨u, hrun', hu, herrors'⟩ := hrest t ht
  refine ⟨u, by rw [bind_run, hrun, ← hrun'], hu, ?_⟩
  rw [herrors', herrors, List.append_assoc, List.map_append]

/-- Nothing is done behind a failure. -/
theorem Comes.bind_error {rest : α → Reading β}
    (hf : Comes o n c k f problems c' k' (.error problem)) :
    Comes o n c k (f >>= rest) problems c' k' (.error problem) := by
  intro s hs
  obtain ⟨t, hrun, ht⟩ := hf s hs
  exact ⟨t, by rw [bind_run, hrun], ht⟩

theorem comes_pure : Comes o n c k (pure a) [] c k (.ok a) :=
  fun s hs => ⟨s, rfl, hs, (List.append_nil _).symm⟩

theorem Comes.bind_pure {rest : α → β} (hf : Comes o n c k f problems c' k' (.ok a)) :
    Comes o n c k (f >>= fun a => pure (rest a)) problems c' k' (.ok (rest a)) := by
  rw [← List.append_nil problems]
  exact hf.bind comes_pure

theorem Comes.map {g : α → β} (hf : Comes o n c k f problems c' k' (.ok a)) :
    Comes o n c k (g <$> f) problems c' k' (.ok (g a)) := by
  rw [← bind_pure_comp]
  exact hf.bind_pure

theorem comes_fail {cause : Cause} {span : Span} :
    Comes o n c k (fail cause span : Reading α) [] c k (.error ⟨cause, span⟩) :=
  fun s hs => ⟨s, rfl, hs, (List.append_nil _).symm⟩

/-- The state may be asked for its options and its nesting. -/
theorem Comes.of_get {rest : State → Reading α}
    (h : ∀ s : State, s.options = o → s.nesting = n → rest s = g)
    (hg : Comes o n c k g problems c' k' result) :
    Comes o n c k (get >>= rest) problems c' k' result := by
  intro s hs
  obtain ⟨t, hrun, ht⟩ := hg s hs
  refine ⟨t, ?_, ht⟩
  rw [← h s hs.options hs.nesting] at hrun
  exact hrun

theorem Comes.attempt (hf : Comes o n c k f problems c' k' result) :
    Comes o n c k (attempt f) problems c' k' (.ok result) := by
  intro s hs
  obtain ⟨t, hrun, ht⟩ := hf s hs
  exact ⟨t, by rw [attempt_run, hrun], ht⟩

theorem Comes.between (opening closing : Nesting → Nesting) (hn : closing (opening n) = n)
    (hf : Comes o (opening n) c k f problems c' k' result) :
    Comes o n c k (Reading.between (State.renest opening) (State.renest closing) f)
      problems c' k' result := by
  intro s hs
  have hopened : s.renest opening = { s with nesting := opening n } := by
    rw [State.renest, hs.nesting]
  obtain ⟨t, hrun, ht, herrors⟩ := hf _ (hs.renest (opening n))
  have hclosed : t.renest closing = { t with nesting := n } := by
    rw [State.renest, ht.nesting, hn]
  refine ⟨t.renest closing, by rw [between_run, hopened, hrun], ?_, herrors⟩
  rw [hclosed]
  exact ht.renest n

section Repetition

variable {step : σ → Reading (Turn σ)} {value value' : σ} {result : Except Problem σ}

theorem Comes.iterate_done
    (hstep : Comes o n c k (step value) problems c' k' (.ok (.done value'))) :
    Comes o n c k (iterate step value) problems c' k' (.ok value') := by
  intro s hs
  obtain ⟨t, hrun, ht⟩ := hstep s hs
  exact ⟨t, by rw [iterate_run, bind_run, hrun]; rfl, ht⟩

theorem Comes.iterate_error (hstep : Comes o n c k (step value) problems c' k' (.error problem)) :
    Comes o n c k (iterate step value) problems c' k' (.error problem) := by
  intro s hs
  obtain ⟨t, hrun, ht⟩ := hstep s hs
  exact ⟨t, by rw [iterate_run, bind_run, hrun], ht⟩

/-- A turn that has come no further is the last one. -/
theorem Comes.iterate_still
    (hstep : Comes o n c k (step value) problems c' k' (.ok (.again value')))
    (hstill : ¬c'.left < c.left) :
    Comes o n c k (iterate step value) problems c' k' (.ok value') := by
  intro s hs
  obtain ⟨t, hrun, ht⟩ := hstep s hs
  refine ⟨t, ?_, ht⟩
  rw [iterate_run, bind_run, hrun]
  simp only
  rw [afterTurn_again_run, ht.1.remaining, hs.remaining, if_neg hstill]

theorem Comes.iterate_again
    (hstep : Comes o n c k (step value) problems c' k' (.ok (.again value')))
    (hless : c'.left < c.left) (hrest : Comes o n c' k' (iterate step value') more c'' k'' result) :
    Comes o n c k (iterate step value) (problems ++ more) c'' k'' result := by
  have hafter : Comes o n c' k' (afterTurn step c.left (.again value')) more c'' k'' result := by
    intro s hs
    obtain ⟨t, hrun, ht⟩ := hrest s hs
    refine ⟨t, ?_, ht⟩
    rw [afterTurn_again_run, hs.remaining, if_pos hless, hrun]
  intro s hs
  obtain ⟨t, hrun, ht⟩ := hstep.bind hafter s hs
  exact ⟨t, by rw [iterate_run, hs.remaining, hrun], ht⟩

end Repetition

/-! ## Single steps -/

theorem comes_report (hlimit : o.maxErrors = none) (problem : Problem) :
    Comes o n c k (report problem.diagnostic) [problem] c k (.ok ()) :=
  fun _ hs => ⟨_, rfl, (hs.foldl_report hlimit [problem.diagnostic]).1,
    (hs.foldl_report hlimit [problem.diagnostic]).2⟩

theorem comes_peek (hlimit : o.maxErrors = none) :
    Comes o n c k peek (c.unseen k) c (max k 1) (.ok c.next.token) := by
  intro s hs
  obtain ⟨htoken, hat, herrors⟩ := hs.peeked hlimit
  exact ⟨_, run_of_ok (htoken ▸ run_peek s), hat, herrors⟩

theorem comes_peekSecond (hlimit : o.maxErrors = none) :
    Comes o n c 1 peekSecond c.next.cursor.next.problems c 2 (.ok c.next.cursor.next.token) := by
  intro s hs
  obtain ⟨htoken, hat, herrors⟩ := hs.scan hlimit
  have hrun : EStateM.run peekSecond s = .ok s.scan.1 s.scan.2 := by
    simp only [peekSecond, EStateM.run_bind, run_peek, State.peeked_of_cons hs.lookahead,
      EStateM.run_get, hs.lookahead, Cursor.ahead, run_scan]
  exact ⟨_, run_of_ok (htoken ▸ hrun), hat, herrors⟩

theorem comes_advance (hlimit : o.maxErrors = none) (hend : c.next.token.kind ≠ .endOfFile) :
    Comes o n c k advance (c.unseen k) c.next.cursor (k - 1) (.ok c.next.token) := by
  intro s hs
  obtain ⟨htoken, hat, herrors⟩ := hs.peeked hlimit
  have hadvanced : s.advanced = s.peeked.2.take c.next.token := by
    rw [State.advanced, htoken, if_neg hend]
  rw [show max k 1 = k - 1 + 1 by omega] at hat
  have hrun := run_of_ok (run_advance s)
  rw [hadvanced, htoken] at hrun
  exact ⟨_, hrun, hat.take, herrors⟩

/-! ## From any state at a place -/

/-- What is reported from a place at which nothing was looked at, up to another one. -/
theorem Comes.givesWith {α : Type} {f : Reading α} {a : α} {problems : List Problem}
    (hlimit : o.maxErrors = none) (h : Comes o n c 0 f problems c' 0 (.ok a)) :
    GivesWith problems o n c 0 f c' 0 a := by
  intro j hj s hs
  obtain rfl := Nat.le_zero.mp hj
  obtain ⟨t, hrun, ht, herrors⟩ := h s hs.isAt
  rw [show s.errors = [] from hs.errors, List.nil_append] at herrors
  refine ⟨0, Nat.le_refl 0, t.unreported, t, ?_, ⟨rfl, ?_⟩, hrun⟩
  · exact ⟨ht.options, ht.nesting, ht.stopped, ht.size, ht.previous, ht.lookahead, ht.cursor, rfl⟩
  · have hunlimited : t.options.maxErrors = none := ht.options ▸ hlimit
    exact ⟨hunlimited, hunlimited, ht.stopped, ht.stopped, t.diagnostics.toList,
      (List.append_nil _).symm, herrors⟩

theorem diagnostic_of_mem_errors {s : State} :
    (s.errors.map Diagnostic.toProblem).map Problem.diagnostic = s.errors := by
  rw [List.map_map, List.map_congr_left, List.map_id]
  intro diagnostic hmem
  obtain ⟨problem, severity⟩ := diagnostic
  have herror : severity = .error := by
    simpa [State.errors, Diagnostic.isError] using (List.mem_filter.mp hmem).2
  rw [herror]
  rfl

/-- What a reading gives where nothing was reported, it gives in any state at the same place. -/
theorem GivesWith.run_isAt (hf : GivesWith problems o n c k f c' k' a)
    [∀ earlier, Obeys (resumption earlier).Kept f] (hlimit : o.maxErrors = none)
    {s : State} {count : Nat} (hs : s.IsAt o n c count) (hcount : count ≤ k)
    (hbefore : c.pending count = []) (hbehind : ∀ j ≤ k', c'.pending j = []) :
    ∃ t count', f.run s = (.ok a, t) ∧ count' ≤ k' ∧ t.IsAt o n c' count' ∧
      t.errors = s.errors ++ problems.map Problem.diagnostic := by
  -- The reading is known from where nothing was reported, and reports do not change its way.
  have hunreported : s.unreported.Sees o n count c := by
    refine ⟨hs.options, hs.nesting, hs.stopped, hs.size, hs.previous, hs.lookahead, hs.cursor, ?_⟩
    rw [hbefore]
    rfl
  obtain ⟨j, hj, s', t, hs', hagree, hrun⟩ := hf count hcount _ hunreported
  have hunlimited : s.options.maxErrors = none := hs.options ▸ hlimit
  have hprior : (resumption (s.errors.map Diagnostic.toProblem)).Agree s.unreported s :=
    ⟨rfl, hunlimited, hunlimited, hs.stopped, hs.stopped, s.diagnostics.toList,
      (List.append_nil _).symm, diagnostic_of_mem_errors.symm⟩
  obtain ⟨u, hrun', hagree'⟩ := run_of_resumption hprior hrun
  have hboth := resumption_trans hagree hagree'
  refine ⟨u, j, hrun', hj, hs'.isAt.of_agree hboth, ?_⟩
  obtain ⟨prior, hdiagnostics, herrors⟩ := hboth.told.diagnostics
  have hdiagnostics : u.diagnostics.toList = prior ++ s'.diagnostics.toList := hdiagnostics
  have hnone : s'.diagnostics.toList.filter (·.isError) = [] := by
    have hpending := hs'.errors
    rwa [hbehind j hj] at hpending
  rw [State.errors, hdiagnostics, List.filter_append, herrors, hnone, List.append_nil,
    List.map_append, diagnostic_of_mem_errors]

/-! ## Staying on a line -/

/-- Whatever comes of a reading, it ends on the line in front of a place, and what is wrong on its
way is on that line. -/
inductive Stays (o : Options) (n : Nesting) (behind c : Cursor) (k : Nat) (f : Reading α) : Prop
  | intro {problems : List Problem} {c' : Cursor} {k' : Nat} {result : Except Problem α} :
    Comes o n c k f problems c' k' result → k' ≤ 1 → c'.LineTo behind →
    (∀ problem ∈ problems, problem.span.Above behind) →
    (∀ problem, result = .error problem → problem.span.Above behind) → Stays o n behind c k f

/-- A reading ends on the line on which it begins. -/
def StaysOn (o : Options) (n : Nesting) (behind : Cursor) (f : Reading α) : Prop :=
  ∀ ⦃c k⦄, k ≤ 1 → c.LineTo behind → Stays o n behind c k f

theorem StaysOn.here (hf : StaysOn o n behind f) (hline : c.LineTo behind) :
    Stays o n behind c 1 f :=
  hf (Nat.le_refl 1) hline

theorem staysOn_pure : StaysOn o n behind (pure a) := fun _ _ hk hline =>
  .intro comes_pure hk hline (fun _ hmem => absurd hmem List.not_mem_nil) fun _ h => by cases h

theorem staysOn_fail {cause : Cause} {span : Span} (hspan : span.Above behind) :
    StaysOn o n behind (fail cause span : Reading α) := by
  intro c k hk hline
  refine .intro comes_fail hk hline (fun _ hmem => absurd hmem List.not_mem_nil) fun problem h => ?_
  cases h
  exact hspan

theorem staysOn_report (hlimit : o.maxErrors = none) {problem : Problem}
    (hspan : problem.span.Above behind) : StaysOn o n behind (report problem.diagnostic) := by
  intro c k hk hline
  refine .intro (comes_report hlimit problem) hk hline (fun other hmem => ?_) fun _ h => by cases h
  rwa [List.mem_singleton.mp hmem]

/-- What comes first stays on the line, and what is read behind it does, too. -/
theorem Comes.stays_bind {rest : α → Reading β}
    (hf : Comes o n c k f problems c' k' (.ok a))
    (hproblems : ∀ problem ∈ problems, problem.span.Above behind)
    (hrest : Stays o n behind c' k' (rest a)) : Stays o n behind c k (f >>= rest) := by
  obtain ⟨hcomes, hk, hline, hmore, herror⟩ := hrest
  exact .intro (hf.bind hcomes) hk hline
    (fun problem hmem => (List.mem_append.mp hmem).elim (hproblems problem) (hmore problem)) herror

theorem StaysOn.bind {rest : α → Reading β} (hf : StaysOn o n behind f)
    (hrest : ∀ a, StaysOn o n behind (rest a)) : StaysOn o n behind (f >>= rest) := by
  intro c k hk hline
  obtain @⟨problems, c', k', result, hcomes, hk', hline', hproblems, herror⟩ := hf hk hline
  cases result with
  | ok a => exact hcomes.stays_bind hproblems (hrest a hk' hline')
  | error problem =>
      refine .intro hcomes.bind_error hk' hline' hproblems fun other h => ?_
      cases h
      exact herror problem rfl

theorem StaysOn.of_get {rest : State → Reading α}
    (h : ∀ s : State, s.options = o → s.nesting = n → rest s = g) (hg : StaysOn o n behind g) :
    StaysOn o n behind (get >>= rest) := by
  intro c k hk hline
  obtain ⟨hcomes, hk', hline', hproblems, herror⟩ := hg hk hline
  exact .intro (.of_get h hcomes) hk' hline' hproblems herror

theorem StaysOn.between (opening closing : Nesting → Nesting) (hn : closing (opening n) = n)
    (hf : StaysOn o (opening n) behind f) :
    StaysOn o n behind (Reading.between (State.renest opening) (State.renest closing) f) := by
  intro c k hk hline
  obtain ⟨hcomes, hk', hline', hproblems, herror⟩ := hf hk hline
  exact .intro (hcomes.between opening closing hn) hk' hline' hproblems herror

/-- A repetition stays on the line of its turns.  The induction is on what is left of the
source. -/
theorem StaysOn.iterate {step : σ → Reading (Turn σ)}
    (hstep : ∀ value, StaysOn o n behind (step value)) (value : σ) :
    StaysOn o n behind (iterate step value) := by
  intro c k hk hline
  induction hmeasure : c.left using Nat.strongRecOn generalizing value c k with
  | ind measure ih =>
      subst hmeasure
      obtain @⟨problems, c', k', result, hcomes, hk', hline', hproblems, herror⟩ :=
        hstep value hk hline
      match result with
      | .error problem =>
          refine .intro hcomes.iterate_error hk' hline' hproblems fun other h => ?_
          cases h
          exact herror problem rfl
      | .ok (.done value') =>
          exact .intro hcomes.iterate_done hk' hline' hproblems fun _ h => by cases h
      | .ok (.again value') =>
          -- A turn that takes nothing is the last one.
          by_cases hless : c'.left < c.left
          · obtain ⟨hrest, hk'', hline'', hmore, herror'⟩ := ih _ hless value' hk' hline' rfl
            refine .intro (hcomes.iterate_again hless hrest) hk'' hline'' (fun problem hmem => ?_)
              herror'
            exact (List.mem_append.mp hmem).elim (hproblems problem) (hmore problem)
          · exact .intro (hcomes.iterate_still hless) hk' hline' hproblems fun _ h => by cases h

/-! ## Tokens of the line -/

section Tokens

variable (hlimit : o.maxErrors = none)

theorem above_of_unseen (hline : c.LineTo behind) :
    ∀ problem ∈ c.unseen k, problem.span.Above behind := by
  intro problem hmem
  unfold Cursor.unseen at hmem
  split at hmem
  · exact hline.next.problems problem hmem
  · cases hmem

include hlimit

/-- What is done with the current token may depend on the place. -/
theorem staysOn_peek {rest : Token → Reading α}
    (hrest : ∀ c, c.LineTo behind → Stays o n behind c 1 (rest c.next.token)) :
    StaysOn o n behind (peek >>= rest) := by
  intro c k hk hline
  have hpeek := comes_peek (n := n) (c := c) (k := k) hlimit
  rw [Nat.max_eq_right hk] at hpeek
  exact hpeek.stays_bind (above_of_unseen hline) (hrest c hline)

/-- A token that does not end the line may be taken. -/
theorem stays_advance {rest : Token → Reading α} (hline : c.LineTo behind) (hk : k ≤ 2)
    (hkind : c.next.token.kind ≠ .endOfLine) (hrest : StaysOn o n behind (rest c.next.token)) :
    Stays o n behind c k (advance >>= rest) := by
  obtain ⟨hend, -⟩ | ⟨-, hend, hnext⟩ := hline.next.cursor
  · exact absurd hend hkind
  · exact (comes_advance hlimit hend).stays_bind (above_of_unseen hline)
      (hrest (Nat.sub_le_of_le_add hk) hnext)

theorem staysOn_unexpected (expectation : Expectation) :
    StaysOn o n behind (unexpected expectation : Reading α) :=
  staysOn_peek hlimit fun _ hline => (staysOn_fail hline.next.token).here hline

theorem staysOn_tooDeep : StaysOn o n behind (tooDeep : Reading α) := by
  refine staysOn_peek hlimit fun c hline => ?_
  refine (StaysOn.of_get (g := fail (.nestingTooDeep o.maxNestingDepth) c.next.token.span)
    (fun s hoptions _ => by rw [hoptions]) (staysOn_fail hline.next.token)).here hline

/-- A construct that is too deep is reported at the current token. -/
theorem StaysOn.nested (hf : StaysOn o n.deeper behind f) : StaysOn o n behind (nested f) := by
  refine StaysOn.of_get (g := if n.depth < o.maxNestingDepth then
    Reading.between State.enter State.leave f else tooDeep)
    (fun s hoptions hnesting => by rw [hoptions, hnesting]) ?_
  split
  · exact hf.between Nesting.deeper (fun nesting => { nesting with depth := nesting.depth - 1 }) rfl
  · exact staysOn_tooDeep hlimit

end Tokens

/-! ## Lines that are read through their end -/

/-- A line is read through its end, or reading it ends on the line with a failure. -/
inductive Finishes (o : Options) (n : Nesting) (behind c : Cursor) (k : Nat) (line : Reading α) :
    Prop
  | read {problems : List Problem} {a : α} : Comes o n c k line problems behind 0 (.ok a) →
    (∀ problem ∈ problems, problem.span.Above behind) → Finishes o n behind c k line
  | failed {problems : List Problem} {problem : Problem} {c' : Cursor} {k' : Nat} :
    Comes o n c k line problems c' k' (.error problem) → k' ≤ 1 → c'.LineTo behind →
    (∀ problem ∈ problems, problem.span.Above behind) → problem.span.Above behind →
    Finishes o n behind c k line

theorem Comes.finishes_bind {rest : α → Reading β} (hf : Comes o n c k f problems c' k' (.ok a))
    (hproblems : ∀ problem ∈ problems, problem.span.Above behind)
    (hrest : Finishes o n behind c' k' (rest a)) : Finishes o n behind c k (f >>= rest) := by
  have happend {more : List Problem} (hmore : ∀ problem ∈ more, problem.span.Above behind) :
      ∀ problem ∈ problems ++ more, problem.span.Above behind :=
    fun problem hmem => (List.mem_append.mp hmem).elim (hproblems problem) (hmore problem)
  cases hrest with
  | read hcomes hmore => exact .read (hf.bind hcomes) (happend hmore)
  | failed hcomes hk hline hmore hproblem =>
      exact .failed (hf.bind hcomes) hk hline (happend hmore) hproblem

theorem Stays.finishes_bind {rest : α → Reading β} (hf : Stays o n behind c k f)
    (hrest : ∀ a ⦃c' k'⦄, k' ≤ 1 → c'.LineTo behind → Finishes o n behind c' k' (rest a)) :
    Finishes o n behind c k (f >>= rest) := by
  obtain @⟨problems, c', k', result, hcomes, hk, hline, hproblems, herror⟩ := hf
  cases result with
  | ok a => exact hcomes.finishes_bind hproblems (hrest a hk hline)
  | error problem =>
      exact .failed hcomes.bind_error hk hline hproblems (herror problem rfl)

theorem Finishes.bind_pure {rest : α → β} (hf : Finishes o n behind c k f) :
    Finishes o n behind c k (f >>= fun a => pure (rest a)) := by
  cases hf with
  | read hcomes hproblems => exact .read hcomes.bind_pure hproblems
  | failed hcomes hk hline hproblems hproblem =>
      exact .failed hcomes.bind_error hk hline hproblems hproblem

end Reading

end ConfLang
