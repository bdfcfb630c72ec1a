import ConfLang.Proofs.Adding

/-!
# One reading under two limits of nesting

Two states that differ in their limit of nesting only are run side by side.  As long as no
construct is deeper than the smaller limit, the two runs do the same.  The first construct
that is too deep for it parts the runs: under the smaller limit there is then an error for
good, because every failure is reported in the end and reports are never taken back.

The two runs hang together by the rule `Ends`, which is a law of all readings.  Errors must
not be limited, since a reading that has stopped reports nothing any more.
-/

namespace ConfLang

namespace State

/-- The same state under another limit of nesting. -/
def limited (limit : Nat) (s : State) : State :=
  { s with options := { s.options with maxNestingDepth := limit } }

/-- It was reported that the nesting is deeper than a limit. -/
def TooDeep (limit : Nat) (s : State) : Prop :=
  ∃ diagnostic ∈ s.diagnostics, diagnostic.isError = true ∧ diagnostic.cause = .nestingTooDeep limit

/-- Every error is reported. -/
structure Frank (s : State) : Prop where
  maxErrors : s.options.maxErrors = none
  stopped : s.stopped = false

variable {s s' : State} {limit : Nat}

theorem TooDeep.of_grows (h : s.TooDeep limit) (hgrows : s.Grows s') : s'.TooDeep limit := by
  obtain ⟨diagnostic, hmem, hcause⟩ := h
  exact ⟨diagnostic, by simpa using hgrows.diagnostics.subset (by simpa using hmem), hcause⟩

theorem Frank.of_grows (h : s.Frank) (hgrows : s.Grows s') : s'.Frank :=
  ⟨by rw [hgrows.options, h.maxErrors], by rw [hgrows.unlimited h.maxErrors, h.stopped]⟩

theorem Frank.mem_report (h : s.Frank) (diagnostic : Diagnostic) :
    diagnostic ∈ (s.report diagnostic).diagnostics := by
  unfold report
  rw [if_neg (by simp [h.stopped])]
  simp only
  split
  · simp [countError, h.maxErrors]
  · simp

theorem limited_report (h : s.Frank) (diagnostic : Diagnostic) :
    (s.limited limit).report diagnostic = (s.report diagnostic).limited limit := by
  unfold report
  simp only [limited, h.stopped, Bool.false_eq_true, if_false]
  split
  · simp [countError, h.maxErrors]
  · rfl

theorem limited_foldl_report (h : s.Frank) (diagnostics : List Diagnostic) :
    diagnostics.foldl report (s.limited limit) = (diagnostics.foldl report s).limited limit := by
  induction diagnostics generalizing s with
  | nil => rfl
  | cons diagnostic rest ih =>
      rw [List.foldl_cons, List.foldl_cons, limited_report h]
      exact ih (h.of_grows (s.grows_report _))

end State

namespace Limits

open Reading

variable {α β σ : Type} {limit : Nat} {s t : State}

/-- Two states that differ in the limit of nesting only, which is smaller in the second. -/
structure Agree (limit : Nat) (s t : State) : Prop where
  same : t = s.limited limit
  le : limit ≤ s.options.maxNestingDepth
  frank : s.Frank

theorem Agree.of_grows {s' : State} (h : Agree limit s t) (hgrows : s.Grows s') :
    Agree limit s' (s'.limited limit) :=
  ⟨rfl, by rw [hgrows.options]; exact h.le, h.frank.of_grows hgrows⟩

/-- Under the smaller limit it was told that the nesting is too deep, or a reading has just
failed with that. -/
inductive Parted (limit : Nat) : Except Problem α × State → Prop
  | reported {result : Except Problem α} {t : State} : t.TooDeep limit → Parted limit (result, t)
  | failed {span : Span} {t : State} : t.Frank →
    Parted limit (.error ⟨.nestingTooDeep limit, span⟩, t)

/-- Two runs end the same way, or have parted. -/
def Ends (limit : Nat) (first second : Except Problem α × State) : Prop :=
  first.1 = second.1 ∧ Agree limit first.2 second.2 ∨ Parted limit second

/-- The law that a reading does the same under two limits until the runs part. -/
def Kept (limit : Nat) : Law := fun _ f =>
  growth.Kept f ∧ ∀ s t, Agree limit s t → Ends limit (f.run s) (f.run t)

theorem Agree.frank_limited (h : Agree limit s t) : t.Frank := by
  rw [h.same]
  exact ⟨h.frank.maxErrors, h.frank.stopped⟩

/-! ## Runs that have parted -/

theorem Parted.of_grows {result : Except Problem α} {t' : State} (h : Parted limit (result, t))
    (hgrows : t.Grows t') : Parted limit (result, t') := by
  cases h with
  | reported h => exact .reported (h.of_grows hgrows)
  | failed h => exact .failed (h.of_grows hgrows)

theorem Parted.bind {f : Reading α} {rest : α → Reading β} (h : Parted limit (f.run t))
    (hgrows : ∀ a, growth.Kept (rest a)) : Parted limit ((f >>= rest).run t) := by
  rw [bind_run]
  generalize f.run t = first at h
  cases h with
  | @reported result t' h =>
      cases result with
      | ok a => exact .reported (h.of_grows (hgrows a t').1)
      | error problem => exact .reported h
  | failed h => exact .failed h

/-- A failure that is handled is reported. -/
theorem Parted.handle {f : Reading α} {rest : α → Reading β} {other : Reading β}
    (h : Parted limit (f.run t)) (hrest : ∀ a, growth.Kept (rest a)) (hother : growth.Kept other) :
    Parted limit ((attempt f >>= fun result => match result with
      | .ok a => rest a
      | .error problem => Reading.report problem.diagnostic >>= fun _ => other).run t) := by
  have hreport (problem : Problem) :
      growth.Kept (Reading.report problem.diagnostic >>= fun _ => other) :=
    Course.kept_bind (Course.kept_report trivial) fun _ => hother
  rw [bind_run, attempt_run]
  generalize f.run t = first at h
  cases h with
  | @reported result t' h =>
      cases result with
      | ok a => exact .reported (h.of_grows (hrest a t').1)
      | error problem => exact .reported (h.of_grows (hreport problem t').1)
  | @failed span t' h =>
      change Parted limit (other.run (t'.report _))
      have hdeep : (t'.report (⟨.nestingTooDeep limit, span⟩ : Problem).diagnostic).TooDeep limit :=
        ⟨_, h.mem_report _, rfl, rfl⟩
      exact .reported (hdeep.of_grows (hother _).1)

/-! ## The law -/

theorem Ends.bind {f : Reading α} {rest : α → Reading β} (h : Ends limit (f.run s) (f.run t))
    (hgrows : ∀ a, growth.Kept (rest a))
    (hrest : ∀ a s' t', f.run s = (.ok a, s') → Agree limit s' t' →
      Ends limit ((rest a).run s') ((rest a).run t')) :
    Ends limit ((f >>= rest).run s) ((f >>= rest).run t) := by
  rcases h with ⟨hresult, hagree⟩ | hparted
  · rw [bind_run, bind_run]
    generalize f.run s = first at hresult hagree hrest
    generalize f.run t = second at hresult hagree
    obtain ⟨result, s'⟩ := first
    obtain ⟨result', t'⟩ := second
    obtain rfl : result = result' := hresult
    cases result with
    | ok a => exact hrest a s' t' rfl hagree
    | error problem => exact .inl ⟨rfl, hagree⟩
  · exact .inr (hparted.bind hgrows)

theorem kept_bind {f : Reading α} {rest : α → Reading β} (hf : Kept limit f)
    (hrest : ∀ a, Kept limit (rest a)) : Kept limit (f >>= rest) :=
  ⟨Course.kept_bind hf.1 fun a => (hrest a).1, fun s t h =>
    (hf.2 s t h).bind (fun a => (hrest a).1) fun a s' t' _ => (hrest a).2 s' t'⟩

/-- A reading that gives the same under both limits. -/
theorem kept_of_same {f : Reading α} (hgrows : growth.Kept f)
    (h : ∀ s, s.Frank → f.run (s.limited limit) = ((f.run s).1, (f.run s).2.limited limit)) :
    Kept limit f := by
  refine ⟨hgrows, fun s t hagree => ?_⟩
  obtain rfl := hagree.same
  rw [h s hagree.frank]
  exact .inl ⟨rfl, hagree.of_grows (hgrows s).1⟩

theorem kept_get {rest : State → Reading α} (hrest : ∀ s, Kept limit (rest s))
    (hsame : ∀ s : State, rest (s.limited limit) = rest s) : Kept limit (get >>= rest) := by
  refine ⟨Course.kept_bind Course.kept_get fun s => (hrest s).1, fun s t hagree => ?_⟩
  change Ends limit ((rest s).run s) ((rest t).run t)
  have ht : rest t = rest s := by rw [hagree.same, hsame]
  rw [ht]
  exact (hrest s).2 s t hagree

theorem kept_handle {f : Reading α} {rest : α → Reading β} {other : Reading β}
    (hf : Kept limit f) (hrest : ∀ a, Kept limit (rest a)) (hother : Kept limit other) :
    Kept limit (attempt f >>= fun result => match result with
      | .ok a => rest a
      | .error problem => Reading.report problem.diagnostic >>= fun _ => other) := by
  refine ⟨Course.kept_handle hf.1 (fun a => (hrest a).1) hother.1, fun s t hagree => ?_⟩
  rcases hf.2 s t hagree with ⟨hresult, hafter⟩ | hparted
  · rw [bind_run, bind_run, attempt_run, attempt_run, ← hresult]
    generalize f.run s = first at hafter
    generalize (f.run t).2 = t' at hafter
    obtain ⟨result, s'⟩ := first
    cases result with
    | ok a => exact (hrest a).2 s' t' hafter
    | error problem =>
        change Ends limit (other.run (s'.report _)) (other.run (t'.report _))
        refine hother.2 _ _ ?_
        rw [hafter.same, State.limited_report hafter.frank]
        exact hafter.of_grows (s'.grows_report _)
  · exact .inr (hparted.handle (fun a => (hrest a).1) hother.1)

theorem kept_between {opening closing : Nesting → Nesting} {f : Reading α}
    (hback : ∀ n n', n'.LevelWith (opening n) → (closing n').LevelWith n) (hf : Kept limit f) :
    Kept limit (between (State.renest opening) (State.renest closing) f) := by
  refine ⟨Course.kept_between hback hf.1, fun s t hagree => ?_⟩
  obtain rfl := hagree.same
  rw [between_run, between_run]
  rcases hf.2 (s.renest opening) _ (hagree.of_grows (s.grows_renest _)) with ⟨hresult, h⟩ | hparted
  · have hafter := h.of_grows (State.grows_renest _ (closing (f.run (s.renest opening)).2.nesting))
    exact .inl ⟨hresult, by rwa [show (f.run ((s.limited limit).renest opening)).2 = _ from h.same]⟩
  · exact .inr (Parted.of_grows hparted (State.grows_renest _ _))

theorem Agree.parted_tooDeep (h : Agree limit s t) : Parted limit ((tooDeep : Reading α).run t) := by
  have hlimit : t.options.maxNestingDepth = limit := by rw [h.same, State.limited]
  rw [tooDeep_run, hlimit]
  exact .failed (h.frank_limited.of_grows t.grows_peeked)

/-- A construct is too deep under the smaller limit first. -/
theorem kept_nested {f : Reading α} (hf : Kept limit f) : Kept limit (nested f) := by
  refine ⟨Course.kept_nested hf.1, fun s t hagree => ?_⟩
  have hlimit : t.options.maxNestingDepth = limit := by rw [hagree.same, State.limited]
  have hdepth : t.nesting.depth = s.nesting.depth := by rw [hagree.same, State.limited]
  rw [nested_run, nested_run, hlimit, hdepth]
  by_cases hless : s.nesting.depth < limit
  · -- Where there is room under the smaller limit, there is under the larger one.
    rw [if_pos hless, if_pos (Nat.lt_of_lt_of_le hless hagree.le)]
    exact (kept_between (fun n n' (h : n'.LevelWith n.deeper) => h.outer) hf).2 s t hagree
  · rw [if_neg hless]
    exact .inr hagree.parted_tooDeep

theorem kept_iterate {step : σ → Reading (Turn σ)} (hstep : ∀ value, Kept limit (step value))
    (value : σ) : Kept limit (iterate step value) := by
  have hgrows := Course.kept_iterate fun value => (hstep value).1
  refine ⟨hgrows value, fun s t hagree => ?_⟩
  induction hmeasure : s.remaining using Nat.strongRecOn generalizing value s t with
  | ind measure ih =>
      subst hmeasure
      have hremaining : t.remaining = s.remaining := by rw [hagree.same, State.limited]; rfl
      rw [iterate_run, iterate_run, hremaining]
      refine ((hstep value).2 s t hagree).bind (fun turn => ?_) fun turn s' t' _ hagree' => ?_
      · cases turn with
        | done value' => exact Course.kept_pure value'
        | again value' =>
            refine Course.kept_bind Course.kept_get fun state => ?_
            split
            · exact hgrows value'
            · exact Course.kept_pure value'
      · cases turn with
        | done value' => exact .inl ⟨rfl, hagree'⟩
        | again value' =>
            -- What is left of the source does not depend on the limit, nor does the guard.
            have hremaining' : t'.remaining = s'.remaining := by
              rw [hagree'.same, State.limited]
              rfl
            rw [afterTurn_again_run, afterTurn_again_run, hremaining']
            split
            · rename_i hless
              exact ih _ hless value' s' t' hagree' rfl
            · exact .inl ⟨rfl, hagree'⟩

theorem kept_scan : Kept limit scan := by
  refine kept_of_same FreeCourse.kept_scan fun s hfrank => ?_
  change (Except.ok (s.limited limit).scan.1, (s.limited limit).scan.2) =
    (Except.ok s.scan.1, s.scan.2.limited limit)
  rw [State.scan_eq, State.scan_eq]
  exact congrArg (Prod.mk _) (State.limited_foldl_report (s := s.looked)
    ⟨hfrank.maxErrors, hfrank.stopped⟩ _)

theorem kept_pure (a : α) : Kept limit (pure a) :=
  kept_of_same (Course.kept_pure a) fun _ _ => rfl

theorem kept_peek : Kept limit peek := by
  refine kept_get (fun s => ?_) fun _ => rfl
  split
  · exact kept_pure _
  · exact kept_scan

theorem kept_advance : Kept limit advance := by
  have htake (token : Token) : Kept limit (modify (·.take token) : Reading PUnit) :=
    kept_of_same (fun s => ⟨s.grows_take token, fun _ _ => trivial⟩) fun _ _ => rfl
  refine kept_bind kept_peek fun token => ?_
  by_cases hkind : token.kind = .endOfFile
  · rw [if_pos hkind]
    exact kept_pure token
  · rw [if_neg hkind]
    exact kept_bind (htake token) fun _ => kept_pure token

theorem kept_rawText : Kept limit rawText := by
  have htake (raw : RawLine) : Kept limit (modify (·.takeRaw raw) : Reading PUnit) :=
    kept_of_same (fun s => ⟨s.grows_takeRaw raw, fun _ _ => trivial⟩) fun _ _ => rfl
  refine kept_get (fun s => ?_) fun _ => rfl
  split
  · exact kept_pure _
  · exact kept_bind (htake _) fun _ => kept_pure _

instance : Joins (Kept limit) where
  pure := kept_pure
  bind := kept_bind
  get houtline hrest := kept_get hrest fun s => by
    rw [← houtline s, ← houtline (s.limited limit)]
    rfl
  nested := kept_nested
  tooDeep := ⟨Course.kept_tooDeep, fun _ _ hagree => .inr hagree.parted_tooDeep⟩
  fail _ _ _ := kept_of_same (Course.kept_fail trivial) fun _ _ => rfl
  note event := kept_of_same (Joins.note event) fun _ _ => rfl
  report diagnostic _ := kept_of_same (Course.kept_report trivial) fun _ hfrank =>
    congrArg (Prod.mk _) (State.limited_report hfrank diagnostic)
  handle := kept_handle
  between _ _ _ hback hf := kept_between hback hf
  iterate := kept_iterate
  peek := kept_peek
  advance := kept_advance
  rawText := kept_rawText

instance : Scans (Kept limit) := ⟨kept_scan⟩

instance : Composes (Kept limit) := composes_of_scans

instance : AsksStop (Kept limit) where
  asks hrest := kept_get (fun s => hrest s.stopped) fun _ => rfl

instance : TellsStray (Kept limit) where
  tells _ _ _ := kept_of_same (Course.kept_fail trivial) fun _ _ => rfl

end Limits

end ConfLang
