import ConfLang.Proofs.Adding

/-!
# Two runs side by side

Two states in which everything that a reading looks at is the same may still differ in what
was reported, and in the limit of errors.  This file compares the runs of one reading in two
such states.  An `Accord` says how the reports of the two runs hang together as long as the
runs do the same, and what is left of that when they part.

## Strategy

All changes that steps make to a state are of two kinds.  They change what a reading looks
at, the same way in both states; or they report something.  So an accord needs only to say
what one note and one report do to it, and it is a law of all readings that two runs either
end the same way, still in accord, or have parted (`Obeys A.Kept f`).
-/

namespace ConfLang

/-- What was told about a source so far, and the limit of errors. -/
structure Told where
  maxErrors : Option Nat
  diagnostics : Array Diagnostic
  errorCount : Nat
  stopped : Bool
  log : Array Event

namespace State

variable {s t : State}

/-- The part of a state that only reports change. -/
def told (s : State) : Told :=
  ⟨s.options.maxErrors, s.diagnostics, s.errorCount, s.stopped, s.log⟩

theorem bare_report (s : State) (diagnostic : Diagnostic) : (s.report diagnostic).bare = s.bare := by
  rw [report_frame]
  rfl

end State

/-- How what is told in two runs hangs together as long as the runs do the same, and how the
states are related once the runs have parted. -/
structure Accord where
  together : Told → Told → Prop
  apart : State → State → Prop
  note : ∀ {s t : State}, together s.told t.told → ∀ event,
    together (s.note event).told (t.note event).told
  report : ∀ {s t : State}, s.bare = t.bare → together s.told t.told → ∀ diagnostic,
    together (s.report diagnostic).told (t.report diagnostic).told ∨
      apart (s.report diagnostic) (t.report diagnostic)
  lasts : ∀ {s t s' t' : State}, apart s t → s.Grows s' → t.Grows t' → apart s' t'

namespace Accord

variable {α β σ : Type} {A : Accord} {s t : State}

/-- Two states in accord. -/
structure Agree (A : Accord) (s t : State) : Prop where
  bare : s.bare = t.bare
  told : A.together s.told t.told

/-- Two runs end the same way, in accord, or have parted. -/
def Ends (A : Accord) (first second : Except Problem α × State) : Prop :=
  first.1 = second.1 ∧ A.Agree first.2 second.2 ∨ A.apart first.2 second.2

/-- The law that runs in accord end in accord, or have parted. -/
def Kept (A : Accord) : Reading.Law := fun _ f =>
  growth.Kept f ∧ ∀ s t, A.Agree s t → A.Ends (f.run s) (f.run t)

/-! ## Changes of both states -/

namespace Agree

theorem note (h : A.Agree s t) (event : Event) : A.Agree (s.note event) (t.note event) :=
  ⟨h.bare, A.note h.told event⟩

theorem renest (h : A.Agree s t) (change : Nesting → Nesting) :
    A.Agree (s.renest change) (t.renest change) :=
  ⟨congrArg (State.renest change) h.bare, h.told⟩

theorem looked (h : A.Agree s t) : A.Agree s.looked t.looked :=
  ⟨congrArg State.looked h.bare, h.told⟩

theorem take (h : A.Agree s t) (token : Token) : A.Agree (s.take token) (t.take token) :=
  ⟨congrArg (State.take · token) h.bare, h.told⟩

theorem takeRaw (h : A.Agree s t) (raw : RawLine) : A.Agree (s.takeRaw raw) (t.takeRaw raw) :=
  ⟨congrArg (State.takeRaw · raw) h.bare, h.told⟩

theorem report (h : A.Agree s t) (diagnostic : Diagnostic) :
    A.Agree (s.report diagnostic) (t.report diagnostic) ∨
      A.apart (s.report diagnostic) (t.report diagnostic) :=
  (A.report h.bare h.told diagnostic).imp_left fun htold =>
    ⟨by rw [State.bare_report, State.bare_report, h.bare], htold⟩

theorem foldl_report (h : A.Agree s t) (diagnostics : List Diagnostic) :
    A.Agree (diagnostics.foldl State.report s) (diagnostics.foldl State.report t) ∨
      A.apart (diagnostics.foldl State.report s) (diagnostics.foldl State.report t) := by
  induction diagnostics generalizing s t with
  | nil => exact .inl h
  | cons diagnostic rest ih =>
      rcases h.report diagnostic with hagree | hapart
      · exact ih hagree
      · exact .inr (A.lasts hapart (State.grows_foldl_report _ _) (State.grows_foldl_report _ _))

theorem cursor (h : A.Agree s t) : s.cursor = t.cursor :=
  (congrArg State.cursor h.bare : s.bare.cursor = t.bare.cursor)

theorem remaining (h : A.Agree s t) : s.remaining = t.remaining :=
  (congrArg State.remaining h.bare : s.bare.remaining = t.bare.remaining)

theorem lookahead (h : A.Agree s t) : s.lookahead = t.lookahead :=
  (congrArg State.lookahead h.bare : s.bare.lookahead = t.bare.lookahead)

theorem nesting (h : A.Agree s t) : s.nesting = t.nesting :=
  (congrArg State.nesting h.bare : s.bare.nesting = t.bare.nesting)

theorem limit (h : A.Agree s t) : s.options.maxNestingDepth = t.options.maxNestingDepth :=
  (congrArg (·.options.maxNestingDepth) h.bare :
    s.bare.options.maxNestingDepth = t.bare.options.maxNestingDepth)

theorem outline (h : A.Agree s t) : s.outline = t.outline :=
  congrArg (fun state : State =>
    { state with options := { state.options with maxNestingDepth := 0 } }) h.bare

end Agree

/-! ## The law -/

/-- What a reading does next is done in accord. -/
theorem Ends.bind {f : Reading α} {rest : α → Reading β} (h : A.Ends (f.run s) (f.run t))
    (hgrows : ∀ a, growth.Kept (rest a))
    (hrest : ∀ a s' t', f.run s = (.ok a, s') → A.Agree s' t' →
      A.Ends ((rest a).run s') ((rest a).run t')) :
    A.Ends ((f >>= rest).run s) ((f >>= rest).run t) := by
  rw [Reading.bind_run, Reading.bind_run]
  generalize f.run s = first at h hrest ⊢
  generalize f.run t = second at h ⊢
  obtain ⟨result, s'⟩ := first
  obtain ⟨result', t'⟩ := second
  rcases h with ⟨hresult, hagree⟩ | hapart
  · simp only at hresult
    subst hresult
    cases result with
    | ok a => exact hrest a s' t' rfl hagree
    | error problem => exact .inl ⟨rfl, hagree⟩
  · -- the runs have parted, and all that comes later only adds
    refine .inr ?_
    cases result <;> cases result'
    · exact hapart
    · exact A.lasts hapart (.refl _) (hgrows _ _).1
    · exact A.lasts hapart (hgrows _ _).1 (.refl _)
    · exact A.lasts hapart (hgrows _ _).1 (hgrows _ _).1

theorem kept_bind {f : Reading α} {rest : α → Reading β} (hf : A.Kept f)
    (hrest : ∀ a, A.Kept (rest a)) : A.Kept (f >>= rest) :=
  ⟨Course.kept_bind hf.1 fun a => (hrest a).1, fun s t h =>
    (hf.2 s t h).bind (fun a => (hrest a).1) fun a s' t' _ => (hrest a).2 s' t'⟩

theorem kept_get {rest : State → Reading α} (hrest : ∀ s, A.Kept (rest s))
    (hsame : ∀ s t, A.Agree s t → rest s = rest t) : A.Kept (get >>= rest) := by
  refine ⟨Course.kept_bind Course.kept_get fun s => (hrest s).1, ?_⟩
  intro s t hagree
  change A.Ends ((rest s).run s) ((rest t).run t)
  rw [← hsame s t hagree]
  exact (hrest s).2 s t hagree

theorem kept_attempt {f : Reading α} (hf : A.Kept f) : A.Kept f.attempt := by
  have : Reading.Adds f := ⟨hf.1⟩
  have hadds : Reading.Adds f.attempt := inferInstance
  refine ⟨hadds.obeys, fun s t hagree => ?_⟩
  rw [Reading.attempt_run, Reading.attempt_run]
  exact (hf.2 s t hagree).imp_left fun ⟨hresult, h⟩ => ⟨congrArg Except.ok hresult, h⟩

theorem kept_report (diagnostic : Diagnostic) : A.Kept (Reading.report diagnostic) :=
  ⟨Course.kept_report trivial, fun _ _ h => (h.report diagnostic).imp_left fun h => ⟨rfl, h⟩⟩

theorem kept_between {opening closing : Nesting → Nesting} {f : Reading α}
    (hback : ∀ n n', n'.LevelWith (opening n) → (closing n').LevelWith n) (hf : A.Kept f) :
    A.Kept (Reading.between (State.renest opening) (State.renest closing) f) := by
  refine ⟨Course.kept_between hback hf.1, fun s t hagree => ?_⟩
  rw [Reading.between_run, Reading.between_run]
  rcases hf.2 _ _ (hagree.renest opening) with ⟨hresult, h⟩ | hapart
  · exact .inl ⟨hresult, h.renest closing⟩
  · exact .inr (A.lasts hapart (State.grows_renest _ _) (State.grows_renest _ _))

theorem kept_scan : A.Kept Reading.scan := by
  refine ⟨FreeCourse.kept_scan, fun s t hagree => ?_⟩
  change A.Ends (.ok s.scan.1, s.scan.2) (.ok t.scan.1, t.scan.2)
  rw [State.scan_eq, State.scan_eq, ← hagree.cursor]
  exact (hagree.looked.foldl_report _).imp_left fun h => ⟨rfl, h⟩

theorem kept_pure (a : α) : A.Kept (pure a) :=
  ⟨Course.kept_pure a, fun _ _ h => .inl ⟨rfl, h⟩⟩

theorem kept_peek : A.Kept Reading.peek := by
  refine kept_get (fun s => ?_) fun s t hagree => by rw [hagree.lookahead]
  split
  · exact kept_pure _
  · exact kept_scan

theorem kept_advance : A.Kept Reading.advance := by
  have htake (token : Token) : A.Kept (modify (·.take token) : Reading PUnit) :=
    ⟨fun s => ⟨s.grows_take token, fun _ _ => trivial⟩, fun _ _ h => .inl ⟨rfl, h.take token⟩⟩
  refine kept_bind kept_peek fun token => ?_
  by_cases hkind : token.kind = .endOfFile
  · rw [if_pos hkind]
    exact kept_pure token
  · rw [if_neg hkind]
    exact kept_bind (htake token) fun _ => kept_pure token

theorem kept_rawText : A.Kept Reading.rawText := by
  have htake (raw : RawLine) : A.Kept (modify (·.takeRaw raw) : Reading PUnit) :=
    ⟨fun s => ⟨s.grows_takeRaw raw, fun _ _ => trivial⟩, fun _ _ h => .inl ⟨rfl, h.takeRaw raw⟩⟩
  refine kept_get (fun s => ?_) fun s t hagree => by rw [hagree.lookahead, hagree.cursor]
  split
  · exact kept_pure _
  · exact kept_bind (htake _) fun _ => kept_pure _

theorem kept_tooDeep : A.Kept (Reading.tooDeep : Reading α) :=
  kept_bind kept_peek fun token =>
    kept_get (fun s => ⟨Course.kept_fail trivial, fun _ _ h => .inl ⟨rfl, h⟩⟩) fun s t hagree => by
      rw [hagree.limit]

theorem kept_nested {f : Reading α} (hf : A.Kept f) : A.Kept (Reading.nested f) := by
  refine kept_get (fun s => ?_) fun s t hagree => ?_
  · split
    · exact kept_between (fun n n' (h : n'.LevelWith n.deeper) => h.outer) hf
    · exact kept_tooDeep
  · rw [hagree.nesting, hagree.limit]

theorem kept_iterate {step : σ → Reading (Reading.Turn σ)} (hstep : ∀ value, A.Kept (step value))
    (value : σ) : A.Kept (Reading.iterate step value) := by
  have hgrows := Course.kept_iterate fun value => (hstep value).1
  refine ⟨hgrows value, fun s t hagree => ?_⟩
  induction hmeasure : s.remaining using Nat.strongRecOn generalizing value s t with
  | ind measure ih =>
      subst hmeasure
      rw [Reading.iterate_run, Reading.iterate_run, ← hagree.remaining]
      refine ((hstep value).2 s t hagree).bind (fun turn => ?_) fun turn s' t' _ hagree' => ?_
      · cases turn with
        | done value' => exact Course.kept_pure value'
        | again value' =>
            refine Course.kept_bind Course.kept_get fun state => ?_
            split
            · exact hgrows value'
            · exact Course.kept_pure value'
      · cases turn with
        | done value' => exact .inl ⟨rfl, hagree'⟩
        | again value' =>
            rw [Reading.afterTurn_again_run, Reading.afterTurn_again_run, ← hagree'.remaining]
            split
            · rename_i hless
              exact ih _ hless value' s' t' hagree' rfl
            · exact .inl ⟨rfl, hagree'⟩

instance : Reading.Joins A.Kept where
  pure := kept_pure
  bind := kept_bind
  get houtline hrest := kept_get hrest fun s t hagree => by
    have hs := houtline s
    rw [hagree.outline, houtline t] at hs
    exact hs.symm
  nested := kept_nested
  tooDeep := kept_tooDeep
  fail _ _ _ := ⟨Course.kept_fail trivial, fun _ _ h => .inl ⟨rfl, h⟩⟩
  note event := ⟨Reading.Joins.note event, fun _ _ h => .inl ⟨rfl, h.note event⟩⟩
  report diagnostic _ := kept_report diagnostic
  handle hf hrest hother := kept_bind (kept_attempt hf) fun result => by
    cases result with
    | ok a => exact hrest a
    | error problem => exact kept_bind (kept_report _) fun _ => hother
  between _ _ _ hback hf := kept_between hback hf
  iterate := kept_iterate
  peek := kept_peek
  advance := kept_advance
  rawText := kept_rawText

instance : Reading.Scans A.Kept := ⟨kept_scan⟩

instance : Reading.Composes A.Kept := Reading.composes_of_scans

instance : Reading.TellsStray A.Kept where
  tells _ _ _ := ⟨Course.kept_fail trivial, fun _ _ h => .inl ⟨rfl, h⟩⟩

instance : Reading.AsksLevels A.Kept where
  asks hrest := kept_get (fun s => hrest s.levels) fun s t hagree => by
    rw [State.levels, State.levels, hagree.limit, hagree.nesting]

/-- It may be asked whether a reading has stopped where that is the same in accord. -/
theorem asksStop (h : ∀ {first second}, A.together first second → first.stopped = second.stopped) :
    Reading.AsksStop A.Kept where
  asks hrest := kept_get (fun s => hrest s.stopped) fun _ _ hagree =>
    congrArg _ (h hagree.told)

end Accord

end ConfLang
