import ConfLang.Proofs.Alteration.Follows
import ConfLang.Proofs.Progress.Turns

/-!
# Readings of sources that follow tokens

A reading brings states that satisfy one condition to a value and a state that satisfy another one
(`Brings`).  It never fails then, and there is one rule for each way to put readings together.

The conditions are about a source that follows tokens (`Setting.At`): such a source stands in front of
these tokens, and what was reported so far is what was due.  How often the source departs from the
tokens, and where its own tokens lie, is hidden in the condition, so rules are told by the tokens that
the reading takes.

## Where to look

* `Brings`: the rules of the judgement.
* `Setting`: what is due on the whole, and the conditions `At` and `Ahead`.
* The rules for single tokens, by what stands there.
-/

namespace ConfLang

namespace Reading

variable {α β σ : Type} {P P' : State → Prop} {f : Reading α} {R : α → State → Prop}

/-- From every state of a kind, a reading gives a value and comes to a state of a kind. -/
def Brings (before : State → Prop) (f : Reading α) (after : α → State → Prop) : Prop :=
  ∀ s, before s → ∃ a s', EStateM.run f s = .ok a s' ∧ after a s'

theorem brings_pure {a : α} (h : ∀ s, P s → R a s) : Brings P (pure a) R :=
  fun s hs => ⟨a, s, rfl, h s hs⟩

theorem Brings.bind {rest : α → Reading β} {Q : β → State → Prop} (hf : Brings P f R)
    (hrest : ∀ a, Brings (R a) (rest a) Q) : Brings P (f >>= rest) Q := by
  intro s hs
  obtain ⟨a, s', hrun, ha⟩ := hf s hs
  obtain ⟨b, s'', hrun', hb⟩ := hrest a s' ha
  refine ⟨b, s'', ?_, hb⟩
  rw [EStateM.run_bind, hrun]
  exact hrun'

theorem Brings.imp {Q : α → State → Prop} (hf : Brings P f R) (hbefore : ∀ s, P' s → P s)
    (hafter : ∀ a s, R a s → Q a s) : Brings P' f Q := by
  intro s hs
  obtain ⟨a, s', hrun, ha⟩ := hf s (hbefore s hs)
  exact ⟨a, s', hrun, hafter a s' ha⟩

theorem Brings.from (hf : Brings P f R) (hbefore : ∀ s, P' s → P s) : Brings P' f R :=
  hf.imp hbefore fun _ _ h => h

/-- What is known of all states may be used. -/
theorem Brings.of_fact {fact : Prop} (hfact : ∀ s, P s → fact) (hf : fact → Brings P f R) :
    Brings P f R :=
  fun s hs => hf (hfact s hs) s hs

theorem Brings.bind_pure {g : α → β} {Q : β → State → Prop} (hf : Brings P f R)
    (hafter : ∀ a s, R a s → Q (g a) s) : Brings P (f >>= fun a => pure (g a)) Q :=
  hf.bind fun a => brings_pure (hafter a)

theorem Brings.map {g : α → β} {Q : β → State → Prop} (hf : Brings P f R)
    (hafter : ∀ a s, R a s → Q (g a) s) : Brings P (g <$> f) Q := by
  rw [← bind_pure_comp]
  exact hf.bind_pure hafter

theorem brings_get {rest : State → Reading α} (h : ∀ s, P s → Brings P (rest s) R) :
    Brings P (get >>= rest) R :=
  fun s hs => h s hs s hs

theorem brings_modify {change : State → State} {Q : State → Prop} (h : ∀ s, P s → Q (change s)) :
    Brings P (modify change) fun _ s => Q s :=
  fun s hs => ⟨(), change s, rfl, h s hs⟩

theorem Brings.attempt {rest : Except Problem α → Reading β} {Q : β → State → Prop}
    (hf : Brings P f R) (hrest : ∀ a, Brings (R a) (rest (.ok a)) Q) :
    Brings P (attempt f >>= rest) Q := by
  intro s hs
  obtain ⟨a, s', hrun, ha⟩ := hf s hs
  obtain ⟨b, s'', hrun', hb⟩ := hrest a s' ha
  refine ⟨b, s'', ?_, hb⟩
  rw [EStateM.run_bind, run_attempt, hrun]
  exact hrun'

theorem Brings.between {opening closing : State → State} {Q : α → State → Prop}
    (hopening : ∀ s, P s → P' (opening s)) (hf : Brings P' f R)
    (hclosing : ∀ a s, R a s → Q a (closing s)) : Brings P (between opening closing f) Q := by
  intro s hs
  obtain ⟨a, s', hrun, ha⟩ := hf _ (hopening s hs)
  exact ⟨a, closing s', by rw [run_between, hrun], hclosing a s' ha⟩

/-! ## Repetition -/

/-- What is known behind a turn of a repetition, whether it asks for another one or not. -/
def Turns (next result : σ → State → Prop) : Turn σ → State → Prop
  | .again value => next value
  | .done value => result value

variable {step : σ → Reading (Turn σ)} {value : σ} {Q : σ → State → Prop}

/-- A turn that asks for another one has taken something. -/
theorem Brings.iterate (next : σ → State → Prop) (hprogress : Progresses (step value))
    (hordered : ∀ s, P s → s.Ordered) (hstep : Brings P (step value) (Turns next Q))
    (hrest : ∀ value', Brings (next value') (Reading.iterate step value') Q) :
    Brings P (Reading.iterate step value) Q := by
  intro s hs
  obtain ⟨turn, middle, hrun, hturn⟩ := hstep s hs
  cases turn with
  | done result => exact ⟨result, middle, by rw [run_iterate, hrun], hturn⟩
  | again value' =>
      obtain ⟨result, s', hrun', hQ⟩ := hrest value' middle hturn
      obtain ⟨-, hless⟩ := hprogress s value' middle (hordered s hs) (run_of_ok hrun)
      refine ⟨result, s', ?_, hQ⟩
      rw [run_iterate, hrun]
      simp only [hless, if_true, hrun']

theorem Brings.iterate_done
    (hstep : Brings P (step value) fun turn s => ∃ result, turn = .done result ∧ Q result s) :
    Brings P (Reading.iterate step value) Q := by
  intro s hs
  obtain ⟨_, s', hrun, result, rfl, hQ⟩ := hstep s hs
  exact ⟨result, s', by rw [run_iterate, hrun], hQ⟩

end Reading

/-! ## States -/

namespace State

variable {s : State} {o : Options} {n : Nesting} {c : Cursor} {k : Nat}

/-- What was warned about, except for names that are declared again. -/
def remarks (state : State) : List Cause :=
  (state.warnings.filter (!·.isRepetition)).map (·.cause)

namespace IsAt

theorem ordered (h : s.IsAt o n c k) : s.Ordered := by
  have hbehind (count : Nat) :
      (c.behind count).position.offset + (c.behind count).left = c.position.offset + c.left ∧
        InOrder c.position.offset (c.ahead count) (c.behind count).position.offset := by
    induction count with
    | zero => exact ⟨rfl, Nat.le_refl _⟩
    | succ count ih =>
        obtain ⟨hbytes, hstop⟩ := (c.behind count).offset_next
        rw [Cursor.behind_succ, Cursor.ahead_succ, ← hstop]
        rw [← hstop] at hbytes
        refine ⟨hbytes.trans ih.1, ih.2.concat ?_ fun hkind => ?_⟩
        · rw [hstop]
          exact (c.behind count).offset_le_next
        · have hless := Cursor.left_next_lt hkind
          omega
  obtain ⟨hbytes, htokens⟩ := hbehind k
  refine ⟨?_, ?_⟩
  · rw [h.size, h.cursor, hbytes]
  · rw [h.previous, h.lookahead, h.cursor]
    exact htokens

theorem takeRaw (h : s.IsAt o n c 0) : (s.takeRaw c.rawLine).IsAt o n c.rawLine.cursor 0 := by
  refine ⟨h.options, h.nesting, h.stopped, ?_, rfl, h.lookahead, rfl⟩
  rw [State.takeRaw, h.size, Cursor.rawLine, Cursor.offset_advance, Cursor.offset_advance]

/-- At the end of the source the end of a directive line takes nothing. -/
theorem lineEnded (h : s.IsAt o n c (k + 1)) (hend : c.AtEnd)
    (hline : c.mode.isDirective = true) : s.IsAt o n c.lineEnded (k + 1) := by
  have hnext := hend.next_lineEnded hline
  refine ⟨h.options, h.nesting, h.stopped, h.size, h.previous, ?_, ?_⟩
  · rw [Cursor.ahead, hnext]
    exact h.lookahead
  · rw [Cursor.behind, hnext]
    exact h.cursor

end IsAt

theorem remarks_of_warnings {s' : State} (h : s'.warnings = s.warnings) :
    s'.remarks = s.remarks := by
  rw [remarks, remarks, h]

/-- A warning is added to the others. -/
theorem remarks_report (hstopped : s.stopped = false) {diagnostic : Diagnostic}
    (hwarning : diagnostic.isError = false) : (s.report diagnostic).remarks =
      s.remarks ++ ([diagnostic].filter (!·.isRepetition)).map (·.cause) := by
  have hreport : s.report diagnostic = { s with diagnostics := s.diagnostics.push diagnostic } := by
    rw [report, if_neg (by simp [hstopped]), if_neg (by simp [hwarning])]
  rw [hreport, remarks, remarks, ← List.map_append, ← List.filter_append]
  simp [warnings, hwarning]

end State

/-! ## Settings -/

/-- What a source departs from the tokens in, and what is due for that on the whole.  Errors are not
limited. -/
structure Setting where
  options : Options
  unlimited : options.maxErrors = none
  alteration : Alteration
  due : List Due
  remarks : List Cause

namespace Setting

/-- A state stands at a place, and some errors and remarks are not yet made. -/
structure Stands (S : Setting) (n : Nesting) (c : Cursor) (k : Nat) (due : List Due)
    (remarks : List Cause) (s : State) : Prop where
  isAt : s.IsAt S.options n c k
  errors : ∃ reported, S.due = reported ++ due ∧ Reported reported s.errors
  remarks : S.alteration.KeepsLines → s.remarks ++ remarks = S.remarks

/-- A state stands in front of tokens, and has looked at no more than some of them. -/
def At (S : Setting) (n : Nesting) (zone : Zone) (ts : List Token) (k : Nat) (s : State) : Prop :=
  ∃ c j due, j ≤ k ∧ S.alteration.Follows zone ts c due ∧ S.Stands n c j due (noticesOf zone ts) s

/-- A state stands in front of tokens, and has looked at a current token and some more. -/
def Ahead (S : Setting) (n : Nesting) (zone : Zone) (ts : List Token) (k : Nat) (current : Token)
    (s : State) : Prop :=
  ∃ c due, c.next.token = current ∧ S.alteration.Follows zone ts c due ∧
    S.Stands n c (k + 1) due (noticesOf zone ts) s

variable {S : Setting} {n m : Nesting} {c : Cursor} {j k : Nat} {due : List Due}
  {causes : List Cause} {zone : Zone} {s : State} {token current : Token} {ts : List Token}

/-! ### Operations on states -/

namespace Stands

theorem renest (h : S.Stands n c k due causes s) (nesting : Nesting) :
    S.Stands nesting c k due causes { s with nesting } :=
  ⟨h.isAt.renest nesting, h.errors, h.remarks⟩

theorem note (h : S.Stands n c k due causes s) (event : Event) :
    S.Stands n c k due causes (s.note event) := by
  obtain ⟨hoptions, hnesting, hstopped, hsize, hprevious, hlookahead, hcursor⟩ := h.isAt
  exact ⟨⟨hoptions, hnesting, hstopped, hsize, hprevious, hlookahead, hcursor⟩, h.errors,
    h.remarks⟩

theorem peeked (h : S.Stands n c k due causes s) (hclean : c.next.problems = []) :
    s.peeked.1 = c.next.token ∧ S.Stands n c (max k 1) due causes s.peeked.2 := by
  obtain ⟨htoken, hat, herrors⟩ := h.isAt.peeked S.unlimited
  have hnone : c.unseen k = [] := by
    rw [Cursor.unseen, hclean]
    split <;> rfl
  rw [hnone, List.map_nil, List.append_nil] at herrors
  refine ⟨htoken, hat, herrors ▸ h.errors, fun hkeeps => ?_⟩
  rw [State.remarks_of_warnings s.warnings_peeked]
  exact h.remarks hkeeps

theorem scan (h : S.Stands n c k due causes s) (hclean : (c.behind k).next.problems = []) :
    s.scan.1 = (c.behind k).next.token ∧ S.Stands n c (k + 1) due causes s.scan.2 := by
  obtain ⟨htoken, hat, herrors⟩ := h.isAt.scan S.unlimited
  rw [hclean, List.map_nil, List.append_nil] at herrors
  refine ⟨htoken, hat, herrors ▸ h.errors, fun hkeeps => ?_⟩
  rw [State.remarks_of_warnings s.warnings_scan]
  exact h.remarks hkeeps

theorem take (h : S.Stands n c (k + 1) due causes s) :
    S.Stands n c.next.cursor k due causes (s.take c.next.token) :=
  ⟨h.isAt.take, h.errors, h.remarks⟩

theorem takeRaw (h : S.Stands n c 0 due causes s) :
    S.Stands n c.rawLine.cursor 0 due causes (s.takeRaw c.rawLine) :=
  ⟨h.isAt.takeRaw, h.errors, h.remarks⟩

theorem lineEnded (h : S.Stands n c (k + 1) due causes s) (hend : c.AtEnd)
    (hline : c.mode.isDirective = true) : S.Stands n c.lineEnded (k + 1) due causes s :=
  ⟨h.isAt.lineEnded hend hline, h.errors, h.remarks⟩

/-- What is warned about is remarked, unless it is a name that is declared again. -/
theorem warn {diagnostic : Diagnostic} (hwarning : diagnostic.isError = false)
    (h : S.Stands n c k due (([diagnostic].filter (!·.isRepetition)).map (·.cause) ++ causes) s) :
    S.Stands n c k due causes (s.report diagnostic) := by
  obtain ⟨hat, herrors⟩ := h.isAt.foldl_report S.unlimited [diagnostic]
  have hnone : [diagnostic].filter (·.isError) = [] := by simp [hwarning]
  rw [hnone, List.append_nil] at herrors
  refine ⟨hat, herrors ▸ h.errors, fun hkeeps => ?_⟩
  rw [State.remarks_report h.isAt.stopped hwarning, List.append_assoc]
  exact h.remarks hkeeps

/-- An error is reported that is due. -/
theorem reportComma {span : Span} (bracket : Bracket)
    (h : S.Stands n c k (.comma span :: due) causes s) :
    S.Stands n c k due causes (s.report (.error (.emptyElement bracket) span)) := by
  obtain ⟨hat, herrors⟩ :=
    h.isAt.foldl_report S.unlimited [.error (.emptyElement bracket) span]
  obtain ⟨reported, hdue, hreported⟩ := h.errors
  refine ⟨hat, ⟨reported ++ [.comma span], ?_, ?_⟩, fun hkeeps => ?_⟩
  · rw [hdue, List.append_assoc]
    rfl
  · rw [List.foldl_cons, List.foldl_nil] at herrors
    rw [herrors]
    exact hreported.append (.comma bracket .nil)
  · rw [State.remarks_of_warnings (s.warnings_report rfl)]
    exact h.remarks hkeeps

end Stands

/-! ### Conditions -/

theorem At.ordered (h : S.At n zone ts k s) : s.Ordered := by
  obtain ⟨_, _, _, -, -, hstands⟩ := h
  exact hstands.isAt.ordered

theorem At.nesting (h : S.At n zone ts k s) : s.nesting = n := by
  obtain ⟨_, _, _, -, -, hstands⟩ := h
  exact hstands.isAt.nesting

theorem At.options (h : S.At n zone ts k s) : s.options = S.options := by
  obtain ⟨_, _, _, -, -, hstands⟩ := h
  exact hstands.isAt.options

theorem At.stopped (h : S.At n zone ts k s) : s.stopped = false := by
  obtain ⟨_, _, _, -, -, hstands⟩ := h
  exact hstands.isAt.stopped

theorem At.weaken (h : S.At n zone ts j s) (hle : j ≤ k) : S.At n zone ts k s := by
  obtain ⟨c, i, due, hi, hfollows, hstands⟩ := h
  exact ⟨c, i, due, hi.trans hle, hfollows, hstands⟩

theorem At.renest (h : S.At n zone ts k s) (nesting : Nesting) :
    S.At nesting zone ts k { s with nesting } := by
  obtain ⟨c, j, due, hj, hfollows, hstands⟩ := h
  exact ⟨c, j, due, hj, hfollows, hstands.renest nesting⟩

theorem At.note (h : S.At n zone ts k s) (event : Event) : S.At n zone ts k (s.note event) := by
  obtain ⟨c, j, due, hj, hfollows, hstands⟩ := h
  exact ⟨c, j, due, hj, hfollows, hstands.note event⟩

theorem Ahead.at (h : S.Ahead n zone ts k current s) : S.At n zone ts (k + 1) s := by
  obtain ⟨c, due, -, hfollows, hstands⟩ := h
  exact ⟨c, k + 1, due, Nat.le_refl _, hfollows, hstands⟩

theorem Ahead.meets (h : S.Ahead n zone ts k current s) (hlooked : Alteration.Looked ts) :
    Alteration.Meets ts current.kind := by
  obtain ⟨c, due, rfl, hfollows, -⟩ := h
  exact (hfollows.next hlooked).2

theorem At.repeated {diagnostics : List Diagnostic}
    (h : S.At n zone ts k s) (hrepeated : ∀ diagnostic ∈ diagnostics,
      diagnostic.isError = false ∧ diagnostic.isRepetition = true) :
    S.At n zone ts k (diagnostics.foldl State.report s) := by
  induction diagnostics generalizing s with
  | nil => exact h
  | cons diagnostic rest ih =>
      rw [List.forall_mem_cons] at hrepeated
      obtain ⟨c, j, due, hj, hfollows, hstands⟩ := h
      have hwarned : S.Stands n c j due (([diagnostic].filter (!·.isRepetition)).map (·.cause) ++
          noticesOf zone ts) s := by simpa [hrepeated.1.2] using hstands
      exact ih ⟨c, j, due, hj, hfollows, hwarned.warn hrepeated.1.1⟩ hrepeated.2

end Setting

end ConfLang
