import ConfLang.Proofs.Bodies.Turn
import ConfLang.Proofs.Grammar.View
import ConfLang.Proofs.Spans.Tree

/-!
# Readings lay trees in a row

What is read next begins behind all that was read before.  The place up to which a source is
taken is the *front* of a state: the start of the current token if it was looked at, and else the
end of the token taken last.  No step moves the front back (`laying`).

A reading that begins when some trees lie in front of the front, and that gives a value, leaves
other trees there: those that are made of the value and of what was there before.  `Lays` says
this, and its rules follow the steps that readings are made of.  A token that is taken lays a leaf,
and what is read later may gather the trees of a row under a span that goes from the first to the
last of them (`InSequence.enclose`), or drop a tree that is no part of the program.
-/

namespace ConfLang

open Reading

variable {source : String}

/-! ## The front of a state -/

namespace Cursor

/-- A token begins behind the cursor that finds it. -/
theorem offset_le_start_next (cursor : Cursor) :
    cursor.position.offset ≤ cursor.next.token.span.start := by
  fun_induction next cursor with
  | case1 => exact Nat.le_refl _
  | case2 cursor piece after hpiece token htoken =>
      rw [Piece.span_of_token? htoken]
      exact (congrArg Span.start (origin_of_piece? hpiece)).ge
  | case3 cursor piece after hpiece htoken scan ih =>
      exact (offset_le_of_suffix (rest_piece? hpiece) (offset_piece? hpiece).1).trans ih

end Cursor

/-- The tree of a token. -/
def Token.spanTree (token : Token) : SpanTree :=
  .leaf token.span

namespace State

/-- The place up to which the source is taken. -/
def front (s : State) : Nat :=
  match s.lookahead with
  | [] => s.previous.stop
  | token :: _ => token.span.start

/-- A state stands in a source if its cursor does, and the tokens that were looked at lie between
the token taken last and the cursor. -/
structure Stands (source : String) (s : State) : Prop where
  cursor : s.cursor.StandsIn source.toList
  tokens : InSequence source s.previous.stop (s.lookahead.map Token.spanTree) s.cursor.position.offset
  endOfFile : ∀ token ∈ s.lookahead, token.kind = .endOfFile → token.span.stop = token.span.start

theorem front_of_nil {s : State} (h : s.lookahead = []) : s.front = s.previous.stop := by
  rw [front, h]

theorem front_of_cons {s : State} {token : Token} {rest : List Token}
    (h : s.lookahead = token :: rest) : s.front = token.span.start := by
  rw [front, h]

/-- Changes that leave cursor and tokens as they are do not matter. -/
theorem Stands.of_same {s : State} (h : s.Stands source) (s' : State) (hcursor : s'.cursor = s.cursor)
    (hlookahead : s'.lookahead = s.lookahead) (hprevious : s'.previous = s.previous) :
    s'.Stands source ∧ s'.front = s.front := by
  refine ⟨⟨?_, ?_, ?_⟩, ?_⟩
  · rw [hcursor]
    exact h.cursor
  · rw [hcursor, hlookahead, hprevious]
    exact h.tokens
  · rw [hlookahead]
    exact h.endOfFile
  · rw [front, front, hlookahead, hprevious]

theorem Stands.looked {s : State} (h : s.Stands source) :
    s.looked.Stands source ∧ s.front ≤ s.looked.front := by
  obtain ⟨hcursor, hspan, -⟩ := h.cursor.next
  have hstart := s.cursor.offset_le_start_next
  have hstop := s.cursor.offset_next.2
  refine ⟨⟨hcursor, ?_, ?_⟩, ?_⟩
  · change InSequence source s.previous.stop
      ((s.lookahead ++ [s.cursor.next.token]).map Token.spanTree)
      s.cursor.next.cursor.position.offset
    rw [List.map_append]
    exact h.tokens.append (.leaf hspan.pointsInto hstart hstop.le)
  · intro token htoken hkind
    rcases List.mem_append.mp htoken with htoken | htoken
    · exact h.endOfFile token htoken hkind
    · rw [List.mem_singleton.mp htoken] at hkind ⊢
      rw [(Cursor.next_of_endOfFile hkind).2]
      rfl
  · cases hlookahead : s.lookahead with
    | nil =>
        have hle : s.previous.stop ≤ s.cursor.position.offset := h.tokens.le
        have hlooked : s.looked.lookahead = [s.cursor.next.token] := by
          rw [State.looked, hlookahead, List.nil_append]
        rw [front_of_nil hlookahead, front_of_cons hlooked]
        exact hle.trans hstart
    | cons token rest =>
        have hlooked : s.looked.lookahead = token :: (rest ++ [s.cursor.next.token]) := by
          rw [State.looked, hlookahead, List.cons_append]
        rw [front_of_cons hlookahead, front_of_cons hlooked]

/-- The current token points into the source. -/
theorem Stands.pointsInto {s : State} {token : Token} {rest : List Token} (h : s.Stands source)
    (hfirst : s.lookahead = token :: rest) : token.span.PointsInto source := by
  have htokens := h.tokens
  rw [hfirst, List.map_cons] at htokens
  exact (htokens.nested _ List.mem_cons_self).pointsInto

/-- Taking the current token moves the front behind it. -/
theorem Stands.take {s : State} {token : Token} {rest : List Token} (h : s.Stands source)
    (hfirst : s.lookahead = token :: rest) :
    (s.take token).Stands source ∧ token.span.stop ≤ (s.take token).front := by
  have htokens := h.tokens
  have hrest : (s.take token).lookahead = rest := by
    rw [State.take, hfirst, List.tail_cons]
  rw [hfirst, List.map_cons] at htokens
  refine ⟨⟨h.cursor, ?_, ?_⟩, ?_⟩
  · rw [hrest]
    exact htokens.tail
  · rw [hrest]
    exact fun other hother => h.endOfFile other (hfirst ▸ List.mem_cons_of_mem _ hother)
  · cases rest with
    | nil => rw [front_of_nil hrest, State.take]
    | cons next rest =>
        rw [front_of_cons hrest]
        exact (htokens.tail.inside next.spanTree List.mem_cons_self).1

/-- Taking raw text moves the front behind it. -/
theorem Stands.takeRaw {s : State} (h : s.Stands source) (hnone : s.lookahead = []) :
    (s.takeRaw s.cursor.rawLine).Stands source ∧ InSequence source s.front
      [.leaf s.cursor.rawLine.span] (s.takeRaw s.cursor.rawLine).front := by
  obtain ⟨hcursor, hspan⟩ := h.cursor.rawLine
  have htokens := h.tokens.le
  have hrest : (s.takeRaw s.cursor.rawLine).lookahead = [] := hnone
  have hstart : s.cursor.position.offset ≤ s.cursor.rawLine.span.start :=
    Cursor.offset_le_of_suffix (Cursor.rest_advance _ _) (Cursor.offset_advance _ _)
  refine ⟨⟨hcursor, ?_, ?_⟩, ?_⟩
  · rw [hrest]
    exact .nil (Nat.le_refl _)
  · rw [hrest]
    exact nofun
  · rw [front_of_nil hnone, front_of_nil hrest]
    exact .leaf hspan.pointsInto (htokens.trans hstart) (Nat.le_refl _)

end State

/-- No reading moves the front back. -/
def laying (source : String) : FreeCourse where
  holds s s' := s.Stands source → s'.Stands source ∧ s.front ≤ s'.front
  fails _ := True
  refl s h := ⟨h, Nat.le_refl _⟩
  trans h h' hs := ⟨(h' (h hs).1).1, (h hs).2.trans (h' (h hs).1).2⟩
  plain _ _ := trivial
  calm _ _ := trivial
  note s event h := by
    obtain ⟨hstands, hfront⟩ := h.of_same (s.note event) rfl rfl rfl
    exact ⟨hstands, hfront.ge⟩
  report s diagnostic _ h := by
    obtain ⟨hstands, hfront⟩ := h.of_same (s.report diagnostic)
      (by rw [State.report_frame]) (by rw [State.report_frame]) (by rw [State.report_frame])
    exact ⟨hstands, hfront.ge⟩
  renest opening closing _ h hs := by
    obtain ⟨hopened, hfront⟩ := hs.of_same (State.renest opening _) rfl rfl rfl
    obtain ⟨hinside, hle⟩ := h hopened
    obtain ⟨hclosed, hfront'⟩ := hinside.of_same (State.renest closing _) rfl rfl rfl
    exact ⟨hclosed, by rw [hfront', ← hfront]; exact hle⟩
  looked s h := h.looked
  take hfirst h := by
    obtain ⟨htaken, hle⟩ := h.take hfirst
    rw [State.front_of_cons hfirst]
    exact ⟨htaken, (h.pointsInto hfirst).start_le_stop.trans hle⟩
  takeRaw hnone h := by
    obtain ⟨htaken, hlaid⟩ := h.takeRaw hnone
    exact ⟨htaken, hlaid.le⟩

instance : TellsStray (laying source).Kept := Course.tellsStray fun _ => trivial

namespace Reading

variable {α β σ : Type} {before : List SpanTree} {token : Token}

/-! ## Rules -/

/-- A reading that begins behind some trees and gives a value leaves other trees in a row. -/
def Lays (source : String) (before : List SpanTree) (f : Reading α) (after : α → List SpanTree) :
    Prop :=
  ∀ s : State, s.Stands source → ∀ first, InSequence source first before s.front →
    ∀ a s', f.run s = (.ok a, s') → InSequence source first (after a) s'.front

/-- The same of a reading that begins at a token that was looked at. -/
def LaysAt (source : String) (token : Token) (before : List SpanTree) (f : Reading α)
    (after : α → List SpanTree) : Prop :=
  ∀ s : State, s.Stands source → (∃ rest, s.lookahead = token :: rest) →
    ∀ first, InSequence source first before s.front →
      ∀ a s', f.run s = (.ok a, s') → InSequence source first (after a) s'.front

theorem stands_of_run (f : Reading α) [Obeys (laying source).Kept f] {s s' : State} {a : α}
    (h : s.Stands source) (hrun : f.run s = (.ok a, s')) : s'.Stands source ∧ s.front ≤ s'.front := by
  have hafter := (Obeys.obeys (P := (laying source).Kept) (f := f) s).1 h
  rwa [hrun] at hafter

theorem ok_of_bind_run {f : Reading α} {rest : α → Reading β} {s s' : State} {b : β}
    (h : (f >>= rest).run s = (.ok b, s')) :
    ∃ a middle, f.run s = (.ok a, middle) ∧ (rest a).run middle = (.ok b, s') := by
  rw [bind_run] at h
  generalize f.run s = first at h ⊢
  obtain ⟨problem | a, middle⟩ := first
  · cases h
  · exact ⟨a, middle, rfl, h⟩

theorem Lays.at {f : Reading α} {after : α → List SpanTree} (h : Lays source before f after) :
    LaysAt source token before f after :=
  fun s hs _ => h s hs

theorem lays_pure {a : α} {after : α → List SpanTree}
    (h : ∀ first last, InSequence source first before last → InSequence source first (after a) last) :
    Lays source before (pure a) after := by
  rintro s hs first hbefore _ _ ⟨⟩
  exact h first _ hbefore

theorem lays_fail {cause : Cause} {span : Span} {after : α → List SpanTree} :
    Lays source before (fail cause span) after := by
  intro s hs first hbefore a s' hrun
  cases hrun

theorem Lays.bind {f : Reading α} [Obeys (laying source).Kept f] {rest : α → Reading β}
    {middle : α → List SpanTree} {after : β → List SpanTree} (h : Lays source before f middle)
    (hrest : ∀ a, Lays source (middle a) (rest a) after) : Lays source before (f >>= rest) after := by
  intro s hs first hbefore b s' hrun
  obtain ⟨a, later, hfirst, hlast⟩ := ok_of_bind_run hrun
  exact hrest a later (stands_of_run f hs hfirst).1 first (h s hs first hbefore a later hfirst) b s'
    hlast

theorem LaysAt.bind {f : Reading α} [Obeys (laying source).Kept f] {rest : α → Reading β}
    {middle : α → List SpanTree} {after : β → List SpanTree} (h : LaysAt source token before f middle)
    (hrest : ∀ a, Lays source (middle a) (rest a) after) :
    LaysAt source token before (f >>= rest) after := by
  intro s hs htoken first hbefore b s' hrun
  obtain ⟨a, later, hfirst, hlast⟩ := ok_of_bind_run hrun
  exact hrest a later (stands_of_run f hs hfirst).1 first (h s hs htoken first hbefore a later hfirst)
    b s' hlast

/-- A reading whose value has no part leaves the row as it is. -/
theorem lays_plain (f : Reading α) [Obeys (laying source).Kept f] :
    Lays source before f fun _ => before := by
  intro s hs first hbefore a s' hrun
  exact hbefore.mono (stands_of_run f hs hrun).2

theorem lays_after (f : Reading α) [Obeys (laying source).Kept f] {rest : α → Reading β}
    {after : β → List SpanTree} (hrest : ∀ a, Lays source before (rest a) after) :
    Lays source before (f >>= rest) after :=
  (lays_plain f).bind hrest

theorem lays_get {rest : State → Reading α} {after : α → List SpanTree}
    (hrest : ∀ s, Lays source before (rest s) after) : Lays source before (get >>= rest) after :=
  fun s hs => hrest s s hs

theorem laysAt_get {rest : State → Reading α} {after : α → List SpanTree}
    (hrest : ∀ s, LaysAt source token before (rest s) after) :
    LaysAt source token before (get >>= rest) after :=
  fun s hs => hrest s s hs

/-- What lies in front of a reading stays there. -/
theorem Lays.frame {f : Reading α} {after : α → List SpanTree} (h : Lays source [] f after) :
    Lays source before f fun a => before ++ after a := by
  intro s hs first hbefore a s' hrun
  exact hbefore.append (h s hs s.front (.nil (Nat.le_refl _)) a s' hrun)

theorem Lays.map {f : Reading α} {k : α → β} {after : β → List SpanTree}
    (h : Lays source before f fun a => after (k a)) : Lays source before (k <$> f) after := by
  intro s hs first hbefore b s' hrun
  rw [← bind_pure_comp] at hrun
  obtain ⟨a, later, hfirst, hlast⟩ := ok_of_bind_run hrun
  cases hlast
  exact h s hs first hbefore a _ hfirst

/-- The trees of the value of a step that was attempted. -/
def treesOf (before : List SpanTree) (after : α → List SpanTree) : Except Problem α → List SpanTree
  | .ok a => after a
  | .error _ => before

instance {f : Reading α} [Obeys (laying source).Kept f] : Obeys (laying source).Kept (attempt f) :=
  ⟨fun s => by
    rw [attempt_run]
    exact ⟨(Obeys.obeys (P := (laying source).Kept) (f := f) s).1, fun _ h => nomatch h⟩⟩

instance {diagnostic : Diagnostic} : Obeys (laying source).Kept (report diagnostic) :=
  ⟨Course.kept_report trivial⟩

theorem Lays.attempt {f : Reading α} [Obeys (laying source).Kept f] {after : α → List SpanTree}
    (h : Lays source before f after) :
    Lays source before (attempt f) (treesOf before after) := by
  intro s hs first hbefore result s' hrun
  have hafter := (Obeys.obeys (P := (laying source).Kept) (f := f) s).1 hs
  rw [attempt_run] at hrun
  obtain ⟨hresult, rfl⟩ := Prod.mk.inj hrun
  obtain rfl := Except.ok.inj hresult
  generalize hfirst : f.run s = run at hafter ⊢
  obtain ⟨problem | a, after'⟩ := run
  · exact hbefore.mono hafter.2
  · exact h s hs first hbefore a after' hfirst

theorem Lays.between (opening closing : Nesting → Nesting) {f : Reading α} {after : α → List SpanTree}
    (h : Lays source before f after) :
    Lays source before (between (State.renest opening) (State.renest closing) f) after := by
  intro s hs first hbefore a s' hrun
  obtain ⟨hopened, hfront⟩ := hs.of_same (s.renest opening) rfl rfl rfl
  rw [between_run] at hrun
  obtain ⟨hresult, rfl⟩ := Prod.mk.inj hrun
  rw [← hfront] at hbefore
  have hlaid :=
    h _ hopened first hbefore a _ (Prod.ext hresult (Eq.refl (f.run (s.renest opening)).2))
  exact hlaid

theorem LaysAt.nested {f : Reading α} {after : α → List SpanTree}
    (h : LaysAt source token before f after) :
    LaysAt source token before (nested f) after := by
  intro s hs htoken first hbefore a s' hrun
  rw [nested_run] at hrun
  split at hrun
  · obtain ⟨hopened, hfront⟩ := hs.of_same s.enter rfl rfl rfl
    rw [between_run] at hrun
    obtain ⟨hresult, rfl⟩ := Prod.mk.inj hrun
    rw [← hfront] at hbefore
    have hlaid := h _ hopened htoken first hbefore a _ (Prod.ext hresult (Eq.refl (f.run s.enter).2))
    exact hlaid
  · rw [tooDeep_run] at hrun
    cases hrun

theorem Lays.nested {f : Reading α} {after : α → List SpanTree} (h : Lays source before f after) :
    Lays source before (nested f) after := by
  intro s hs first hbefore a s' hrun
  rw [nested_run] at hrun
  split at hrun
  · exact h.between Nesting.deeper Nesting.outer s hs first hbefore a s' hrun
  · rw [tooDeep_run] at hrun
    cases hrun

/-- The value of a turn. -/
def Turn.value : Turn σ → σ
  | again value => value
  | done value => value

theorem Lays.iterate {step : σ → Reading (Turn σ)} [∀ value, Obeys (laying source).Kept (step value)]
    (trees : σ → List SpanTree)
    (hstep : ∀ value, Lays source (trees value) (step value) fun turn => trees turn.value)
    (value : σ) : Lays source (trees value) (iterate step value) trees := by
  intro s
  induction hmeasure : s.remaining using Nat.strongRecOn generalizing value s with
  | ind measure ih =>
      subst hmeasure
      intro hs first hbefore a s' hrun
      rw [iterate_run] at hrun
      obtain ⟨turn, later, hturn, hrest⟩ := ok_of_bind_run hrun
      have hlaid := hstep value s hs first hbefore turn later hturn
      have hlater := (stands_of_run (step value) hs hturn).1
      cases turn with
      | again value' =>
          rw [afterTurn_again_run] at hrest
          split at hrest
          · rename_i hless
            exact ih _ hless value' later rfl hlater first hlaid a s' hrest
          · cases hrest
            exact hlaid
      | done value' =>
          cases hrest
          exact hlaid

/-! ## Tokens -/

theorem lays_peek {rest : Token → Reading α} {after : α → List SpanTree}
    (h : ∀ token, LaysAt source token before (rest token) after) :
    Lays source before (peek >>= rest) after := by
  intro s hs first hbefore a s' hrun
  obtain ⟨token, later, hpeek, hrest⟩ := ok_of_bind_run hrun
  obtain ⟨hlater, hfront⟩ := stands_of_run peek hs hpeek
  have hfirst := s.lookahead_peeked
  rw [run_of_ok (run_peek s)] at hpeek
  cases hpeek
  exact h _ _ hlater hfirst first (hbefore.mono hfront) a s' hrest

/-- A token that is taken is a leaf of the row. -/
theorem laysAt_advance : LaysAt source token before advance fun _ => before ++ [token.spanTree] := by
  rintro s hs ⟨rest, hfirst⟩ first hbefore other s' hrun
  have hspan := hs.pointsInto hfirst
  rw [run_of_ok (run_advance s), State.advanced, State.peeked_of_cons hfirst] at hrun
  rw [State.front_of_cons hfirst] at hbefore
  refine hbefore.append (.leaf hspan (Nat.le_refl _) ?_)
  simp only at hrun
  split at hrun
  · -- The end of the file stays where it is, but it has no bytes.
    rename_i hkind
    cases hrun
    rw [State.front_of_cons hfirst]
    exact (hs.endOfFile token (hfirst ▸ List.mem_cons_self) hkind).le
  · cases hrun
    exact (hs.take hfirst).2

theorem laysAt_take {rest : Reading α} {after : α → List SpanTree}
    (h : Lays source (before ++ [token.spanTree]) rest after) :
    LaysAt source token before (advance >>= fun _ => rest) after :=
  laysAt_advance.bind fun _ => h

theorem lays_advance : Lays source before advance fun token => before ++ [token.spanTree] := by
  intro s hs first hbefore token s' hrun
  have hadvanced : s.peeked.2.advanced = s.advanced := by
    rw [State.advanced, State.peeked_peeked, State.advanced]
  obtain ⟨hpeeked, hfront⟩ := stands_of_run peek hs (run_of_ok (run_peek s))
  rw [run_of_ok (run_advance s)] at hrun
  cases hrun
  rw [← hadvanced]
  exact laysAt_advance _ hpeeked s.lookahead_peeked first (hbefore.mono hfront) _ _
    (run_of_ok (run_advance _))

/-- To look at the token behind the current one leaves the current one as it is. -/
theorem laysAt_isDefinedQuestion (name : String) {rest : Bool → Reading α}
    {after : α → List SpanTree} (h : ∀ asks, LaysAt source token before (rest asks) after) :
    LaysAt source token before (isDefinedQuestion name >>= rest) after := by
  rintro s hs ⟨others, hfirst⟩ first hbefore a s' hrun
  obtain ⟨asks, later, hasks, hrest⟩ := ok_of_bind_run hrun
  obtain ⟨hlater, hfront⟩ := stands_of_run _ hs hasks
  have hcurrent : ∃ others, later.lookahead = token :: others := by
    have hasks := ok_of_run hasks
    simp only [isDefinedQuestion, EStateM.run_bind, EStateM.run_get] at hasks
    split at hasks
    · simp only [peekSecond, EStateM.run_bind, run_peek, State.peeked_of_cons hfirst,
        EStateM.run_get, hfirst] at hasks
      cases others with
      | nil =>
          cases hasks
          exact ⟨[s.scan.1], s.lookahead_scan.trans (congrArg (· ++ [s.scan.1]) hfirst)⟩
      | cons second others =>
          cases hasks
          exact ⟨_, hfirst⟩
    · cases hasks
      exact ⟨_, hfirst⟩
  exact h asks later hlater hcurrent first (hbefore.mono hfront) a s' hrest

theorem lays_unexpected {expectation : Expectation} {after : α → List SpanTree} :
    Lays source before (unexpected expectation) after :=
  lays_after peek fun _ => lays_fail

theorem lays_expect (sign : Symbol) (expectation : Expectation) :
    Lays source before (expect sign expectation) fun span => before ++ [.leaf span] := by
  refine lays_peek fun token => ?_
  split
  · exact laysAt_take (lays_pure fun _ _ => id)
  · exact lays_unexpected.at

theorem lays_identifier (expectation : Expectation) :
    Lays source before (identifier expectation) fun name => before ++ [name.spanTree] := by
  refine lays_peek fun token => ?_
  split
  · exact laysAt_take (lays_pure fun _ _ => id)
  · exact lays_unexpected.at

theorem lays_closing (bracket : Bracket) (opened : Span) :
    Lays source before (closing bracket opened) fun span => before ++ [.leaf span] := by
  refine lays_peek fun token => ?_
  split
  · exact laysAt_take (lays_pure fun _ _ => id)
  · exact lays_fail.at

/-- Raw text is a leaf, wherever it comes from. -/
theorem lays_rawText : Lays source before rawText fun raw => before ++ [.leaf raw.2] := by
  intro s hs first hbefore raw s' hrun
  refine hbefore.append ?_
  cases hfirst : s.lookahead with
  | nil =>
      rw [run_of_ok (run_rawText_of_nil hfirst)] at hrun
      cases hrun
      exact (hs.takeRaw hfirst).2
  | cons token rest =>
      rw [run_of_ok (run_rawText_of_cons hfirst)] at hrun
      cases hrun
      rw [State.front_of_cons hfirst]
      exact .leaf (hs.pointsInto hfirst).origin (Nat.le_refl _) (Nat.le_refl _)

/-- In front of the current token there is room for an empty span. -/
theorem laysAt_origin :
    LaysAt source token before (pure token.span.origin) fun span => before ++ [.leaf span] := by
  rintro s hs ⟨rest, hfirst⟩ first hbefore _ _ ⟨⟩
  rw [State.front_of_cons hfirst] at hbefore ⊢
  exact hbefore.append (.leaf (hs.pointsInto hfirst).origin (Nat.le_refl _) (Nat.le_refl _))

end Reading

end ConfLang
