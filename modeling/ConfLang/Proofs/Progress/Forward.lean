import ConfLang.Proofs.Course
import ConfLang.Proofs.Grammar.View

/-!
# Readings go forward

The tokens that a parser has looked at and not yet taken lie one behind the other: behind the
token taken last, and in front of its cursor.  So whoever takes the current token gets further in
the source, unless that is the end of the file, and no later step goes back.

`State.Precedes` says of two states of one run all that is known of every run: what the first one
holds is not taken back, and if it is in order, the second one goes on from there.
-/

namespace ConfLang

open Reading

variable {s s' s'' : State}

/-! ## Order -/

/-- Tokens lie one behind the other between two offsets.  Only the end of the file has no
bytes. -/
def InOrder : Nat → List Token → Nat → Prop
  | start, [], stop => start ≤ stop
  | start, token :: rest, stop => start ≤ token.span.stop ∧
    (token.kind ≠ .endOfFile → start < token.span.stop) ∧ InOrder token.span.stop rest stop

theorem InOrder.le {start stop : Nat} {tokens : List Token} (h : InOrder start tokens stop) :
    start ≤ stop := by
  induction tokens generalizing start with
  | nil => exact h
  | cons token rest ih => exact h.1.trans (ih h.2.2)

theorem InOrder.concat {start stop : Nat} {tokens : List Token} {token : Token}
    (h : InOrder start tokens stop) (hle : stop ≤ token.span.stop)
    (hless : token.kind ≠ .endOfFile → stop < token.span.stop) :
    InOrder start (tokens ++ [token]) token.span.stop := by
  induction tokens generalizing start with
  | nil =>
      have hstart : start ≤ stop := h
      exact ⟨hstart.trans hle, fun hkind => Nat.lt_of_le_of_lt hstart (hless hkind), Nat.le_refl _⟩
  | cons first rest ih => exact ⟨h.1, h.2.1, ih h.2.2⟩

/-- The tokens that were looked at lie behind the token taken last and in front of the cursor,
and what is left of the source lies behind the cursor. -/
structure State.Ordered (s : State) : Prop where
  size : s.size = s.cursor.position.offset + s.cursor.left
  tokens : InOrder s.previous.stop s.lookahead s.cursor.position.offset

namespace State.Ordered

theorem report (h : s.Ordered) (diagnostic : Diagnostic) : (s.report diagnostic).Ordered := by
  rw [report_frame]
  exact ⟨h.size, h.tokens⟩

theorem looked (h : s.Ordered) : s.looked.Ordered := by
  obtain ⟨hbytes, hstop⟩ := s.cursor.offset_next
  refine ⟨h.size.trans hbytes.symm, ?_⟩
  change InOrder s.previous.stop (s.lookahead ++ [s.cursor.next.token])
    s.cursor.next.cursor.position.offset
  rw [← hstop]
  apply h.tokens.concat
  · have hleft := Cursor.left_le_of_suffix (Cursor.rest_next s.cursor)
    omega
  · intro hkind
    have hleft := Cursor.left_next_lt hkind
    omega

theorem take {token : Token} {rest : List Token} (h : s.Ordered)
    (hfirst : s.lookahead = token :: rest) : (s.take token).Ordered := by
  have htokens := h.tokens
  rw [hfirst] at htokens
  refine ⟨h.size, ?_⟩
  rw [State.take, hfirst]
  exact htokens.2.2

theorem takeRaw (h : s.Ordered) (hnone : s.lookahead = []) :
    (s.takeRaw s.cursor.rawLine).Ordered := by
  refine ⟨?_, ?_⟩
  · rw [State.takeRaw, h.size, Cursor.rawLine, Cursor.offset_advance, Cursor.offset_advance]
  · rw [State.takeRaw, hnone]
    exact Nat.le_refl _

end State.Ordered

/-! ## Going forward -/

/-- What a later state keeps of an earlier one: it is in order and not further back.  The current
token stays the current one until it is taken. -/
structure State.Continues (s' s : State) : Prop where
  ordered : s'.Ordered
  size : s'.size = s.size
  consumed : s.consumed ≤ s'.consumed
  previous : s.previous.stop ≤ s'.previous.stop
  current : ∀ token rest, s.lookahead = token :: rest →
    (s'.consumed = s.consumed ∧ ∃ rest', s'.lookahead = token :: rest') ∨
      s.consumed < s'.consumed ∧ token.span.stop ≤ s'.previous.stop

namespace State.Continues

theorem of_same (hordered : s'.Ordered) (hsize : s'.size = s.size)
    (hconsumed : s'.consumed = s.consumed) (hprevious : s'.previous = s.previous)
    (hlookahead : ∃ more, s'.lookahead = s.lookahead ++ more) : s'.Continues s := by
  refine ⟨hordered, hsize, hconsumed.ge, by rw [hprevious], fun token rest hfirst => ?_⟩
  obtain ⟨more, hmore⟩ := hlookahead
  exact .inl ⟨hconsumed, rest ++ more, by rw [hmore, hfirst, List.cons_append]⟩

theorem refl (h : s.Ordered) : s.Continues s := .of_same h rfl rfl rfl ⟨[], by simp⟩

theorem trans (h : s'.Continues s) (h' : s''.Continues s') : s''.Continues s where
  ordered := h'.ordered
  size := h'.size.trans h.size
  consumed := h.consumed.trans h'.consumed
  previous := h.previous.trans h'.previous
  current token rest hfirst := by
    -- The token is taken in the first part, or in the second one, or in neither.
    rcases h.current token rest hfirst with ⟨hsame, rest', hfirst'⟩ | ⟨hmore, hbehind⟩
    · rcases h'.current token rest' hfirst' with ⟨hsame', hrest⟩ | ⟨hmore, hbehind⟩
      · exact .inl ⟨hsame'.trans hsame, hrest⟩
      · exact .inr ⟨hsame ▸ hmore, hbehind⟩
    · exact .inr ⟨Nat.lt_of_lt_of_le hmore h'.consumed, hbehind.trans h'.previous⟩

/-- Once the current token is taken, less is left of the source. -/
theorem remaining_lt {token : Token} {rest : List Token} (h : s'.Continues s) (hs : s.Ordered)
    (hfirst : s.lookahead = token :: rest) (hkind : token.kind ≠ .endOfFile)
    (htaken : s.consumed < s'.consumed) : s'.remaining < s.remaining := by
  have htokens := hs.tokens
  rw [hfirst] at htokens
  have hless : s.previous.stop < token.span.stop := htokens.2.1 hkind
  have hcursor : token.span.stop ≤ s.cursor.position.offset := htokens.2.2.le
  have hsize := hs.size
  rcases h.current token rest hfirst with ⟨hsame, -⟩ | ⟨-, hbehind⟩
  · omega
  · rw [State.remaining, State.remaining, h.size]
    omega

end State.Continues

/-- Every reading goes forward. -/
def order : FreeCourse where
  holds s s' := s.Ordered → s'.Continues s
  fails _ := True
  refl _ := .refl
  trans h h' hs := (h hs).trans (h' (h hs).ordered)
  plain _ _ := trivial
  calm _ _ := trivial
  note s _ hs := .of_same ⟨hs.size, hs.tokens⟩ rfl rfl rfl ⟨[], (List.append_nil _).symm⟩
  report s diagnostic _ hs := by
    refine .of_same (hs.report diagnostic) ?_ ?_ ?_ ⟨[], ?_⟩
    all_goals
      rw [State.report_frame]
      try rw [List.append_nil]
  renest opening closing _ h hs :=
    have hafter := h ⟨hs.size, hs.tokens⟩
    ⟨⟨hafter.ordered.size, hafter.ordered.tokens⟩, hafter.size, hafter.consumed, hafter.previous,
      hafter.current⟩
  looked s hs := .of_same hs.looked rfl rfl rfl ⟨[s.cursor.next.token], rfl⟩
  take {s token rest} hfirst hs := by
    have htokens := hs.tokens
    rw [hfirst] at htokens
    refine ⟨hs.take hfirst, rfl, Nat.le_succ _, htokens.1, fun token' rest' hfirst' => ?_⟩
    obtain ⟨rfl, -⟩ := List.cons.inj (hfirst.symm.trans hfirst')
    exact .inr ⟨Nat.lt_succ_self _, Nat.le_refl _⟩
  takeRaw {s} hnone hs := by
    have htokens := hs.tokens
    have hstop := (hs.takeRaw hnone).size
    rw [hnone] at htokens
    refine ⟨hs.takeRaw hnone, rfl, Nat.le_succ _, ?_, fun token rest hfirst => ?_⟩
    · have hleft := Cursor.left_le_of_suffix (Cursor.rest_rawLine s.cursor)
      have hle : s.previous.stop ≤ s.cursor.position.offset := htokens
      have hsize := hs.size
      change s.size = s.cursor.rawLine.cursor.position.offset + s.cursor.rawLine.cursor.left at hstop
      change s.previous.stop ≤ s.cursor.rawLine.cursor.position.offset
      omega
    · rw [hnone] at hfirst
      cases hfirst

instance : TellsStray order.Kept := Course.tellsStray fun _ => trivial

/-! ## What comes later in a run -/

/-- The current token was looked at, and is not the end of the file. -/
def State.Looks (s : State) : Prop :=
  ∃ token rest, s.lookahead = token :: rest ∧ token.kind ≠ .endOfFile

theorem State.looks_peeked (h : s.peeked.1.kind ≠ .endOfFile) : s.peeked.2.Looks := by
  obtain ⟨rest, hrest⟩ := s.lookahead_peeked
  exact ⟨s.peeked.1, rest, hrest, h⟩

/-- What a later state of a run keeps of an earlier one.  As long as nothing is taken, the last
token stays the last one. -/
structure State.Precedes (before after : State) : Prop extends before.Grows after where
  forward : before.Ordered → after.Continues before
  unmoved : after.consumed = before.consumed → after.previous = before.previous

namespace State.Precedes

@[refl] theorem refl (s : State) : s.Precedes s := ⟨.refl s, .refl, fun _ => rfl⟩

@[trans] theorem trans (first : s.Precedes s') (second : s'.Precedes s'') : s.Precedes s'' where
  toGrows := first.toGrows.trans second.toGrows
  forward hs := (first.forward hs).trans (second.forward (first.forward hs).ordered)
  unmoved hsame := by
    have hfirst := first.consumed
    have hsecond := second.consumed
    rw [second.unmoved (by omega), first.unmoved (by omega)]

/-- In front of a token that is not the end of the file, less is left of the source as soon as
anything is taken. -/
theorem remaining_lt_iff (h : s.Precedes s') (hs : s.Ordered) (hlooks : s.Looks) :
    s'.remaining < s.remaining ↔ s'.consumed ≠ s.consumed := by
  obtain ⟨token, rest, hfirst, hkind⟩ := hlooks
  constructor
  · intro hless hsame
    rw [State.remaining, State.remaining, h.size, h.unmoved hsame] at hless
    exact Nat.lt_irrefl _ hless
  · intro hmore
    exact (h.forward hs).remaining_lt hs hfirst hkind (Nat.lt_of_le_of_ne h.consumed hmore.symm)

end State.Precedes

namespace State

theorem precedes_note (s : State) (event : Event) : s.Precedes (s.note event) :=
  ⟨s.grows_note event, order.note s event, fun _ => rfl⟩

theorem precedes_report (s : State) (diagnostic : Diagnostic) :
    s.Precedes (s.report diagnostic) :=
  ⟨s.grows_report diagnostic, order.report s diagnostic trivial, fun _ => by rw [report_frame]⟩

theorem precedes_foldl_report (diagnostics : List Diagnostic) (s : State) :
    s.Precedes (diagnostics.foldl report s) := by
  induction diagnostics generalizing s with
  | nil => exact .refl s
  | cons diagnostic rest ih => exact (s.precedes_report diagnostic).trans (ih _)

theorem precedes_renest (s : State) (nesting : Nesting) : s.Precedes { s with nesting } :=
  ⟨s.grows_renest nesting,
    fun hs => .of_same ⟨hs.size, hs.tokens⟩ rfl rfl rfl ⟨[], (List.append_nil _).symm⟩, fun _ => rfl⟩

theorem precedes_scan (s : State) : s.Precedes s.scan.2 := by
  refine ⟨s.grows_scan, ?_, fun _ => by rw [scan_eq, foldl_report_frame, looked]⟩
  exact holds_scan order.refl order.trans order.report order.calm order.looked s

theorem precedes_take {token : Token} {rest : List Token} (hfirst : s.lookahead = token :: rest) :
    s.Precedes (s.take token) :=
  ⟨s.grows_take token, order.take hfirst, fun hsame => absurd hsame (Nat.succ_ne_self _)⟩

theorem precedes_takeRaw (hnone : s.lookahead = []) : s.Precedes (s.takeRaw s.cursor.rawLine) :=
  ⟨s.grows_takeRaw _, order.takeRaw hnone, fun hsame => absurd hsame (Nat.succ_ne_self _)⟩

end State

end ConfLang
