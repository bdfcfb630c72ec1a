import ConfLang.Proofs.Lookahead.Steps
import ConfLang.Proofs.Progress.Order
import ConfLang.Proofs.Writing.Token

/-!
# Raw text follows the token in front of it

Paths, messages, and assigned texts are read as raw text: what is left of the line behind the
token taken last.  That is possible only as long as no token behind that one was looked at.  If
one had been, a part of the text would be lost in it, and all that is left to give would be an
empty text.

`Call.TakesRaw` are the places where raw text is read, in whatever state a caller has brought a
reading.  Right before each of them a token was taken, and a run holds at most one, so none is
left (`Call.TakesRaw.lookahead`).  The cursor then stands right behind that token.

## Strategy

Where the cursor stands is an invariant of all reachable states: it touches the token looked at
last, or the one taken last if none is held (`State.Touches`).  So the raw text at the cursor is
the raw text behind that token, and what it consists of is a fact about the characters there.
-/

namespace ConfLang

open Reading

/-! ## Lines -/

namespace Text

/-- What is left of the line behind an offset of a source: spacing, a text, and blank characters
up to the end of the line.  The text neither begins with spacing nor ends in a blank character. -/
structure LeftOfLine (source : List Char) (offset : Nat) (text before spacing blanks rest : List Char) :
    Prop where
  whole : source = before ++ (spacing ++ (text ++ (blanks ++ rest)))
  place : Position.bytes before = offset
  oneLine : '\n' ∉ spacing ++ (text ++ blanks)
  ends : ∀ character ∈ rest.head?, character = '\n'
  areSpacing : ∀ character ∈ spacing, isSpacing character = true
  areBlank : ∀ character ∈ blanks, isBlank character = true
  first : ∀ character ∈ text.head?, isSpacing character = false
  last : ∀ character ∈ text.getLast?, isBlank character = false

/-- A text is what is left of the line behind an offset of a source, trimmed. -/
def IsLeftOfLine (source : String) (offset : Nat) (text : String) : Prop :=
  ∃ before spacing blanks rest,
    LeftOfLine source.toList offset text.toList before spacing blanks rest

/-- What is cut off at the end of a text is blank. -/
theorem trimEnd_append_blanks (characters : List Char) :
    ∃ blanks, characters = trimEnd characters ++ blanks ∧
      ∀ character ∈ blanks, isBlank character = true := by
  refine ⟨(characters.reverse.takeWhile isBlank).reverse, ?_, fun character hmem => ?_⟩
  · rw [trimEnd, ← List.reverse_append, List.takeWhile_append_dropWhile, List.reverse_reverse]
  · exact List.mem_takeWhile_imp (List.mem_reverse.mp hmem)

end Text

open Text in
/-- Raw text at a cursor is what is left of the line there. -/
theorem Cursor.StandsBehind.leftOfLine {source : String} {before : List Char} {cursor : Cursor}
    (h : cursor.StandsBehind source.toList before) :
    IsLeftOfLine source cursor.position.offset cursor.rawLine.text := by
  set behind := cursor.rest.dropWhile isSpacing with hbehind
  have hrest : cursor.rest = cursor.spacing ++ behind := List.takeWhile_append_dropWhile.symm
  have hstart : (cursor.advance cursor.spacing.length).rest = behind := by
    rw [Cursor.advance, hrest, List.drop_left]
  have htext : cursor.rawLine.text.toList = trimEnd (line behind) := by
    rw [Cursor.rawLine, String.toList_ofList, hstart]
  obtain ⟨blanks, hline, hblanks⟩ := trimEnd_append_blanks (line behind)
  have hspacing : ∀ character ∈ cursor.spacing, isSpacing character = true :=
    fun character hmem => List.mem_takeWhile_imp hmem
  refine ⟨before, cursor.spacing, blanks, behind.dropWhile (· != '\n'), ?_⟩
  rw [htext]
  refine ⟨?_, h.offset.symm, ?_, fun character hmem => ?_, hspacing, hblanks, ?_, ?_⟩
  · have hsplit : behind = line behind ++ behind.dropWhile (· != '\n') :=
      List.takeWhile_append_dropWhile.symm
    rw [← List.append_assoc (trimEnd _), ← hline, ← hsplit, ← hrest]
    exact h.source
  · rw [← hline, List.mem_append, not_or]
    refine ⟨fun hmem => ?_, fun hmem => ?_⟩
    · exact absurd (hspacing _ hmem) (by decide)
    · exact absurd (List.mem_takeWhile_imp hmem) (by simp)
  · have hstop := head?_dropWhile_stop (· != '\n') behind character hmem
    simpa using hstop
  · exact head?_trimEnd_line (head?_dropWhile_stop isSpacing cursor.rest)
  · exact last_trimEnd (line behind)

/-! ## Where the cursor stands -/

variable {options : Options} {source : String} {s s' : State} {call : Call}

/-- The cursor stands right behind the token looked at last, or the one taken last. -/
def State.Touches (s : State) : Prop :=
  (s.lookahead.getLast?.elim s.previous Token.span).stop = s.cursor.position.offset


theorem State.Reachable.touches (h : s.Reachable options source) : s.Touches := by
  induction h with
  | start => rfl
  | note _ _ ih | renest _ _ ih => exact ih
  | report diagnostic _ ih =>
      rw [State.Touches, State.report_frame]
      exact ih
  | @looked s _ _ =>
      rw [State.Touches, State.looked, List.getLast?_concat]
      exact s.cursor.offset_next.2
  | @take s token rest _ hfirst ih =>
      rw [State.Touches, hfirst, List.getLast?_cons] at ih
      rw [State.Touches, State.take, hfirst, List.tail_cons, ← ih]
      cases rest with
      | nil => rfl
      | cons next rest =>
          rw [List.getLast?_cons]
          rfl
  | takeRaw _ hnone _ =>
      rw [State.Touches, State.takeRaw, hnone]
      rfl

theorem State.Reachable.standsBehind (h : s.Reachable options source) :
    ∃ before, s.cursor.StandsBehind source.toList before := by
  induction h with
  | start => exact ⟨[], .ofSource source⟩
  | note _ _ ih | renest _ _ ih | take _ _ ih => exact ih
  | report diagnostic _ ih =>
      rw [State.report_frame]
      exact ih
  | looked _ ih =>
      obtain ⟨before, hbefore⟩ := ih
      obtain ⟨-, after, -, -, -, hafter⟩ := hbefore.next
      exact ⟨after, hafter⟩
  | takeRaw _ _ ih =>
      obtain ⟨before, hbefore⟩ := ih
      obtain ⟨-, after, -, -, -, hafter⟩ := hbefore.restOfLine
      exact ⟨after, hafter⟩

/-- Where no token is held, raw text is what is left of the line behind the token taken last. -/
theorem State.Reachable.leftOfLine (h : s.Reachable options source) (hnone : s.lookahead = []) :
    Text.IsLeftOfLine source s.previous.stop s.cursor.rawLine.text := by
  have htouches := h.touches
  rw [State.Touches, hnone] at htouches
  obtain ⟨before, hbefore⟩ := h.standsBehind
  have hline := hbefore.leftOfLine
  rwa [← htouches] at hline

/-! ## Where raw text is read, and where two tokens are looked at -/

/-- While a call runs that began in a state, raw text is read in another state: as the message of
a directive, as the text of an assignment, and as a path. -/
inductive Call.TakesRaw : Call → State → State → Prop
  | message {level s severity token s'} : s.peeked.1.kind = .message severity →
    advance.run s.peeked.2 = (.ok token, s') →
    TakesRaw (.statement (level + 1)) s s'
  | assigned {level s text quoted target s₁ token s'} : s.peeked.1.kind = .name text quoted →
    (identifier .targetName).run s.peeked.2 = (.ok target, s₁) → s₁.peeked.1.kind = .symbol .plus →
    0 < s₁.peeked.2.nesting.chains → s₁.peeked.2.options.expandingAssign = true →
    advance.run s₁.peeked.2 = (.ok token, s') →
    TakesRaw (.statement (level + 1)) s s'
  | path {level s kind s'} : s.peeked.1.kind = .opener kind →
    kind = .fileExists ∨ kind = .fileMissing → s.peeked.2.CanNest →
    (conditionalOpening kind s.peeked.1.span).run s.peeked.2.enter = (.ok (), s') →
    TakesRaw (.conditional level) s s'

/-- While a call runs that began in a state, the token behind the current one is looked at in
another state. -/
inductive Call.LooksBehind : Call → State → State → Prop
  | operand {level s} : s.peeked.1.kind = .name "defined" false →
    s.peeked.2.nesting.inCondition = true →
    LooksBehind (.operand (level + 1)) s s.peeked.2

namespace Call

theorem TakesRaw.carried {C : Course} {P : State → Prop} (hC : C.Carries P)
    (h : call.TakesRaw s s') (hs : P s) : P s' := by
  cases h with
  | message _ hadvance => exact hC.of_run (hC.peeked hs) hadvance
  | assigned _ htarget _ _ _ hadvance =>
      exact hC.of_run (hC.peeked (hC.of_run (hC.peeked hs) htarget)) hadvance
  | path _ _ _ hhead => exact hC.of_run (hC.renest Nesting.deeper (hC.peeked hs)) hhead

/-- No token is held behind a token that was just taken. -/
theorem lookahead_of_advance {token : Token} (hs : s.Short) (hkind : s.peeked.1.kind ≠ .endOfFile)
    (hrun : advance.run s.peeked.2 = (.ok token, s')) : s'.lookahead = [] := by
  rw [run_of_ok (run_advance _)] at hrun
  obtain ⟨-, rfl⟩ := Prod.mk.inj hrun
  apply hs.peeked.lookahead_advanced
  rw [State.peeked_peeked]
  exact hkind

/-- Raw text is read where no token is held. -/
theorem TakesRaw.lookahead (h : call.TakesRaw s s') (hs : s.Short) : s'.lookahead = [] := by
  cases h with
  | message hkind hadvance =>
      refine lookahead_of_advance hs ?_ hadvance
      rw [hkind]
      exact nofun
  | @assigned _ _ _ _ _ s₁ _ _ _ htarget hkind _ _ hadvance =>
      have hs₁ : s₁.Short := carries_short.of_run (carries_short.peeked hs) htarget
      refine lookahead_of_advance hs₁ ?_ hadvance
      rw [hkind]
      exact nofun
  | @path _ _ kind _ hkind _ _ hhead =>
      -- The token is taken one construct deeper, and only an event is noted behind it.
      have hentered : s.peeked.2.enter.Short := hs.peeked.of_same rfl
      have hpeeked : s.peeked.2.enter.peeked = (s.peeked.1, s.peeked.2.enter) :=
        State.peeked_of_cons hs.lookahead_peeked
      rw [conditionalOpening, bind_run, run_of_ok (run_advance _)] at hhead
      obtain ⟨-, rfl⟩ := Prod.mk.inj hhead
      apply hentered.lookahead_advanced
      rw [hpeeked, hkind]
      exact nofun

/-- Behind the current token one more is looked at, and then two are held. -/
theorem LooksBehind.two (h : call.LooksBehind s s') (hs : s.Short) :
    ∃ token second after, s'.lookahead = [token] ∧ peekSecond.run s' = (.ok second, after) ∧
      after.lookahead = [token, second] := by
  cases h with
  | operand _ _ =>
      have hfirst := hs.lookahead_peeked
      obtain ⟨second, after, hrun, ⟨rest, hafter⟩, hstate⟩ := run_peekSecond hfirst
      refine ⟨s.peeked.1, second, after, hfirst, run_of_ok hrun, ?_⟩
      rcases hstate with ⟨-, rfl⟩ | ⟨-, more, hmore⟩
      · have htwo := State.lookahead_scan_of_cons hfirst
        rw [hafter] at htwo ⊢
        simp only [List.cons.injEq, true_and, List.nil_append] at htwo
        rw [htwo.2]
      · cases hmore

end Call

/-! ## Main result -/

end ConfLang
