import ConfLang.Proofs.Grammar.Scan
import ConfLang.Proofs.Writing.Spelling

/-!
# Scanning what was written

A cursor faces a text if nothing but spacing stands in front of it, and line feeds where they
are no tokens.  Then the first token of the text is the next one of the cursor, and the cursor
behind it faces what follows in the text.

Directives are tokens only where no other token stands before them on their line.  A cursor is
at a line if it faces a text and only blank characters stand before it.
-/

namespace ConfLang

open Text

namespace Cursor

variable {cursor : Cursor} {text tail : List Char} {kind : TokenKind}

/-! ## Passing over characters -/

theorem advance_advance (cursor : Cursor) (first second : Nat) :
    (cursor.advance first).advance second = cursor.advance (first + second) := by
  simp only [advance, List.drop_drop, List.take_add, Position.after_append, List.foldl_append]

/-- A character that separates tokens and is none. -/
def passes (cursor : Cursor) (character : Char) : Prop :=
  isSpacing character = true ∨ character = '\n' ∧ cursor.mode.isDirective = false

/-- Behind a character that is passed over, a cursor finds what it finds in front of it. -/
theorem next_advance_one {first : Char} {rest : List Char} (hrest : cursor.rest = first :: rest)
    (hpass : cursor.passes first) :
    cursor.next.token = (cursor.advance 1).next.token ∧
      cursor.next.problems = (cursor.advance 1).next.problems ∧
      cursor.next.cursor = (cursor.advance 1).next.cursor := by
  have hpiece := piece?_of_rest hrest
  rcases hpass with hspacing | ⟨rfl, hline⟩
  · have hread : Lexeme.read cursor.mode first rest =
        ⟨.trivia .spacing, (rest.takeWhile isSpacing).length, []⟩ := if_pos hspacing
    have hrest' : (cursor.advance 1).rest = rest := by simp [advance, hrest]
    simp only [hread, Lexeme.width, modeAfter] at hpiece
    rw [next_of_passed hpiece rfl]
    cases rest with
    | nil => exact ⟨rfl, by simp [Scan.problems, Piece.problems], rfl⟩
    | cons second rest =>
        by_cases hsecond : isSpacing second = true
        · -- Both cursors pass over the same run of spacing.
          have hread' : Lexeme.read (cursor.advance 1).mode second rest =
              ⟨.trivia .spacing, (rest.takeWhile isSpacing).length, []⟩ := if_pos hsecond
          have hpiece' := piece?_of_rest hrest'
          simp only [hread', Lexeme.width, modeAfter, advance_advance] at hpiece'
          rw [next_of_passed hpiece' rfl]
          rw [List.takeWhile_cons, if_pos hsecond, List.length_cons,
            Nat.add_comm ((rest.takeWhile isSpacing).length + 1)]
          exact ⟨rfl, by simp [Scan.problems, Piece.problems], rfl⟩
        · rw [List.takeWhile_cons, if_neg hsecond]
          exact ⟨rfl, by simp [Scan.problems, Piece.problems], rfl⟩
  · have hread : Lexeme.read cursor.mode '\n' rest = ⟨.trivia .newline, 0, []⟩ := by
      rw [Lexeme.read, if_neg (by decide), if_pos rfl, hline, if_neg Bool.false_ne_true]
    simp only [hread, Lexeme.width, modeAfter] at hpiece
    rw [next_of_passed hpiece rfl]
    exact ⟨rfl, by simp [Scan.problems, Piece.problems], rfl⟩

theorem next_advance {pad : List Char} (hrest : cursor.rest = pad ++ text)
    (hpass : ∀ character ∈ pad, cursor.passes character) :
    cursor.next.token = (cursor.advance pad.length).next.token ∧
      cursor.next.problems = (cursor.advance pad.length).next.problems ∧
      cursor.next.cursor = (cursor.advance pad.length).next.cursor := by
  induction pad generalizing cursor with
  | nil => exact ⟨rfl, rfl, rfl⟩
  | cons first pad ih =>
      rw [List.forall_mem_cons] at hpass
      have hbehind : (cursor.advance 1).rest = pad ++ text := by
        rw [advance, hrest]
        rfl
      obtain ⟨htoken, hproblems, hcursor⟩ := next_advance_one hrest hpass.1
      obtain ⟨htoken', hproblems', hcursor'⟩ := ih hbehind hpass.2
      rw [advance_advance, Nat.add_comm] at htoken' hproblems' hcursor'
      exact ⟨htoken.trans htoken', hproblems.trans hproblems', hcursor.trans hcursor'⟩

/-! ## What a cursor faces -/

/-- A text is what follows, but for characters that are passed over. -/
def Faces (cursor : Cursor) (text : List Char) : Prop :=
  ∃ pad, cursor.rest = pad ++ text ∧ ∀ character ∈ pad, cursor.passes character

/-- A text begins behind nothing but blank characters of a line that is not that of a directive
yet. -/
structure AtLine (cursor : Cursor) (text : List Char) : Prop where
  line : cursor.mode.isDirective = false
  faces : ∃ pad, cursor.rest = pad ++ text ∧ (∀ character ∈ pad, cursor.passes character) ∧
    pad.foldl startAfter cursor.mode.atStart = true

theorem faces_of_rest (h : cursor.rest = text) : cursor.Faces text :=
  ⟨[], h, nofun⟩

theorem faces_of_space (h : cursor.rest = ' ' :: text) : cursor.Faces text :=
  ⟨[' '], h, by simp [passes, isSpacing]⟩

theorem AtLine.toFaces (h : cursor.AtLine text) : cursor.Faces text := by
  obtain ⟨-, pad, hrest, hpass, -⟩ := h
  exact ⟨pad, hrest, hpass⟩

/-- Indentation changes nothing. -/
theorem AtLine.indent {pad : List Char} (h : cursor.AtLine (pad ++ text))
    (hpad : ∀ character ∈ pad, character = ' ') : cursor.AtLine text := by
  obtain ⟨hline, before, hrest, hpass, hstart⟩ := h
  refine ⟨hline, before ++ pad, by rw [hrest, List.append_assoc], ?_, ?_⟩
  · intro character hmem
    rcases List.mem_append.mp hmem with hbefore | hpadding
    · exact hpass character hbefore
    · rw [hpad character hpadding]
      exact .inl rfl
  · rw [List.foldl_append, hstart]
    clear hrest
    induction pad with
    | nil => rfl
    | cons first pad ih =>
        rw [List.forall_mem_cons] at hpad
        rw [List.foldl_cons, hpad.1]
        exact ih hpad.2

/-- A line feed that ends no directive line begins a line. -/
theorem atLine_of_newline (hline : cursor.mode.isDirective = false)
    (hrest : cursor.rest = '\n' :: text) : cursor.AtLine text where
  line := hline
  faces := ⟨['\n'], hrest, by simp [passes, hline], rfl⟩

/-! ## The next token -/

/-- The next token has a kind, and a text follows it. -/
structure Finds (cursor : Cursor) (kind : TokenKind) (rest : List Char) : Prop where
  shows : ∃ span, cursor.Shows ⟨kind, span⟩
  rest : cursor.next.cursor.rest = rest
  line : cursor.next.cursor.mode.isDirective =
    (cursor.mode.isDirective || kind.startsDirectiveLine)

/-- What is spelt behind some characters that are passed over is the next token. -/
theorem finds_of_spells {pad : List Char} (hrest : cursor.rest = pad ++ (text ++ tail))
    (hpass : ∀ character ∈ pad, cursor.passes character)
    (hspells : Spells ⟨pad.foldl startAfter cursor.mode.atStart, cursor.mode.isDirective⟩
      kind text tail) (hkind : kind ≠ .endOfLine) : cursor.Finds kind tail := by
  obtain ⟨htoken, hproblems, hcursor⟩ := next_advance hrest hpass
  obtain ⟨first, rest, rfl, hread⟩ := hspells
  generalize hthere : cursor.advance pad.length = there at htoken hproblems hcursor
  have hmode : there.mode = ⟨pad.foldl startAfter cursor.mode.atStart, cursor.mode.isDirective⟩ := by
    rw [← hthere, advance, hrest, List.take_left]
  have hbehind : there.rest = first :: (rest ++ tail) := by
    rw [← hthere, advance, hrest, List.drop_left]
    rfl
  -- Behind these characters the mode is the one that the text is spelt in.
  have hpiece := piece?_of_rest hbehind
  rw [hmode] at hpiece
  simp only [hread, Lexeme.ofToken] at hpiece
  have hnext := next_of_token hpiece rfl
  have hscanned : kind.isScanned = true :=
    Lexeme.isScanned_of_read (congrArg Lexeme.kind hread)
  have hend : kind ≠ .endOfFile := by
    rintro rfl
    cases hscanned
  have hshown : cursor.next.token.kind = kind := by rw [htoken, hnext]
  refine ⟨⟨cursor.next.token.span, ?_, ?_, hend⟩, ?_, ?_⟩
  · rw [← hshown]
  · rw [hproblems, hnext]
    simp [Scan.problems, Piece.problems]
  · rw [hcursor, hnext]
    simp [advance, hbehind, Lexeme.width]
  · rw [isDirective_next (by rw [hshown]; exact hend) (by rw [hshown]; exact hkind), hshown]

theorem Faces.finds (h : cursor.Faces (text ++ tail)) (hspells : ∀ mode, Spells mode kind text tail)
    (hkind : kind ≠ .endOfLine) : cursor.Finds kind tail := by
  obtain ⟨pad, hrest, hpass⟩ := h
  exact finds_of_spells hrest hpass (hspells _) hkind

theorem AtLine.finds (h : cursor.AtLine (text ++ tail))
    (hspells : ∀ mode : LineMode, mode.atStart = true → mode.isDirective = false →
      Spells mode kind text tail)
    (hkind : kind ≠ .endOfLine) : cursor.Finds kind tail := by
  obtain ⟨hline, pad, hrest, hpass, hstart⟩ := h
  exact finds_of_spells hrest hpass (hspells _ hstart hline) hkind

/-- A line feed ends the line of a directive. -/
theorem endOfLine_of_rest (hline : cursor.mode.isDirective = true)
    (hrest : cursor.rest = '\n' :: text) :
    ∃ span, cursor.Shows ⟨.endOfLine, span⟩ ∧ cursor.next.cursor.AtLine text := by
  have hread : Lexeme.read cursor.mode '\n' text = .ofToken .endOfLine := by
    rw [Lexeme.read, if_neg (by decide), if_pos rfl, hline, if_pos rfl]
  have hpiece := piece?_of_rest hrest
  simp only [hread, Lexeme.ofToken] at hpiece
  have hnext := next_of_token hpiece rfl
  refine ⟨_, ⟨by rw [hnext], ?_, by simp⟩, ?_, ⟨[], ?_, by simp, ?_⟩⟩
  · rw [hnext]
    simp [Scan.problems, Piece.problems]
  · rw [hnext]
    rfl
  · rw [hnext]
    simp [advance, hrest, Lexeme.width]
  · rw [hnext]
    simp [advance, hrest, Lexeme.width, modeAfter, startAfter]

/-! ## Raw text -/

/-- Behind a space, the rest of a line is read as it was written. -/
theorem rawLine_of_rest {value : String} (h : IsRestOfLine value)
    (hrest : cursor.rest = ' ' :: (value.toList ++ '\n' :: tail)) :
    cursor.rawLine.text = value ∧ cursor.rawLine.cursor.rest = '\n' :: tail ∧
      cursor.rawLine.cursor.mode.isDirective = cursor.mode.isDirective := by
  have hfirst : ∀ character ∈ (value.toList ++ '\n' :: tail).head?,
      isSpacing character = false := by
    intro character hmem
    cases hvalue : value.toList with
    | nil =>
        rw [hvalue, List.nil_append] at hmem
        cases hmem
        rfl
    | cons first rest =>
        rw [hvalue] at hmem
        exact h.first character (by rw [hvalue]; exact hmem)
  have hspacing : cursor.spacing = [' '] := by
    have htake : ([' '] ++ (value.toList ++ '\n' :: tail)).takeWhile isSpacing = [' '] :=
      (takeWhile_append_stop (by simp [isSpacing]) hfirst).1
    rw [spacing, hrest]
    exact htake
  have hstart : (cursor.advance 1).rest = value.toList ++ '\n' :: tail := by
    rw [advance, hrest]
    rfl
  have htext : Text.trimEnd (Text.line (cursor.advance 1).rest) = value.toList := by
    rw [hstart, Lexeme.line_append h.line, Lexeme.trimEnd_of_last h.last]
  unfold rawLine
  rw [hspacing]
  simp only [List.length_singleton, htext, String.ofList_toList, true_and]
  refine ⟨?_, rfl⟩
  rw [advance, hstart]
  exact List.drop_left

end Cursor

end ConfLang
