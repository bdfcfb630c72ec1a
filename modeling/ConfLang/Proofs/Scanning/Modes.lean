import ConfLang.Proofs.Relocation.Lexeme
import ConfLang.Proofs.Scanning.Pieces
import Mathlib.Data.List.TakeWhile

/-!
# The mode of a line

A cursor knows whether anything stands in front of it on its line, and whether that line is the
line of a directive.  Both follow from the text of the line (`Cursor.KnowsLine`): the mode
remembers nothing of the lines in front of it.
-/

namespace ConfLang

/-- Whether the first text on a line that is not blank is the word of a directive. -/
def Text.isDirectiveLine (line : List Char) : Bool :=
  match line.dropWhile isBlank with
  | '%' :: behind => (TokenKind.ofDirective? (String.ofList (behind.takeWhile isWordPart))).isSome
  | _ => false

/-- Whether the last line of a text is the line of a directive. -/
def Text.endsInDirective (characters : List Char) : Bool :=
  isDirectiveLine (Position.lastLine characters)

/-! ## Texts inside of a line -/

namespace Text

variable {before text rest : List Char}

theorem not_mem_line (rest : List Char) : '\n' ∉ line rest := fun hmem => by
  simpa using List.mem_takeWhile_imp hmem

/-- A text ends at the end of its line, or a line feed follows there. -/
theorem line_or_lineFeed (rest : List Char) :
    line rest = rest ∨ ∃ tail, rest = line rest ++ '\n' :: tail := by
  cases hbehind : rest.dropWhile (· != '\n') with
  | nil =>
      left
      exact List.takeWhile_eq_self_iff.mpr (List.dropWhile_eq_nil_iff.mp hbehind)
  | cons character tail =>
      right
      have hfeed : character = '\n' := by
        have hhead := List.head?_dropWhile_not (· != '\n') rest
        simpa [hbehind] using hhead
      refine ⟨tail, ?_⟩
      rw [← hfeed, ← hbehind, line, List.takeWhile_append_dropWhile]

theorem line_append (h : '\n' ∉ text) : line (text ++ rest) = text ++ line rest := by
  rw [line, List.takeWhile_append_of_pos]
  · rfl
  · exact fun character hmem => bne_iff_ne.mpr fun heq => h (heq ▸ hmem)

theorem lastLine_append (h : '\n' ∉ text) :
    Position.lastLine (before ++ text) = Position.lastLine before ++ text := by
  rw [Position.lastLine, Position.lastLine, List.reverse_append, List.takeWhile_append_of_pos,
    List.reverse_append, List.reverse_reverse]
  intro character hmem
  exact bne_iff_ne.mpr fun heq => h (heq ▸ List.mem_reverse.mp hmem)

theorem lastLine_lineFeed : Position.lastLine (before ++ ['\n']) = [] := by
  simp [Position.lastLine]

theorem isDirectiveLine_of_blank (h : text.all isBlank = true) : isDirectiveLine text = false := by
  have hnone : text.dropWhile isBlank = [] := List.dropWhile_eq_nil_iff.mpr (List.all_eq_true.mp h)
  rw [isDirectiveLine, hnone]

theorem isDirectiveLine_of_ne {first : Char} (hblank : isBlank first = false) (h : first ≠ '%') :
    isDirectiveLine (first :: rest) = false := by
  rw [isDirectiveLine, List.dropWhile_cons_of_neg (by simp [hblank])]
  split
  · rename_i hfirst
    exact absurd (List.cons.inj hfirst).1 h
  · rfl

theorem isDirectiveLine_append (h : before.all isBlank = true) :
    isDirectiveLine (before ++ text) = isDirectiveLine text := by
  rw [isDirectiveLine, isDirectiveLine, List.dropWhile_append_of_pos (List.all_eq_true.mp h)]

end Text

/-! ## Lexemes and lines -/

namespace Lexeme

variable {mode : LineMode} {first : Char} {rest : List Char}

theorem further_read_le_line (mode : LineMode) (first : Char) (rest : List Char) :
    (read mode first rest).further ≤ (Text.line rest).length := by
  rcases Text.line_or_lineFeed rest with hline | ⟨tail, hline⟩
  · rw [hline]
    exact further_read_le mode first rest
  · calc (read mode first rest).further
        = (read mode first (Text.line rest)).further := by
          conv_lhs => rw [hline, read_line]
      _ ≤ (Text.line rest).length := further_read_le mode first _

/-- The text of a lexeme has no line feed but one that it begins with. -/
theorem not_mem_take_further (mode : LineMode) (first : Char) (rest : List Char) :
    '\n' ∉ rest.take (read mode first rest).further := by
  have hpart : rest.take (read mode first rest).further <+: Text.line rest :=
    List.prefix_of_prefix_length_le (List.take_prefix _ _) (List.takeWhile_prefix _)
      ((List.length_take_le _ _).trans (further_read_le_line mode first rest))
  exact fun hmem => Text.not_mem_line rest (hpart.subset hmem)

/-- No lexeme begins with a blank character but white space and the end of a line. -/
theorem read_of_isBlank (hblank : Text.isBlank first = true) (hspacing : ¬Text.isSpacing first)
    (hfeed : first ≠ '\n') : read mode first rest = reject (.unexpectedCharacter first) := by
  have hne {other : Char} (hother : Text.isBlank other = false) : first ≠ other :=
    Text.ne_of_isBlank hblank hother
  have hquote : Quote.ofDelimiter? first = none := by
    rw [Quote.ofDelimiter?, if_neg (hne (by decide)), if_neg (hne (by decide))]
  have hpart : ¬Text.isWordPart first := by
    rw [Text.isWordPart_of_isBlank hblank]
    exact Bool.false_ne_true
  have hdigit : ¬first.isDigit := by
    rw [Text.isDigit_of_isBlank hblank]
    exact Bool.false_ne_true
  have hstart : ¬Text.isWordStart first := fun hstart => hpart (by
    simp only [Text.isWordStart, Bool.or_eq_true] at hstart
    rcases hstart with hstart | hstart <;> simp [Text.isWordPart, Char.isAlphanum, hstart])
  rw [read, if_neg hspacing, if_neg hfeed, if_neg (hne (by decide)), readToken, hquote]
  simp only
  rw [if_neg hdigit, if_neg hstart, if_neg (hne (by decide))]
  have hsymbol : symbol? first = none := by
    unfold symbol?
    split <;> first | exact absurd hblank (by decide) | rfl
  unfold readSymbol
  split <;> first | exact absurd hblank (by decide) | rw [hsymbol]

/-- A lexeme that begins with a blank character is blank. -/
theorem all_isBlank_read (hblank : Text.isBlank first = true) (hfeed : first ≠ '\n') :
    (first :: rest.take (read mode first rest).further).all Text.isBlank = true := by
  rw [List.all_cons, hblank, Bool.true_and]
  by_cases hspacing : Text.isSpacing first
  · rw [read, if_pos hspacing, ← List.prefix_iff_eq_take.mp (List.takeWhile_prefix _)]
    exact List.all_eq_true.mpr fun character hmem =>
      Text.isBlank_of_isSpacing (List.mem_takeWhile_imp hmem)
  · rw [read_of_isBlank hblank hspacing hfeed]
    rfl

/-- A lexeme that begins neither with a percent sign nor with a line feed leaves it open whether
the line is that of a directive. -/
theorem isDirective_read_of_ne (hpercent : first ≠ '%') (hfeed : first ≠ '\n') (mode' : LineMode) :
    (Cursor.modeAfter mode' (read mode first rest).kind).isDirective = mode'.isDirective := by
  have hkind {kind : TokenKind} (hstarts : kind.startsDirectiveLine = false)
      (hend : kind ≠ .endOfLine) :
      (Cursor.modeAfter mode' (.token kind)).isDirective = mode'.isDirective := by
    cases kind <;> simp_all [Cursor.modeAfter]
  apply read_cases (P := fun lexeme =>
    (Cursor.modeAfter mode' lexeme.kind).isDirective = mode'.isDirective)
  case spacing | comment => exact fun _ => rfl
  case lineFeed => exact fun h => absurd h hfeed
  case percent => exact fun h => absurd h hpercent
  case quoted =>
    intro quote _
    cases quote <;> exact hkind rfl nofun
  case number =>
    intro _
    rcases kind_readNumber first rest with ⟨_, hnumber⟩ | ⟨_, hnumber⟩ <;>
      (rw [hnumber]; exact hkind rfl nofun)
  case word =>
    intro _
    rcases readWord_cases first rest with ⟨_, _, hword⟩ | ⟨_, _, hword⟩ <;>
      (rw [hword]; exact hkind rfl nofun)
  case symbol =>
    rcases readSymbol_cases first rest with ⟨_, _, hsign⟩ | ⟨_, hlone⟩ | ⟨_, hother⟩
    · rw [hsign]
      exact hkind rfl nofun
    · rw [hlone]
      rfl
    · rw [hother]
      rfl

/-- Only the word of a directive at the beginning of a line makes a line that of a directive. -/
theorem isDirective_read_percent (mode' : LineMode) :
    (Cursor.modeAfter mode' (read mode '%' rest).kind).isDirective =
      (mode'.isDirective || (mode.atStart && !mode.isDirective &&
        Text.isDirectiveLine ('%' :: Text.line rest))) := by
  have hletters : (Text.line rest).takeWhile Text.isWordPart = rest.takeWhile Text.isWordPart := by
    rcases Text.line_or_lineFeed rest with hline | ⟨tail, hline⟩
    · rw [hline]
    · conv_rhs => rw [hline, letters_line _ rfl]
  have hline : Text.isDirectiveLine ('%' :: Text.line rest) =
      (TokenKind.ofDirective? (String.ofList (rest.takeWhile Text.isWordPart))).isSome := by
    rw [← hletters]
    rfl
  rw [read_percent, hline]
  split
  · rename_i hstart
    rw [hstart, Bool.true_and]
    unfold readDirective
    simp only
    split
    · rename_i kind hword
      have hstarts := startsDirectiveLine_of_ofDirective? hword
      rw [hword]
      cases kind <;> first | rfl | cases hstarts
    · rename_i hword
      rw [hword]
      simp [ofToken, Cursor.modeAfter, TokenKind.startsDirectiveLine]
  · rename_i hstart
    rw [Bool.not_eq_true] at hstart
    rw [hstart, Bool.false_and, Bool.or_false]
    rfl

/-- What a lexeme says about its line. -/
theorem isDirective_read (hfeed : first ≠ '\n') (mode' : LineMode) :
    (Cursor.modeAfter mode' (read mode first rest).kind).isDirective =
      (mode'.isDirective || (mode.atStart && !mode.isDirective &&
        (first == '%' && Text.isDirectiveLine (first :: Text.line rest)))) := by
  by_cases hpercent : first = '%'
  · rw [hpercent, beq_self_eq_true, Bool.true_and]
    exact isDirective_read_percent mode'
  · rw [isDirective_read_of_ne hpercent hfeed, beq_false_of_ne hpercent]
    simp

end Lexeme

/-! ## Cursors -/

namespace Cursor

variable {source before : List Char} {cursor after : Cursor} {piece : Piece}

/-- The mode of a cursor behind a text is what the text of the line says. -/
structure KnowsLine (before : List Char) (cursor : Cursor) : Prop where
  atStart : cursor.mode.atStart = (Position.lastLine before).all Text.isBlank
  isDirective : cursor.mode.isDirective = (!cursor.mode.atStart &&
    Text.isDirectiveLine (Position.lastLine before ++ Text.line cursor.rest))

theorem KnowsLine.ofSource (source : String) : (Cursor.ofSource source).KnowsLine [] :=
  ⟨rfl, rfl⟩

theorem foldl_startAfter {text : List Char} (h : '\n' ∉ text) (atStart : Bool) :
    text.foldl startAfter atStart = (atStart && text.all Text.isBlank) := by
  induction text generalizing atStart with
  | nil => simp
  | cons character rest ih =>
      rw [List.mem_cons, not_or] at h
      have hfeed : (character == '\n') = false := beq_false_of_ne (Ne.symm h.1)
      rw [List.foldl_cons, ih h.2, startAfter, hfeed, Bool.false_or, List.all_cons, Bool.and_assoc]

theorem atStart_modeAfter (mode : LineMode) (kind : LexemeKind) :
    (modeAfter mode kind).atStart = mode.atStart := by
  unfold modeAfter
  split <;> rfl

/-- Behind a line feed a line begins, whatever the last one was. -/
theorem KnowsLine.lineFeed {tail : List Char} (hrest : cursor.rest = '\n' :: tail)
    (hpiece : cursor.piece? = some (piece, after)) :
    after.rest = tail ∧ after.KnowsLine (before ++ ['\n']) := by
  rw [piece?_lineFeed hrest, Option.some.injEq, Prod.mk.injEq] at hpiece
  obtain ⟨-, rfl⟩ := hpiece
  refine ⟨rfl, ?_, rfl⟩
  rw [Text.lastLine_lineFeed]
  rfl

/-- What is known of a line in front of a lexeme that begins with `first` is known behind it: where
the line is blank up to there, the lexeme decides. -/
theorem isDirective_behind {line rest text : List Char} {first : Char} {atStart isDirective : Bool}
    (hstart : atStart = line.all Text.isBlank)
    (hdirective : isDirective = (!atStart && Text.isDirectiveLine (line ++ first :: rest)))
    (htext : Text.isBlank first = true → (first :: text).all Text.isBlank = true) :
    (isDirective || (atStart && !isDirective &&
        (first == '%' && Text.isDirectiveLine (first :: rest)))) =
      (!(atStart && (first :: text).all Text.isBlank) &&
        Text.isDirectiveLine (line ++ first :: rest)) := by
  cases atStart with
  | false => simpa using hdirective
  | true =>
      obtain rfl : isDirective = false := hdirective
      rw [Text.isDirectiveLine_append hstart.symm]
      cases hblank : Text.isBlank first with
      | true =>
          have hpercent : first ≠ '%' := by
            rintro rfl
            exact absurd hblank (by decide)
          rw [htext hblank, beq_false_of_ne hpercent]
          rfl
      | false =>
          rw [List.all_cons, hblank]
          by_cases hpercent : first = '%'
          · simp [hpercent]
          · rw [Text.isDirectiveLine_of_ne hblank hpercent]
            simp

/-- A piece leads from one place to another where the mode is again what the line says. -/
theorem KnowsLine.piece? (h : cursor.KnowsLine before)
    (hpiece : cursor.piece? = some (piece, after)) :
    ∃ text, cursor.rest = text ++ after.rest ∧ after.KnowsLine (before ++ text) := by
  obtain ⟨first, rest, hrest, -⟩ := eq_of_piece? hpiece
  by_cases hfeed : first = '\n'
  · obtain ⟨hafter, hknows⟩ := KnowsLine.lineFeed (hfeed ▸ hrest) hpiece
    exact ⟨['\n'], by rw [hrest, hfeed, hafter]; rfl, hknows⟩
  obtain ⟨characters, position, atStart, isDirective⟩ := cursor
  obtain rfl : characters = first :: rest := hrest
  obtain ⟨hstart, hdirective⟩ := h
  rw [piece?_of_rest rfl, Option.some.injEq, Prod.mk.injEq] at hpiece
  obtain ⟨-, rfl⟩ := hpiece
  set lexeme := Lexeme.read ⟨atStart, isDirective⟩ first rest with hlexeme
  have htext : '\n' ∉ first :: rest.take lexeme.further := by
    rw [List.mem_cons, not_or]
    exact ⟨Ne.symm hfeed, Lexeme.not_mem_take_further _ _ _⟩
  have hmode : (modeAfter ⟨(first :: rest.take lexeme.further).foldl startAfter atStart, isDirective⟩
      lexeme.kind).isDirective = (isDirective || (atStart && !isDirective &&
        (first == '%' && Text.isDirectiveLine (first :: Text.line rest)))) :=
    Lexeme.isDirective_read hfeed _
  have hfirst : '\n' ∉ [first] := fun hmem => hfeed (List.mem_singleton.mp hmem).symm
  have hline : Text.line (first :: rest) = first :: Text.line rest := Text.line_append hfirst
  refine ⟨first :: rest.take lexeme.further, by simp [Cursor.advance, Lexeme.width], ?_, ?_⟩
  · simp only [atStart_modeAfter]
    simp only [Cursor.advance, Lexeme.width, List.take_succ_cons]
    rw [foldl_startAfter htext, Text.lastLine_append htext, List.all_append, ← hstart]
  · simp only [atStart_modeAfter]
    simp only [Cursor.advance, Lexeme.width, List.take_succ_cons, List.drop_succ_cons]
    rw [hmode, Text.lastLine_append htext, List.append_assoc, ← Text.line_append htext,
      List.cons_append, List.take_append_drop, foldl_startAfter htext, hline]
    rw [hline] at hdirective
    exact isDirective_behind hstart hdirective fun hblank => Lexeme.all_isBlank_read hblank hfeed

end Cursor

end ConfLang
