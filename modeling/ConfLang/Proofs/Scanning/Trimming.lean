import ConfLang.Proofs.Lookahead.RawText
import ConfLang.Proofs.Scanning.Lexemes
import ConfLang.Proofs.Scanning.Rows

/-!
# What raw text leaves on its line

Raw text is cut off at the end of its line by one notion of white space, `Text.isBlank`, and what is
left there is read by another one, `Text.isSpacing`.  The two do not agree: a blank character that
separates no tokens, such as a no-break space, is cut off and then reported as a character that
nobody expects, once each.  Everything else that is left is spacing and nothing is said about it
(`behind_raw_text`).  In the same way raw text never ends in a blank character but begins with one
if such a character comes first behind the spacing.

## Strategy

The characters that are left are a row of pieces without a token (`Cursor.exists_blank_row`).  Asked
for a token a scanner passes the whole row, and asked for raw text it passes at most the spacing that
the row begins with and finds nothing (`Scanner.restOfLine_of_blank`).  So once the scanner has come
to the end of the line, it has passed just that row (`Scanner.answers_of_blank`).
-/

namespace ConfLang

open Text

/-! ## The end of a line -/

namespace Text

variable {characters blanks tail : List Char}

theorem line_append_tail (hfeed : '\n' ∉ blanks)
    (htail : ∀ character ∈ tail.head?, character = '\n') : line (blanks ++ tail) = blanks := by
  have hnone : line tail = [] := by
    cases tail with
    | nil => rfl
    | cons first rest => simp [line, htail first rfl]
  rw [line_append hfeed, hnone, List.append_nil]

/-- A text goes on behind its line with a line feed, if at all. -/
theorem exists_tail (characters : List Char) : ∃ tail, characters = line characters ++ tail ∧
    ∀ character ∈ tail.head?, character = '\n' := by
  rcases line_or_lineFeed characters with hline | ⟨tail, hline⟩
  · exact ⟨[], by rw [hline, List.append_nil], nofun⟩
  · exact ⟨'\n' :: tail, hline, fun character hmem => (Option.some.inj hmem).symm⟩

theorem trimEnd_eq_nil_iff :
    trimEnd characters = [] ↔ ∀ character ∈ characters, isBlank character = true := by
  rw [trimEnd, List.reverse_eq_nil_iff, List.dropWhile_eq_nil_iff]
  simp

/-- Behind the line of a text without its blank end, the line is blank. -/
theorem blank_behind_trimEnd (characters : List Char) :
    ∀ character ∈ line (characters.drop (trimEnd (line characters)).length),
      isBlank character = true := by
  obtain ⟨blanks, hline, hblank⟩ := trimEnd_append_blanks (line characters)
  obtain ⟨tail, hwhole, htail⟩ := exists_tail characters
  have hfeed : '\n' ∉ blanks := fun hmem =>
    not_mem_line characters (hline ▸ List.mem_append_right _ hmem)
  have hsplit : characters = trimEnd (line characters) ++ (blanks ++ tail) := by
    rw [← List.append_assoc, ← hline]
    exact hwhole
  have hdrop : characters.drop (trimEnd (line characters)).length = blanks ++ tail :=
    (congrArg (List.drop _) hsplit).trans List.drop_left
  rwa [hdrop, line_append_tail hfeed htail]

/-- A text without its blank end begins like the text, unless all of it is blank. -/
theorem head?_trimEnd (characters : List Char) (h : ∃ character ∈ characters, isBlank character = false) :
    (trimEnd characters).head? = characters.head? := by
  obtain ⟨blanks, hwhole, -⟩ := trimEnd_append_blanks characters
  have hne : trimEnd characters ≠ [] := by
    rw [Ne, trimEnd_eq_nil_iff]
    intro hblank
    obtain ⟨character, hmem, hnot⟩ := h
    rw [hblank character hmem] at hnot
    cases hnot
  conv_rhs => rw [hwhole, List.head?_append_of_ne_nil _ hne]

/-- The line of a text without the spacing in front of it. -/
theorem line_dropWhile_isSpacing (characters : List Char) :
    line (characters.dropWhile isSpacing) = (line characters).dropWhile isSpacing := by
  obtain ⟨tail, hwhole, htail⟩ := exists_tail characters
  have hfeed : '\n' ∉ (line characters).dropWhile isSpacing := fun hmem =>
    not_mem_line characters ((List.dropWhile_suffix isSpacing).subset hmem)
  have hdrop : characters.dropWhile isSpacing = (line characters).dropWhile isSpacing ++ tail := by
    conv_lhs => rw [hwhole]
    cases tail with
    | nil => simp
    | cons first rest =>
        obtain rfl : first = '\n' := htail first rfl
        exact dropWhile_line rest (by decide)
  rw [hdrop, line_append_tail hfeed htail]

end Text

/-! ## The line behind raw text -/

/-- The tokens that are texts cut out of a line. -/
def TokenKind.isRaw : TokenKind → Bool
  | .passage _ | .restOfLine _ => true
  | _ => false

/-- A passage goes up to the blank end of its line. -/
theorem Lexeme.blank_behind_passage {mode : LineMode} {first : Char} {rest : List Char} {text : String}
    (h : (read mode first rest).kind = .token (.passage text)) :
    ∀ character ∈ line (rest.drop (read mode first rest).further), isBlank character = true := by
  revert h
  refine read_cases (P := fun lexeme => lexeme.kind = .token (.passage text) →
      ∀ character ∈ line (rest.drop lexeme.further), isBlank character = true)
    ?spacing ?lineFeed ?comment ?quoted ?number ?word ?percent ?symbol
  case spacing | comment =>
    intro _ h
    cases h
  case lineFeed =>
    intro _ h
    split at h <;> cases h
  case quoted =>
    intro quote _ h
    cases quote <;> cases h
  case number =>
    intro _ h
    cases isSimple_readNumber h
  case word =>
    intro _ h
    cases isSimple_readWord h
  case percent =>
    intro _
    split
    · intro h
      unfold readDirective at h ⊢
      simp only at h ⊢
      split at h
      · rename_i hword
        have hstarts := startsDirectiveLine_of_ofDirective? hword
        simp only [ofToken, LexemeKind.token.injEq] at h
        rw [h] at hstarts
        cases hstarts
      · simp only [ofToken, List.length_append, ← List.drop_drop]
        exact blank_behind_trimEnd _
    · intro h
      cases h
  case symbol =>
    intro h
    cases isSimple_readSymbol h

namespace Cursor

variable {source before blanks tail : List Char} {cursor last : Cursor} {pieces : List Piece}

theorem blank_behind_next (h : cursor.next.token.kind.isRaw = true) :
    ∀ character ∈ line cursor.next.cursor.rest, isBlank character = true := by
  revert h
  fun_induction Cursor.next cursor with
  | case1 =>
      intro h
      cases h
  | case2 cursor piece after hpiece token htoken =>
      intro h
      unfold piece? at hpiece
      split at hpiece
      · cases hpiece
      rename_i first rest hrest
      simp only [Option.some.injEq, Prod.mk.injEq] at hpiece
      obtain ⟨rfl, rfl⟩ := hpiece
      have hread := kind_of_token? htoken
      simp only at hread
      have hscanned := Lexeme.isScanned_of_read hread
      cases hkind : token.kind with
      | passage text =>
          rw [hkind] at hread
          have hblank := Lexeme.blank_behind_passage hread
          simpa [advance, hrest, Lexeme.width] using hblank
      | restOfLine text =>
          rw [hkind] at hscanned
          cases hscanned
      | _ =>
          rw [hkind] at h
          cases h
  | case3 cursor piece after hpiece htoken scan ih => exact ih

theorem blank_behind_rawLine (cursor : Cursor) :
    ∀ character ∈ line cursor.rawLine.cursor.rest, isBlank character = true :=
  blank_behind_trimEnd _

theorem rest_start_rawLine (cursor : Cursor) :
    (cursor.advance cursor.spacing.length).rest = cursor.rest.dropWhile isSpacing := by
  rw [advance, spacing, drop_length_takeWhile]

/-- Raw text begins with a blank character if and only if something on the line is not blank, and a
blank character stands there first behind the spacing. -/
theorem first_rawLine (cursor : Cursor) :
    (∃ character ∈ cursor.rawLine.text.toList.head?, isBlank character = true) ↔
      (∃ character ∈ line cursor.rest, isBlank character = false) ∧
        ∃ character ∈ ((line cursor.rest).dropWhile isSpacing).head?, isBlank character = true := by
  have htext : cursor.rawLine.text.toList = trimEnd ((line cursor.rest).dropWhile isSpacing) := by
    rw [rawLine, String.toList_ofList, rest_start_rawLine, line_dropWhile_isSpacing]
  have hsome : (∃ character ∈ (line cursor.rest).dropWhile isSpacing, isBlank character = false) ↔
      ∃ character ∈ line cursor.rest, isBlank character = false := by
    constructor
    · rintro ⟨character, hmem, hblank⟩
      exact ⟨character, (List.dropWhile_suffix isSpacing).subset hmem, hblank⟩
    · rintro ⟨character, hmem, hblank⟩
      rw [← List.takeWhile_append_dropWhile (p := isSpacing) (l := line cursor.rest),
        List.mem_append] at hmem
      rcases hmem with hmem | hmem
      · rw [isBlank_of_isSpacing (List.mem_takeWhile_imp hmem)] at hblank
        cases hblank
      · exact ⟨character, hmem, hblank⟩
  rw [htext, ← hsome]
  by_cases h : ∃ character ∈ (line cursor.rest).dropWhile isSpacing, isBlank character = false
  · rw [head?_trimEnd _ h, and_iff_right h]
  · have hnone : trimEnd ((line cursor.rest).dropWhile isSpacing) = [] := by
      rw [trimEnd_eq_nil_iff]
      intro character hmem
      by_contra hblank
      exact h ⟨character, hmem, Bool.not_eq_true _ ▸ hblank⟩
    simp [hnone, h]

/-! ## Rows of blank characters -/

/-- In front of a blank character that is no line feed there is spacing, or that character alone and
nobody expects it. -/
theorem piece?_of_blank {first : Char} {rest : List Char} (hrest : cursor.rest = first :: rest)
    (hblank : isBlank first = true) (hfeed : first ≠ '\n') : ∃ piece after,
      cursor.piece? = some (piece, after) ∧ piece.token? = none ∧
      (isSpacing first = true → piece.kind = .trivia .spacing ∧ piece.problems = []) := by
  refine ⟨_, _, piece?_of_rest hrest, ?_⟩
  by_cases hspacing : isSpacing first = true
  · rw [Lexeme.read, if_pos hspacing]
    exact ⟨rfl, fun _ => ⟨rfl, rfl⟩⟩
  · rw [Lexeme.read_of_isBlank hblank hspacing hfeed]
    exact ⟨rfl, fun h => absurd h hspacing⟩

/-- The blank characters up to the end of a line are a row of pieces without a token, and about
spacing alone nothing is said. -/
theorem exists_blank_row (hrest : cursor.rest = blanks ++ tail) (hfeed : '\n' ∉ blanks)
    (hblank : ∀ character ∈ blanks, isBlank character = true)
    (htail : ∀ character ∈ tail.head?, character = '\n') :
    ∃ pieces last, cursor.Pieces pieces last ∧ last.rest = tail ∧
      (∀ piece ∈ pieces, piece.token? = none) ∧
      ((∀ character ∈ blanks, isSpacing character = true) →
        ∀ piece ∈ pieces, piece.problems = []) := by
  induction hlength : blanks.length using Nat.strong_induction_on generalizing cursor blanks with
  | h length ih =>
      cases blanks with
      | nil => exact ⟨[], cursor, .nil, hrest, nofun, fun _ => nofun⟩
      | cons first rest =>
          have hfirst : first ≠ '\n' := fun heq => hfeed (heq ▸ List.mem_cons_self)
          obtain ⟨piece, after, hpiece, htoken, hspacing⟩ :=
            piece?_of_blank hrest (hblank first List.mem_cons_self) hfirst
          set further := (Lexeme.read cursor.mode first (rest ++ tail)).further with hfurther
          have hle : further ≤ rest.length := by
            have hline := line_append_tail (fun hmem => hfeed (List.mem_cons_of_mem _ hmem)) htail
            exact hline ▸ Lexeme.further_read_le_line cursor.mode first (rest ++ tail)
          have hafter : after.rest = rest.drop further ++ tail := by
            rw [piece?_of_rest hrest] at hpiece
            obtain ⟨-, rfl⟩ := Prod.mk.inj (Option.some.inj hpiece)
            rw [← List.drop_append_of_le_length hle]
            simp [advance, hrest, Lexeme.width, ← hfurther]
          have hpart : rest.drop further ⊆ first :: rest :=
            fun _ hmem => List.mem_cons_of_mem _ (List.mem_of_mem_drop hmem)
          obtain ⟨pieces, last, hrow, hlast, htokens, hproblems⟩ :=
            ih _ (by rw [← hlength, List.length_drop, List.length_cons]; omega) hafter
              (fun hmem => hfeed (hpart hmem)) (fun character hmem => hblank _ (hpart hmem)) rfl
          refine ⟨piece :: pieces, last, .cons hpiece hrow, hlast,
            List.forall_mem_cons.mpr ⟨htoken, htokens⟩, fun hall => ?_⟩
          exact List.forall_mem_cons.mpr ⟨(hspacing (hall first List.mem_cons_self)).2,
            hproblems fun character hmem => hall _ (hpart hmem)⟩

/-- The spacing in front of raw text is the piece that would be found there. -/
theorem piece?_spacing (h : cursor.spacing ≠ []) : cursor.piece? =
    some (⟨.trivia .spacing, .between cursor.position
      (cursor.advance cursor.spacing.length).position, []⟩,
      cursor.advance cursor.spacing.length) := by
  cases hrest : cursor.rest with
  | nil => exact absurd (by rw [spacing, hrest]; rfl) h
  | cons first rest =>
      by_cases hfirst : isSpacing first = true
      · have hspacing : cursor.spacing = first :: rest.takeWhile isSpacing := by
          rw [spacing, hrest, List.takeWhile_cons_of_pos hfirst]
        rw [piece?_of_rest hrest, hspacing, Lexeme.read, if_pos hfirst]
        rfl
      · exact absurd (by rw [spacing, hrest, List.takeWhile_cons_of_neg hfirst]) h

end Cursor

/-! ## Scanners on a blank line -/

namespace Scanner

variable {source before blanks : List Char} {scanner : Scanner} {last : Cursor}
  {pieces : List Piece}

/-- A scanner that has gone on over some pieces. -/
def pass (scanner : Scanner) (pieces : List Piece) (cursor : Cursor) : Scanner :=
  ⟨cursor, scanner.trivia ++ pieces.filterMap Piece.trivia?,
    scanner.problems ++ pieces.flatMap Piece.problems⟩

theorem toList_trivia_pass (cursor : Cursor) : (scanner.pass pieces cursor).trivia.toList =
    scanner.trivia.toList ++ pieces.filterMap Piece.trivia? := by
  simp [pass]

theorem toList_problems_pass (cursor : Cursor) : (scanner.pass pieces cursor).problems.toList =
    scanner.problems.toList ++ pieces.flatMap Piece.problems := by
  simp [pass]

theorem eq_of_toList {first second : Scanner} (hcursor : first.cursor = second.cursor)
    (htrivia : first.trivia.toList = second.trivia.toList)
    (hproblems : first.problems.toList = second.problems.toList) : first = second := by
  obtain ⟨cursor, trivia, problems⟩ := first
  rw [mk.injEq]
  exact ⟨hcursor, Array.toList_inj.mp htrivia, Array.toList_inj.mp hproblems⟩

theorem pass_append (scanner : Scanner) (first second : List Piece) (middle cursor : Cursor) :
    (scanner.pass first middle).pass second cursor = scanner.pass (first ++ second) cursor :=
  eq_of_toList rfl (by simp [pass]) (by simp [pass])

theorem pass_nil (scanner : Scanner) : scanner.pass [] scanner.cursor = scanner :=
  eq_of_toList rfl (by simp [pass]) (by simp [pass])

/-- The next token is looked for behind the pieces that are no tokens. -/
theorem next_pass {cursor : Cursor} (h : cursor.Pieces pieces last)
    (htokens : ∀ piece ∈ pieces, piece.token? = none) (hcursor : scanner.cursor = cursor) :
    scanner.next = (scanner.pass pieces last).next := by
  induction h generalizing scanner with
  | nil =>
      subst hcursor
      rw [pass_nil]
  | @cons cursor middle last piece pieces hpiece _ ih =>
      obtain ⟨htoken, htokens⟩ := List.forall_mem_cons.mp htokens
      have hfound := Cursor.next_of_passed hpiece htoken
      have hstep : scanner.next = (scanner.pass [piece] middle).next := by
        rw [next, next, hcursor, hfound]
        refine Prod.ext rfl (eq_of_toList rfl ?_ ?_)
        · simp only [record, pass, Scan.trivia]
          cases htrivia : piece.trivia? <;> simp [htrivia]
        · simp [record, pass, Scan.problems]
      rw [hstep, ih htokens rfl, pass_append]
      rfl

/-- Raw text on a blank line is empty, and only the spacing in front of it is passed. -/
theorem restOfLine_of_blank (h : scanner.cursor.Pieces pieces last)
    (hrest : scanner.cursor.rest = blanks ++ last.rest) (hfeed : '\n' ∉ blanks)
    (hblank : ∀ character ∈ blanks, isBlank character = true)
    (htail : ∀ character ∈ last.rest.head?, character = '\n') :
    ∃ first rest place, pieces = first ++ rest ∧ scanner.cursor.Pieces first place ∧
      place.Pieces rest last ∧ scanner.restOfLine.2 = scanner.pass first place := by
  obtain ⟨cursor, trivia, problems⟩ := scanner
  simp only at h hrest
  have hline : line cursor.rest = blanks := by rw [hrest, line_append_tail hfeed htail]
  have hnone : trimEnd (line (cursor.advance cursor.spacing.length).rest) = [] := by
    rw [Cursor.rest_start_rawLine, line_dropWhile_isSpacing, hline, trimEnd_eq_nil_iff]
    exact fun character hmem => hblank _ ((List.dropWhile_suffix isSpacing).subset hmem)
  have hraw : cursor.rawLine.cursor = cursor.advance cursor.spacing.length := by
    rw [Cursor.rawLine, hnone]
    simp [Cursor.advance]
  by_cases hspacing : cursor.spacing = []
  · have hzero : cursor.advance 0 = cursor := rfl
    rw [hspacing, List.length_nil, hzero] at hraw
    refine ⟨[], pieces, cursor, rfl, .nil, h, eq_of_toList hraw ?_ ?_⟩ <;>
      simp [restOfLine, Cursor.restOfLine, Cursor.rawLine, record, pass, Scan.trivia, Scan.problems,
        hspacing]
  · have hpiece := Cursor.piece?_spacing hspacing
    cases h with
    | nil =>
        -- At the end of the line no spacing follows.
        obtain ⟨first, rest, hfirst⟩ := List.exists_cons_of_ne_nil hspacing
        have hmem : first ∈ last.spacing := hfirst ▸ List.mem_cons_self
        obtain ⟨behind, hbehind⟩ : first :: rest <+: last.rest :=
          hfirst ▸ List.takeWhile_prefix isSpacing
        rw [htail first (by rw [← hbehind]; rfl)] at hmem
        exact absurd (List.mem_takeWhile_imp hmem) (by decide)
    | @cons _ middle _ piece pieces hfound hrow =>
        obtain ⟨rfl, rfl⟩ := Prod.mk.inj (Option.some.inj (hfound.symm.trans hpiece))
        refine ⟨[_], pieces, _, rfl, .cons hfound .nil, hrow, eq_of_toList hraw ?_ ?_⟩ <;>
          simp [restOfLine, Cursor.restOfLine, Cursor.rawLine, record, pass, Scan.trivia,
            Scan.problems, hspacing, Piece.trivia?, Piece.problems]

/-- In front of the end of a line nothing is left of it. -/
theorem eq_nil_of_passed {behind : List Char} (hcursor : scanner.cursor.StandsBehind source before)
    (hlast : last.StandsBehind source behind) (hrest : scanner.cursor.rest = blanks ++ last.rest)
    (hpassed : Position.bytes behind ≤ scanner.cursor.position.offset) : blanks = [] := by
  obtain rfl : behind = before ++ blanks := by
    refine (hlast.unique ?_).symm
    rw [hcursor.source, hrest, List.append_assoc]
  cases blanks with
  | nil => rfl
  | cons first rest =>
      have hfirst : 0 < first.utf8Size := first.utf8Size_pos
      rw [hcursor.offset, Position.bytes_append, Position.bytes_cons] at hpassed
      omega

/-- A scanner on a blank line that has come to the end of the line, whatever it was asked for, has
passed the row of pieces up to there, and was asked for something from there on. -/
theorem answers_of_blank {behind : List Char} (h : scanner.cursor.Pieces pieces last)
    (htokens : ∀ piece ∈ pieces, piece.token? = none)
    (hcursor : scanner.cursor.StandsBehind source before) (hlast : last.StandsBehind source behind)
    (hrest : scanner.cursor.rest = blanks ++ last.rest) (hfeed : '\n' ∉ blanks)
    (hblank : ∀ character ∈ blanks, isBlank character = true)
    (htail : ∀ character ∈ last.rest.head?, character = '\n') (later : List Request)
    (hpassed : Position.bytes behind ≤ (scanner.answers later).2.cursor.position.offset) :
    ∃ requests, (scanner.answers later).2 = ((scanner.pass pieces last).answers requests).2 := by
  induction later generalizing scanner pieces before blanks with
  | nil =>
      obtain rfl := eq_nil_of_passed hcursor hlast hrest hpassed
      obtain rfl : pieces = [] := h.eq_nil_of_rest hrest
      cases h
      exact ⟨[], (pass_nil scanner).symm⟩
  | cons request rest ih =>
      cases request with
      | next =>
          refine ⟨.next :: rest, ?_⟩
          rw [answers, answers, answer, answer, next_pass h htokens rfl]
      | restOfLine =>
          -- The rest of a blank line is empty, and what was passed over in front of it is a part of
          -- the blanks.
          obtain ⟨first, behind, place, rfl, hfirst, hbehind, hplace⟩ :=
            restOfLine_of_blank h hrest hfeed hblank htail
          obtain ⟨middle, -, hmiddle, -⟩ := hfirst.shared hcursor
          obtain ⟨seen, hseen⟩ := hfirst.rest
          obtain ⟨unseen, hunseen⟩ := hbehind.rest
          obtain rfl : seen ++ unseen = blanks := by
            have hsame : seen ++ unseen ++ last.rest = blanks ++ last.rest := by
              rw [List.append_assoc, hunseen, hseen, hrest]
            exact List.append_cancel_right hsame
          have hsame : (scanner.answers (.restOfLine :: rest)).2 =
              ((scanner.pass first place).answers rest).2 := by
            rw [← hplace]
            rfl
          rw [hsame] at hpassed ⊢
          obtain ⟨requests, hrequests⟩ := @ih _ _ (scanner.pass first place) _ hbehind
            (fun piece hmem => htokens piece (List.mem_append_right _ hmem)) hmiddle
            hunseen.symm (fun hmem => hfeed (List.mem_append_right _ hmem))
            (fun character hmem => hblank _ (List.mem_append_right _ hmem)) hpassed
          exact ⟨requests, by rw [hrequests, pass_append]⟩

/-- The line behind raw text is blank. -/
theorem blank_behind (request : Request)
    (hraw : (scanner.answer request).1.kind.isRaw = true) :
    ∀ character ∈ line (scanner.answer request).2.cursor.rest, isBlank character = true := by
  cases request with
  | next => exact Cursor.blank_behind_next hraw
  | restOfLine => exact scanner.cursor.blank_behind_rawLine

end Scanner

/-! ## Blank characters and their pieces -/

/-- A blank character that a blank piece holds lies in spacing about which nothing is said, or it is
the piece and nobody expects it. -/
theorem Cursor.Holds.of_blank {source start inside : List Char} {character : Char}
    {place next : Cursor} {piece : Piece}
    (h : Cursor.Holds source start inside character place piece next)
    (hblank : ∀ character ∈ place.rest.head?, isBlank character = true ∧ character ≠ '\n') :
    (isSpacing character = true → piece.kind = .trivia .spacing ∧ piece.problems = [] ∧
      piece.span.start ≤ Position.bytes (start ++ inside) ∧
      Position.bytes (start ++ inside ++ [character]) ≤ piece.span.stop) ∧
    (isSpacing character = false → piece.span = .between (Position.start.after (start ++ inside))
        ((Position.start.after (start ++ inside)).next character) ∧
      piece.problems = [⟨.unexpectedCharacter character, piece.span⟩]) := by
  obtain ⟨hplace, hfound, first, rest, hrest, hinside⟩ := h
  obtain ⟨hblank, hfeed⟩ := hblank first (by rw [hrest]; rfl)
  obtain ⟨first', rest', hrest', -, rfl⟩ := hplace.behind_piece? hfound
  obtain ⟨rfl, rfl⟩ := List.cons.inj (hrest.symm.trans hrest')
  by_cases hspacing : isSpacing first = true
  · -- The character is one of the spacing that the piece consists of.
    rw [Lexeme.read, if_pos hspacing] at hinside ⊢
    have hcharacter : isSpacing character = true := by
      have hmem := hinside.subset (List.mem_append_right inside (List.mem_singleton_self character))
      rw [← List.prefix_iff_eq_take.mp (List.takeWhile_prefix isSpacing)] at hmem
      rcases List.mem_cons.mp hmem with rfl | hmem
      · exact hspacing
      · exact List.mem_takeWhile_imp hmem
    refine ⟨fun _ => ⟨rfl, rfl, ?_, ?_⟩, fun hnot => ?_⟩
    · rw [Span.between, Position.start_after]
      exact Position.bytes_le_of_prefix (List.prefix_append _ _)
    · rw [Span.between, Position.start_after (_ ++ _), List.append_assoc]
      exact Position.bytes_le_of_prefix ((List.prefix_append_right_inj _).mpr hinside)
    · rw [hcharacter] at hnot
      cases hnot
  · rw [Lexeme.read_of_isBlank hblank hspacing hfeed] at hinside ⊢
    -- The piece is one character, so nothing of it is in front of that character.
    obtain ⟨rfl, rfl⟩ : inside = [] ∧ character = first := by
      have hlength := hinside.length_le
      simp only [Lexeme.reject, List.take_zero, List.length_append, List.length_singleton] at hlength
      obtain rfl : inside = [] := List.length_eq_zero_iff.mp (by omega)
      exact ⟨rfl, by simpa [Lexeme.reject] using hinside⟩
    refine ⟨fun hcharacter => absurd hcharacter hspacing, fun _ => ⟨?_, rfl⟩⟩
    rw [Lexeme.reject, List.take_zero, List.append_nil, Position.after_append]
    rfl

namespace Scanner

variable {source after : List Char} {scanner : Scanner} {span : Span}

/-- Nothing is said about what stands between two places if nothing is said about the pieces
between them. -/
theorem problemsIn_between {first row others : List Piece} {before behind : List Char}
    (hfirst : Shared [] first before) (hothers : Shared behind others after)
    (hfrom : ∀ piece ∈ first, piece.ComesFrom source)
    (hproblems : scanner.problems.toList = (first ++ (row ++ others)).flatMap Piece.problems)
    (hrow : ∀ piece ∈ row, piece.problems = []) (hstart : span.start = Position.bytes before)
    (hstop : span.stop = Position.bytes behind) : scanner.problemsIn span = [] := by
  rw [problemsIn, List.filter_eq_nil_iff, hproblems]
  intro problem hmem
  obtain ⟨piece, hpiece, hproblem⟩ := List.mem_flatMap.mp hmem
  rw [Piece.start_of_mem_problems hproblem, decide_eq_true_eq, hstart, hstop]
  rcases List.mem_append.mp hpiece with hpiece | hpiece
  · have hlt : piece.span.start < piece.span.stop :=
      ((hfrom piece hpiece).isReadIn_of_mem hproblem).start_lt_stop
    have hle := (hfirst.start_of_mem hpiece).2
    omega
  rcases List.mem_append.mp hpiece with hpiece | hpiece
  · rw [hrow piece hpiece] at hproblem
    cases hproblem
  · have hle := (hothers.start_of_mem hpiece).1
    omega

end Scanner

/-! ## The main result -/

/-- What a scanner has recorded about blank characters that stand at a position. -/
structure Scanner.TellsBlanks (scanner : Scanner) (position : Position) (blanks : List Char) :
    Prop where
  /-- Spacing is recorded as such, and nothing is said about it. -/
  spacing : ∀ front character back, blanks = front ++ character :: back →
    isSpacing character = true → scanner.problemsIn (.ofCharacter position front character) = [] ∧
      ∃ trivia ∈ scanner.trivia, trivia.kind = .spacing ∧
        trivia.span.start ≤ (Span.ofCharacter position front character).start ∧
        (Span.ofCharacter position front character).stop ≤ trivia.span.stop
  /-- Every other character is reported exactly once. -/
  stray : ∀ front character back, blanks = front ++ character :: back →
    isSpacing character = false → scanner.problemsIn (.ofCharacter position front character) =
      [⟨.unexpectedCharacter character, .ofCharacter position front character⟩]
  /-- So nothing is said about the blank characters if and only if all of them are spacing. -/
  silent : scanner.problemsIn (.between position (position.after blanks)) = [] ↔
    ∀ character ∈ blanks, isSpacing character = true

namespace Scanner

variable {source before blanks : List Char} {scanner : Scanner} {cursor place : Cursor}
  {first row others : List Piece}

/-- A scanner has passed the blank end of a line: it has recorded the pieces in front of it, a row of
pieces there, and some pieces behind it. -/
structure Passed (scanner : Scanner) (source before blanks : List Char) (cursor place : Cursor)
    (first row others : List Piece) : Prop where
  blank : ∀ character ∈ blanks, isBlank character = true
  noFeed : '\n' ∉ blanks
  inFront : Shared [] first before
  begins : cursor.StandsBehind source before
  isRow : cursor.Pieces row place
  ends : place.StandsBehind source (before ++ blanks)
  behind : ∃ after, Shared (before ++ blanks) others after
  comesFrom : ∀ piece ∈ first ++ (row ++ others), piece.ComesFrom source
  trivia : scanner.trivia.toList = (first ++ (row ++ others)).filterMap Piece.trivia?
  problems : scanner.problems.toList = (first ++ (row ++ others)).flatMap Piece.problems

namespace Passed

/-- What is said about a piece of the row is what was found in it. -/
theorem problemsIn_piece (h : scanner.Passed source before blanks cursor place first row others)
    {piece : Piece} (hmem : piece ∈ row) : scanner.problemsIn piece.span = piece.problems := by
  obtain ⟨middle, hshared, hmiddle, hread⟩ := h.isRow.shared h.begins
  obtain rfl := h.ends.unique hmiddle.source
  obtain ⟨after, hothers⟩ := h.behind
  have hwhole : Shared [] (first ++ (row ++ others)) after :=
    h.inFront.append (hshared.append hothers)
  exact Scanner.problemsIn_piece hwhole h.comesFrom h.problems
    (List.mem_append_right _ (List.mem_append_left _ hmem)) (hread piece hmem)

/-- Each character is held by a piece of the row, which begins with a blank character. -/
theorem exists_piece (h : scanner.Passed source before blanks cursor place first row others)
    {front back : List Char} {character : Char} (hsplit : blanks = front ++ character :: back) :
    ∃ piece ∈ row,
      (isSpacing character = true → piece.kind = .trivia .spacing ∧ piece.problems = [] ∧
        piece.span.start ≤ Position.bytes (before ++ front) ∧
        Position.bytes (before ++ front ++ [character]) ≤ piece.span.stop) ∧
      (isSpacing character = false →
        piece.span = .between (Position.start.after (before ++ front))
          ((Position.start.after (before ++ front)).next character) ∧
        piece.problems = [⟨.unexpectedCharacter character, piece.span⟩]) := by
  have hsource : source = before ++ front ++ character :: (back ++ place.rest) := by
    rw [h.ends.source, hsplit]
    simp
  obtain ⟨piece, hmem, -, held, next, start, inside, -, hholds, ⟨seen, rfl⟩, hfront⟩ :=
    h.isRow.exists_holds h.begins hsource (List.prefix_append _ _) h.ends (by rw [hsplit]; simp)
  rw [List.append_assoc] at hfront
  obtain rfl := List.append_cancel_left hfront
  have hfirst : ∀ first ∈ held.rest.head?, first ∈ blanks := fun first hmem => by
    have hpart := hholds.first_mem first hmem
    simp only [List.mem_append, hsplit, List.mem_cons] at hpart ⊢
    tauto
  have hheld := hholds.of_blank fun first hmem =>
    ⟨h.blank first (hfirst first hmem), fun heq => h.noFeed (heq ▸ hfirst first hmem)⟩
  rw [List.append_assoc before] at hheld
  exact ⟨piece, hmem, hheld⟩

theorem spacing (h : scanner.Passed source before blanks cursor place first row others)
    {front back : List Char} {character : Char} (hsplit : blanks = front ++ character :: back)
    (hcharacter : isSpacing character = true) :
    scanner.problemsIn (.ofCharacter cursor.position front character) = [] ∧
      ∃ trivia ∈ scanner.trivia, trivia.kind = .spacing ∧
        trivia.span.start ≤ (Span.ofCharacter cursor.position front character).start ∧
        (Span.ofCharacter cursor.position front character).stop ≤ trivia.span.stop := by
  obtain ⟨piece, hmem, hheld, -⟩ := h.exists_piece hsplit
  obtain ⟨hkind, hnone, hle, hle'⟩ := hheld hcharacter
  obtain ⟨-, hstart, hstop⟩ := h.begins.ofCharacter front character
  rw [← hstart] at hle
  rw [← hstop] at hle'
  have hpiece := h.problemsIn_piece hmem
  refine ⟨problemsIn_eq_nil (hpiece.trans hnone) hle hle', ⟨.spacing, piece.span⟩, ?_, rfl, hle, hle'⟩
  rw [← Array.mem_toList_iff, h.trivia, List.mem_filterMap]
  exact ⟨piece, List.mem_append_right _ (List.mem_append_left _ hmem), by
    rw [Piece.trivia?, hkind]⟩

theorem stray (h : scanner.Passed source before blanks cursor place first row others)
    {front back : List Char} {character : Char} (hsplit : blanks = front ++ character :: back)
    (hcharacter : isSpacing character = false) :
    scanner.problemsIn (.ofCharacter cursor.position front character) =
      [⟨.unexpectedCharacter character, .ofCharacter cursor.position front character⟩] := by
  obtain ⟨piece, hmem, -, hheld⟩ := h.exists_piece hsplit
  obtain ⟨hspan, hproblem⟩ := hheld hcharacter
  rw [(h.begins.ofCharacter front character).1, ← hspan, h.problemsIn_piece hmem, hproblem]

theorem bounds (h : scanner.Passed source before blanks cursor place first row others) :
    (Span.between cursor.position (cursor.position.after blanks)).start = Position.bytes before ∧
      (Span.between cursor.position (cursor.position.after blanks)).stop =
        Position.bytes (before ++ blanks) := by
  rw [h.begins.position, ← Position.after_append, Span.between, Position.start_after,
    Position.start_after]
  exact ⟨rfl, rfl⟩

/-- If nothing is said about the blank end of the line, it is all spacing. -/
theorem spacing_of_silent (h : scanner.Passed source before blanks cursor place first row others)
    (hnone : scanner.problemsIn (.between cursor.position (cursor.position.after blanks)) = []) :
    ∀ character ∈ blanks, isSpacing character = true := by
  intro character hmem
  by_contra hcharacter
  rw [Bool.not_eq_true] at hcharacter
  obtain ⟨front, back, hsplit⟩ := List.append_of_mem hmem
  obtain ⟨-, hstart, hstop⟩ := h.begins.ofCharacter front character
  have hpart : before ++ front ++ [character] <+: before ++ blanks := ⟨back, by simp [hsplit]⟩
  have hreported := h.stray hsplit hcharacter
  rw [problemsIn_eq_nil hnone] at hreported
  · cases hreported
  · rw [h.bounds.1, hstart]
    exact Position.bytes_le_of_prefix (List.prefix_append _ _)
  · rw [h.bounds.2, hstop]
    exact Position.bytes_le_of_prefix hpart

/-- A scanner that has passed the blank end of a line tells of its characters. -/
theorem tellsBlanks (h : scanner.Passed source before blanks cursor place first row others)
    (hsilent : (∀ character ∈ blanks, isSpacing character = true) →
      ∀ piece ∈ row, piece.problems = []) :
    scanner.TellsBlanks cursor.position blanks := by
  refine ⟨fun _ _ _ => h.spacing, fun _ _ _ => h.stray, h.spacing_of_silent, fun hall => ?_⟩
  obtain ⟨after, hothers⟩ := h.behind
  exact problemsIn_between h.inFront hothers (List.forall_mem_append.mp h.comesFrom).1 h.problems
    (hsilent hall) h.bounds.1 h.bounds.2

end Passed

/-- A scanner that has come to the blank end of a line, and from there to the end of the line, has
passed it and tells of its characters. -/
theorem tellsBlanks_of_blank {after : List Char} {later : List Request}
    (hfirst : Shared [] first before) (hfrom : ∀ piece ∈ first, piece.ComesFrom source)
    (hcursor : scanner.cursor.StandsBehind source before)
    (htrivia : scanner.trivia.toList = first.filterMap Piece.trivia?)
    (hproblems : scanner.problems.toList = first.flatMap Piece.problems)
    (hrest : scanner.cursor.rest = blanks ++ after) (hfeed : '\n' ∉ blanks)
    (hblank : ∀ character ∈ blanks, isBlank character = true)
    (hafter : ∀ character ∈ after.head?, character = '\n')
    (hpassed : Position.bytes (before ++ blanks) ≤
      (scanner.answers later).2.cursor.position.offset) :
    (scanner.answers later).2.TellsBlanks scanner.cursor.position blanks := by
  obtain ⟨row, place, hrow, rfl, htokens, hsilent⟩ :=
    Cursor.exists_blank_row hrest hfeed hblank hafter
  obtain ⟨middle, -, hplace, hread⟩ := hrow.shared hcursor
  obtain rfl : before ++ blanks = middle :=
    hplace.unique (by rw [hcursor.source, hrest, List.append_assoc])
  obtain ⟨requests, hpass⟩ :=
    answers_of_blank hrow htokens hcursor hplace hrest hfeed hblank hafter later hpassed
  obtain ⟨others, behind, hothers, hfromOthers, -, -, htriviaOthers, hproblemsOthers⟩ :=
    @answers_pieces _ _ (scanner.pass row place) hplace requests
  have hfromAll : ∀ piece ∈ first ++ (row ++ others), piece.ComesFrom source :=
    List.forall_mem_append.mpr ⟨hfrom, List.forall_mem_append.mpr
      ⟨fun piece hmem => .inl (hread piece hmem), hfromOthers⟩⟩
  refine Passed.tellsBlanks ⟨hblank, hfeed, hfirst, hcursor, hrow, hplace, ⟨behind, hothers⟩,
    hfromAll, ?_, ?_⟩ hsilent
  · rw [hpass, htriviaOthers, toList_trivia_pass, htrivia]
    simp only [List.filterMap_append, List.append_assoc]
  · rw [hpass, hproblemsOthers, toList_problems_pass, hproblems]
    simp only [List.flatMap_append, List.append_assoc]

end Scanner

/-- **What raw text leaves on its line.**  Raw text that a scanner is asked for never ends in a blank
character, and begins with one if and only if something on the line is not blank and a blank
character stands there first behind the spacing.  Behind raw text, and behind a passage, only blank
characters are left on the line.  Once the scanner has come to the end of the line, whatever it was
asked for, each of them either is spacing, recorded as such and with nothing said about it, or was
reported exactly once as a character that nobody expects.  So nothing is said about the rest of the
line if and only if it is all spacing. -/
theorem behind_raw_text (source : String) (requests : List Request) (request : Request) :
    let scanner := ((Scanner.ofSource source).answers requests).2
    let token := (scanner.answer request).1
    let behind := (scanner.answer request).2
    let blanks := line behind.cursor.rest
    (∀ text, token.kind = .restOfLine text →
      (∀ character ∈ text.toList.getLast?, isBlank character = false) ∧
      ((∃ character ∈ text.toList.head?, isBlank character = true) ↔
        (∃ character ∈ line scanner.cursor.rest, isBlank character = false) ∧
          ∃ character ∈ ((line scanner.cursor.rest).dropWhile isSpacing).head?,
            isBlank character = true)) ∧
    (token.kind.isRaw = true →
      (∀ character ∈ blanks, isBlank character = true) ∧
      ∀ later, (behind.cursor.position.after blanks).offset ≤
          (behind.answers later).2.cursor.position.offset →
        (behind.answers later).2.TellsBlanks behind.cursor.position blanks) := by
  intro scanner token behind blanks
  constructor
  · intro text hkind
    cases request with
    | next => exact absurd hkind (Cursor.next_ne_restOfLine text)
    | restOfLine =>
        obtain rfl : scanner.cursor.rawLine.text = text := TokenKind.restOfLine.inj hkind
        exact ⟨(isRestOfLine_rawLine scanner.cursor).last, scanner.cursor.first_rawLine⟩
  intro hraw
  have hblank : ∀ character ∈ blanks, isBlank character = true := Scanner.blank_behind request hraw
  refine ⟨hblank, fun later hpassed => ?_⟩
  have hbegin : (Scanner.ofSource source).cursor.StandsBehind source.toList [] := .ofSource source
  -- What is recorded are the pieces of all answers up to here; later requests only add to them.
  obtain ⟨pieces, before, hshared, hfrom, hcursor, -, htrivia, hproblems⟩ :=
    Scanner.answers_pieces hbegin requests
  obtain ⟨pieces', before', hshared', hfrom', hcursor', -, htrivia', hproblems'⟩ :=
    Scanner.answer_pieces hcursor request
  obtain ⟨tail, hrest, htail⟩ := exists_tail behind.cursor.rest
  rw [hcursor'.position, ← Position.after_append, Position.start_after] at hpassed
  refine Scanner.tellsBlanks_of_blank (hshared.append hshared')
    (List.forall_mem_append.mpr ⟨hfrom, hfrom'⟩) hcursor' ?_ ?_ hrest (not_mem_line _) hblank htail
    hpassed
  · rw [htrivia', htrivia, List.filterMap_append]
    rfl
  · rw [hproblems', hproblems, List.flatMap_append]
    rfl

/-- A no-break space behind a message is cut off and then reported. -/
theorem exists_blank_reported :
    let scanner := ((Scanner.ofSource "%warning a\u00a0\n").answers [.next]).2
    let behind := (scanner.answer .restOfLine).2
    (scanner.answer .restOfLine).1.kind = .restOfLine "a" ∧
      line behind.cursor.rest = ['\u00a0'] ∧
      (behind.answers [.next]).2.problemsIn ⟨10, 12, 1, 11⟩ =
        [⟨.unexpectedCharacter '\u00a0', ⟨10, 12, 1, 11⟩⟩] := by
  intro scanner behind
  have hkind : (scanner.answer .restOfLine).1.kind = .restOfLine "a" := by decide +kernel
  have hblanks : line behind.cursor.rest = ['\u00a0'] := by decide +kernel
  have hpassed : (behind.cursor.position.after (line behind.cursor.rest)).offset ≤
      (behind.answers [.next]).2.cursor.position.offset := by decide +kernel
  have htells := ((behind_raw_text "%warning a\u00a0\n" [.next] .restOfLine).2
    (congrArg TokenKind.isRaw hkind)).2 [.next] hpassed
  have hspan : Span.ofCharacter behind.cursor.position [] '\u00a0' = ⟨10, 12, 1, 11⟩ := by
    decide +kernel
  have hstray := htells.stray [] '\u00a0' [] hblanks rfl
  rw [hspan] at hstray
  exact ⟨hkind, hblanks, hstray⟩

end ConfLang
