import ConfLang.Proofs.Relocation.Program
import ConfLang.Proofs.Scanning.Modes

/-!
# Lines are scanned one by one

With a line feed and a second text behind it, a text has all the tokens, all the trivia and all
the problems that it has alone, and behind the line feed come those of the second text, moved.
The line feed is the end of a line if the line in front of it is that of a directive, and trivia
if it is not (`tokens_joined`).  Nothing is asked of the two texts: whatever is wrong in a line
stays there.

## Strategy

A source is a row of pieces (`Cursor.Pieces`), and tokens, trivia and problems are read off that
row.  So it is enough that the row of the joined source is the row of the first text, the line
feed, and the row of the second text.  No lexeme of the first text looks behind the end of its
line (`Lexeme.read_line`), and at the line feed the mode is what the text of the last line says
(`Cursor.KnowsLine`).
-/

namespace ConfLang

/-! ## Rows of pieces -/

namespace Cursor

/-- The pieces between two places of a source. -/
inductive Pieces : Cursor → List Piece → Cursor → Prop where
  | nil {cursor : Cursor} : Pieces cursor [] cursor
  | cons {cursor middle last : Cursor} {piece : Piece} {pieces : List Piece} :
    cursor.piece? = some (piece, middle) → Pieces middle pieces last →
    Pieces cursor (piece :: pieces) last

variable {cursor after middle last : Cursor} {piece : Piece} {pieces others : List Piece}

namespace Pieces

theorem append (h : cursor.Pieces pieces middle) (h' : middle.Pieces others last) :
    cursor.Pieces (pieces ++ others) last := by
  induction h with
  | nil => exact h'
  | cons hpiece _ ih => exact .cons hpiece (ih h')

/-- Every source is a row of pieces. -/
theorem exists_of_cursor (cursor : Cursor) :
    ∃ pieces last, cursor.Pieces pieces last ∧ last.rest = [] := by
  induction hlength : cursor.rest.length using Nat.strong_induction_on generalizing cursor with
  | h length ih =>
      cases hpiece : cursor.piece? with
      | none => exact ⟨[], cursor, .nil, rest_of_piece?_none hpiece⟩
      | some found =>
          obtain ⟨piece, after⟩ := found
          obtain ⟨pieces, last, hafter, hlast⟩ :=
            ih _ (hlength ▸ rest_length_piece? hpiece) after rfl
          exact ⟨piece :: pieces, last, .cons hpiece hafter, hlast⟩

theorem joined (tail : List Char) (h : cursor.Pieces pieces last) :
    (cursor.joined tail).Pieces pieces (last.joined tail) := by
  induction h with
  | nil => exact .nil
  | cons hpiece _ ih => exact .cons (piece?_joined tail hpiece) ih

theorem moved {d : Displacement} (h : cursor.Pieces pieces last) :
    (cursor.moved d).Pieces (pieces.map (Piece.moved d)) (last.moved d) := by
  induction h with
  | nil => exact .nil
  | cons hpiece _ ih =>
      refine .cons ?_ ih
      rw [piece?_moved, hpiece, Option.map_some]

theorem standsBehind {source before : List Char} (h : cursor.Pieces pieces last)
    (hcursor : cursor.StandsBehind source before) : ∃ after, last.StandsBehind source after := by
  induction h generalizing before with
  | nil => exact ⟨before, hcursor⟩
  | cons hpiece _ ih =>
      obtain ⟨text, hafter, -⟩ := hcursor.piece? hpiece
      exact ih hafter

/-- Behind a row of pieces the mode is what the text of the line says. -/
theorem knowsLine {source before : List Char} (h : cursor.Pieces pieces last)
    (hsource : source = before ++ cursor.rest) (hcursor : cursor.KnowsLine before) :
    ∃ after, source = after ++ last.rest ∧ last.KnowsLine after := by
  induction h generalizing before with
  | nil => exact ⟨before, hsource, hcursor⟩
  | cons hpiece _ ih =>
      obtain ⟨text, hrest, hafter⟩ := hcursor.piece? hpiece
      exact ih (by rw [hsource, hrest, List.append_assoc]) hafter

end Pieces

/-! ## Tokens, trivia and problems of a row -/

theorem scans_of_endOfFile (h : cursor.next.token.kind = .endOfFile) :
    cursor.scans = [cursor.next] := by
  rw [scans, dif_pos h]

theorem scans_of_ne (h : cursor.next.token.kind ≠ .endOfFile) :
    cursor.scans = cursor.next :: cursor.next.cursor.scans := by
  rw [scans, dif_neg h]

/-- A piece that is no token is passed over by the first scan. -/
theorem exists_scans_of_passed (hpiece : cursor.piece? = some (piece, after))
    (htoken : piece.token? = none) :
    ∃ rest, after.scans = after.next :: rest ∧
      cursor.scans = { after.next with passed := piece :: after.next.passed } :: rest := by
  have hnext := next_of_passed hpiece htoken
  by_cases hkind : after.next.token.kind = .endOfFile
  · exact ⟨[], scans_of_endOfFile hkind, by rw [scans_of_endOfFile (hnext ▸ hkind), hnext]⟩
  · exact ⟨after.next.cursor.scans, scans_of_ne hkind, by rw [scans_of_ne (hnext ▸ hkind), hnext]⟩

/-- All that a source has is what its pieces have, and the end of the file. -/
theorem Pieces.scans (h : cursor.Pieces pieces last) (hlast : last.rest = []) :
    cursor.scans.map Scan.token = pieces.filterMap Piece.token? ++ [last.endOfFile] ∧
      cursor.scans.flatMap Scan.trivia = pieces.filterMap Piece.trivia? ∧
      cursor.scans.flatMap Scan.problems = pieces.flatMap Piece.problems := by
  induction h with
  | nil =>
      have hnext := next_of_rest_nil hlast
      rw [scans_of_endOfFile (by rw [hnext]; rfl), hnext]
      exact ⟨rfl, rfl, rfl⟩
  | @cons cursor middle last piece pieces hpiece _ ih =>
      obtain ⟨htokens, htrivia, hproblems⟩ := ih hlast
      cases htoken : piece.token? with
      | none =>
          obtain ⟨rest, hmiddle, hcursor⟩ := exists_scans_of_passed hpiece htoken
          rw [hcursor]
          refine ⟨?_, ?_, ?_⟩
          · rw [List.filterMap_cons_none htoken, ← htokens, hmiddle]
            rfl
          · rw [List.flatMap_cons, List.filterMap_cons, ← htrivia, hmiddle, Scan.trivia,
              List.filterMap_cons]
            cases piece.trivia? <;> rfl
          · rw [List.flatMap_cons, List.flatMap_cons, ← hproblems, hmiddle]
            simp [Scan.problems]
      | some token =>
          have hnext := next_of_token hpiece htoken
          have hkind : cursor.next.token.kind ≠ .endOfFile := by
            have hscanned := isScanned_of_piece? hpiece htoken
            rw [hnext]
            rintro (hend : token.kind = .endOfFile)
            simp [hend, TokenKind.isScanned] at hscanned
          have htrivia' : piece.trivia? = none := by
            rw [Piece.trivia?, kind_of_token? htoken]
          rw [scans_of_ne hkind, hnext, List.filterMap_cons_some htoken,
            List.filterMap_cons_none htrivia', List.cons_append, ← htokens, ← htrivia]
          refine ⟨rfl, rfl, ?_⟩
          rw [List.flatMap_cons, List.flatMap_cons, ← hproblems]
          rfl

end Cursor

/-! ## Scanners -/

theorem Scanner.foldl_record (scans : List Scan) (scanner : Scanner) :
    (scans.foldl record scanner).trivia.toList =
        scanner.trivia.toList ++ scans.flatMap Scan.trivia ∧
      (scans.foldl record scanner).problems.toList =
        scanner.problems.toList ++ scans.flatMap Scan.problems := by
  induction scans generalizing scanner with
  | nil => simp
  | cons scan rest ih =>
      obtain ⟨htrivia, hproblems⟩ := ih (scanner.record scan)
      rw [List.foldl_cons, htrivia, hproblems]
      simp [record]

/-- What a scanner gives and records is what the pieces of its source are. -/
theorem Scanner.tokens_of_pieces {source : String} {pieces : List Piece} {last : Cursor}
    (h : (Cursor.ofSource source).Pieces pieces last) (hlast : last.rest = []) :
    (ofSource source).tokens.1 = pieces.filterMap Piece.token? ++ [last.endOfFile] ∧
      (ofSource source).tokens.2.trivia.toList = pieces.filterMap Piece.trivia? ∧
      (ofSource source).tokens.2.problems.toList = pieces.flatMap Piece.problems := by
  obtain ⟨htokens, htrivia, hproblems⟩ := h.scans hlast
  have hrecord := foldl_record (Cursor.ofSource source).scans (ofSource source)
  rw [htrivia, hproblems] at hrecord
  exact ⟨htokens, hrecord⟩

/-! ## The main result -/

/-- The line feed behind a text. -/
def Span.lineFeedBehind (text : String) : Span :=
  .between (Position.start.after text.toList) ((Position.start.after text.toList).next '\n')

/-- Trivia at another place. -/
def Trivia.moved (displacement : Displacement) (trivia : Trivia) : Trivia :=
  { trivia with span := trivia.span.moved displacement }

theorem Piece.trivia?_moved {d : Displacement} (piece : Piece) :
    (piece.moved d).trivia? = piece.trivia?.map (Trivia.moved d) := by
  unfold trivia? moved
  simp only
  split <;> rfl

/-- What is read off moved pieces is what is read off the pieces, moved. -/
theorem Piece.filterMap_moved {α : Type} {d : Displacement} {read : Piece → Option α} {move : α → α}
    (h : ∀ piece : Piece, read (piece.moved d) = (read piece).map move) (pieces : List Piece) :
    (pieces.map (Piece.moved d)).filterMap read = (pieces.filterMap read).map move := by
  rw [List.filterMap_map, List.map_filterMap]
  exact List.filterMap_congr fun piece _ => h piece

theorem Cursor.Pieces.problems_moved {d : Displacement} {cursor last : Cursor} {pieces : List Piece}
    (h : cursor.Pieces pieces last) : (pieces.map (Piece.moved d)).flatMap Piece.problems =
      (pieces.flatMap Piece.problems).map (Problem.moved d) := by
  induction h with
  | nil => rfl
  | cons hpiece _ ih =>
      rw [List.map_cons, List.flatMap_cons, List.flatMap_cons, List.map_append, ih,
        Piece.problems_moved fun _ => kind_of_mem_piece? hpiece]

/-- The piece of the line feed behind a text. -/
def Piece.lineFeedBehind (text : String) : Piece :=
  { kind := if Text.endsInDirective text.toList then .token .endOfLine else .trivia .newline
    span := .lineFeedBehind text }

theorem Piece.tokens_lineFeedBehind (text : String) :
    [lineFeedBehind text].filterMap Piece.token? =
      if Text.endsInDirective text.toList then [⟨.endOfLine, .lineFeedBehind text⟩] else [] := by
  unfold lineFeedBehind
  split <;> rfl

theorem Piece.trivia_lineFeedBehind (text : String) :
    [lineFeedBehind text].filterMap Piece.trivia? =
      if Text.endsInDirective text.toList then [] else [⟨.newline, .lineFeedBehind text⟩] := by
  unfold lineFeedBehind
  split <;> rfl

/-- The place at the end of a text, and the mode of the line there. -/
theorem Cursor.Pieces.at_end {text : String} {pieces : List Piece} {last : Cursor}
    (h : (ofSource text).Pieces pieces last) (hlast : last.rest = []) :
    last.position = Position.start.after text.toList ∧
      last.mode.isDirective = Text.endsInDirective text.toList := by
  constructor
  · obtain ⟨after, hsource, hposition⟩ := h.standsBehind (.ofSource text)
    rw [hlast, List.append_nil] at hsource
    rw [hposition, hsource]
  · have hbegin : text.toList = [] ++ (ofSource text).rest := rfl
    obtain ⟨after, hsource, hknows⟩ := h.knowsLine hbegin (.ofSource text)
    rw [hlast, List.append_nil] at hsource
    obtain rfl : text.toList = after := hsource
    rw [hknows.isDirective, hlast, hknows.atStart, Text.endsInDirective]
    cases hblank : (Position.lastLine text.toList).all Text.isBlank with
    | false => simp [Text.line]
    | true => rw [Text.isDirectiveLine_of_blank hblank, Bool.not_true, Bool.false_and]

/-- The pieces of two texts with a line feed between them. -/
theorem Cursor.Pieces.lineFeed {first second : String} {pieces others : List Piece}
    {last last' : Cursor} (h : (ofSource first).Pieces pieces last) (hlast : last.rest = [])
    (h' : (ofSource second).Pieces others last') :
    (ofSource (first ++ "\n" ++ second)).Pieces
      (pieces ++ [.lineFeedBehind first] ++ others.map (Piece.moved (.behind (first ++ "\n"))))
      (last'.moved (.behind (first ++ "\n"))) := by
  obtain ⟨hposition, hmode⟩ := h.at_end hlast
  have hfeed := piece?_end second.toList hlast
  rw [hposition, hmode, behind_lineFeed] at hfeed
  rw [← joined_ofSource]
  exact ((h.joined second.toList).append (.cons hfeed .nil)).append h'.moved

/-- **Lines are scanned one by one.**  With a line feed and a second text behind it, a text has
the tokens, trivia and problems that it has alone; behind the line feed come those of the second
text, moved by the first text and the line feed.  The line feed is a token if the first text ends
in the line of a directive, and trivia otherwise. -/
theorem tokens_joined (first second : String) : ∃ tokens,
    (Scanner.ofSource first).tokens.1 =
        tokens ++ [⟨.endOfFile, .emptyAt (Position.start.after first.toList)⟩] ∧
      (Scanner.ofSource (first ++ "\n" ++ second)).tokens.1 = tokens ++
        (if Text.endsInDirective first.toList then [⟨.endOfLine, .lineFeedBehind first⟩] else []) ++
        (Scanner.ofSource second).tokens.1.map (Token.moved (.behind (first ++ "\n"))) ∧
      (Scanner.ofSource (first ++ "\n" ++ second)).tokens.2.trivia.toList =
        (Scanner.ofSource first).tokens.2.trivia.toList ++
        (if Text.endsInDirective first.toList then [] else [⟨.newline, .lineFeedBehind first⟩]) ++
        (Scanner.ofSource second).tokens.2.trivia.toList.map
          (Trivia.moved (.behind (first ++ "\n"))) ∧
      (Scanner.ofSource (first ++ "\n" ++ second)).tokens.2.problems.toList =
        (Scanner.ofSource first).tokens.2.problems.toList ++
        (Scanner.ofSource second).tokens.2.problems.toList.map
          (Problem.moved (.behind (first ++ "\n"))) := by
  obtain ⟨pieces, last, hpieces, hlast⟩ := Cursor.Pieces.exists_of_cursor (.ofSource first)
  obtain ⟨others, last', hothers, hlast'⟩ := Cursor.Pieces.exists_of_cursor (.ofSource second)
  obtain ⟨htokens, htrivia, hproblems⟩ := Scanner.tokens_of_pieces hpieces hlast
  obtain ⟨htokens', htrivia', hproblems'⟩ := Scanner.tokens_of_pieces hothers hlast'
  obtain ⟨htokensAll, htriviaAll, hproblemsAll⟩ :=
    Scanner.tokens_of_pieces (hpieces.lineFeed hlast hothers) hlast'
  obtain ⟨hposition, -⟩ := hpieces.at_end hlast
  refine ⟨pieces.filterMap Piece.token?, ?_, ?_, ?_, ?_⟩
  · rw [htokens, Cursor.endOfFile, hposition]
  · have hmoved := Piece.filterMap_moved (d := .behind (first ++ "\n"))
      (fun _ => Piece.token?_moved) others
    rw [htokensAll, htokens', List.map_append, ← hmoved, List.filterMap_append,
      List.filterMap_append, Piece.tokens_lineFeedBehind, List.append_assoc (_ ++ _)]
    rfl
  · have hmoved := Piece.filterMap_moved (d := .behind (first ++ "\n")) Piece.trivia?_moved others
    rw [htriviaAll, htrivia, htrivia', ← hmoved, List.filterMap_append, List.filterMap_append,
      Piece.trivia_lineFeedBehind]
  · rw [hproblemsAll, hproblems, hproblems', ← hothers.problems_moved, List.flatMap_append,
      List.flatMap_append]
    exact congrArg (· ++ _) (List.append_nil _)

end ConfLang
