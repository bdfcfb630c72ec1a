import ConfLang.Proofs.Grammar.Scan
import ConfLang.Proofs.Placement.Text
import ConfLang.Token.Scanner

/-!
# Nothing is lost

Whoever reads a source asks a scanner for the next token or for what is left of the line, as
often and in any order as it likes.  Between the beginning of the source and the place of the
scanner every byte then belongs to one piece: a token that was given, trivia that was recorded,
or a single character that was reported.

## Strategy

A cursor that has passed a beginning of its source goes on to a longer one, and what it has
passed is shared out by the pieces of the scan (`Shared`).  So the pieces of all scans share out
the text in front of the scanner (`answers_shared`), and a statement about bytes and spans is a
statement about the texts of these pieces.
-/

namespace ConfLang

/-! ## Asking a scanner -/

/-- What can be asked of a scanner. -/
inductive Request where
  | next
  | restOfLine
  deriving DecidableEq, Repr

namespace Scanner

/-- The answer to a request, and the scanner behind it. -/
def answer (scanner : Scanner) : Request → Token × Scanner
  | .next => scanner.next
  | .restOfLine => scanner.restOfLine

/-- The answers to requests that are made one after the other. -/
def answers (scanner : Scanner) : List Request → List Token × Scanner
  | [] => ([], scanner)
  | request :: rest =>
    let (token, after) := scanner.answer request
    let (tokens, last) := after.answers rest
    (token :: tokens, last)

/-- What it means that a scanner that has given some tokens has lost nothing of its source:
there are pieces such that all this holds. -/
structure Keeps (source : String) (tokens : List Token) (scanner : Scanner) (pieces : List Piece) :
    Prop where
  /-- The tokens among the pieces are those that were given, in order. -/
  tokens : pieces.filterMap Piece.token? = tokens
  /-- The trivia among the pieces are those that were recorded, in order. -/
  trivia : pieces.filterMap Piece.trivia? = scanner.trivia.toList
  /-- Every piece lies on boundaries of characters. -/
  points : ∀ piece ∈ pieces, piece.span.PointsInto source
  /-- No two pieces share a byte, and they come in the order of the source. -/
  increasing : pieces.Pairwise fun first second => first.span.stop ≤ second.span.start
  /-- No piece lies behind the place of the scanner. -/
  passed : ∀ piece ∈ pieces, piece.span.stop ≤ scanner.cursor.position.offset
  /-- Every byte in front of the scanner is one of a piece. -/
  covered : ∀ offset < scanner.cursor.position.offset,
    ∃ piece ∈ pieces, piece.span.start ≤ offset ∧ offset < piece.span.stop
  /-- A piece that is neither a token nor trivia is one character, and a problem that was
  recorded is reported exactly there. -/
  gaps : ∀ piece ∈ pieces, piece.token? = none → piece.trivia? = none →
    (piece.span.textIn source).length = 1 ∧ ∃ problem ∈ scanner.problems, problem.span = piece.span
  /-- The texts of the pieces are the text in front of the scanner. -/
  rebuilt : String.join (pieces.map (·.span.textIn source)) =
    Span.textIn source { start := 0, stop := scanner.cursor.position.offset }

end Scanner

/-! ## Rejected characters -/

namespace Lexeme

variable {mode : LineMode} {first : Char} {rest : List Char}

theorem readSymbol_rejected (h : (readSymbol first rest).kind = .rejected) :
    ∃ cause, readSymbol first rest = reject cause ∧ ∀ quote, cause ≠ .unterminated quote := by
  rcases readSymbol_cases first rest with ⟨_, _, hsign⟩ | ⟨_, hlone⟩ | ⟨_, hother⟩
  · rw [hsign] at h
    cases h
  · exact ⟨_, hlone, nofun⟩
  · exact ⟨_, hother, nofun⟩

/-- What belongs neither to a token nor to trivia is a single character, and something is wrong
about that character. -/
theorem read_rejected (h : (read mode first rest).kind = .rejected) :
    ∃ cause, read mode first rest = reject cause ∧ ∀ quote, cause ≠ .unterminated quote := by
  revert h
  refine read_cases (P := fun lexeme => lexeme.kind = .rejected →
      ∃ cause, lexeme = reject cause ∧ ∀ quote, cause ≠ .unterminated quote) ?spacing ?lineFeed
    ?comment ?quoted ?number ?word ?percent ?symbol
  case spacing | comment | number => exact fun _ => nofun
  case lineFeed =>
    intro _
    split <;> exact nofun
  case quoted => exact fun _ _ => nofun
  case word =>
    intro _
    rcases readWord_cases first rest with ⟨_, _, hword⟩ | ⟨_, _, hword⟩ <;>
      (rw [hword]; exact nofun)
  case percent =>
    intro _
    split
    · rcases readDirective_cases rest with ⟨_, _, _, -, hword⟩ | ⟨_, _, hword⟩ <;>
        (rw [hword]; exact nofun)
    · exact fun _ => ⟨_, rfl, nofun⟩
  case symbol => exact readSymbol_rejected

end Lexeme

/-! ## Problems of a piece -/

/-- Every problem of a piece begins where the piece does. -/
theorem Piece.start_of_mem_problems {piece : Piece} {problem : Problem}
    (h : problem ∈ piece.problems) : problem.span.start = piece.span.start := by
  obtain ⟨cause, -, rfl⟩ := List.mem_map.mp h
  change (piece.faultSpan cause).start = piece.span.start
  unfold faultSpan
  split <;> rfl

/-! ## Texts that are shared out -/

/-- The pieces share out what a longer beginning of a source has more than a shorter one. -/
inductive Shared : List Char → List Piece → List Char → Prop where
  | nil {before : List Char} : Shared before [] before
  | cons {before text after : List Char} {piece : Piece} {pieces : List Piece} :
    piece.span = .between (Position.start.after before) (Position.start.after (before ++ text)) →
    (piece.kind = .rejected →
      text.length = 1 ∧ ∃ problem ∈ piece.problems, problem.span = piece.span) →
    Shared (before ++ text) pieces after → Shared before (piece :: pieces) after

namespace Shared

variable {source : String} {before middle after : List Char} {pieces others : List Piece}

theorem append (h : Shared before pieces middle) (h' : Shared middle others after) :
    Shared before (pieces ++ others) after := by
  induction h with
  | nil => exact h'
  | cons hspan hgap _ ih => exact .cons hspan hgap (ih h')

theorem isPrefix (h : Shared before pieces after) : before <+: after := by
  induction h with
  | nil => exact List.prefix_rfl
  | cons _ _ _ ih => exact (List.prefix_append _ _).trans ih

/-- Each piece has a text of its own. -/
theorem text_of_mem (h : Shared before pieces after) {piece : Piece} (hmem : piece ∈ pieces) :
    ∃ first text, before <+: first ∧ first ++ text <+: after ∧
      piece.span = .between (Position.start.after first) (Position.start.after (first ++ text)) ∧
      (piece.kind = .rejected →
        text.length = 1 ∧ ∃ problem ∈ piece.problems, problem.span = piece.span) := by
  induction h with
  | nil => cases hmem
  | @cons before text after _ _ hspan hgap hrest ih =>
      rcases List.mem_cons.mp hmem with rfl | hmem
      · exact ⟨before, text, List.prefix_rfl, hrest.isPrefix, hspan, hgap⟩
      · obtain ⟨first, text', hfirst, hlast⟩ := ih hmem
        exact ⟨first, text', (List.prefix_append _ _).trans hfirst, hlast⟩

theorem liesIn_of_mem (h : Shared before pieces after) (hafter : after <+: source.toList)
    {piece : Piece} (hmem : piece ∈ pieces) : piece.span.LiesIn source.toList := by
  obtain ⟨first, text, -, hlast, hspan, -⟩ := h.text_of_mem hmem
  exact ⟨first, first ++ text, List.prefix_append _ _, hlast.trans hafter, hspan⟩

theorem start_of_mem (h : Shared before pieces after) {piece : Piece} (hmem : piece ∈ pieces) :
    Position.bytes before ≤ piece.span.start ∧ piece.span.stop ≤ Position.bytes after := by
  obtain ⟨first, text, hfirst, hlast, hspan, -⟩ := h.text_of_mem hmem
  rw [hspan, Span.between, Position.start_after, Position.start_after]
  exact ⟨Position.bytes_le_of_prefix hfirst, Position.bytes_le_of_prefix hlast⟩

theorem pairwise (h : Shared before pieces after) :
    pieces.Pairwise fun first second => first.span.stop ≤ second.span.start := by
  induction h with
  | nil => exact .nil
  | cons hspan _ hrest ih =>
      refine .cons (fun other hother => ?_) ih
      rw [hspan, Span.between, Position.start_after (_ ++ _)]
      exact (hrest.start_of_mem hother).1

/-- Every byte of the text is one of a piece. -/
theorem exists_of_offset (h : Shared before pieces after) {offset : Nat}
    (hfirst : Position.bytes before ≤ offset) (hlast : offset < Position.bytes after) :
    ∃ piece ∈ pieces, piece.span.start ≤ offset ∧ offset < piece.span.stop := by
  induction h with
  | nil => omega
  | @cons before text after piece pieces hspan _ hrest ih =>
      by_cases hinside : offset < Position.bytes (before ++ text)
      · refine ⟨piece, List.mem_cons_self, ?_⟩
        rw [hspan, Span.between, Position.start_after, Position.start_after]
        exact ⟨hfirst, hinside⟩
      · obtain ⟨other, hother, hoffset⟩ := ih (Nat.le_of_not_lt hinside) hlast
        exact ⟨other, List.mem_cons_of_mem _ hother, hoffset⟩

theorem join_textIn (h : Shared before pieces after) (rest : List Char) :
    String.ofList before ++ String.join (pieces.map (·.span.textIn (String.ofList (after ++ rest)))) =
      String.ofList after := by
  induction h with
  | nil => simp
  | @cons before text after piece pieces hspan _ hrest ih =>
      obtain ⟨behind, rfl⟩ := hrest.isPrefix
      have htext := Span.textIn_between before text (behind ++ rest)
      rw [← hspan, ← List.append_assoc] at htext
      rw [List.map_cons, String.join_cons, htext, ← String.append_assoc, ← String.ofList_append]
      exact ih

end Shared

/-! ## Scans -/

/-- A piece is a lexeme of a source, with the span of its characters. -/
def Piece.IsReadIn (source : List Char) (piece : Piece) : Prop :=
  ∃ before mode first rest, source = before ++ first :: rest ∧
    piece = ⟨(Lexeme.read mode first rest).kind,
      .between (Position.start.after before) (Position.start.after
        (before ++ first :: rest.take (Lexeme.read mode first rest).further)),
      (Lexeme.read mode first rest).faults⟩

/-- A piece is a lexeme of a source, or it is raw text, the spacing in front of it or the end of the
file, about which nothing can be wrong. -/
def Piece.ComesFrom (source : List Char) (piece : Piece) : Prop :=
  piece.IsReadIn source ∨
    piece.faults = [] ∧ ∀ kind, piece.kind = .token kind → kind.isScanned = false

/-- The pieces of a scan: what was passed over, and the token. -/
structure Scan.MadeOf (scan : Scan) (pieces : List Piece) : Prop where
  token : pieces.filterMap Piece.token? = [scan.token]
  trivia : pieces.filterMap Piece.trivia? = scan.trivia
  problems : pieces.flatMap Piece.problems = scan.problems

namespace Cursor

/-- A cursor stands behind a beginning of a source. -/
structure StandsBehind (source before : List Char) (cursor : Cursor) : Prop where
  source : source = before ++ cursor.rest
  position : cursor.position = Position.start.after before

/-- From a place behind one beginning of a source, a scan goes on to a place behind a longer one,
and its pieces share out what is between them. -/
def Passes (source before : List Char) (scan : Scan) : Prop :=
  ∃ pieces after, scan.MadeOf pieces ∧ Shared before pieces after ∧
    (∀ piece ∈ pieces, piece.ComesFrom source) ∧ scan.cursor.StandsBehind source after

variable {source before : List Char} {cursor after : Cursor} {piece : Piece}

namespace StandsBehind

theorem ofSource (source : String) : (Cursor.ofSource source).StandsBehind source.toList [] :=
  ⟨rfl, rfl⟩

theorem advance (h : cursor.StandsBehind source before) (count : Nat) :
    (cursor.advance count).StandsBehind source (before ++ cursor.rest.take count) where
  source := by
    rw [List.append_assoc, Cursor.advance, List.take_append_drop]
    exact h.source
  position := by rw [Cursor.advance, h.position, Position.after_append]

theorem offset (h : cursor.StandsBehind source before) :
    cursor.position.offset = Position.bytes before := by
  rw [h.position, Position.start_after]

theorem piece? (h : cursor.StandsBehind source before)
    (hpiece : cursor.piece? = some (piece, after)) :
    ∃ text, after.StandsBehind source (before ++ text) ∧
      piece.span =
        .between (Position.start.after before) (Position.start.after (before ++ text)) ∧
      (piece.kind = .rejected →
        text.length = 1 ∧ ∃ problem ∈ piece.problems, problem.span = piece.span) := by
  unfold Cursor.piece? at hpiece
  split at hpiece
  · cases hpiece
  rename_i first rest hrest
  simp only [Option.some.injEq, Prod.mk.injEq] at hpiece
  obtain ⟨rfl, rfl⟩ := hpiece
  have hafter := h.advance (Lexeme.read cursor.mode first rest).width
  refine ⟨_, ⟨hafter.source, hafter.position⟩, by rw [hafter.position, h.position], ?_⟩
  intro hrejected
  obtain ⟨cause, hread, hcause⟩ := Lexeme.read_rejected hrejected
  have hfault (span : Span) : Piece.faultSpan ⟨.rejected, span, [cause]⟩ cause = span := by
    unfold Piece.faultSpan
    split
    · exact absurd rfl (hcause _)
    · rfl
  constructor
  · simp [hread, hrest, Lexeme.reject, Lexeme.width]
  · exact ⟨_, List.mem_map.mpr ⟨cause, by simp [hread, Lexeme.reject], rfl⟩, by
      simp only [hread, Lexeme.reject]
      exact hfault _⟩

theorem isReadIn (h : cursor.StandsBehind source before)
    (hpiece : cursor.piece? = some (piece, after)) : piece.IsReadIn source := by
  unfold Cursor.piece? at hpiece
  split at hpiece
  · cases hpiece
  rename_i first rest hrest
  simp only [Option.some.injEq, Prod.mk.injEq] at hpiece
  obtain ⟨rfl, -⟩ := hpiece
  refine ⟨before, cursor.mode, first, rest, by rw [h.source, hrest], ?_⟩
  rw [(h.advance _).position, h.position, hrest, Lexeme.width, List.take_succ_cons]

theorem comesFrom (h : cursor.StandsBehind source before)
    (hpiece : cursor.piece? = some (piece, after)) : piece.ComesFrom source :=
  .inl (h.isReadIn hpiece)

theorem next (h : cursor.StandsBehind source before) : Passes source before cursor.next := by
  revert before
  fun_induction Cursor.next cursor with
  | case1 cursor hnone =>
      intro before h
      refine ⟨[⟨.token .endOfFile, Span.emptyAt cursor.position, []⟩], before ++ [], ⟨rfl, rfl, rfl⟩,
        .cons ?_ (by simp) .nil, ?_, ?_⟩
      · rw [List.append_nil, Span.emptyAt, h.position]
      · refine List.forall_mem_singleton.mpr (.inr ⟨rfl, ?_⟩)
        rintro _ ⟨⟩
        rfl
      · rw [List.append_nil]
        exact ⟨h.source, h.position⟩
  | case2 cursor piece after hpiece token htoken =>
      intro before h
      obtain ⟨text, hafter, hspan, hgap⟩ := h.piece? hpiece
      have hkind := Cursor.kind_of_token? htoken
      refine ⟨[piece], before ++ text, ⟨?_, ?_, ?_⟩, .cons hspan hgap .nil,
        List.forall_mem_singleton.mpr (h.comesFrom hpiece), hafter⟩
      · simp [htoken]
      · simp [Piece.trivia?, hkind, Scan.trivia]
      · simp [Scan.problems]
  | case3 cursor piece after hpiece htoken scan =>
      rename_i ih
      intro before h
      obtain ⟨text, hafter, hspan, hgap⟩ := h.piece? hpiece
      obtain ⟨pieces, last, hmade, hshared, hfrom, hlast⟩ := ih hafter
      refine ⟨piece :: pieces, last, ⟨?_, ?_, ?_⟩, .cons hspan hgap hshared,
        List.forall_mem_cons.mpr ⟨h.comesFrom hpiece, hfrom⟩, hlast⟩
      · rw [List.filterMap_cons, htoken]
        exact hmade.token
      · rw [Scan.trivia, List.filterMap_cons, List.filterMap_cons, hmade.trivia, Scan.trivia]
      · rw [Scan.problems, List.flatMap_cons, List.flatMap_cons, hmade.problems, Scan.problems,
          List.append_assoc]

theorem spacing (h : cursor.StandsBehind source before) :
    Shared before cursor.rawLine.passed (before ++ cursor.rest.take cursor.spacing.length) := by
  have hstart := h.advance cursor.spacing.length
  unfold Cursor.rawLine
  by_cases hspacing : cursor.spacing = []
  · rw [hspacing]
    simp only [List.isEmpty_nil, if_true, List.length_nil, List.take_zero, List.append_nil]
    exact .nil
  · simp only [List.isEmpty_iff, hspacing, if_false]
    refine .cons ?_ nofun .nil
    rw [← hstart.position, ← h.position]

theorem restOfLine (h : cursor.StandsBehind source before) :
    Passes source before cursor.restOfLine := by
  have hstart := h.advance cursor.spacing.length
  have hafter := hstart.advance
    (Text.trimEnd (Text.line (cursor.advance cursor.spacing.length).rest)).length
  have hpassed : cursor.rawLine.passed.filterMap Piece.token? = [] ∧
      cursor.rawLine.passed.flatMap Piece.problems = [] := by
    unfold Cursor.rawLine
    simp only
    split <;> exact ⟨rfl, rfl⟩
  refine ⟨cursor.rawLine.passed ++
      [⟨.token (.restOfLine cursor.rawLine.text), cursor.rawLine.span, []⟩],
    _, ⟨?_, ?_, ?_⟩, h.spacing.append (.cons ?_ (by rintro ⟨⟩) .nil), ?_, hafter⟩
  · rw [List.filterMap_append, hpassed.1]
    rfl
  · rw [List.filterMap_append]
    exact List.append_nil _
  · rw [List.flatMap_append, Scan.problems]
    rfl
  · rw [← hstart.position, ← hafter.position]
    rfl
  · intro piece hmem
    right
    rcases List.mem_append.mp hmem with hmem | hmem
    · unfold Cursor.rawLine at hmem
      simp only at hmem
      split at hmem
      · cases hmem
      · rw [List.mem_singleton.mp hmem]
        exact ⟨rfl, by rintro _ ⟨⟩⟩
    · rw [List.mem_singleton.mp hmem]
      refine ⟨rfl, ?_⟩
      rintro _ ⟨⟩
      rfl

end StandsBehind

/-! ## The end of the source -/

theorem rest_restOfLine_of_rest_nil (h : cursor.rest = []) : cursor.restOfLine.cursor.rest = [] :=
  List.suffix_nil.mp (h ▸ rest_rawLine cursor)

theorem rest_next_of_rest_nil (h : cursor.rest = []) : cursor.next.cursor.rest = [] :=
  List.suffix_nil.mp (h ▸ rest_next cursor)

end Cursor

/-! ## Requests -/

namespace Scanner

variable {source before : List Char} {scanner : Scanner}

/-- One answer goes on from a place behind a beginning of the source to a place behind a longer
one, and records the trivia and the problems on the way. -/
theorem answer_pieces (h : scanner.cursor.StandsBehind source before) (request : Request) :
    ∃ pieces after, Shared before pieces after ∧ (∀ piece ∈ pieces, piece.ComesFrom source) ∧
      (scanner.answer request).2.cursor.StandsBehind source after ∧
      pieces.filterMap Piece.token? = [(scanner.answer request).1] ∧
      (scanner.answer request).2.trivia.toList =
        scanner.trivia.toList ++ pieces.filterMap Piece.trivia? ∧
      (scanner.answer request).2.problems.toList =
        scanner.problems.toList ++ pieces.flatMap Piece.problems := by
  have hpasses (scan : Scan) (hscan : Cursor.Passes source before scan) :
      ∃ pieces after, Shared before pieces after ∧ (∀ piece ∈ pieces, piece.ComesFrom source) ∧
        (scanner.record scan).cursor.StandsBehind source after ∧
        pieces.filterMap Piece.token? = [scan.token] ∧
        (scanner.record scan).trivia.toList =
          scanner.trivia.toList ++ pieces.filterMap Piece.trivia? ∧
        (scanner.record scan).problems.toList =
          scanner.problems.toList ++ pieces.flatMap Piece.problems := by
    obtain ⟨pieces, after, hmade, hshared, hfrom, hcursor⟩ := hscan
    refine ⟨pieces, after, hshared, hfrom, hcursor, hmade.token, ?_, ?_⟩
    · rw [hmade.trivia]
      simp [record]
    · rw [hmade.problems]
      simp [record]
  cases request with
  | next => exact hpasses _ h.next
  | restOfLine => exact hpasses _ h.restOfLine

/-- The answers to any requests go on in the same way. -/
theorem answers_pieces (h : scanner.cursor.StandsBehind source before) (requests : List Request) :
    ∃ pieces after, Shared before pieces after ∧ (∀ piece ∈ pieces, piece.ComesFrom source) ∧
      (scanner.answers requests).2.cursor.StandsBehind source after ∧
      pieces.filterMap Piece.token? = (scanner.answers requests).1 ∧
      (scanner.answers requests).2.trivia.toList =
        scanner.trivia.toList ++ pieces.filterMap Piece.trivia? ∧
      (scanner.answers requests).2.problems.toList =
        scanner.problems.toList ++ pieces.flatMap Piece.problems := by
  induction requests generalizing scanner before with
  | nil => exact ⟨[], before, .nil, nofun, h, rfl, by simp [answers], by simp [answers]⟩
  | cons request rest ih =>
      obtain ⟨pieces, middle, hshared, hfrom, hcursor, htoken, htrivia, hproblems⟩ :=
        answer_pieces h request
      obtain ⟨others, after, hshared', hfrom', hcursor', htokens, htrivia', hproblems'⟩ := ih hcursor
      refine ⟨pieces ++ others, after, hshared.append hshared',
        List.forall_mem_append.mpr ⟨hfrom, hfrom'⟩, hcursor', ?_, ?_, ?_⟩
      · rw [List.filterMap_append, htoken, htokens]
        rfl
      · rw [List.filterMap_append, ← List.append_assoc, ← htrivia]
        exact htrivia'
      · rw [List.flatMap_append, ← List.append_assoc, ← hproblems]
        exact hproblems'

/-- The pieces of the answers share out what was passed. -/
theorem answers_shared (h : scanner.cursor.StandsBehind source before) (requests : List Request) :
    ∃ pieces after, Shared before pieces after ∧
      (scanner.answers requests).2.cursor.StandsBehind source after ∧
      pieces.filterMap Piece.token? = (scanner.answers requests).1 ∧
      (scanner.answers requests).2.trivia.toList =
        scanner.trivia.toList ++ pieces.filterMap Piece.trivia? ∧
      (scanner.answers requests).2.problems.toList =
        scanner.problems.toList ++ pieces.flatMap Piece.problems := by
  obtain ⟨pieces, after, hshared, -, hanswers⟩ := answers_pieces h requests
  exact ⟨pieces, after, hshared, hanswers⟩

/-- Behind the end of the file nothing is left, whatever is asked for next. -/
theorem answers_rest_nil (requests : List Request) :
    (scanner.cursor.rest = [] → (scanner.answers requests).2.cursor.rest = []) ∧
      ∀ token ∈ (scanner.answers requests).1, token.kind = .endOfFile →
        (scanner.answers requests).2.cursor.rest = [] := by
  induction requests generalizing scanner with
  | nil => exact ⟨id, nofun⟩
  | cons request rest ih =>
      obtain ⟨hstays, hends⟩ := @ih (scanner.answer request).2
      refine ⟨fun hnone => hstays ?_, fun token hmem hkind => ?_⟩
      · cases request with
        | next => exact Cursor.rest_next_of_rest_nil hnone
        | restOfLine => exact Cursor.rest_restOfLine_of_rest_nil hnone
      · rcases List.mem_cons.mp hmem with rfl | hmem
        · apply hstays
          cases request with
          | next => exact (Cursor.next_of_endOfFile hkind).1
          | restOfLine => cases hkind
        · exact hends token hmem hkind

end Scanner

/-! ## The main result -/

theorem Piece.rejected_of_none {piece : Piece} (htoken : piece.token? = none)
    (htrivia : piece.trivia? = none) : piece.kind = .rejected := by
  revert htoken htrivia
  unfold Piece.token? Piece.trivia?
  cases piece.kind with
  | token kind => exact nofun
  | trivia kind => exact nofun
  | rejected => exact fun _ _ => rfl

/-- The text of a rejected piece is one character, and a problem of the piece points at it. -/
theorem Shared.rejected {source : String} {after : List Char} {pieces : List Piece}
    (h : Shared [] pieces after) (hafter : after <+: source.toList) {piece : Piece}
    (hmem : piece ∈ pieces) (hkind : piece.kind = .rejected) :
    (piece.span.textIn source).length = 1 ∧ ∃ problem ∈ piece.problems, problem.span = piece.span := by
  obtain ⟨first, text, -, hlast, hspan, hgap⟩ := h.text_of_mem hmem
  obtain ⟨rest, hrest⟩ := hlast.trans hafter
  obtain ⟨hlength, hproblem⟩ := hgap hkind
  refine ⟨?_, hproblem⟩
  rw [hspan, ← String.ofList_toList (s := source), ← hrest, Span.textIn_between,
    String.length_ofList, hlength]

/-- A scanner whose pieces share out the text in front of it has lost nothing. -/
theorem Scanner.keeps_of_shared {source : String} {scanner : Scanner} {tokens : List Token}
    {after : List Char} {pieces : List Piece} (h : Shared [] pieces after)
    (hcursor : scanner.cursor.StandsBehind source.toList after)
    (htokens : pieces.filterMap Piece.token? = tokens)
    (htrivia : pieces.filterMap Piece.trivia? = scanner.trivia.toList)
    (hproblems : pieces.flatMap Piece.problems = scanner.problems.toList) :
    scanner.Keeps source tokens pieces := by
  have hafter : after <+: source.toList := ⟨_, hcursor.source.symm⟩
  have hsource : source = String.ofList (after ++ scanner.cursor.rest) := by
    rw [← hcursor.source, String.ofList_toList]
  refine ⟨htokens, htrivia, ?_, h.pairwise, ?_, ?_, ?_, ?_⟩
  · intro piece hmem
    exact (h.liesIn_of_mem hafter hmem).pointsInto
  · intro piece hmem
    rw [hcursor.offset]
    exact (h.start_of_mem hmem).2
  · intro offset hoffset
    rw [hcursor.offset] at hoffset
    exact h.exists_of_offset (Nat.zero_le _) hoffset
  · intro piece hmem htoken htrivia
    obtain ⟨hlength, problem, hproblem, hspan⟩ :=
      h.rejected hafter hmem (Piece.rejected_of_none htoken htrivia)
    refine ⟨hlength, problem, ?_, hspan⟩
    rw [← Array.mem_toList_iff, ← hproblems]
    exact List.mem_flatMap.mpr ⟨piece, hmem, hproblem⟩
  · have hjoin := h.join_textIn scanner.cursor.rest
    have htext := Span.textIn_between [] after scanner.cursor.rest
    rw [List.nil_append, ← hsource, Span.between, Position.start_after after, ← hcursor.offset]
      at htext
    rw [← hsource] at hjoin
    exact (String.empty_append.symm.trans hjoin).trans htext.symm

/-- **A scanner loses nothing.**  Whatever it is asked for, the tokens it has given and the trivia
it has recorded share out the source up to its place with single characters that were reported.
Once it has given the end of the file this is the whole source, which the texts of the pieces
rebuild; and if no problem was recorded, there are no pieces but tokens and trivia. -/
theorem scanner_keeps_source (source : String) (requests : List Request) :
    ∃ pieces,
      ((Scanner.ofSource source).answers requests).2.Keeps source
        ((Scanner.ofSource source).answers requests).1 pieces ∧
      ((∃ token ∈ ((Scanner.ofSource source).answers requests).1, token.kind = .endOfFile) →
        ((Scanner.ofSource source).answers requests).2.cursor.position.offset =
            source.utf8ByteSize ∧
          String.join (pieces.map (·.span.textIn source)) = source) ∧
      (((Scanner.ofSource source).answers requests).2.problems = #[] →
        ∀ piece ∈ pieces, piece.token?.isSome ∨ piece.trivia?.isSome) := by
  have hbegin : (Scanner.ofSource source).cursor.StandsBehind source.toList [] := .ofSource source
  obtain ⟨pieces, after, hshared, hcursor, htokens, htrivia, hproblems⟩ :=
    Scanner.answers_shared hbegin requests
  set scanner := ((Scanner.ofSource source).answers requests).2
  have hstart : Scanner.ofSource source = { cursor := .ofSource source } := rfl
  simp only [hstart, List.nil_append] at htrivia hproblems
  have hkeeps := Scanner.keeps_of_shared hshared hcursor htokens htrivia.symm hproblems.symm
  refine ⟨pieces, hkeeps, ?_, ?_⟩
  · rintro ⟨token, hmem, hkind⟩
    have hrest : scanner.cursor.rest = [] :=
      (Scanner.answers_rest_nil requests).2 token hmem hkind
    have hend : scanner.cursor.position.offset = source.utf8ByteSize := by
      rw [hcursor.offset, ← String.ofList_toList (s := source), hcursor.source, hrest,
        List.append_nil, Position.bytes]
    refine ⟨hend, hkeeps.rebuilt.trans ?_⟩
    rw [hend, Span.textIn_whole]
  · intro hnone piece hmem
    by_contra hneither
    rw [not_or, Option.not_isSome_iff_eq_none, Option.not_isSome_iff_eq_none] at hneither
    -- Such a piece was reported, but nothing was.
    obtain ⟨-, problem, hproblem, -⟩ := hkeeps.gaps piece hmem hneither.1 hneither.2
    rw [hnone] at hproblem
    exact Array.not_mem_empty problem hproblem

end ConfLang
