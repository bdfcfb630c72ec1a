import ConfLang.Proofs.Scanning.Rows
import ConfLang.Proofs.Writing.Literals
import Mathlib.Data.List.Nodup

/-!
# Directives and their lines

A percent sign begins a directive if and only if nothing but blank characters stands in front of it
on its line.  Any other percent sign is a part of quoted text, of a comment or of a passage, or it is
reported, once.  The line of a directive whose word is known ends in a token of its own, and no other
line feed is a token (`directives_scanned`).

## Strategy

Two flags carry this protocol.  Where the source is read token by token they say what the text of the
line says (`Cursor.KnowsLine`), so the piece that holds a percent sign or a line feed can be computed
from the text in front of it (`Cursor.Pieces.percent`, `Cursor.Pieces.lineFeed_held`), and no other
piece holds that character (`Shared.unique`).  When raw text is asked for in between, only one half of
it is kept: a line that is that of a directive is not at its start (`Cursor.IsTidy`).
-/

namespace ConfLang

open Text

/-! ## Kinds of tokens -/

namespace TokenKind

/-- Whether a token begins with the percent sign of a directive. -/
def isDirective : TokenKind → Bool
  | passage _ => true
  | kind => kind.startsDirectiveLine

/-- Whether a token has a text in which any characters of a line may stand. -/
def isText : TokenKind → Bool
  | name _ true | string _ | passage _ => true
  | _ => false

theorem isDirective_of_isSimple {kind : TokenKind} (h : kind.isSimple = true) :
    kind.isDirective = false := by
  cases kind with
  | name text quoted => rfl
  | _ => first | rfl | cases h

end TokenKind

/-! ## Percent signs and line feeds -/

namespace Lexeme

variable {mode : LineMode} {first : Char} {rest : List Char} {kind : TokenKind}

theorem isDirective_readDirective (rest : List Char) :
    ∃ kind, (readDirective rest).kind = .token kind ∧ kind.isDirective = true := by
  rcases readDirective_cases rest with ⟨_, kind, _, hdirective, hword⟩ | ⟨_, _, hword⟩
  · have hstarts := startsDirectiveLine_of_ofDirective? hdirective
    refine ⟨kind, congrArg Lexeme.kind hword, ?_⟩
    cases kind <;> first | rfl | cases hstarts
  · exact ⟨_, congrArg Lexeme.kind hword, rfl⟩

/-- Only a percent sign that nothing but blank characters precede begins a directive. -/
theorem percent_of_isDirective (h : (read mode first rest).kind = .token kind)
    (hdirective : kind.isDirective = true) : first = '%' ∧ mode.atStart = true := by
  have hsimple (hsimple : kind.isSimple = true) : first = '%' ∧ mode.atStart = true := by
    rw [TokenKind.isDirective_of_isSimple hsimple] at hdirective
    cases hdirective
  revert h
  refine read_cases (P := fun lexeme => lexeme.kind = .token kind → first = '%' ∧ mode.atStart = true)
    ?spacing ?lineFeed ?comment ?quoted ?number ?word ?percent ?symbol
  case spacing | comment => exact fun _ => nofun
  case lineFeed =>
    intro _
    split
    · rintro ⟨⟩
      cases hdirective
    · exact nofun
  case quoted =>
    intro quote _
    cases quote <;> (rintro ⟨⟩; cases hdirective)
  case number => exact fun _ h => hsimple (isSimple_readNumber h)
  case word => exact fun _ h => hsimple (isSimple_readWord h)
  case percent =>
    intro hfirst
    split
    · rename_i hmode
      exact fun _ => ⟨hfirst, (Bool.and_eq_true_iff.mp hmode).1⟩
    · exact nofun
  case symbol => exact fun h => hsimple (isSimple_readSymbol h)

/-- Only a line feed on the line of a directive is a token. -/
theorem lineFeed_of_endOfLine (h : (read mode first rest).kind = .token .endOfLine) :
    first = '\n' := by
  revert h
  refine read_cases (P := fun lexeme => lexeme.kind = .token .endOfLine → first = '\n')
    ?spacing ?lineFeed ?comment ?quoted ?number ?word ?percent ?symbol
  case spacing | comment => exact fun _ => nofun
  case lineFeed => exact fun hfirst _ => hfirst
  case quoted =>
    intro quote _
    cases quote <;> exact nofun
  case number =>
    intro _ h
    cases isSimple_readNumber h
  case word =>
    intro _ h
    cases isSimple_readWord h
  case percent =>
    intro _
    split
    · obtain ⟨kind, hkind, hdirective⟩ := isDirective_readDirective rest
      rw [hkind]
      rintro ⟨⟩
      cases hdirective
    · exact nofun
  case symbol =>
    intro h
    cases isSimple_readSymbol h

theorem Numeral.percent_not_mem (hfirst : first.isDigit = true) :
    '%' ∉ (Numeral.read first rest).text := by
  have hdigits {digits : List Char} (h : ∀ digit ∈ digits, digit.isDigit = true) : '%' ∉ digits :=
    fun hmem => absurd (h _ hmem) (by decide)
  have htail : '%' ∉ (Numeral.read first rest).tail := by
    obtain ⟨after, htail⟩ := tail_eq first rest
    rw [htail]
    exact fun hmem => absurd (List.mem_takeWhile_imp hmem) (by decide)
  have hwhole : '%' ∉ (Numeral.read first rest).whole := hdigits (isDigit_of_mem_whole hfirst)
  by_cases hnone : (Numeral.read first rest).fraction = []
  · rw [text_of_whole _ hnone]
    simp [hwhole, htail]
  · rw [text_of_fraction _ hnone]
    simp [hwhole, htail, hdigits isDigit_of_mem_fraction]

/-- A percent sign behind the first character of a lexeme is a part of quoted text, of a comment or
of a passage. -/
theorem text_of_percent (h : '%' ∈ rest.take (read mode first rest).further) :
    (read mode first rest).kind = .trivia .comment ∨
      ∃ kind, (read mode first rest).kind = .token kind ∧ kind.isText = true := by
  -- Neither letters and digits nor the second characters of symbols are percent signs.
  have hletters {p : Char → Bool} (hpercent : p '%' = false)
      (h : '%' ∈ rest.take (rest.takeWhile p).length) : False := by
    rw [← List.prefix_iff_eq_take.mp (List.takeWhile_prefix p)] at h
    rw [List.mem_takeWhile_imp h] at hpercent
    cases hpercent
  have hsecond {second : Char} (h : rest.head? = some second) (hne : '%' ≠ second) :
      '%' ∉ rest.take 1 := by
    obtain ⟨tail, rfl⟩ := List.head?_eq_some_iff.mp h
    simpa using hne
  revert h
  refine read_cases (P := fun lexeme => '%' ∈ rest.take lexeme.further →
      lexeme.kind = .trivia .comment ∨ ∃ kind, lexeme.kind = .token kind ∧ kind.isText = true)
    ?spacing ?lineFeed ?comment ?quoted ?number ?word ?percent ?symbol
  case spacing => exact fun _ h => (hletters (p := isSpacing) (by decide) h).elim
  case lineFeed =>
    intro _
    split <;> (intro h; simp [ofToken] at h)
  case comment => exact fun _ _ => .inl rfl
  case quoted =>
    intro quote _ _
    cases quote <;> exact .inr ⟨_, rfl, rfl⟩
  case number =>
    intro hdigit h
    exact absurd (Numeral.text_eq_take first rest ▸ List.mem_cons_of_mem first h)
      (Numeral.percent_not_mem hdigit)
  case word =>
    refine fun _ h => (hletters (p := isWordPart) (by decide) ?_).elim
    revert h
    unfold readWord
    simp only
    split <;> exact id
  case percent =>
    intro _
    split
    · unfold readDirective
      simp only
      split
      · exact fun h => (hletters (p := isWordPart) (by decide) h).elim
      · exact fun _ => .inr ⟨_, rfl, rfl⟩
    · exact fun h => absurd h List.not_mem_nil
  case symbol =>
    unfold readSymbol readPaired readDoubled
    split <;> split
    all_goals first
      | exact fun h => absurd h (hsecond ‹_› (by decide))
      | exact fun h => absurd h List.not_mem_nil

end Lexeme

/-! ## Pieces that hold a character -/

theorem Piece.of_trivia? {piece : Piece} {trivia : Trivia} (h : piece.trivia? = some trivia) :
    piece.kind = .trivia trivia.kind ∧ piece.span = trivia.span := by
  unfold trivia? at h
  split at h
  · rename_i hkind
    obtain rfl := Option.some.inj h
    exact ⟨hkind, rfl⟩
  · cases h

namespace Shared

variable {source before after : List Char} {pieces : List Piece} {piece other : Piece}

/-- No two pieces hold the same byte. -/
theorem unique (h : Shared before pieces after) (hmem : piece ∈ pieces) (hother : other ∈ pieces)
    {offset : Nat} (hpiece : piece.span.start ≤ offset ∧ offset < piece.span.stop)
    (hheld : other.span.start ≤ offset ∧ offset < other.span.stop) : other = piece := by
  induction h with
  | nil => cases hmem
  | @cons before text after found pieces hspan hgap hrest ih =>
      have hapart := (List.pairwise_cons.mp (Shared.cons hspan hgap hrest).pairwise).1
      rcases List.mem_cons.mp hmem with rfl | hbehind
      · rcases List.mem_cons.mp hother with rfl | hbehind
        · rfl
        · have := hapart other hbehind
          omega
      · rcases List.mem_cons.mp hother with rfl | hbehind'
        · have := hapart piece hbehind
          omega
        · exact ih hbehind hbehind'

end Shared

namespace Cursor

variable {source : String} {before rest start inside : List Char} {pieces first : List Piece}
  {last place next : Cursor} {piece : Piece}

/-- A place that a row of the source leads to knows its line. -/
theorem Pieces.knowsLine_of_source (h : (ofSource source).Pieces first place)
    (hplace : place.StandsBehind source.toList start) : place.KnowsLine start := by
  have hbegin : source.toList = [] ++ (ofSource source).rest := rfl
  obtain ⟨after, hsource, hknows⟩ := h.knowsLine hbegin (.ofSource source)
  rwa [hplace.unique hsource] at hknows

/-- In front of a line feed the mode says whether the line is that of a directive. -/
theorem KnowsLine.isDirective_of_line (h : place.KnowsLine before) (hline : line place.rest = []) :
    place.mode.isDirective = endsInDirective before := by
  rw [h.isDirective, hline, h.atStart, endsInDirective, List.append_nil]
  cases hblank : (Position.lastLine before).all isBlank with
  | false => simp
  | true => rw [isDirectiveLine_of_blank hblank, Bool.not_true, Bool.false_and]

/-- A character that comes first on its line but for blank ones is the first one of its piece. -/
theorem Holds.inside_eq_nil (h : Holds source.toList start inside '%' place piece next)
    (hblank : (Position.lastLine (start ++ inside)).all isBlank = true) : inside = [] := by
  obtain ⟨-, -, first, rest, hrest, hpart⟩ := h
  cases inside with
  | nil => rfl
  | cons other inside =>
      obtain ⟨rfl, hpart⟩ := List.cons_prefix_cons.mp hpart
      have hmem := hpart.subset (List.mem_append_right inside (List.mem_singleton_self '%'))
      by_cases hfeed : other = '\n'
      · subst hfeed
        have hread : (Lexeme.read place.mode '\n' rest).further = 0 := by
          rw [Lexeme.read, if_neg (by decide), if_pos rfl]
          split <;> rfl
        rw [hread] at hmem
        cases hmem
      · -- The piece begins on the same line, so it begins with a blank character.
        have hline : '\n' ∉ other :: inside := by
          rw [List.mem_cons, not_or]
          exact ⟨Ne.symm hfeed, fun hfeed => Lexeme.not_mem_take_further _ _ _
            (hpart.subset (List.mem_append_left _ hfeed))⟩
        rw [lastLine_append hline, List.all_append, Bool.and_eq_true, List.all_cons,
          Bool.and_eq_true] at hblank
        have hall := @Lexeme.all_isBlank_read place.mode _ rest hblank.2.1 hfeed
        rw [List.all_eq_true] at hall
        exact absurd (hall '%' (List.mem_cons_of_mem _ hmem)) (by decide)

theorem Holds.contains {character : Char}
    (h : Holds source.toList start inside character place piece next) :
    piece.span.start ≤ Position.bytes (start ++ inside) ∧
      Position.bytes (start ++ inside ++ [character]) ≤ piece.span.stop := by
  obtain ⟨hplace, hfound, first, rest, hrest, hpart⟩ := h
  obtain ⟨first', rest', hrest', -, rfl⟩ := hplace.behind_piece? hfound
  obtain ⟨rfl, rfl⟩ := List.cons.inj (hrest.symm.trans hrest')
  rw [Span.between, Position.start_after, Position.start_after, List.append_assoc]
  exact ⟨Position.bytes_le_of_prefix (List.prefix_append _ _),
    Position.bytes_le_of_prefix ((List.prefix_append_right_inj _).mpr hpart)⟩

/-- What the piece is that holds a percent sign. -/
inductive HoldsPercent (before : List Char) (piece : Piece) : Prop where
  | directive (kind : TokenKind) : (Position.lastLine before).all isBlank = true →
    piece.kind = .token kind → kind.isDirective = true → piece.faults = [] →
    piece.span.start = Position.bytes before → HoldsPercent before piece
  | stray : (Position.lastLine before).all isBlank = false →
    piece = ⟨.rejected, .ofCharacter .start before '%', [.strayPercent]⟩ →
    HoldsPercent before piece
  | text : (Position.lastLine before).all isBlank = false →
    (piece.kind = .trivia .comment ∨ ∃ kind, piece.kind = .token kind ∧ kind.isText = true) →
    piece.span.start < Position.bytes before → HoldsPercent before piece

theorem Holds.percent (h : Holds source.toList start inside '%' place piece next)
    (hknows : place.KnowsLine start) : HoldsPercent (start ++ inside) piece := by
  have hinside := h.inside_eq_nil
  obtain ⟨hplace, hfound, first, rest, hrest, hpart⟩ := h
  obtain ⟨first', rest', hrest', -, rfl⟩ := hplace.behind_piece? hfound
  obtain ⟨rfl, rfl⟩ := List.cons.inj (hrest.symm.trans hrest')
  -- Behind blank characters only, the sign begins a directive.  Anywhere else it is a stray one, or
  -- it stands inside of a lexeme.
  cases hblank : (Position.lastLine (start ++ inside)).all isBlank with
  | true =>
      obtain rfl := hinside hblank
      obtain ⟨rfl, -⟩ := List.cons_prefix_cons.mp hpart
      rw [List.append_nil] at hblank ⊢
      have hmode : (place.mode.atStart && !place.mode.isDirective) = true := by
        rw [hknows.isDirective, hknows.atStart, hblank]
        rfl
      have hread : Lexeme.read place.mode '%' rest = Lexeme.readDirective rest := by
        rw [Lexeme.read_percent, if_pos hmode]
      obtain ⟨kind, hkind, hdirective⟩ := Lexeme.isDirective_readDirective rest
      rw [hread]
      refine .directive kind hblank hkind hdirective (Lexeme.faults_readDirective rest) ?_
      rw [Span.between, Position.start_after]
  | false =>
      cases inside with
      | nil =>
          obtain ⟨rfl, -⟩ := List.cons_prefix_cons.mp hpart
          rw [List.append_nil] at hblank ⊢
          have hmode : (place.mode.atStart && !place.mode.isDirective) = false := by
            rw [hknows.atStart, hblank]
            rfl
          have hread : Lexeme.read place.mode '%' rest = Lexeme.reject .strayPercent := by
            rw [Lexeme.read_percent, hmode]
            rfl
          refine .stray hblank ?_
          rw [hread, Lexeme.reject, List.take_zero, Position.after_append]
          rfl
      | cons other inside =>
          obtain ⟨rfl, hpart⟩ := List.cons_prefix_cons.mp hpart
          have hmem := hpart.subset (List.mem_append_right inside (List.mem_singleton_self '%'))
          refine .text hblank (Lexeme.text_of_percent hmem) ?_
          have hpos := other.utf8Size_pos
          rw [Span.between, Position.start_after, Position.bytes_append, Position.bytes_cons]
          simp only
          omega

/-- A line feed is a piece for itself, which is a token if and only if the line is that of a
directive. -/
theorem Holds.lineFeed (h : Holds source.toList start inside '\n' place piece next)
    (hknows : place.KnowsLine start) : inside = [] ∧
      piece = ⟨if endsInDirective start then .token .endOfLine else .trivia .newline,
        .ofCharacter .start start '\n', []⟩ := by
  obtain ⟨hplace, hfound, first, rest, hrest, hpart⟩ := h
  cases inside with
  | nil =>
      obtain ⟨rfl, -⟩ := List.cons_prefix_cons.mp hpart
      have hline : line place.rest = [] := by rw [hrest]; rfl
      rw [piece?_lineFeed hrest, hknows.isDirective_of_line hline, hplace.position] at hfound
      exact ⟨rfl, (Prod.mk.inj (Option.some.inj hfound)).1.symm⟩
  | cons other inside =>
      obtain ⟨rfl, hpart⟩ := List.cons_prefix_cons.mp hpart
      exact absurd (hpart.subset (List.mem_append_right inside (List.mem_singleton_self '\n')))
        (Lexeme.not_mem_take_further _ _ _)

end Cursor

/-! ## The tokens of a source -/

/-- A byte of a source lies inside of quoted text, of a passage or of a comment. -/
def Scanner.Hides (tokens : List Token) (scanner : Scanner) (offset : Nat) : Prop :=
  (∃ token ∈ tokens, token.kind.isText = true ∧
    token.span.start < offset ∧ offset < token.span.stop) ∨
  ∃ trivia ∈ scanner.trivia, trivia.kind = .comment ∧
    trivia.span.start < offset ∧ offset < trivia.span.stop

/-- What the tokens of a source and the scanner behind them have to do with the row of pieces of the
source. -/
structure Scanner.Shows (source : String) (tokens : List Token) (scanner : Scanner)
    (pieces : List Piece) : Prop where
  shared : Shared [] pieces source.toList
  read : ∀ piece ∈ pieces, piece.IsReadIn source.toList
  tokens : ∃ span, tokens = pieces.filterMap Piece.token? ++ [⟨.endOfFile, span⟩]
  trivia : scanner.trivia.toList = pieces.filterMap Piece.trivia?
  problems : scanner.problems.toList = pieces.flatMap Piece.problems
  holds : ∀ before character rest, source.toList = before ++ character :: rest →
    ∃ piece ∈ pieces, ∃ place next start inside, Cursor.KnowsLine start place ∧
      Cursor.Holds source.toList start inside character place piece next ∧ before = start ++ inside
  placed : ∀ piece ∈ pieces, ∃ place next start, Cursor.KnowsLine start place ∧
    Cursor.StandsBehind source.toList start place ∧ place.piece? = some (piece, next)

theorem Scanner.exists_shows (source : String) : ∃ pieces,
    Scanner.Shows source (Scanner.ofSource source).tokens.1 (Scanner.ofSource source).tokens.2
      pieces := by
  obtain ⟨pieces, last, hrow, hlast⟩ := Cursor.Pieces.exists_of_cursor (.ofSource source)
  obtain ⟨htokens, htrivia, hproblems⟩ := Scanner.tokens_of_pieces hrow hlast
  have hbegin : (Cursor.ofSource source).StandsBehind source.toList [] := .ofSource source
  obtain ⟨after, hshared, hbehind, hread⟩ := hrow.shared hbegin
  obtain rfl : after = source.toList := by
    rw [hbehind.source, hlast, List.append_nil]
  refine ⟨pieces, hshared, hread, ⟨_, htokens⟩, htrivia, hproblems, ?_, fun piece hmem => ?_⟩
  · intro before character rest hsource
    obtain ⟨piece, hmem, first, place, next, start, inside, hfirst, hholds, -, hbefore⟩ :=
      hrow.exists_holds hbegin hsource List.nil_prefix hbehind (by simp [hsource])
    exact ⟨piece, hmem, place, next, start, inside, hfirst.knowsLine_of_source hholds.behind, hholds,
      hbefore⟩
  · obtain ⟨first, place, next, hfirst, hfound⟩ := hrow.exists_place hmem
    obtain ⟨start, -, hplace, -⟩ := hfirst.shared hbegin
    exact ⟨place, next, start, hfirst.knowsLine_of_source hplace, hplace, hfound⟩

namespace Scanner.Shows

variable {source : String} {tokens : List Token} {scanner : Scanner} {pieces : List Piece}
  {before rest : List Char}

theorem start_lt_stop (h : Shows source tokens scanner pieces) {piece : Piece}
    (hmem : piece ∈ pieces) : piece.span.start < piece.span.stop :=
  (h.read piece hmem).start_lt_stop

/-- A token that is not the end of the file is a piece. -/
theorem exists_piece (h : Shows source tokens scanner pieces) {token : Token}
    (hmem : token ∈ tokens) (hkind : token.kind ≠ .endOfFile) :
    ∃ piece ∈ pieces, piece.kind = .token token.kind ∧ piece.span = token.span := by
  obtain ⟨span, htokens⟩ := h.tokens
  rw [htokens, List.mem_append] at hmem
  rcases hmem with hmem | hmem
  · obtain ⟨piece, hpiece, htoken⟩ := List.mem_filterMap.mp hmem
    exact ⟨piece, hpiece, Cursor.kind_of_token? htoken, (Piece.span_of_token? htoken).symm⟩
  · rw [List.mem_singleton.mp hmem] at hkind
    exact absurd rfl hkind

theorem mem_tokens (h : Shows source tokens scanner pieces) {piece : Piece} {kind : TokenKind}
    (hmem : piece ∈ pieces) (hkind : piece.kind = .token kind) : ⟨kind, piece.span⟩ ∈ tokens := by
  obtain ⟨span, htokens⟩ := h.tokens
  rw [htokens]
  exact List.mem_append_left _ (List.mem_filterMap.mpr ⟨piece, hmem, by rw [Piece.token?, hkind]⟩)

/-- One piece holds a percent sign, and no other. -/
theorem percent (h : Shows source tokens scanner pieces)
    (hsource : source.toList = before ++ '%' :: rest) :
    ∃ piece ∈ pieces, Cursor.HoldsPercent before piece ∧
      (piece.span.start ≤ Position.bytes before ∧
        Position.bytes (before ++ ['%']) ≤ piece.span.stop) ∧
      ∀ other ∈ pieces, other.span.start ≤ Position.bytes before →
        Position.bytes before < other.span.stop → other = piece := by
  obtain ⟨piece, hmem, place, next, start, inside, hknows, hholds, rfl⟩ := h.holds _ _ _ hsource
  have hcontains := hholds.contains
  have hlt : Position.bytes (start ++ inside) < piece.span.stop := by
    have hpos := Position.bytes_append (start ++ inside) ['%']
    have hone : Position.bytes ['%'] = 1 := by decide
    omega
  exact ⟨piece, hmem, hholds.percent hknows, hcontains, fun other hother hle hlt' =>
    h.shared.unique hmem hother ⟨hcontains.1, hlt⟩ ⟨hle, hlt'⟩⟩

/-- A percent sign begins a directive if and only if nothing but blank characters stands in front of
it on its line. -/
theorem directive_iff (h : Shows source tokens scanner pieces)
    (hsource : source.toList = before ++ '%' :: rest) :
    (∃ token ∈ tokens, token.kind.isDirective = true ∧ token.span.start = Position.bytes before) ↔
      (Position.lastLine before).all isBlank = true := by
  obtain ⟨piece, hmem, hpercent, -, hunique⟩ := h.percent hsource
  constructor
  · rintro ⟨token, htoken, hdirective, hstart⟩
    obtain ⟨other, hother, hkind, hspan⟩ := h.exists_piece htoken fun hend => by
      rw [hend] at hdirective
      cases hdirective
    rw [← hspan] at hstart
    have hlt := h.start_lt_stop hother
    obtain rfl := hunique other hother hstart.le (hstart ▸ hlt)
    cases hpercent with
    | directive kind hblank => exact hblank
    | stray _ hpiece =>
        rw [hpiece] at hkind
        cases hkind
    | text _ _ hinside => omega
  · intro hblank
    cases hpercent with
    | directive kind _ hkind hdirective _ hstart =>
        exact ⟨⟨kind, piece.span⟩, h.mem_tokens hmem hkind, hdirective, hstart⟩
    | stray hnot | text hnot =>
        rw [hblank] at hnot
        cases hnot

/-- Every directive begins with a percent sign. -/
theorem percent_of_directive (h : Shows source tokens scanner pieces) {token : Token}
    (hmem : token ∈ tokens) (hdirective : token.kind.isDirective = true) :
    ∃ before rest, source.toList = before ++ '%' :: rest ∧
      token.span.start = Position.bytes before := by
  obtain ⟨piece, hpiece, hkind, hspan⟩ := h.exists_piece hmem fun hend => by
    rw [hend] at hdirective
    cases hdirective
  obtain ⟨place, next, start, -, hplace, hfound⟩ := h.placed piece hpiece
  obtain ⟨first, rest, hrest, -, rfl⟩ := hplace.behind_piece? hfound
  obtain ⟨rfl, -⟩ := Lexeme.percent_of_isDirective hkind hdirective
  refine ⟨start, rest, by rw [hplace.source, hrest], ?_⟩
  rw [← hspan, Span.between, Position.start_after]

/-- What hides a byte is a piece around it. -/
theorem hides_iff (h : Shows source tokens scanner pieces) {offset : Nat} :
    scanner.Hides tokens offset ↔ ∃ piece ∈ pieces,
      (piece.kind = .trivia .comment ∨ ∃ kind, piece.kind = .token kind ∧ kind.isText = true) ∧
        piece.span.start < offset ∧ offset < piece.span.stop := by
  constructor
  · rintro (⟨token, htoken, htext, hlt⟩ | ⟨trivia, htrivia, hcomment, hlt⟩)
    · obtain ⟨piece, hmem, hkind, hspan⟩ := h.exists_piece htoken fun hend => by
        rw [hend] at htext
        cases htext
      exact ⟨piece, hmem, .inr ⟨_, hkind, htext⟩, hspan ▸ hlt⟩
    · rw [← Array.mem_toList_iff, h.trivia, List.mem_filterMap] at htrivia
      obtain ⟨piece, hmem, htrivia⟩ := htrivia
      obtain ⟨hkind, hspan⟩ := Piece.of_trivia? htrivia
      exact ⟨piece, hmem, .inl (hcomment ▸ hkind), hspan ▸ hlt⟩
  · rintro ⟨piece, hmem, hkind | ⟨kind, hkind, htext⟩, hlt⟩
    · refine .inr ⟨⟨.comment, piece.span⟩, ?_, rfl, hlt⟩
      rw [← Array.mem_toList_iff, h.trivia, List.mem_filterMap]
      exact ⟨piece, hmem, by rw [Piece.trivia?, hkind]⟩
    · exact .inl ⟨⟨kind, piece.span⟩, h.mem_tokens hmem hkind, htext, hlt⟩

/-- Whatever is said about a piece is said about its beginning, so nothing is said about what stands
behind that in the piece. -/
theorem problemsIn_inside (h : Shows source tokens scanner pieces) {piece : Piece} {span : Span}
    (hmem : piece ∈ pieces) (hstart : piece.span.start < span.start)
    (hstop : span.stop ≤ piece.span.stop) : scanner.problemsIn span = [] := by
  rw [problemsIn, List.filter_eq_nil_iff, h.problems]
  intro problem hproblem
  obtain ⟨other, hother, hproblem⟩ := List.mem_flatMap.mp hproblem
  rw [Piece.start_of_mem_problems hproblem, decide_eq_true_eq]
  rintro ⟨hfirst, hlast⟩
  have hheld := h.start_lt_stop hother
  obtain rfl := h.shared.unique hmem hother ⟨hstart.le.trans hfirst, hlast.trans_le hstop⟩
    ⟨Nat.le_refl _, hheld⟩
  omega

/-- A percent sign that begins no directive is hidden, or it is reported once. -/
theorem problemsIn_percent (h : Shows source tokens scanner pieces)
    (hsource : source.toList = before ++ '%' :: rest) :
    ((Position.lastLine before).all isBlank = false → ¬scanner.Hides tokens (Position.bytes before) →
      scanner.problemsIn (.ofCharacter .start before '%') =
        [⟨.strayPercent, .ofCharacter .start before '%'⟩]) ∧
    ((Position.lastLine before).all isBlank = true ∨ scanner.Hides tokens (Position.bytes before) →
      scanner.problemsIn (.ofCharacter .start before '%') = []) := by
  obtain ⟨piece, hmem, hpercent, ⟨hle, hle'⟩, hunique⟩ := h.percent hsource
  have hfrom : ∀ piece ∈ pieces, piece.ComesFrom source.toList := fun piece hmem =>
    .inl (h.read piece hmem)
  have hheld : scanner.problemsIn piece.span = piece.problems :=
    problemsIn_piece h.shared hfrom h.problems hmem (h.read piece hmem)
  obtain ⟨hstart, hstop⟩ : (Span.ofCharacter .start before '%').start = Position.bytes before ∧
      (Span.ofCharacter .start before '%').stop = Position.bytes (before ++ ['%']) :=
    ((Cursor.StandsBehind.ofSource source).ofCharacter before '%').2
  rw [h.hides_iff]
  cases hpercent with
  | directive kind hblank _ _ hfaults =>
      have hnone : piece.problems = [] := by rw [Piece.problems, hfaults]; rfl
      refine ⟨fun hnot => ?_, fun _ => ?_⟩
      · rw [hblank] at hnot
        cases hnot
      · exact problemsIn_eq_nil (hheld.trans hnone) (hle.trans hstart.ge) (hstop.le.trans hle')
  | stray hnot hpiece =>
      refine ⟨fun _ _ => by rwa [hpiece] at hheld, ?_⟩
      rintro (hblank | ⟨other, hother, hkind, hlt, hlt'⟩)
      · rw [hblank] at hnot
        cases hnot
      · -- What is hidden is held by a piece that is no rejected character.
        rw [hunique other hother hlt.le hlt', hpiece] at hkind
        rcases hkind with hkind | ⟨kind, hkind, -⟩ <;> cases hkind
  | text _ hkind hlt =>
      have hlt' : Position.bytes before < piece.span.stop := by
        have hone : Position.bytes ['%'] = 1 := by decide
        rw [Position.bytes_append] at hle'
        omega
      exact ⟨fun _ hshown => absurd ⟨piece, hmem, hkind, hlt, hlt'⟩ hshown,
        fun _ => h.problemsIn_inside hmem (hlt.trans_eq hstart.symm) (hstop.trans_le hle')⟩

/-! ### Ends of lines -/

/-- The spans of tokens that are pieces begin in increasing order. -/
theorem pairwise (h : Shows source tokens scanner pieces) :
    pieces.Pairwise fun first second => first.span.start < second.span.start := by
  refine List.Pairwise.imp_of_mem (fun hfirst _ hle => ?_) h.shared.pairwise
  exact (h.start_lt_stop hfirst).trans_le hle

/-- A line feed is a token, once, if its line is that of a directive, and else it is none. -/
theorem count_lineFeed (h : Shows source tokens scanner pieces)
    (hsource : source.toList = before ++ '\n' :: rest) :
    tokens.count ⟨.endOfLine, .ofCharacter .start before '\n'⟩ =
      if endsInDirective before then 1 else 0 := by
  obtain ⟨piece, hmem, place, next, start, inside, hknows, hholds, rfl⟩ := h.holds _ _ _ hsource
  obtain ⟨rfl, hpiece⟩ := hholds.lineFeed hknows
  rw [List.append_nil] at hsource ⊢
  obtain ⟨span, htokens⟩ := h.tokens
  have hspan : piece.span = .ofCharacter .start start '\n' := congrArg Piece.span hpiece
  have hcount : ([⟨.endOfFile, span⟩] : List Token).count
      ⟨.endOfLine, .ofCharacter .start start '\n'⟩ = 0 := by simp
  rw [htokens, List.count_append, hcount, Nat.add_zero]
  split
  · rename_i hline
    rw [hline] at hpiece
    refine List.count_eq_one_of_mem ?_ (List.mem_filterMap.mpr ⟨piece, hmem, by rw [hpiece]; rfl⟩)
    rw [List.Nodup, List.pairwise_filterMap]
    refine h.pairwise.imp fun hlt token htoken token' htoken' heq => ?_
    rw [← Piece.span_of_token? htoken, ← Piece.span_of_token? htoken', heq] at hlt
    exact Nat.lt_irrefl _ hlt
  · rename_i hline
    rw [if_neg hline] at hpiece
    rw [List.count_eq_zero]
    intro htoken
    obtain ⟨other, hother, htoken⟩ := List.mem_filterMap.mp htoken
    have hspan' : other.span = piece.span := by
      rw [hspan]
      exact (Piece.span_of_token? htoken).symm
    have hlt := h.start_lt_stop hother
    obtain rfl := h.shared.unique hmem hother (hspan' ▸ ⟨Nat.le_refl _, hlt⟩) ⟨Nat.le_refl _, hlt⟩
    rw [hpiece] at htoken
    cases htoken

/-- Every end of a line that is a token is a line feed. -/
theorem lineFeed_of_endOfLine (h : Shows source tokens scanner pieces) {token : Token}
    (hmem : token ∈ tokens) (hkind : token.kind = .endOfLine) :
    ∃ before rest, source.toList = before ++ '\n' :: rest ∧
      token.span = .ofCharacter .start before '\n' := by
  obtain ⟨piece, hpiece, htoken, hspan⟩ := h.exists_piece hmem (by rw [hkind]; exact nofun)
  obtain ⟨place, next, start, -, hplace, hfound⟩ := h.placed piece hpiece
  obtain ⟨first, rest, hrest, -, hread⟩ := hplace.behind_piece? hfound
  rw [hread, hkind] at htoken
  obtain rfl := Lexeme.lineFeed_of_endOfLine htoken
  refine ⟨start, rest, by rw [hplace.source, hrest], ?_⟩
  rw [Cursor.piece?_lineFeed hrest, hplace.position] at hfound
  rw [← hspan, ← (Prod.mk.inj (Option.some.inj hfound)).1]
  rfl

end Scanner.Shows

/-! ## The two flags -/

namespace Cursor

variable {cursor after : Cursor} {piece : Piece}

/-- A line that is that of a directive is not at its start. -/
def IsTidy (cursor : Cursor) : Prop :=
  cursor.mode.isDirective = true → cursor.mode.atStart = false

theorem IsTidy.piece? (h : cursor.IsTidy) (hpiece : cursor.piece? = some (piece, after)) :
    after.IsTidy := by
  obtain ⟨first, rest, hrest, -⟩ := eq_of_piece? hpiece
  by_cases hfeed : first = '\n'
  · rw [hfeed] at hrest
    rw [piece?_lineFeed hrest] at hpiece
    obtain ⟨-, rfl⟩ := Prod.mk.inj (Option.some.inj hpiece)
    exact nofun
  · rw [piece?_of_rest hrest] at hpiece
    obtain ⟨-, rfl⟩ := Prod.mk.inj (Option.some.inj hpiece)
    have htext : '\n' ∉ first :: rest.take (Lexeme.read cursor.mode first rest).further := by
      rw [List.mem_cons, not_or]
      exact ⟨Ne.symm hfeed, Lexeme.not_mem_take_further _ _ _⟩
    simp only [IsTidy, atStart_modeAfter, Lexeme.isDirective_read hfeed]
    simp only [advance, hrest, Lexeme.width, List.take_succ_cons, foldl_startAfter htext]
    intro hline
    rcases Bool.or_eq_true_iff.mp hline with hline | hline
    · rw [h hline, Bool.false_and]
    · -- A percent sign was passed, so the line is no longer at its start.
      obtain rfl : first = '%' :=
        beq_iff_eq.mp (Bool.and_eq_true_iff.mp (Bool.and_eq_true_iff.mp hline).2).1
      exact Bool.and_false _

theorem IsTidy.next (h : cursor.IsTidy) : cursor.next.cursor.IsTidy := by
  fun_induction Cursor.next cursor with
  | case1 => exact fun hline => absurd hline Bool.false_ne_true
  | case2 cursor piece after hpiece => exact h.piece? hpiece
  | case3 cursor piece after hpiece htoken scan ih => exact ih (h.piece? hpiece)

theorem IsTidy.advance (h : cursor.IsTidy) {count : Nat} (hline : '\n' ∉ cursor.rest.take count) :
    (cursor.advance count).IsTidy := by
  intro hdirective
  rw [Cursor.advance, foldl_startAfter hline]
  exact Bool.and_eq_false_iff.mpr (.inl (h hdirective))

theorem IsTidy.rawLine (h : cursor.IsTidy) : cursor.rawLine.cursor.IsTidy := by
  have hspacing : '\n' ∉ cursor.rest.take cursor.spacing.length := by
    rw [spacing, ← List.prefix_iff_eq_take.mp (List.takeWhile_prefix isSpacing)]
    exact fun hmem => absurd (List.mem_takeWhile_imp hmem) (by decide)
  refine (h.advance hspacing).advance ?_
  generalize (cursor.advance cursor.spacing.length).rest = rest
  have htext : trimEnd (line rest) <+: rest :=
    (isPrefix_trimEnd _).trans (List.takeWhile_prefix _)
  rw [← List.prefix_iff_eq_take.mp htext]
  exact not_mem_trimEnd_line rest

end Cursor

theorem Scanner.isTidy_answers {scanner : Scanner} (h : scanner.cursor.IsTidy)
    (requests : List Request) : (scanner.answers requests).2.cursor.IsTidy := by
  induction requests generalizing scanner with
  | nil => exact h
  | cons request rest ih =>
      cases request with
      | next => exact @ih scanner.next.2 h.next
      | restOfLine => exact @ih scanner.restOfLine.2 h.rawLine

/-! ## The main result -/

/-- **Directives and their lines.**  In every source, a percent sign begins a token of a directive if
and only if nothing but blank characters stands in front of it on its line, and every such token
begins with one.  About any other percent sign exactly one problem is recorded, unless it lies inside
of quoted text, of a comment or of a passage; otherwise none is.  The line feed behind a text is a
token, and then exactly one, if and only if its line begins with the word of a directive that is
known; and no other token is the end of a line.  Whatever a scanner is asked for, it never takes the
start of a line for the line of a directive. -/
theorem directives_scanned (source : String) :
    let tokens := (Scanner.ofSource source).tokens.1
    let last := (Scanner.ofSource source).tokens.2
    (∀ before rest, source.toList = before ++ '%' :: rest →
      ((∃ token ∈ tokens, token.kind.isDirective = true ∧
          token.span.start = Position.bytes before) ↔
        (Position.lastLine before).all isBlank = true) ∧
      ((Position.lastLine before).all isBlank = false →
        ¬last.Hides tokens (Position.bytes before) →
        last.problemsIn (.ofCharacter .start before '%') =
          [⟨.strayPercent, .ofCharacter .start before '%'⟩]) ∧
      ((Position.lastLine before).all isBlank = true ∨ last.Hides tokens (Position.bytes before) →
        last.problemsIn (.ofCharacter .start before '%') = [])) ∧
    (∀ token ∈ tokens, token.kind.isDirective = true →
      ∃ before rest, source.toList = before ++ '%' :: rest ∧
        token.span.start = Position.bytes before) ∧
    (∀ before rest, source.toList = before ++ '\n' :: rest →
      tokens.count ⟨.endOfLine, .ofCharacter .start before '\n'⟩ =
        if endsInDirective before then 1 else 0) ∧
    (∀ token ∈ tokens, token.kind = .endOfLine →
      ∃ before rest, source.toList = before ++ '\n' :: rest ∧
        token.span = .ofCharacter .start before '\n') ∧
    ∀ requests, ((Scanner.ofSource source).answers requests).2.cursor.IsTidy := by
  intro tokens last
  obtain ⟨pieces, hshows⟩ := Scanner.exists_shows source
  refine ⟨fun before rest hsource => ⟨hshows.directive_iff hsource, hshows.problemsIn_percent hsource⟩,
    fun token hmem => hshows.percent_of_directive hmem,
    fun before rest hsource => hshows.count_lineFeed hsource,
    fun token hmem => hshows.lineFeed_of_endOfLine hmem, fun requests => ?_⟩
  exact @Scanner.isTidy_answers (.ofSource source) nofun requests

end ConfLang
