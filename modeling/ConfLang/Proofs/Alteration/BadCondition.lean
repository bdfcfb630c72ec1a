import ConfLang.Proofs.Alteration.ConditionLine
import ConfLang.Proofs.Alteration.Program
import ConfLang.Proofs.Grammar.Exact

/-!
# A bad condition stays on its line

Behind the word of a directive that opens a branch, the rest of the line may be anything.  If a
condition cannot be read from it, the branch is dropped, and for the directive that opens a block
the whole block: the statements in it, its other branches, and its `%endif`.  Everything else is
read as if nothing had happened, and all errors are on that line (`badCondition_parseWith`).

Nothing is asked of what stands on the line, but that the condition cannot be read
(`ConditionLine.Fails`).  A quote that is not closed, for example, is reported, but it is a string all
the same, so it may be the end of a condition, and then the block is kept.

The line is cut out of the tokens and out of the text of the source (`ConditionLine.Cut`).  In front
of the percent sign and behind the line feed, the two texts have the same tokens.  Between them no
reading takes the end of the line, whatever it finds there.
-/

namespace ConfLang

open Grammar

namespace Cursor

variable {cursor after behind last : Cursor} {token : Token} {ts first rest : List Token}

/-! ## Lines of directives -/

/-- Characters in front of the end of a line can be passed over. -/
theorem LineTo.advance (h : cursor.LineTo behind) {count : Nat}
    (hcount : count ≤ (Text.line cursor.rest).length) : (cursor.advance count).LineTo behind := by
  obtain ⟨text, hrest, hfeed, hposition⟩ := h.text
  have hline : Text.line cursor.rest = text := by
    rw [hrest, Text.line_append hfeed]
    exact List.append_nil _
  rw [hline] at hcount
  refine ⟨h.isDirective, ⟨text.drop count, ?_, fun hmem => hfeed (List.mem_of_mem_drop hmem), ?_⟩,
    h.mode⟩
  · rw [Cursor.advance, hrest, List.drop_append_of_le_length hcount]
  · rw [Cursor.advance, hrest, List.take_append_of_le_length hcount, ← Position.after_append,
      ← List.append_assoc, List.take_append_drop, hposition]

theorem LineTo.rawLine (h : cursor.LineTo behind) : cursor.rawLine.cursor.LineTo behind := by
  have hspacing : cursor.spacing.length ≤ (Text.line cursor.rest).length := by
    obtain ⟨text, hrest, hfeed, -⟩ := h.text
    rw [spacing, hrest, takeWhile_line _ rfl, Text.line_append hfeed, List.length_append]
    exact (List.takeWhile_prefix _).length_le.trans (Nat.le_add_right _ _)
  exact (h.advance hspacing).advance (Text.length_trimEnd_le _)

/-- Tokens that do not end a line leave it open. -/
theorem Walks.lineTo (h : cursor.Walks ts after) (hinside : ∀ token ∈ ts, token.kind ≠ .endOfLine)
    (hline : cursor.LineTo behind) : after.LineTo behind := by
  induction h with
  | nil => exact hline
  | token _ _ _ ih =>
      rw [List.forall_mem_cons] at hinside
      rcases hline.next.cursor with ⟨hend, -⟩ | ⟨-, -, hbehind⟩
      · exact absurd hend hinside.1
      · exact ih hinside.2 hbehind
  | text _ ih =>
      rw [List.forall_mem_cons] at hinside
      exact ih hinside.2 hline.rawLine

/-- The end of a line is a line feed. -/
theorem Shows.lineFeed_mem (h : cursor.Shows token) (hkind : token.kind = .endOfLine) :
    '\n' ∈ cursor.rest := by
  obtain ⟨onset, piece, hreaches, hpiece, htoken, -⟩ := h.exists_onset
  obtain ⟨first, rest, hrest, hread, -⟩ := eq_of_piece? hpiece
  rw [kind_of_token? htoken, hkind] at hread
  obtain rfl := Lexeme.lineFeed_of_endOfLine hread.symm
  exact hreaches.rest.subset (hrest ▸ List.mem_cons_self)

/-- From the first token of a directive to the token that ends its line. -/
theorem Walks.exists_line {start : Token} {words : List Token} {lineEnd : Span}
    (h : cursor.Walks (start :: words ++ [⟨.endOfLine, lineEnd⟩]) after)
    (hstarts : start.kind.startsDirectiveLine = true)
    (hwords : ∀ other ∈ words, other.kind ≠ .endOfLine) :
    cursor.Shows start ∧ cursor.next.cursor.LineTo after := by
  have htext (text : String) : start.kind ≠ .restOfLine text := by
    intro hkind
    rw [hkind] at hstarts
    cases hstarts
  obtain ⟨hshows, hrest⟩ := h.shows htext
  obtain ⟨middle, hmiddle, hlast⟩ := hrest.split
  obtain ⟨hend, hnil⟩ := hlast.shows nofun
  cases hnil
  have hfeed : '\n' ∈ cursor.next.cursor.rest :=
    hmiddle.scans.rest.subset (hend.lineFeed_mem rfl)
  obtain ⟨behind, hbehind⟩ := exists_lineTo (hshows.isDirective hstarts) hfeed
  refine ⟨hshows, ?_⟩
  rcases (hmiddle.lineTo hwords hbehind).next.cursor with ⟨-, hcursor⟩ | ⟨hkind, -⟩
  · rwa [hcursor]
  · exact absurd (congrArg Token.kind hend.token) hkind

end Cursor

/-! ## The word of a directive -/

namespace ConditionLine

/-- The word of the directive. -/
def word (line : ConditionLine) : String :=
  match line.kind with
  | some kind => kind.word
  | none => Mark.elif.word

variable {line : ConditionLine}

theorem directive_toList : line.directive.toList = '%' :: line.word.toList := by
  obtain ⟨_ | kind, start, nesting⟩ := line <;>
    simp [directive, word, ConditionKind.directive, Mark.directive]

theorem startsDirectiveLine_token (line : ConditionLine) :
    line.token.startsDirectiveLine = true := by
  obtain ⟨_ | kind, start, nesting⟩ := line <;> rfl

theorem ofDirective?_word (line : ConditionLine) :
    TokenKind.ofDirective? line.word = some line.token := by
  obtain ⟨_ | kind, start, nesting⟩ := line
  · exact (by decide : TokenKind.ofDirective? Mark.elif.word = some (.mark .elif))
  · show TokenKind.ofDirective? kind.word = some (.opener kind)
    cases kind <;> decide

theorem isWordPart_word (line : ConditionLine) :
    ∀ character ∈ line.word.toList, Text.isWordPart character = true := by
  rw [← List.all_eq_true]
  obtain ⟨_ | kind, start, nesting⟩ := line
  · exact (by decide : Mark.elif.word.toList.all Text.isWordPart = true)
  · show kind.word.toList.all Text.isWordPart = true
    cases kind <;> decide

/-- Each directive has one word. -/
theorem eq_word_of_ofDirective? {word : String} (h : TokenKind.ofDirective? word = some line.token) :
    word = line.word := by
  obtain ⟨before, after, hlist, -⟩ := List.lookup_eq_some_iff.mp h
  have hmem := List.mem_append_right before (List.mem_cons_self (a := (word, line.token)) (l := after))
  rw [← hlist] at hmem
  simp only [List.mem_append, List.mem_map, Prod.mk.injEq] at hmem
  obtain ⟨_ | kind, start, nesting⟩ := line
  · rcases hmem with (⟨_, -, -, ⟨⟩⟩ | ⟨_, -, rfl, ⟨⟩⟩) | ⟨_, -, -, ⟨⟩⟩
    rfl
  · rcases hmem with (⟨_, -, rfl, ⟨⟩⟩ | ⟨_, -, -, ⟨⟩⟩) | ⟨_, -, -, ⟨⟩⟩
    rfl

end ConditionLine

namespace Cursor

variable {cursor : Cursor} {line : ConditionLine} {tail : List Char}

theorem shows_directive (hmode : cursor.mode = {})
    (hrest : cursor.rest = line.directive.toList ++ tail)
    (htail : ∀ character ∈ tail.head?, Text.isWordPart character = false) :
    (∃ span, cursor.Shows ⟨line.token, span⟩) ∧ cursor.next.cursor =
      ⟨tail, cursor.position.after line.directive.toList, ⟨false, true⟩⟩ := by
  have hspells : Spells {} line.token ('%' :: line.word.toList) tail :=
    Lexeme.spells_directive rfl rfl line.isWordPart_word
      (by rw [String.ofList_toList]; exact line.ofDirective?_word) htail
  obtain ⟨_, _, ⟨⟩, hread⟩ := hspells
  rw [line.directive_toList, List.cons_append] at hrest
  have hpiece := piece?_of_rest hrest
  simp only [hmode, hread, Lexeme.ofToken, Lexeme.width] at hpiece
  obtain ⟨hshows, hcursor⟩ := shows_of_piece? hpiece rfl rfl
  refine ⟨⟨_, hshows⟩, ?_⟩
  have hletters : '\n' ∉ '%' :: line.word.toList := by
    rw [List.mem_cons, not_or]
    refine ⟨by decide, fun hmem => ?_⟩
    exact absurd (line.isWordPart_word _ hmem) (by decide)
  rw [hcursor, line.directive_toList]
  simp only [advance, hrest, hmode, List.take_succ_cons, List.take_left, List.drop_succ_cons,
    List.drop_left, foldl_startAfter hletters, Cursor.mk.injEq, true_and]
  obtain ⟨_ | kind, start, nesting⟩ := line <;> rfl

/-- Where a directive is found, its word stands. -/
theorem Shows.exists_directive {start : Token} (h : cursor.Shows start)
    (hkind : start.kind = line.token) : ∃ onset tail, cursor.Reaches onset ∧ onset.mode = {} ∧
      onset.rest = line.directive.toList ++ tail ∧
      (∀ character ∈ tail.head?, Text.isWordPart character = false) ∧
      onset.position.offset = start.span.start ∧ cursor.next.cursor = onset.next.cursor := by
  obtain ⟨onset, piece, hreaches, hpiece, htoken, hfaults⟩ := h.exists_onset
  obtain ⟨first, rest, hrest, hread, -⟩ := eq_of_piece? hpiece
  rw [kind_of_token? htoken, hkind] at hread
  obtain ⟨rfl, hstart, hline, hword⟩ :=
    Lexeme.directive_of_starts hread.symm line.startsDirectiveLine_token
  have hletters := ConditionLine.eq_word_of_ofDirective? hword
  refine ⟨onset, rest.dropWhile Text.isWordPart, hreaches, ?_, ?_, head?_dropWhile_stop _ _, ?_, ?_⟩
  · rw [← hstart, ← hline]
  · rw [line.directive_toList, ← hletters, String.toList_ofList, List.cons_append,
      List.takeWhile_append_dropWhile, hrest]
  · rw [Piece.span_of_token? htoken]
    exact (congrArg Span.start (origin_of_piece? hpiece)).symm
  · exact (shows_of_piece? hpiece htoken hfaults).2.symm

end Cursor

/-! ## Cutting a line out of a source -/

namespace ConditionLine

/-- The line of a directive with a condition, cut out of the tokens of a source and out of its
text. -/
structure Cut (line : ConditionLine) (source : String) (ts : List Token) (last : Cursor) where
  first : List Token
  start : Token
  words : List Token
  lineEnd : Span
  rest : List Token
  tokens : ts = first ++ (start :: words ++ ⟨.endOfLine, lineEnd⟩ :: rest)
  kind : start.kind = line.token
  startsAt : start.span.start = line.start
  inside : ∀ other ∈ words, other.kind ≠ .endOfLine
  before : List Char
  text : List Char
  behind : List Char
  source_eq : source.toList = before ++ (line.directive.toList ++ (text ++ '\n' :: behind))
  bytes : Position.bytes before = line.start
  feed : '\n' ∉ text
  /-- The place behind the tokens in front of the line. -/
  cursor : Cursor
  walks : (Cursor.ofSource source).Walks first cursor
  shows : cursor.Shows start
  /-- The place of the percent sign. -/
  onset : Cursor
  reaches : cursor.Reaches onset
  onsetMode : onset.mode = {}
  onsetRest : onset.rest = line.directive.toList ++ (text ++ '\n' :: behind)
  /-- The place behind the line. -/
  after : Cursor
  scans : after.Scans rest last
  afterMode : after.mode = {}
  afterRest : after.rest = behind
  starts_lt : line.start < after.position.offset

variable {line : ConditionLine} {source : String} {ts : List Token} {last : Cursor}

theorem exists_cut (h : line.IsIn ts) (hlines : WholeLines ts)
    (hscan : (Cursor.ofSource source).Scans ts last) : Nonempty (line.Cut source ts last) := by
  obtain ⟨first, start, words, lineEnd, next, rest, rfl, hkind, hstart, hwords, hnext⟩ := h
  have hsplit : first ++ (start :: words ++ ⟨.endOfLine, lineEnd⟩ :: next :: rest) =
      first ++ (start :: words ++ [⟨.endOfLine, lineEnd⟩]) ++ next :: rest := by simp
  rw [hsplit] at hlines hscan
  obtain ⟨after, hwalks, hrest⟩ := hscan.walks_first hlines
  obtain ⟨cursor, hfirst, hline⟩ := hwalks.split
  obtain ⟨hshows, hbehind⟩ :=
    hline.exists_line (hkind ▸ line.startsDirectiveLine_token) hwords
  obtain ⟨onset, tail, hreaches, hmode, honset, htail, hoffset, hcursor⟩ :=
    hshows.exists_directive hkind
  obtain ⟨text, htext, hfeed, hposition⟩ := hbehind.text
  obtain ⟨-, hnextCursor⟩ := Cursor.shows_directive hmode honset htail
  rw [hcursor, hnextCursor] at htext
  obtain rfl : tail = text ++ '\n' :: after.rest := htext
  obtain ⟨before, hsource, hplace⟩ :=
    hreaches.standsIn (hfirst.scans.standsIn (.ofSource source))
  refine ⟨⟨first, start, words, lineEnd, next :: rest, rfl, hkind, hstart, hwords, before, text,
    after.rest, by rw [hsource, honset], ?_, hfeed, cursor, hfirst, hshows, onset, hreaches, hmode,
    honset, after, hrest, hbehind.mode, rfl, ?_⟩⟩
  · rw [← hstart, ← hoffset, hplace, Position.start_after]
  · rw [← hstart]
    refine hline.start_lt start List.mem_cons_self fun text htext => ?_
    have hstarts := line.startsDirectiveLine_token
    rw [← hkind, htext] at hstarts
    cases hstarts

namespace Cut

variable (cut : line.Cut source ts last) (bad : List Char)

/-- The text with something else behind the directive on its line. -/
def replaced : List Char :=
  cut.before ++ line.directive.toList ++ ' ' :: bad ++ '\n' :: cut.behind

/-- The place behind the directive in that text. -/
def place : Cursor :=
  ⟨' ' :: bad ++ '\n' :: cut.behind, Position.start.after (cut.before ++ line.directive.toList),
    ⟨false, true⟩⟩

/-- Nothing but the line of the directive is different in that text. -/
def alteration : Alteration :=
  ⟨(· == line.start), (· = cut.place bad)⟩

/-- The place behind the line in that text. -/
def behindLine : Cursor :=
  ⟨cut.behind, Position.start.after (cut.before ++ line.directive.toList ++ ' ' :: bad ++ ['\n']), {}⟩

variable {bad}

theorem lineTo (hbad : '\n' ∉ bad) : (cut.place bad).LineTo (cut.behindLine bad) where
  isDirective := rfl
  text := by
    refine ⟨' ' :: bad, rfl, by simpa using hbad, ?_⟩
    rw [behindLine, place, ← Position.after_append, ← List.append_assoc]
  mode := rfl

/-- Up to the percent sign the texts are the same. -/
theorem beside (bad : List Char) : Cursor.Beside (cut.replaced bad)
    (line.directive.toList ++ (cut.text ++ '\n' :: cut.behind))
    (line.directive.toList ++ (' ' :: bad ++ '\n' :: cut.behind)) (.ofSource source)
    (.ofSource (String.ofList (cut.replaced bad))) := by
  have hother : (Cursor.ofSource (String.ofList (cut.replaced bad))).rest = cut.replaced bad :=
    String.toList_ofList
  refine ⟨⟨cut.before, cut.source_eq, ?_⟩, rfl, ?_⟩
  · rw [hother, replaced]
    simp only [List.append_assoc, List.cons_append]
  · have hstands := Cursor.StandsIn.ofSource (String.ofList (cut.replaced bad))
    rwa [String.toList_ofList] at hstands

/-- Of the directives in front of the line none is gone. -/
theorem kept : ∀ token ∈ cut.first, token.kind.opensCondition = true →
    (cut.alteration bad).gone token.span.start = false := by
  intro token hmem hopens
  have hless := cut.walks.start_lt token hmem fun text htext => by rw [htext] at hopens; cases hopens
  have hle := cut.shows.offset_le
  rw [cut.startsAt] at hle
  exact beq_false_of_ne (hless.trans_le hle).ne

theorem zone_first : Zone.behind .code cut.first = .code := by
  refine cut.walks.zone_of_starts (fun h => absurd rfl h) cut.shows ?_
  rw [cut.kind]
  exact line.startsDirectiveLine_token

/-- In the text with something else on the line, the tokens in front of it and the directive stand
where they stood. -/
theorem exists_directive (bad : List Char) : ∃ (other : Cursor) (span : Span),
    other.Shows ⟨line.token, span⟩ ∧ other.next.cursor = cut.place bad ∧
      ∀ {rest due}, (cut.alteration bad).Follows .code rest other due →
        (cut.alteration bad).Follows .code (cut.first ++ rest)
          (.ofSource (String.ofList (cut.replaced bad))) due := by
  have halike : Text.Alike (line.directive.toList ++ (cut.text ++ '\n' :: cut.behind))
      (line.directive.toList ++ (' ' :: bad ++ '\n' :: cut.behind)) := by
    rw [line.directive_toList, List.cons_append, List.cons_append]
    exact Text.alike_mark (by decide) (by decide)
  have htail := cut.reaches.rest
  rw [cut.onsetRest] at htail
  obtain ⟨other, hcursor, hfirst⟩ := cut.walks.follows halike (cut.beside bad) htail cut.kept
  obtain ⟨onset, hreaches, honset⟩ := hcursor.reaches halike cut.reaches (by rw [cut.onsetRest])
  have hrest := honset.at_tail cut.onsetRest
  obtain ⟨⟨span, hshows⟩, hnext⟩ := Cursor.shows_directive (honset.mode.trans cut.onsetMode) hrest
    (by simp [Text.isWordPart])
  obtain ⟨hother, hbehind⟩ := hreaches.shows hshows
  refine ⟨other, span, hother, ?_, fun hrest => hfirst (cut.zone_first.symm ▸ hrest)⟩
  obtain ⟨before, hsource, hposition⟩ := honset.stands
  rw [hrest, replaced] at hsource
  simp only [List.append_assoc, List.cons_append] at hsource
  obtain rfl := List.append_cancel_right hsource
  rw [hbehind, hnext, hposition, ← Position.after_append, place]

/-- Behind the line the same text is left, and it follows the tokens that are left. -/
theorem follows_rest (hend : last.AtEnd) (bad : List Char) :
    (cut.alteration bad).Follows .code cut.rest (cut.behindLine bad) [] := by
  have hsame : Cursor.Beside (cut.replaced bad) [] [] cut.after (cut.behindLine bad) := by
    refine ⟨⟨cut.behind, ?_, ?_⟩, cut.afterMode.symm, ?_⟩
    · rw [cut.afterRest, List.append_nil]
    · rw [behindLine, List.append_nil]
    · exact ⟨_, by simp [replaced, behindLine], rfl⟩
  refine cut.scans.follows hend hsame fun token hmem _ => ?_
  have hless := cut.starts_lt.trans_le (cut.scans.offset_le_start token hmem)
  exact beq_false_of_ne hless.ne'

/-- The text with something else on the line follows the tokens, without that line. -/
theorem follows (hend : last.AtEnd) (hbad : '\n' ∉ bad) :
    (cut.alteration bad).Follows .code ts (.ofSource (String.ofList (cut.replaced bad)))
      [.line (cut.behindLine bad)] := by
  obtain ⟨other, span, hother, hplace, hfirst⟩ := cut.exists_directive bad
  have hopens : cut.start.kind.opensCondition = true := by
    rw [cut.kind, ConditionLine.token]
    split <;> rfl
  refine (congrArg (fun ts => (cut.alteration bad).Follows .code ts _ _) cut.tokens).mpr
    (hfirst ?_)
  refine .gone hopens ?_ (cut.kind ▸ hother) cut.inside hplace (hplace ▸ cut.lineTo hbad)
    (cut.follows_rest hend bad)
  exact beq_iff_eq.mpr cut.startsAt

end Cut

end ConditionLine

/-! ## The main result -/

/-- A program was read without the block, or the branch, of a directive: there are errors, all of
them on one row, and everything else is there. -/
structure Outcome.LosesOnly (outcome : Outcome) (program : Program) (line : ConditionLine) (row : Nat) :
    Prop where
  someError : outcome.errors ≠ []
  onRow : ∀ error ∈ outcome.errors, error.span.line = row
  program : outcome.program.unplaced id = (program.without (· == line.start)).unplaced id

theorem losesOnly_of_reported {outcome : Outcome} {program : Program} {line : ConditionLine}
    {place behind : Cursor} {row : Nat} (hplace : place.LineTo behind) (hrow : place.position.line = row)
    (hreported : Reported [.line behind] outcome.errors)
    (hprogram : outcome.program.unplaced id = (program.without (· == line.start)).unplaced id) :
    outcome.LosesOnly program line row := by
  generalize herrors : outcome.errors = errors at hreported
  cases hreported with
  | @line _ _ _ problems hsome habove hnone =>
      cases hnone
      rw [List.append_nil] at herrors
      refine ⟨by simpa [herrors] using hsome, ?_, hprogram⟩
      rw [herrors, List.forall_mem_map]
      intro problem hmem
      have hhere : (Span.emptyAt place.position).Above behind := hplace.above rfl
      exact ((habove problem hmem).line_eq hhere).trans hrow

/-- **A bad condition stays on its line.**  If a source is read without errors, then no two directives
with a condition begin at the same offset of it, and each of them stands there with a text behind it
that goes to the end of its line.  Whatever replaces that text behind a space, if no condition can be
read from it, all errors are on that line, and the program is that of the source, up to its places,
without the block of that directive, or, for an `%elif`, without its branch. -/
theorem badCondition_parseWith (options : Options) (source : String)
    (hlimit : options.maxErrors = none) (hfine : (parseWith options source).hasErrors = false)
    (line : ConditionLine) (hline : line ∈ (parseWith options source).program.conditionLines)
    (htext : line.IsText) :
    ((parseWith options source).program.conditionLines.map (·.start)).Nodup ∧
      ∃ before text behind, source.toList =
          before ++ line.directive.toList ++ text ++ '\n' :: behind ∧
        Position.bytes before = line.start ∧ '\n' ∉ text ∧
        ∀ bad, '\n' ∉ bad →
          line.Fails options ⟨' ' :: bad ++ '\n' :: behind,
            Position.start.after (before ++ line.directive.toList), ⟨false, true⟩⟩ →
          (parseWith options (String.ofList
              (before ++ line.directive.toList ++ ' ' :: bad ++ '\n' :: behind))).LosesOnly
            (parseWith options source).program line (Position.start.after before).line := by
  obtain ⟨ts, last, hscan, hend, hprogram⟩ := reads_of_hasErrors hlimit hfine
  have hlines := linesIn_program hprogram
  have hnodup : ((parseWith options source).program.conditionLines.map (·.start)).Nodup :=
    (hscan.conditionStarts_increasing.sublist hlines.starts).imp fun hless => hless.ne
  obtain ⟨cut⟩ := ConditionLine.exists_cut (hlines.isIn line hline) (wholeLines_program hprogram) hscan
  refine ⟨hnodup, cut.before, cut.text, cut.behind, ?_, cut.bytes, cut.feed, ?_⟩
  · rw [cut.source_eq]
    simp only [List.append_assoc]
  · intro bad hbad hfails
    obtain ⟨hsame, hreported, -⟩ :=
      parseWith_of_follows hlimit hprogram (cut.follows hend hbad) fun other hother hstart => by
        obtain rfl := List.inj_on_of_nodup_map hnodup hother hline (beq_iff_eq.mp hstart)
        exact ⟨htext, fun place hplace => hplace ▸ hfails⟩
    refine losesOnly_of_reported (cut.lineTo hbad) ?_ hreported hsame
    rw [ConditionLine.Cut.place, Position.after_append, Position.line_after]
    rw [line.directive_toList, List.mem_cons, not_or]
    exact ⟨by decide, fun hmem => absurd (line.isWordPart_word _ hmem) (by decide)⟩

/-- Neither a bracket nor a quote that is not closed reaches behind the line. -/
theorem badCondition_of_brackets :
    (parseWith { maxErrors := none } "%if a\nb = 1\n%endif\nconst c = 2\n").hasErrors = false ∧
      ConditionLine.Fails { maxErrors := none } ⟨some .holds, 0, { depth := 1 }⟩
        ⟨" (c [\"\nb = 1\n%endif\nconst c = 2\n".toList, Position.start.after "%if".toList,
          ⟨false, true⟩⟩ ∧
      (parseWith { maxErrors := none } "%if (c [\"\nb = 1\n%endif\nconst c = 2\n").LosesOnly
        (parseWith { maxErrors := none } "%if a\nb = 1\n%endif\nconst c = 2\n").program
        ⟨some .holds, 0, { depth := 1 }⟩ 1 := by
  have hfine : (parseWith { maxErrors := none } "%if a\nb = 1\n%endif\nconst c = 2\n").hasErrors =
      false := by decide +kernel
  have hfails : ConditionLine.Fails { maxErrors := none } ⟨some .holds, 0, { depth := 1 }⟩
      ⟨" (c [\"\nb = 1\n%endif\nconst c = 2\n".toList, Position.start.after "%if".toList,
        ⟨false, true⟩⟩ := by
    unfold ConditionLine.Fails
    decide +kernel
  obtain ⟨-, before, text, behind, hsource, hbytes, hfeed, hloses⟩ :=
    badCondition_parseWith _ _ rfl hfine ⟨some .holds, 0, { depth := 1 }⟩ (by decide +kernel)
      ⟨by decide, by decide⟩
  have hdirective : (ConditionLine.directive ⟨some .holds, 0, { depth := 1 }⟩).toList =
      "%if".toList := by decide
  -- The offset of the directive and the first line feed behind it tell the parts of the source.
  obtain rfl : before = [] := by
    cases before with
    | nil => rfl
    | cons character before =>
        have hpos := character.utf8Size_pos
        have hzero : Position.bytes (character :: before) = 0 := hbytes
        rw [Position.bytes_cons] at hzero
        omega
  rw [hdirective, List.nil_append, List.append_assoc] at hsource
  have hrest : " a".toList ++ '\n' :: "b = 1\n%endif\nconst c = 2\n".toList =
      text ++ '\n' :: behind :=
    (List.append_right_inj "%if".toList).mp (Eq.trans (by decide) hsource)
  obtain rfl : " a".toList = text := by
    have hline := congrArg Text.line hrest
    rw [Text.line_append hfeed] at hline
    exact hline.trans (List.append_nil _)
  obtain rfl : _ = behind := (List.cons.inj (List.append_cancel_left hrest)).2
  have hresult := hloses " (c [\"".toList.tail (by decide)
  rw [hdirective] at hresult
  exact ⟨hfine, hfails, hresult hfails⟩

end ConfLang
