import ConfLang.Proofs.Alteration.TrailingComma

/-!
# More commas in lists

Behind the commas of a list more of them may stand.  Each of these is an error of its own, and
otherwise they count for nothing.

Where the additional commas stand is told by a function from the offsets in the source
(`Text.withCommas`), and their places in the new text are `Text.commaSpans`.  The proof that the new
text follows the tokens of the source goes from one comma that is followed by more of them to the
next one: between them the texts are the same, and a comma is a mark that no token goes beyond.
-/

namespace ConfLang

open Grammar

/-! ## Texts with more commas -/

namespace Text

/-- A text with more commas: as many as is told behind the character at an offset. -/
def withCommas (count : Nat → Nat) : Nat → List Char → List Char
  | _, [] => []
  | offset, character :: rest =>
    character :: (List.replicate (count offset) ',' ++
      withCommas count (offset + character.utf8Size) rest)

/-- The places of commas one directly behind the other. -/
def commasFrom : Position → Nat → List Span
  | _, 0 => []
  | position, count + 1 =>
    .between position (position.next ',') :: commasFrom (position.next ',') count

/-- The places of the additional commas, in the text that has them. -/
def commaSpans (count : Nat → Nat) : Nat → Position → List Char → List Span
  | _, _, [] => []
  | offset, position, character :: rest =>
    commasFrom (position.next character) (count offset) ++
      commaSpans count (offset + character.utf8Size)
        ((position.next character).after (List.replicate (count offset) ',')) rest

variable {count : Nat → Nat} {offset : Nat}

theorem length_commasFrom (position : Position) (count : Nat) :
    (commasFrom position count).length = count := by
  induction count generalizing position with
  | zero => rfl
  | succ count ih => rw [commasFrom, List.length_cons, ih]

/-- There is one place for each additional comma. -/
theorem length_withCommas (count : Nat → Nat) (offset : Nat) (position : Position)
    (text : List Char) :
    (withCommas count offset text).length =
      (commaSpans count offset position text).length + text.length := by
  induction text generalizing offset position with
  | nil => rfl
  | cons character rest ih =>
      simp only [withCommas, commaSpans, List.length_cons, List.length_append, List.length_replicate,
        length_commasFrom, ih _ ((position.next character).after (List.replicate (count offset) ','))]
      omega

/-- In front of the first additional comma a text is the same. -/
theorem withCommas_append (word rest : List Char) (h : ∀ other, offset ≤ other → other < offset + Position.bytes word →
    count other = 0) (position : Position) :
    withCommas count offset (word ++ rest) =
        word ++ withCommas count (offset + Position.bytes word) rest ∧
      commaSpans count offset position (word ++ rest) =
        commaSpans count (offset + Position.bytes word) (position.after word) rest := by
  induction word generalizing offset position with
  | nil => exact ⟨rfl, rfl⟩
  | cons character word ih =>
      have hpos := character.utf8Size_pos
      have hhere : count offset = 0 := by
        refine h offset (Nat.le_refl _) ?_
        rw [Position.bytes_cons]
        omega
      have hbehind : ∀ other, offset + character.utf8Size ≤ other →
          other < offset + character.utf8Size + Position.bytes word → count other = 0 := by
        intro other hle hlt
        refine h other (by omega) ?_
        rw [Position.bytes_cons]
        omega
      obtain ⟨htext, hspans⟩ := ih hbehind (position.next character)
      rw [List.cons_append, withCommas, commaSpans, hhere, htext, Position.bytes_cons]
      refine ⟨?_, ?_⟩
      · rw [← Nat.add_assoc]
        rfl
      · rw [← Nat.add_assoc]
        exact hspans

theorem withCommas_of_zero (h : ∀ other, offset ≤ other → count other = 0) (position : Position)
    (text : List Char) :
    withCommas count offset text = text ∧ commaSpans count offset position text = [] := by
  obtain ⟨htext, hspans⟩ :=
    withCommas_append text [] (fun other hle _ => h other hle) position
  simpa [withCommas, commaSpans] using And.intro htext hspans

end Text

namespace Cursor

variable {cursor : Cursor} {tail : List Char}

/-- Commas in a text are commas one after the other. -/
theorem commas_of_rest (count : Nat) (hrest : cursor.rest = List.replicate count ',' ++ tail)
    (hstart : cursor.mode.atStart = false) :
    cursor.Commas (Text.commasFrom cursor.position count)
      ⟨tail, cursor.position.after (List.replicate count ','), cursor.mode⟩ := by
  induction count generalizing cursor with
  | zero =>
      obtain ⟨rest, position, mode⟩ := cursor
      obtain rfl : rest = tail := hrest
      exact .nil
  | succ count ih =>
      rw [List.replicate_succ, List.cons_append] at hrest
      obtain ⟨hshows, hnext⟩ := next_symbol .comma hrest
      refine .cons hshows ?_
      have hmore := @ih cursor.next.cursor (by rw [hnext]) (by rw [hnext])
      rw [hnext] at hmore
      obtain ⟨rest, position, atStart, isDirective⟩ := cursor
      obtain rfl : atStart = false := hstart
      rw [hnext]
      exact hmore

theorem Commas.standsIn {after : Cursor} {spans : List Span} {source : List Char}
    (h : cursor.Commas spans after) (hcursor : cursor.StandsIn source) : after.StandsIn source := by
  induction h with
  | nil => exact hcursor
  | cons _ _ ih => exact ih hcursor.next.1

/-! ## Following tokens -/

variable {other middle last : Cursor} {token : Token} {first rest ts : List Token} {zone : Zone}
  {source original : List Char} {count : Nat → Nat} {span : Span}

/-- Behind a cursor, additional commas are told of only where a comma counts. -/
def OnlyAtCommas (zone : Zone) (ts : List Token) (count : Nat → Nat) (offset : Nat) : Prop :=
  ∀ place, offset ≤ place → count place ≠ 0 → ∃ first span rest,
    ts = first ++ ⟨.symbol .comma, span⟩ :: rest ∧ span.start = place ∧ zone.behind first = .code

/-- Behind a comma this is so as well. -/
theorem OnlyAtCommas.behind {offset : Nat}
    (h : OnlyAtCommas zone (first ++ ⟨.symbol .comma, span⟩ :: rest) count offset)
    (hfirst : ∀ token ∈ first, token.kind = .symbol .comma → token.span.start ≤ span.start)
    (hoffset : offset ≤ span.start) (hzone : zone.behind first = .code) :
    OnlyAtCommas .code rest count (span.start + 1) := by
  intro place hle hcount
  obtain ⟨first', span', rest', hts, rfl, hzone'⟩ := h place (by omega) hcount
  have hlater : ∃ inside, first' = first ++ ⟨.symbol .comma, span⟩ :: inside ∧
      rest = inside ++ ⟨.symbol .comma, span'⟩ :: rest' := by
    rcases List.append_eq_append_iff.mp hts with ⟨inside, rfl, hrest⟩ | ⟨inside, rfl, hrest⟩
    · cases inside with
      | nil =>
          obtain ⟨heq, -⟩ := List.cons.inj hrest
          cases heq
          omega
      | cons token inside =>
          obtain ⟨rfl, rfl⟩ := List.cons.inj hrest
          exact ⟨inside, rfl, rfl⟩
    · cases inside with
      | nil =>
          obtain ⟨heq, -⟩ := List.cons.inj hrest
          cases heq
          omega
      | cons token inside =>
          obtain ⟨rfl, -⟩ := List.cons.inj hrest
          have hless := hfirst ⟨.symbol .comma, span'⟩ (by simp) rfl
          simp only at hless
          omega
  obtain ⟨inside, rfl, rfl⟩ := hlater
  refine ⟨inside, span', rest', rfl, rfl, ?_⟩
  rw [Zone.behind_append, hzone] at hzone'
  exact hzone'

/-- What stands behind a token in the source. -/
theorem Shows.walks_dropLast (h : cursor.Shows token)
    (hwalk : ∃ place, cursor.Walks (token :: rest).dropLast place) :
    ∃ place, cursor.next.cursor.Walks rest.dropLast place := by
  cases rest with
  | nil => exact ⟨_, .nil⟩
  | cons next rest =>
      obtain ⟨place, hwalk⟩ := hwalk
      rw [List.dropLast_cons_cons] at hwalk
      refine ⟨place, (hwalk.shows fun text htext => ?_).2⟩
      exact absurd (htext ▸ congrArg Token.kind h.token) (next_ne_restOfLine text)

/-- Places in one source are told by what is left behind them. -/
theorem StandsIn.position_eq {word : List Char} (h : cursor.StandsIn source)
    (h' : middle.StandsIn source) (hrest : cursor.rest = word ++ middle.rest) :
    middle.position = cursor.position.after word := by
  obtain ⟨before, hsource, hposition⟩ := h
  obtain ⟨before', hsource', hposition'⟩ := h'
  rw [hsource, hrest, ← List.append_assoc] at hsource'
  rw [hposition', hposition, ← Position.after_append, List.append_cancel_right hsource']

/-- If more commas are told of at all, there is a first comma that has some. -/
theorem OnlyAtCommas.exists_first {offset : Nat} (h : OnlyAtCommas zone ts count offset)
    (hsome : ¬ ∀ place, offset ≤ place → count place = 0) :
    ∃ first span rest, ts = first ++ ⟨.symbol .comma, span⟩ :: rest ∧ offset ≤ span.start ∧
      zone.behind first = .code ∧
      ∀ place, offset ≤ place → place < span.start → count place = 0 := by
  push Not at hsome
  obtain ⟨hle, hcount⟩ := Nat.find_spec hsome
  obtain ⟨first, span, rest, rfl, hstart, hzone⟩ := h _ hle hcount
  refine ⟨first, span, rest, rfl, hstart ▸ hle, hzone, fun place hplace hless => ?_⟩
  by_contra hother
  exact Nat.find_min hsome (hstart ▸ hless) ⟨hplace, hother⟩

/-- Behind some tokens there is a comma: these tokens are a text, a gap follows it, and then the
comma. -/
structure FindsComma (cursor middle : Cursor) (word gap text : List Char) : Prop where
  rest : cursor.rest = word ++ gap ++ ',' :: text
  behind : middle.rest = gap ++ ',' :: text
  isGap : Text.Gap gap
  line : middle.mode.isDirective = true → '\n' ∉ gap

/-- Where the comma begins, and what is behind it. -/
theorem Walks.exists_comma (h : cursor.Walks first middle) (hcursor : cursor.StandsIn original)
    (hshows : middle.Shows ⟨.symbol .comma, span⟩) :
    ∃ word gap text, cursor.FindsComma middle word gap text ∧
      span.start = cursor.position.offset + Position.bytes (word ++ gap) ∧
      middle.next.cursor.rest = text ∧ middle.next.cursor.position.offset = span.start + 1 := by
  obtain ⟨gap, text, hmiddle, hgap, hline⟩ := hshows.exists_gap rfl .comma
  obtain ⟨hshows', hnext⟩ := next_behind_gap .comma hgap hmiddle hline
  obtain ⟨word, hword⟩ := h.scans.rest
  have hposition := hcursor.position_eq (h.scans.standsIn hcursor) hword.symm
  have hplace : span.start = cursor.position.offset + Position.bytes (word ++ gap) := by
    have hspan : span = _ := congrArg Token.span (hshows.token.symm.trans hshows'.token)
    rw [hspan, hposition, ← Position.after_append]
    exact Position.offset_after _ _
  have hrest : cursor.rest = word ++ gap ++ ',' :: text := by
    rw [← hword, hmiddle, List.append_assoc]
  refine ⟨word, gap, text, ⟨hrest, hmiddle, hgap, hline⟩, hplace, by rw [hnext], ?_⟩
  rw [hnext, hplace, hposition, ← Position.after_append]
  exact congrArg (· + 1) (Position.offset_after _ _)

/-- A text that is the same up to a comma, and has more commas behind it, follows the tokens up to
that comma, with an error due for each of these commas. -/
theorem Walks.follows_commas {word gap text tail : List Char} (h : cursor.Walks first middle)
    (hcomma : cursor.FindsComma middle word gap text) (more : Nat)
    (hrest : other.rest = word ++ gap ++ ',' :: (List.replicate more ',' ++ tail))
    (hmode : other.mode = cursor.mode) (hstands : other.StandsIn source)
    (hzone : zone.behind first = .code) :
    ∃ after : Cursor, after.StandsIn source ∧ after.rest = tail ∧
      after.mode = middle.next.cursor.mode ∧
      after.position = ((other.position.after (word ++ gap)).next ',').after (List.replicate more ',') ∧
      ∀ {rest due}, Alteration.whole.Follows .code rest after due →
        Alteration.whole.Follows zone (first ++ ⟨.symbol .comma, span⟩ :: rest) other
          ((Text.commasFrom ((other.position.after (word ++ gap)).next ',') more).map .comma ++
            due) := by
  have hbeside : Beside source (',' :: text) (',' :: (List.replicate more ',' ++ tail)) cursor other :=
    ⟨⟨word ++ gap, hcomma.rest, hrest⟩, hmode, hstands⟩
  have hsuffix : ',' :: text <:+ middle.rest := by
    rw [hcomma.behind]
    exact List.suffix_append _ _
  have hkept (token : Token) (_ : token ∈ first) : token.kind.opensCondition = true →
      Alteration.whole.gone token.span.start = false := fun _ => rfl
  obtain ⟨place, hplace, hfollows⟩ :=
    h.follows (Text.alike_mark (by decide) (by decide)) hbeside hsuffix hkept
  have hplaceRest := hplace.rest_eq hcomma.behind
  have hposition := hstands.position_eq hplace.stands (by
    rw [hplaceRest, hrest, ← List.append_assoc])
  -- the comma stands there, and the additional ones are directly behind it
  obtain ⟨hshows, hnext⟩ := next_behind_gap .comma hcomma.isGap hplaceRest (hplace.mode ▸ hcomma.line)
  have hnextRest : place.next.cursor.rest = List.replicate more ',' ++ tail := by rw [hnext]
  have hcommas := commas_of_rest more hnextRest (by rw [hnext])
  have hbetween : place.next.cursor.position = (other.position.after (word ++ gap)).next ',' := by
    rw [hnext, hposition, Position.after_append]
  obtain ⟨-, hbehind⟩ := next_behind_gap .comma hcomma.isGap hcomma.behind hcomma.line
  rw [hbetween] at hcommas
  refine ⟨_, hcommas.standsIn hplace.stands.next.1, rfl, ?_, rfl, fun hlater => ?_⟩
  · rw [hnext, hbehind, hplace.mode]
  · have hafter : (zone.behind first).after (.symbol .comma) = .code := by
      rw [hzone]
      rfl
    rw [← hafter] at hlater
    exact hfollows (.comma hshows hcommas (fun _ => hzone) hlater)

/-- A text with more commas behind those of a source follows its tokens, and an error is due for
each of them. -/
theorem Scans.follows_commas (h : cursor.Scans ts last) (hend : last.AtEnd)
    (hwalk : ∃ place, cursor.Walks ts.dropLast place) (hcursor : cursor.StandsIn original)
    (honly : OnlyAtCommas zone ts count cursor.position.offset)
    (hrest : other.rest = Text.withCommas count cursor.position.offset cursor.rest)
    (hmode : other.mode = cursor.mode) (hstands : other.StandsIn source) :
    Alteration.whole.Follows zone ts other
      ((Text.commaSpans count cursor.position.offset other.position cursor.rest).map .comma) := by
  induction hlength : ts.length using Nat.strong_induction_on generalizing cursor other zone ts with
  | _ length ih =>
    by_cases hnone : ∀ place, cursor.position.offset ≤ place → count place = 0
    · -- no more commas are left
      obtain ⟨htext, hspans⟩ := Text.withCommas_of_zero hnone other.position cursor.rest
      rw [hspans]
      refine h.follows hend ⟨⟨cursor.rest, ?_, ?_⟩, hmode, hstands⟩ fun _ _ _ => rfl
      · rw [List.append_nil]
      · rw [hrest, htext, List.append_nil]
    · -- up to the first comma that has some the texts are the same, and behind it they go on as
      -- they began
      obtain ⟨first, span, rest, rfl, hle, hzone, hzero⟩ := honly.exists_first hnone
      obtain ⟨middle, hfirst, hscan, hmore⟩ := h.walks_before hwalk
      obtain ⟨hshows, hbehind⟩ := hscan.shows_of_ne (by simp) (by simp)
      obtain ⟨word, gap, text, hcomma, hplace, hnext, hoffset⟩ := hfirst.exists_comma hcursor hshows
      rw [hplace] at hzero
      obtain ⟨htext, hspans⟩ := Text.withCommas_append (word ++ gap) (',' :: text) hzero other.position
      rw [hcomma.rest, htext, ← hplace] at hrest
      obtain ⟨after, hafter, hafterRest, hafterMode, hafterPosition, hfollows⟩ :=
        hfirst.follows_commas hcomma (count span.start) hrest hmode hstands hzone
      have hless : rest.length < length := by
        rw [← hlength, List.length_append, List.length_cons]
        omega
      have honly' : OnlyAtCommas .code rest count middle.next.cursor.position.offset := by
        rw [hoffset]
        refine honly.behind (fun token hmem hkind => ?_) hle hzone
        have hstart := hfirst.start_lt token hmem (by simp [hkind])
        exact hstart.le.trans hshows.offset_le
      have hlater := ih rest.length hless hbehind (hshows.walks_dropLast hmore)
        (hfirst.scans.standsIn hcursor).next.1 honly' (by rw [hoffset, hnext, hafterRest]; rfl)
        hafterMode hafter rfl
      rw [hoffset, hnext, hafterPosition] at hlater
      rw [hcomma.rest, hspans, ← hplace, Text.commaSpans, List.map_append]
      exact hfollows hlater

end Cursor

/-! ## Commas of lists -/

/-- A comma of a list begins at an offset of a text: behind an item of the list, and a gap. -/
def Program.CommaAt (program : Program) (text : List Char) (offset : Nat) : Prop :=
  ∃ before gap behind, text = before ++ gap ++ ',' :: behind ∧ Text.Gap gap ∧
    (∃ list ∈ program.lists, Position.bytes before ∈ list.items) ∧
    Position.bytes (before ++ gap) = offset

/-- Two beginnings of a text with the same number of bytes are the same. -/
theorem Position.prefix_eq {first rest first' rest' : List Char} (h : first ++ rest = first' ++ rest')
    (hbytes : bytes first = bytes first') : first = first' ∧ rest = rest' := by
  induction first generalizing first' with
  | nil =>
      cases first' with
      | nil => exact ⟨rfl, h⟩
      | cons character first' =>
          have hpos := character.utf8Size_pos
          rw [bytes_cons] at hbytes
          exact absurd hbytes (Nat.ne_of_lt (Nat.add_pos_left hpos _))
  | cons character first ih =>
      cases first' with
      | nil =>
          have hpos := character.utf8Size_pos
          rw [bytes_cons] at hbytes
          exact absurd hbytes.symm (Nat.ne_of_lt (Nat.add_pos_left hpos _))
      | cons character' first' =>
          obtain ⟨rfl, hrest⟩ := List.cons.inj h
          rw [bytes_cons, bytes_cons] at hbytes
          obtain ⟨rfl, rfl⟩ := ih hrest (Nat.add_left_cancel hbytes)
          exact ⟨rfl, rfl⟩

namespace Grammar

variable {options : Options} {source : String} {ts : List Token} {program : Program}
  {last : Cursor}

/-- A comma behind an item is a token that counts. -/
theorem ItemIn.exists_comma {before gap behind : List Char} (h : ItemIn ts (Position.bytes before))
    (hlines : WholeLines ts) (hscan : (Cursor.ofSource source).Scans ts last)
    (hsource : source.toList = before ++ gap ++ ',' :: behind) (hgap : Text.Gap gap) :
    ∃ first span rest, ts = first ++ ⟨.symbol .comma, span⟩ :: rest ∧
      span.start = Position.bytes (before ++ gap) ∧ Zone.code.behind first = .code := by
  obtain ⟨first, next, rest, rfl, hends, hzone, hnext⟩ := h
  obtain ⟨middle, hfirst, hrest⟩ := hscan.walks_first hlines
  obtain ⟨before', hsource', hposition⟩ := hfirst.scans.standsIn (.ofSource source)
  have hbytes : Position.bytes before = Position.bytes before' := by
    rw [hfirst.offset_of_stopsAt hends.stopsAt, hposition, Position.start_after]
  have htext : before ++ (gap ++ ',' :: behind) = before' ++ middle.rest := by
    rw [← List.append_assoc, ← hsource, hsource']
  obtain ⟨rfl, hmiddle⟩ := Position.prefix_eq htext hbytes
  rcases hnext with hcomma | hcloses
  · obtain ⟨kind, span⟩ := next
    obtain rfl : kind = .symbol .comma := hcomma
    obtain ⟨hshows, -⟩ := hrest.shows_of_ne (by simp) (by simp)
    obtain ⟨gap', text, hmiddle', hgap', hline⟩ := hshows.exists_gap rfl .comma
    obtain ⟨rfl, -, -⟩ := hgap.unique hgap' .comma .comma (hmiddle.trans hmiddle')
    obtain ⟨hshows', -⟩ := Cursor.next_behind_gap .comma hgap hmiddle' hline
    refine ⟨first, span, rest, rfl, ?_, hzone⟩
    have hspan : span = _ := congrArg Token.span (hshows.token.symm.trans hshows'.token)
    rw [hspan, hposition, ← Position.after_append]
    exact congrArg Position.offset (Position.start_after _)
  · obtain ⟨gap', character, sign, text, hmiddle', hgap', -, hsign, -, hcomma, -⟩ :=
      hrest.exists_closer hcloses
    exact absurd (hgap.unique hgap' .comma hsign (hmiddle.trans hmiddle')).2.1.symm hcomma

/-- What is told only of commas of lists is told only of tokens that count. -/
theorem onlyAtCommas {count : Nat → Nat} (h : IsProgram options ts program)
    (hscan : (Cursor.ofSource source).Scans ts last)
    (hcount : ∀ offset, count offset ≠ 0 → program.CommaAt source.toList offset) :
    Cursor.OnlyAtCommas .code ts count 0 := by
  intro place _ hplace
  obtain ⟨before, gap, behind, hsource, hgap, ⟨list, hlist, hmem⟩, rfl⟩ := hcount place hplace
  exact ((listIn_program h list hlist).items _ hmem).exists_comma (wholeLines_program h) hscan hsource hgap

end Grammar

/-- A source follows its own tokens. -/
theorem Cursor.Scans.follows_self {source : String} {ts : List Token} {last : Cursor}
    (h : (Cursor.ofSource source).Scans ts last) (hend : last.AtEnd) :
    Alteration.whole.Follows .code ts (.ofSource source) [] := by
  refine h.follows hend ⟨⟨source.toList, ?_, ?_⟩, rfl, .ofSource source⟩ fun _ _ _ => rfl
  · exact (List.append_nil _).symm
  · exact (List.append_nil _).symm

/-! ## The main result -/

/-- The errors that were due for commas. -/
theorem Reported.of_commas {spans : List Span} {errors : List Diagnostic}
    (h : Reported (spans.map .comma) errors) :
    errors.map (·.span) = spans ∧ ∀ error ∈ errors, error.kind = .structural := by
  induction spans generalizing errors with
  | nil =>
      cases h
      exact ⟨rfl, fun _ hmem => absurd hmem List.not_mem_nil⟩
  | cons span spans ih =>
      cases h with
      | comma bracket h =>
          obtain ⟨hspans, hkind⟩ := ih h
          rw [List.map_cons, hspans, List.forall_mem_cons]
          exact ⟨rfl, rfl, hkind⟩

/-- A program was read, and some commas too many were reported: one error for each, structural, in
the order of the source. -/
structure Outcome.SkipsCommas (outcome : Outcome) (program : Program) (spans : List Span) : Prop where
  program : outcome.program.unplaced id = program.unplaced id
  spans : outcome.errors.map (·.span) = spans
  structural : ∀ error ∈ outcome.errors, error.kind = .structural

/-- **Commas in lists.**  Let a source be read without errors.  Each list in it that has items ends
with a gap in front of its bracket, or with a gap that has one comma in it; whichever it is, with the
other one in its place the source is read to the same program, with the same diagnostics, up to
spans.  And however many commas are added directly behind commas of lists, the program is the same
up to its spans, and there is one error for each of them, a structural one, in their order. -/
theorem commas_parseWith (options : Options) (source : String) (hlimit : options.maxErrors = none)
    (hfine : (parseWith options source).hasErrors = false) :
    (∀ list ∈ (parseWith options source).program.lists, ∀ last ∈ list.items.getLast?,
      ∃ before tail closer behind, source.toList = before ++ tail ++ closer :: behind ∧
        Position.bytes before = last ∧ Position.bytes (before ++ tail ++ [closer]) = list.stop ∧
        (∃ tail', Text.DifferByComma tail tail') ∧
        ∀ tail', Text.DifferByComma tail tail' →
          (parseWith options (String.ofList (before ++ tail' ++ closer :: behind))).Resembles
            (parseWith options source)) ∧
      ∀ count : Nat → Nat,
        (∀ offset, count offset ≠ 0 →
          (parseWith options source).program.CommaAt source.toList offset) →
        (parseWith options (String.ofList (Text.withCommas count 0 source.toList))).SkipsCommas
            (parseWith options source).program (Text.commaSpans count 0 .start source.toList) ∧
          (Text.withCommas count 0 source.toList).length =
            (Text.commaSpans count 0 .start source.toList).length + source.toList.length := by
  obtain ⟨ts, last, hscan, hend, hprogram⟩ := reads_of_hasErrors hlimit hfine
  constructor
  · intro list hlist inner hinner
    obtain ⟨before, tail, closer, behind, hsource, hbytes, hstop, hsome, hall⟩ :=
      ((listIn_program hprogram list hlist).closed inner hinner).exists_text hprogram hscan hend
    refine ⟨before, tail, closer, behind, hsource, hbytes, hstop, hsome, fun tail' hdiffer => ?_⟩
    obtain ⟨ts', hprogram', hnotices, hfollows⟩ := hall tail' hdiffer
    obtain ⟨-, hsame, hthere⟩ := fine_of_follows hlimit hprogram' hfollows
    obtain ⟨-, -, hhere⟩ := fine_of_follows hlimit hprogram (hscan.follows_self hend)
    rw [hnotices] at hthere
    exact ⟨hsame, hthere.trans hhere.symm⟩
  · intro count hcount
    have hrest : (Cursor.ofSource (String.ofList (Text.withCommas count 0 source.toList))).rest =
        Text.withCommas count 0 source.toList := String.toList_ofList
    have hfollows := hscan.follows_commas hend (hscan.walks_dropLast (wholeLines_program hprogram))
      (.ofSource source) (onlyAtCommas hprogram hscan hcount) hrest rfl (.ofSource _)
    obtain ⟨hsame, hreported, -⟩ :=
      parseWith_of_follows hlimit hprogram hfollows fun _ _ hgone => by cases hgone
    have hkeeps : Alteration.whole.KeepsLines := fun _ => rfl
    rw [Program.without_of_keeps hkeeps] at hsame
    obtain ⟨hspans, hkinds⟩ := hreported.of_commas
    exact ⟨⟨hsame, hspans, hkinds⟩, Text.length_withCommas count 0 .start source.toList⟩

/-- Two commas more behind the one of the outer list. -/
theorem commas_of_nested :
    (parseWith { maxErrors := none } "a = [1, f(2,)]").hasErrors = false ∧
      (parseWith { maxErrors := none } "a = [1, f(2,)]").program.lists =
        [⟨[6, 13], 14⟩, ⟨[11], 13⟩] ∧
      (parseWith { maxErrors := none } "a = [1,,, f(2,)]").SkipsCommas
        (parseWith { maxErrors := none } "a = [1, f(2,)]").program
        [⟨7, 8, 1, 8⟩, ⟨8, 9, 1, 9⟩] := by
  have hfine : (parseWith { maxErrors := none } "a = [1, f(2,)]").hasErrors = false := by
    decide +kernel
  have hlists : (parseWith { maxErrors := none } "a = [1, f(2,)]").program.lists =
      [⟨[6, 13], 14⟩, ⟨[11], 13⟩] := by decide +kernel
  obtain ⟨-, hmore⟩ := commas_parseWith { maxErrors := none } "a = [1, f(2,)]" rfl hfine
  refine ⟨hfine, hlists, (hmore (fun offset => if offset = 6 then 2 else 0) fun offset hoffset => ?_).1⟩
  have hcomma : offset = 6 := by
    by_contra hother
    exact hoffset (if_neg hother)
  refine ⟨"a = [1".toList, [], " f(2,)]".toList, by decide, .nil, ⟨⟨[6, 13], 14⟩, ?_, ?_⟩, ?_⟩
  · rw [hlists]
    exact List.mem_cons_self
  · decide
  · rw [hcomma]
    decide

end ConfLang
