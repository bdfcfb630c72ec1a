import ConfLang.Proofs.Alteration.Text
import ConfLang.Proofs.Writing.Scan

/-!
# Commas and brackets behind gaps

Between two tokens of a list there may be spacing, line feeds and comments.  Such a text is a gap,
and what stands behind it is found as if it were not there.  On the line of a directive there is no
line feed in a gap.

A comma, or a bracket that closes a list, is one character, and it is found wherever it stands
behind a gap.  Behind it, the mode of the line does not depend on what stands in front of it.
-/

namespace ConfLang

/-! ## Gaps -/

/-- What may stand between two tokens: spacing, line feeds, and comments with their line feeds. -/
inductive Text.Gap : List Char → Prop where
  | nil : Gap []
  | spacing {character gap} : isSpacing character = true → Gap gap → Gap (character :: gap)
  | lineFeed {gap} : Gap gap → Gap ('\n' :: gap)
  | comment {text gap} : '\n' ∉ text → Gap gap → Gap ('#' :: text ++ '\n' :: gap)

namespace Text

variable {gap gap' : List Char}

theorem Gap.append (h : Gap gap) (h' : Gap gap') : Gap (gap ++ gap') := by
  induction h with
  | nil => exact h'
  | spacing hspacing _ ih => exact .spacing hspacing ih
  | lineFeed _ ih => exact .lineFeed ih
  | comment htext _ ih =>
      rw [List.append_assoc, List.cons_append]
      exact .comment htext ih

theorem gap_of_spacing {spaces : List Char}
    (hspaces : ∀ character ∈ spaces, isSpacing character = true) (h : Gap gap) :
    Gap (spaces ++ gap) := by
  induction spaces with
  | nil => exact h
  | cons character spaces ih =>
      rw [List.forall_mem_cons] at hspaces
      exact .spacing hspaces.1 (ih hspaces.2)

/-- A gap in front of another character begins with the line feed that the text begins with. -/
theorem Gap.exists_of_lineFeed {character : Char} {text tail : List Char} (h : Gap gap)
    (heq : gap ++ text = '\n' :: tail) (htext : text.head? = some character)
    (hfeed : character ≠ '\n') : ∃ gap', gap = '\n' :: gap' ∧ Gap gap' := by
  cases h with
  | nil =>
      rw [List.nil_append] at heq
      rw [heq, List.head?_cons, Option.some.injEq] at htext
      exact absurd htext.symm hfeed
  | spacing hspacing =>
      obtain ⟨rfl, -⟩ := List.cons.inj heq
      cases hspacing
  | lineFeed h => exact ⟨_, rfl, h⟩
  | comment => cases (List.cons.inj heq).1

end Text

/-! ## Commas and closing brackets -/

/-- The characters that stand behind an item, and their symbols. -/
inductive Lexeme.Separates : Char → Symbol → Prop where
  | comma : Separates ',' .comma
  | paren : Separates ')' .closeParen
  | bracket : Separates ']' .closeBracket

namespace Lexeme.Separates

variable {character : Char} {sign : Symbol}

theorem read (h : Separates character sign) (mode : LineMode) (rest : List Char) :
    Lexeme.read mode character rest = .ofSymbol sign := by
  cases h <;> rfl

theorem ne_lineFeed (h : Separates character sign) : character ≠ '\n' := by
  cases h <;> decide

theorem isBlank (h : Separates character sign) : Text.isBlank character = false := by
  cases h <;> rfl

theorem stops (h : Separates character sign) (rest : List Char) : Stops (character :: rest) := by
  cases h <;> exact stops_cons _ (by decide) (by decide)

theorem not_in_gap (h : Separates character sign) :
    Text.isSpacing character = false ∧ character ≠ '\n' ∧ character ≠ '#' := by
  cases h <;> decide

end Lexeme.Separates

/-- Nothing stands in front of a sign that a text begins with. -/
theorem Text.Gap.eq_nil_of_separates {gap text text' : List Char} {character : Char} {sign : Symbol}
    (h : Gap gap) (hsign : Lexeme.Separates character sign)
    (heq : gap ++ text = character :: text') : gap = [] := by
  obtain ⟨hspacing, hfeed, hcomment⟩ := hsign.not_in_gap
  cases h with
  | nil => rfl
  | spacing hblank =>
      obtain ⟨rfl, -⟩ := List.cons.inj heq
      simp [hspacing] at hblank
  | lineFeed => exact absurd (List.cons.inj heq).1.symm hfeed
  | comment => exact absurd (List.cons.inj heq).1.symm hcomment

/-- A gap in front of a comma or a closing bracket is told by the text. -/
theorem Text.Gap.unique {gap gap' text text' : List Char} {character character' : Char}
    {sign sign' : Symbol} (h : Gap gap) (h' : Gap gap') (hsign : Lexeme.Separates character sign)
    (hsign' : Lexeme.Separates character' sign')
    (heq : gap ++ character :: text = gap' ++ character' :: text') :
    gap = gap' ∧ character = character' ∧ text = text' := by
  -- The first characters tell the pieces of a gap apart, so both begin with the same one.
  induction h generalizing gap' with
  | nil =>
      obtain rfl := h'.eq_nil_of_separates hsign heq.symm
      exact ⟨rfl, List.cons.inj heq⟩
  | spacing hblank h ih =>
      cases h' with
      | nil => cases (Gap.spacing hblank h).eq_nil_of_separates hsign' heq
      | spacing _ h' =>
          obtain ⟨rfl, hrest⟩ := List.cons.inj heq
          obtain ⟨rfl, hsame⟩ := ih h' hrest
          exact ⟨rfl, hsame⟩
      | lineFeed | comment =>
          obtain ⟨rfl, -⟩ := List.cons.inj heq
          cases hblank
  | lineFeed h ih =>
      cases h' with
      | nil => cases (Gap.lineFeed h).eq_nil_of_separates hsign' heq
      | spacing hblank =>
          obtain ⟨rfl, -⟩ := List.cons.inj heq
          cases hblank
      | lineFeed h' =>
          obtain ⟨rfl, hsame⟩ := ih h' (List.cons.inj heq).2
          exact ⟨rfl, hsame⟩
      | comment => cases (List.cons.inj heq).1
  | comment htext h ih =>
      cases h' with
      | nil => cases (Gap.comment htext h).eq_nil_of_separates hsign' heq
      | spacing hblank =>
          obtain ⟨rfl, -⟩ := List.cons.inj heq
          cases hblank
      | lineFeed => cases (List.cons.inj heq).1
      | comment htext' h' =>
          simp only [List.append_assoc, List.cons_append, List.cons.injEq, true_and] at heq
          have hline := congrArg Text.line heq
          rw [Text.line_append htext, Text.line_append htext'] at hline
          obtain rfl := List.append_cancel_right hline
          obtain ⟨rfl, hsame⟩ := ih h' (List.cons.inj (List.append_cancel_left heq)).2
          exact ⟨rfl, hsame⟩

theorem Lexeme.separates_of_symbol? {first character : Char} {sign : Symbol}
    (hsign : Separates character sign) (h : symbol? first = some sign) : first = character := by
  revert h
  unfold symbol?
  cases hsign <;> split <;> first | exact fun _ => rfl | rintro ⟨⟩

theorem Lexeme.separates_of_readSymbol {first character : Char} {rest : List Char} {sign : Symbol}
    (hsign : Separates character sign)
    (h : (readSymbol first rest).kind = .token (.symbol sign)) : first = character := by
  revert h
  unfold readSymbol
  split
  case h_5 =>
    split
    · rintro ⟨⟩
      exact separates_of_symbol? hsign ‹_›
    · rintro ⟨⟩
  all_goals
    cases hsign <;> (first | unfold readPaired | unfold readDoubled) <;> split <;> rintro ⟨⟩

/-- No other characters are read as a comma or as a closing bracket. -/
theorem Lexeme.separates_of_read {mode : LineMode} {first character : Char} {rest : List Char}
    {sign : Symbol} (hsign : Separates character sign)
    (h : (read mode first rest).kind = .token (.symbol sign)) : first = character := by
  revert h
  refine read_cases (P := fun lexeme => lexeme.kind = .token (.symbol sign) → first = character)
    ?spacing ?lineFeed ?comment ?quoted ?number ?word ?percent ?symbol
  case spacing | comment => rintro _ ⟨⟩
  case lineFeed =>
    intro _
    split <;> rintro ⟨⟩
  case quoted =>
    intro quote _
    cases quote <;> rintro ⟨⟩
  case number =>
    intro _
    rcases kind_readNumber first rest with ⟨_, hkind⟩ | ⟨_, hkind⟩ <;>
      (rw [hkind]; rintro ⟨⟩)
  case word =>
    intro _
    rcases readWord_cases first rest with ⟨_, _, hword⟩ | ⟨_, _, hword⟩ <;>
      (rw [hword]; rintro ⟨⟩)
  case percent =>
    intro _
    split
    · obtain ⟨kind, hkind, hdirective⟩ := isDirective_readDirective rest
      rw [hkind]
      rintro ⟨⟩
      cases hdirective
    · rintro ⟨⟩
  case symbol => exact separates_of_readSymbol hsign

/-- What stands behind a gap does not go on with a token in front of it. -/
theorem Text.Gap.stops {gap text : List Char} {character : Char} {sign : Symbol} (h : Gap gap)
    (hsign : Lexeme.Separates character sign) : Stops (gap ++ character :: text) := by
  cases h with
  | nil => exact hsign.stops text
  | spacing hspacing =>
      refine stops_cons _ ?_ fun hpoint => ?_
      · exact isWordPart_of_isBlank (isBlank_of_isSpacing hspacing)
      · rw [hpoint] at hspacing
        cases hspacing
  | lineFeed => exact stops_cons _ (by decide) (by decide)
  | comment => exact stops_cons _ (by decide) (by decide)

/-- There is no comma in a gap but in comments. -/
theorem Text.Gap.not_comma {gap gap' text : List Char} (h : Gap gap) (h' : Gap gap') :
    gap ≠ gap' ++ ',' :: text := by
  intro heq
  have htext : gap ++ ')' :: [] = gap' ++ ',' :: (text ++ [')']) := by
    rw [heq, List.append_assoc, List.cons_append]
  exact absurd (h.unique h' .paren .comma htext).2.1 (by decide)

namespace Cursor

variable {cursor last : Cursor} {gap text : List Char} {character : Char} {sign : Symbol}

/-- A comma or a closing bracket comes next where its character stands. -/
theorem next_symbol (hsign : Lexeme.Separates character sign)
    (hrest : cursor.rest = character :: text) :
    cursor.Shows ⟨.symbol sign, .between cursor.position (cursor.position.next character)⟩ ∧
      cursor.next.cursor =
        ⟨text, cursor.position.next character, ⟨false, cursor.mode.isDirective⟩⟩ := by
  have hpiece := piece?_of_rest hrest
  simp only [hsign.read, Lexeme.ofSymbol, Lexeme.ofToken, Lexeme.width] at hpiece
  obtain ⟨hshows, hcursor⟩ := shows_of_piece? hpiece rfl rfl
  have hposition : cursor.position.after (cursor.rest.take 1) = cursor.position.next character := by
    rw [hrest]
    rfl
  have hstart : startAfter cursor.mode.atStart character = false := by
    rw [startAfter, hsign.isBlank, Bool.and_false, Bool.or_false, beq_eq_false_iff_ne]
    exact hsign.ne_lineFeed
  refine ⟨hposition ▸ hshows, hcursor.trans ?_⟩
  simp [advance, modeAfter, hrest, hstart, TokenKind.startsDirectiveLine]

/-! ## Behind a gap -/

/-- Behind a text a cursor finds the tokens that it finds in front of it. -/
structure Skips (cursor : Cursor) (gap : List Char) (last : Cursor) : Prop where
  rest : cursor.rest = gap ++ last.rest
  position : last.position = cursor.position.after gap
  isDirective : last.mode.isDirective = cursor.mode.isDirective
  shows : ∀ token, last.Shows token → cursor.Shows token ∧ cursor.next.cursor = last.next.cursor

theorem Skips.refl (cursor : Cursor) : cursor.Skips [] cursor :=
  ⟨rfl, rfl, rfl, fun _ h => ⟨h, rfl⟩⟩

theorem Skips.trans {middle : Cursor} {gap' : List Char} (h : cursor.Skips gap middle)
    (h' : middle.Skips gap' last) : cursor.Skips (gap ++ gap') last where
  rest := by rw [h.rest, h'.rest, List.append_assoc]
  position := by rw [h'.position, h.position, Position.after_append]
  isDirective := h'.isDirective.trans h.isDirective
  shows token hshows := by
    obtain ⟨hmiddle, hcursor⟩ := h'.shows token hshows
    obtain ⟨hfirst, hcursor'⟩ := h.shows token hmiddle
    exact ⟨hfirst, hcursor'.trans hcursor⟩

theorem skips_one (hrest : cursor.rest = character :: text) (hpass : cursor.passes character) :
    cursor.Skips [character] (cursor.advance 1) where
  rest := by rw [advance, hrest]; rfl
  position := by rw [advance, hrest]; rfl
  isDirective := rfl
  shows token h := by
    obtain ⟨htoken, hproblems, hcursor⟩ := next_advance_one hrest hpass
    exact ⟨⟨htoken.trans h.token, hproblems.trans h.problems, h.kind⟩, hcursor⟩

theorem skips_comment {behind : List Char} (htext : '\n' ∉ text)
    (hrest : cursor.rest = '#' :: (text ++ '\n' :: behind)) :
    cursor.Skips ('#' :: text) (cursor.advance ('#' :: text).length) := by
  have hpiece := piece?_of_rest hrest
  have hread : Lexeme.read cursor.mode '#' (text ++ '\n' :: behind) =
      ⟨.trivia .comment, (Text.line (text ++ '\n' :: behind)).length, []⟩ := rfl
  have hwidth : (Text.line (text ++ '\n' :: behind)).length + 1 = ('#' :: text).length := by
    rw [Text.line_append htext, Text.line, List.takeWhile_cons, if_neg (by simp), List.append_nil]
    rfl
  simp only [hread, Lexeme.width, hwidth, modeAfter] at hpiece
  refine ⟨?_, ?_, rfl, fun token h => ?_⟩
  · rw [advance, hrest, ← List.cons_append, List.drop_left]
  · rw [advance, hrest, ← List.cons_append, List.take_left]
  · exact (Reaches.pass hpiece rfl rfl .refl).shows h

/-- On the line of a directive a gap without line feeds is passed over, and elsewhere any gap. -/
theorem exists_skips (hgap : Text.Gap gap) (hrest : cursor.rest = gap ++ text)
    (hline : cursor.mode.isDirective = true → '\n' ∉ gap) :
    ∃ last : Cursor, last.rest = text ∧ cursor.Skips gap last := by
  induction hgap generalizing cursor with
  | nil => exact ⟨cursor, hrest, .refl cursor⟩
  | spacing hspacing _ ih =>
      have hone := skips_one hrest (.inl hspacing)
      obtain ⟨last, hlast, hskips⟩ := ih (List.append_cancel_left (hone.rest.symm.trans hrest))
        fun h hmem => hline h (List.mem_cons_of_mem _ hmem)
      exact ⟨last, hlast, hone.trans hskips⟩
  | lineFeed _ ih =>
      have hline' : cursor.mode.isDirective = false := by
        by_contra h
        exact hline (Bool.eq_true_of_not_eq_false h) List.mem_cons_self
      have hone := skips_one hrest (.inr ⟨rfl, hline'⟩)
      obtain ⟨last, hlast, hskips⟩ := ih (List.append_cancel_left (hone.rest.symm.trans hrest))
        fun h => absurd (hone.isDirective.symm.trans h) (by simp [hline'])
      exact ⟨last, hlast, hone.trans hskips⟩
  | @comment words gap htext _ ih =>
      have hline' : cursor.mode.isDirective = false := by
        by_contra h
        exact hline (Bool.eq_true_of_not_eq_false h) (by simp)
      rw [List.append_assoc, List.cons_append] at hrest
      have hcomment := skips_comment htext hrest
      have hrest' := List.append_cancel_left (hcomment.rest.symm.trans hrest)
      have hone := skips_one hrest' (.inr ⟨rfl, hcomment.isDirective.trans hline'⟩)
      obtain ⟨last, hlast, hskips⟩ := ih (List.append_cancel_left (hone.rest.symm.trans hrest'))
        fun h => absurd ((hone.isDirective.trans hcomment.isDirective).symm.trans h) (by simp [hline'])
      exact ⟨last, hlast, hcomment.trans (hone.trans hskips)⟩

/-- A comma or a closing bracket comes next where its character stands behind a gap. -/
theorem next_behind_gap (hsign : Lexeme.Separates character sign) (hgap : Text.Gap gap)
    (hrest : cursor.rest = gap ++ character :: text)
    (hline : cursor.mode.isDirective = true → '\n' ∉ gap) :
    let place := cursor.position.after gap
    cursor.Shows ⟨.symbol sign, .between place (place.next character)⟩ ∧
      cursor.next.cursor =
        ⟨text, place.next character, ⟨false, cursor.mode.isDirective⟩⟩ := by
  obtain ⟨last, hlast, hskips⟩ := exists_skips hgap hrest hline
  obtain ⟨hshows, hcursor⟩ := next_symbol hsign hlast
  rw [hskips.position, hskips.isDirective] at hcursor
  rw [hskips.position] at hshows
  obtain ⟨hfound, hnext⟩ := hskips.shows _ hshows
  exact ⟨hfound, hnext.trans hcursor⟩

end Cursor

/-! ## In front of commas and brackets -/

/-- Trivia is spacing, a line feed or a comment. -/
theorem Lexeme.trivia_cases {mode : LineMode} {first : Char} {rest : List Char}
    (hkind : ∀ kind, (read mode first rest).kind ≠ .token kind)
    (hfaults : (read mode first rest).faults = []) :
    Text.isSpacing first = true ∧ (read mode first rest).further =
        (rest.takeWhile Text.isSpacing).length ∨
      first = '\n' ∧ mode.isDirective = false ∧ (read mode first rest).further = 0 ∨
      first = '#' ∧ (read mode first rest).further = (Text.line rest).length := by
  revert hkind hfaults
  unfold read
  split
  · exact fun _ _ => .inl ⟨‹_›, rfl⟩
  split
  · split
    · exact fun hkind => absurd rfl (hkind _)
    · exact fun _ _ => .inr (.inl ⟨‹_›, Bool.eq_false_of_not_eq_true ‹_›, rfl⟩)
  split
  · exact fun _ _ => .inr (.inr ⟨‹_›, rfl⟩)
  · intro hkind hfaults
    rcases token_or_fault mode first rest with ⟨kind, htoken⟩ | hsome
    · exact absurd htoken (hkind kind)
    · exact absurd hfaults hsome

namespace Cursor

variable {cursor last : Cursor} {token : Token} {character : Char} {sign : Symbol}

/-- What stands in front of a character other than a line feed is a gap, if it is passed over. -/
theorem Reaches.exists_gap (h : cursor.Reaches last) (hrest : last.rest.head? = some character)
    (hfeed : character ≠ '\n') : ∃ gap, cursor.rest = gap ++ last.rest ∧ Text.Gap gap ∧
      (cursor.mode.isDirective = true → '\n' ∉ gap) := by
  induction h with
  | refl => exact ⟨[], rfl, .nil, nofun⟩
  | @pass cursor after last piece hpiece htoken hfaults hreaches ih =>
      obtain ⟨gap, hafter, hgap, hline⟩ := ih hrest
      have hdirective := isDirective_of_passed hpiece htoken
      obtain ⟨first, rest, hcursor, hkind, hfaults', -⟩ := eq_of_piece? hpiece
      have hpiece' := piece?_of_rest hcursor
      rw [hpiece, Option.some.injEq, Prod.mk.injEq] at hpiece'
      obtain ⟨-, hbehind⟩ := hpiece'
      have hrest' : after.rest = rest.drop (Lexeme.read cursor.mode first rest).further := by
        rw [hbehind]
        exact (congrArg (List.drop _) hcursor).trans rfl
      rcases Lexeme.trivia_cases (hkind ▸ kind_of_passed htoken) (hfaults' ▸ hfaults) with
        ⟨hspacing, hwidth⟩ | ⟨rfl, hfree, hwidth⟩ | ⟨rfl, hwidth⟩
      · have hspaces : ∀ character ∈ first :: rest.takeWhile Text.isSpacing,
            Text.isSpacing character = true := by
          rw [List.forall_mem_cons]
          exact ⟨hspacing, fun character hmem => List.mem_takeWhile_imp hmem⟩
        refine ⟨(first :: rest.takeWhile Text.isSpacing) ++ gap, ?_,
          Text.gap_of_spacing hspaces hgap, fun hdirect hmem => ?_⟩
        · rw [hcursor, List.append_assoc, ← hafter, hrest', hwidth, List.cons_append,
            List.prefix_iff_eq_append.mp (List.takeWhile_prefix _)]
        · rcases List.mem_append.mp hmem with hmem | hmem
          · exact absurd (hspaces _ hmem) (by decide)
          · exact hline (hdirective.trans hdirect) hmem
      · rw [hwidth, List.drop_zero] at hrest'
        refine ⟨'\n' :: gap, ?_, .lineFeed hgap, fun hdirect => absurd hdirect (by simp [hfree])⟩
        rw [hcursor, List.cons_append, ← hafter, hrest']
      · -- behind a comment there is the line feed that ends it
        have hcomment : rest = Text.line rest ++ (gap ++ last.rest) := by
          rw [← hafter, hrest', hwidth]
          exact (List.prefix_iff_eq_append.mp (List.takeWhile_prefix _)).symm
        have hsome : gap ++ last.rest ≠ [] := fun hnil => by
          rw [(List.append_eq_nil_iff.mp hnil).2] at hrest
          cases hrest
        rcases Text.line_or_lineFeed rest with hall | ⟨tail, htail⟩
        · rw [hall] at hcomment
          exact absurd (List.self_eq_append_right.mp hcomment) hsome
        · have hfeed' : gap ++ last.rest = '\n' :: tail :=
            List.append_cancel_left (hcomment.symm.trans htail)
          obtain ⟨gap', rfl, hgap'⟩ := hgap.exists_of_lineFeed hfeed' hrest hfeed
          refine ⟨'#' :: Text.line rest ++ '\n' :: gap', ?_, .comment (Text.not_mem_line rest) hgap',
            fun hdirect => absurd List.mem_cons_self (hline (hdirective.trans hdirect))⟩
          rw [hcursor, List.append_assoc, List.cons_append, ← hcomment]

/-- A comma or a closing bracket stands behind a gap. -/
theorem Shows.exists_gap (h : cursor.Shows token) (hkind : token.kind = .symbol sign)
    (hsign : Lexeme.Separates character sign) :
    ∃ gap text, cursor.rest = gap ++ character :: text ∧ Text.Gap gap ∧
      (cursor.mode.isDirective = true → '\n' ∉ gap) := by
  obtain ⟨onset, piece, hreaches, hpiece, htoken, -⟩ := h.exists_onset
  obtain ⟨first, rest, hrest, hread, -⟩ := eq_of_piece? hpiece
  rw [kind_of_token? htoken, hkind] at hread
  obtain rfl := Lexeme.separates_of_read hsign hread.symm
  obtain ⟨gap, hcursor, hgap, hline⟩ := hreaches.exists_gap (by rw [hrest]; rfl) hsign.ne_lineFeed
  exact ⟨gap, rest, by rw [hcursor, hrest], hgap, hline⟩

end Cursor

end ConfLang
