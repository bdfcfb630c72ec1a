import ConfLang.Proofs.Alteration.Diagnostics
import ConfLang.Proofs.Alteration.Gap
import ConfLang.Proofs.Alteration.Lists

/-!
# Commas at the end of a list

In front of the bracket that closes a list it does not matter whether there is a comma.

The text is the same up to the last item, and this item is read as before, as a gap, a comma or a
bracket follows it (`Cursor.Walks.follows_onto`).  Behind the bracket the text is the same again.
If there is a comma between them, the text follows the tokens with a comma, and without one it
follows both those with a comma and those without.
-/

namespace ConfLang

open Grammar

theorem TokenKind.isFirm_of_endsExpression {kind : TokenKind} (h : kind.endsExpression = true) :
    kind.isFirm = true := by
  cases kind with
  | symbol sign => cases sign <;> first | rfl | cases h
  | _ => first | rfl | cases h

namespace Cursor

variable {cursor middle last : Cursor} {token : Token} {first rest ts : List Token}
  {source : String} {before text : List Char}

/-! ## A text with another end -/

/-- A token that may end an expression is read in front of any text that does not go on with it. -/
theorem Shows.exists_stopped (h : cursor.Shows token) (hends : token.kind.endsExpression = true) :
    ∃ (onset : Cursor) (mark : Char) (word : List Char), cursor.Reaches onset ∧
      onset.rest = mark :: (word ++ cursor.next.cursor.rest) ∧
      Text.isBlank mark = false ∧ mark ≠ '.' ∧
      ∀ (other : Cursor) (tail : List Char), other.mode = onset.mode →
        other.rest = mark :: (word ++ tail) → Stops tail →
        (∃ span, other.Shows ⟨token.kind, span⟩) ∧ other.next.cursor.rest = tail ∧
          other.next.cursor.mode = cursor.next.cursor.mode := by
  obtain ⟨onset, piece, hreaches, hpiece, htoken, hfaults⟩ := h.exists_onset
  obtain ⟨mark, text, hrest, hkind, hfaults', -⟩ := eq_of_piece? hpiece
  rw [kind_of_token? htoken] at hkind
  rw [hfaults] at hfaults'
  have hpiece' := piece?_of_rest hrest
  rw [hpiece, Option.some.injEq, Prod.mk.injEq] at hpiece'
  obtain ⟨-, hafter⟩ := hpiece'
  -- the token without what follows it
  obtain ⟨word, hword⟩ : ∃ word, word = text.take (Lexeme.read onset.mode mark text).further := ⟨_, rfl⟩
  have hlength : word.length = (Lexeme.read onset.mode mark text).further := by
    rw [hword, List.length_take, Nat.min_eq_left (Lexeme.further_read_le _ _ _)]
  have htext : text = word ++ cursor.next.cursor.rest := by
    have hdrop : cursor.next.cursor.rest = text.drop (Lexeme.read onset.mode mark text).further := by
      rw [hafter]
      exact congrArg (List.drop _) hrest
    rw [hdrop, hword, List.take_append_drop]
  have hread : Lexeme.read onset.mode mark text = Lexeme.read onset.mode mark word := by
    have hle := hlength.ge
    rw [htext] at hle ⊢
    exact Lexeme.read_excerpt _ hle
  rw [hread] at hkind hfaults' hlength hafter
  refine ⟨onset, mark, word, hreaches, by rw [hrest, htext], ?_, ?_, ?_⟩
  · exact Lexeme.isBlank_of_token hkind.symm fun hline => by rw [hline] at hends; cases hends
  · rintro rfl
    have hdot : token.kind = .symbol .dot := LexemeKind.token.inj hkind
    rw [hdot] at hends
    cases hends
  · intro other tail hmode hother hstops
    have hsame := Lexeme.read_stops hkind.symm hends hfaults'.symm hlength.symm hstops
    have hpiece' := piece?_of_rest hother
    rw [hmode, hsame] at hpiece'
    obtain ⟨hshows, hcursor⟩ := shows_of_piece? hpiece' (by rw [Piece.token?, ← hkind]) hfaults'.symm
    have htake (tail : List Char) : (mark :: (word ++ tail)).take
        (Lexeme.read onset.mode mark word).width = mark :: word := by
      rw [Lexeme.width, ← hlength, List.take_succ_cons, List.take_left]
    refine ⟨⟨_, hshows⟩, ?_, ?_⟩
    · rw [hcursor]
      simp only [advance, hother, Lexeme.width, ← hlength, List.drop_succ_cons, List.drop_left]
    · rw [hcursor, hafter]
      simp only [advance, hother, hrest, htext, htake, hmode]

/-- A text that is the same up to the last one of some tokens follows these tokens. -/
theorem Walks.follows_onto (h : (Cursor.ofSource source).Walks first middle)
    (hfinished : Finished first) (hsource : source.toList = before ++ middle.rest)
    (hstops : Stops text) :
    ∃ other : Cursor, other.StandsIn (before ++ text) ∧ other.rest = text ∧
      other.mode = middle.mode ∧
      ∀ {rest due}, Alteration.whole.Follows (Zone.code.behind first) rest other due →
        Alteration.whole.Follows .code (first ++ rest)
          (.ofSource (String.ofList (before ++ text))) due := by
  obtain ⟨inside, token, rfl, hends⟩ := hfinished
  obtain ⟨place, hinside, hlast⟩ := h.split
  have htoken : ∀ text, token.kind ≠ .restOfLine text := fun text htext => by
    rw [htext] at hends
    cases hends
  obtain ⟨hshows, hnil⟩ := hlast.shows htoken
  cases hnil
  obtain ⟨onset, mark, word, hreaches, honset, hblank, hpoint, hstopped⟩ :=
    hshows.exists_stopped hends
  -- up to that token the texts are the same
  obtain ⟨front, hfront, -⟩ := hreaches.standsIn (hinside.scans.standsIn (.ofSource source))
  obtain rfl : before = front ++ mark :: word := by
    rw [hfront, honset, ← List.cons_append, ← List.append_assoc] at hsource
    exact (List.append_cancel_right hsource).symm
  have htext : (Cursor.ofSource (String.ofList (front ++ mark :: word ++ text))).rest =
      front ++ (mark :: (word ++ text)) := by
    rw [ofSource, String.toList_ofList, List.append_assoc, List.cons_append]
  have hbeside : Beside (front ++ mark :: word ++ text) (mark :: (word ++ place.next.cursor.rest))
      (mark :: (word ++ text)) (.ofSource source)
      (.ofSource (String.ofList (front ++ mark :: word ++ text))) := by
    refine ⟨⟨front, ?_, htext⟩, rfl, ?_⟩
    · rw [ofSource, hfront, honset]
    · have hstands := StandsIn.ofSource (String.ofList (front ++ mark :: word ++ text))
      rwa [String.toList_ofList] at hstands
  have halike : Text.Alike (mark :: (word ++ place.next.cursor.rest)) (mark :: (word ++ text)) :=
    Text.alike_mark hblank hpoint
  have hkept (token : Token) (_ : token ∈ inside) : token.kind.opensCondition = true →
      Alteration.whole.gone token.span.start = false := fun _ => rfl
  have htail := honset ▸ hreaches.rest
  obtain ⟨other, hother, hfollows⟩ := hinside.follows halike hbeside htail hkept
  -- and that token is read as before
  obtain ⟨onset', hreaches', honset'⟩ := hother.reaches halike hreaches (by rw [honset])
  obtain ⟨⟨span, hfound⟩, hrest, hmode⟩ :=
    hstopped onset' text honset'.mode (honset'.at_tail honset) hstops
  obtain ⟨hshows', hcursor⟩ := hreaches'.shows hfound
  refine ⟨other.next.cursor, hother.stands.next.1, by rw [hcursor, hrest], by rw [hcursor, hmode],
    fun {rest due} hrest => ?_⟩
  rw [List.append_assoc]
  rw [Zone.behind_append] at hrest
  exact hfollows (.token (TokenKind.isFirm_of_endsExpression hends) (fun _ => rfl) hshows' hrest)

/-! ## The end of a list -/

/-- Where tokens end that all stand in the source. -/
theorem Walks.offset_of_stopsAt {stop : Nat} (h : cursor.Walks ts last) (hstop : StopsAt ts stop) :
    stop = last.position.offset := by
  obtain ⟨inside, token, rfl, hle⟩ := hstop.last
  obtain ⟨other, hmem, rfl⟩ := hstop.stop
  rw [h.stop_last] at hle
  exact Nat.le_antisymm (h.stop_le other hmem) hle

theorem bytes_behind {before gap : List Char} {character : Char}
    (h : cursor.position = Position.start.after before) :
    Position.bytes (before ++ gap ++ [character]) =
      ((cursor.position.after gap).next character).offset := by
  have hafter : (cursor.position.after gap).next character =
      Position.start.after (before ++ gap ++ [character]) := by
    rw [Position.after_append, Position.after_append, ← h]
    rfl
  rw [hafter, Position.start_after]

end Cursor

/-! ## Lists in the text -/

/-- A token that closes a list is a bracket. -/
theorem separates_of_closesList {token : Token} (h : token.kind.closesList = true) :
    ∃ character sign, Lexeme.Separates character sign ∧ token.kind = .symbol sign ∧
      character ≠ ',' := by
  simp only [TokenKind.closesList, decide_eq_true_eq] at h
  rcases h with hparen | hbracket
  · exact ⟨_, _, .paren, hparen, by decide⟩
  · exact ⟨_, _, .bracket, hbracket, by decide⟩

/-- One of two texts is a gap, and the other one is that gap with a comma in it. -/
def Text.DifferByComma (text text' : List Char) : Prop :=
  ∃ gap gap', Gap gap ∧ Gap gap' ∧
    (text = gap ++ gap' ∧ text' = gap ++ ',' :: gap' ∨
      text = gap ++ ',' :: gap' ∧ text' = gap ++ gap')

namespace Cursor

variable {middle last : Cursor} {source : String} {ts first rest : List Token} {closer : Token}
  {before gap gap' behind : List Char} {character : Char} {sign : Symbol}

/-- Where a list is closed, its bracket stands behind a gap. -/
theorem Scans.exists_closer (h : middle.Scans (closer :: rest) last)
    (hcloses : closer.kind.closesList = true) :
    ∃ gap character sign behind, middle.rest = gap ++ character :: behind ∧ Text.Gap gap ∧
      (middle.mode.isDirective = true → '\n' ∉ gap) ∧ Lexeme.Separates character sign ∧
      closer.kind = .symbol sign ∧ character ≠ ',' ∧ middle.Shows closer ∧
      middle.next.cursor = ⟨behind, (middle.position.after gap).next character,
        ⟨false, middle.mode.isDirective⟩⟩ ∧ middle.next.cursor.Scans rest last := by
  obtain ⟨character, sign, hsign, hkind, hcomma⟩ := separates_of_closesList hcloses
  obtain ⟨hshows, hscan⟩ := h.shows_of_ne (by simp [hkind]) (by simp [hkind])
  obtain ⟨gap, behind, hrest, hgap, hline⟩ := hshows.exists_gap hkind hsign
  obtain ⟨-, hnext⟩ := next_behind_gap hsign hgap hrest hline
  exact ⟨gap, character, sign, behind, hrest, hgap, hline, hsign, hkind, hcomma, hshows, hnext, hscan⟩

/-- In front of the bracket that closes a list, the tokens from there on are followed. -/
theorem Scans.follows_closer {other after : Cursor} {text : List Char}
    (h : after.Scans rest last) (hend : last.AtEnd) (hcloses : closer.kind.closesList = true)
    (hsign : Lexeme.Separates character sign) (hkind : closer.kind = .symbol sign)
    (hgap : Text.Gap gap) (hrest : other.rest = gap ++ character :: after.rest)
    (hline : other.mode.isDirective = true → '\n' ∉ gap) (hother : other.StandsIn text)
    (hmode : after.mode = ⟨false, other.mode.isDirective⟩) :
    Alteration.whole.Follows .code (closer :: rest) other [] := by
  obtain ⟨hshows, hnext⟩ := next_behind_gap hsign hgap hrest hline
  have hbeside : Beside text [] [] after other.next.cursor := by
    refine ⟨⟨after.rest, ?_, ?_⟩, ?_, hother.next.1⟩
    · rw [List.append_nil]
    · rw [hnext, List.append_nil]
    · rw [hnext, hmode]
  obtain ⟨hfirm, hzone, -⟩ := TokenKind.isFirm_of_closesList hcloses
  rw [← hkind] at hshows
  exact .token hfirm (fun _ => rfl) hshows (h.follows hend hbeside fun _ _ _ => rfl)

section Lists

variable {after : Cursor} {place : Span} (hfirst : (Cursor.ofSource source).Walks first middle)
  (hfinished : Finished first) (hzone : Zone.code.behind first = .code)
  (hsource : source.toList = before ++ middle.rest) (hsign : Lexeme.Separates character sign)
  (hkind : closer.kind = .symbol sign) (hcloses : closer.kind.closesList = true)
  (hscan : after.Scans rest last) (hend : last.AtEnd)
  (hmode : after.mode = ⟨false, middle.mode.isDirective⟩) (hgap : Text.Gap gap)

include hfirst hfinished hzone hsource hsign hkind hcloses hscan hend hmode hgap

/-- With a comma behind the last item, a text follows tokens with a comma there. -/
theorem Walks.follows_with_comma (hgap' : Text.Gap gap')
    (hline : middle.mode.isDirective = true → '\n' ∉ gap ++ gap') :
    Alteration.whole.Follows .code (first ++ ⟨.symbol .comma, place⟩ :: closer :: rest)
      (.ofSource (String.ofList (before ++ (gap ++ ',' :: gap') ++ character :: after.rest))) [] := by
  have hstops : Stops (gap ++ ',' :: (gap' ++ character :: after.rest)) := hgap.stops .comma
  obtain ⟨other, hstands, hother, hmode', hfollows⟩ :=
    hfirst.follows_onto hfinished hsource hstops
  have hlines : other.mode.isDirective = true → '\n' ∉ gap ∧ '\n' ∉ gap' := by
    rw [hmode']
    simpa [not_or] using hline
  obtain ⟨hcomma, hnext⟩ := next_behind_gap .comma hgap hother fun h => (hlines h).1
  have hrest : other.next.cursor.rest = gap' ++ character :: after.rest := by rw [hnext]
  have hafter : after.mode = ⟨false, other.next.cursor.mode.isDirective⟩ := by
    rw [hnext, hmode, hmode']
  have hlast := hscan.follows_closer hend hcloses hsign hkind hgap' hrest
    (by rw [hnext]; exact fun h => (hlines h).2) hstands.next.1 hafter
  have hbetween : Alteration.whole.Follows (Zone.code.behind first)
      (⟨.symbol .comma, place⟩ :: closer :: rest) other [] := by
    rw [hzone]
    exact .comma hcomma .nil (fun h => absurd rfl h) hlast
  have hall := hfollows hbetween
  simpa using hall

/-- Without a comma behind the last item, a text follows tokens with a comma there as well. -/
theorem Walks.follows_without_comma (hline : middle.mode.isDirective = true → '\n' ∉ gap) :
    Alteration.whole.Follows .code (first ++ ⟨.symbol .comma, place⟩ :: closer :: rest)
      (.ofSource (String.ofList (before ++ gap ++ character :: after.rest))) [] := by
  have hstops : Stops (gap ++ character :: after.rest) := hgap.stops hsign
  obtain ⟨other, hstands, hother, hmode', hfollows⟩ :=
    hfirst.follows_onto hfinished hsource hstops
  have hlast := hscan.follows_closer hend hcloses hsign hkind hgap hother (hmode' ▸ hline) hstands
    (hmode' ▸ hmode)
  have hbetween : Alteration.whole.Follows (Zone.code.behind first)
      (⟨.symbol .comma, place⟩ :: closer :: rest) other [] := by
    rw [hzone]
    exact .absent hcloses hlast
  have hall := hfollows hbetween
  rwa [← List.append_assoc] at hall

end Lists

end Cursor

namespace Grammar

variable {options : Options} {source : String} {ts : List Token} {program : Program}
  {last : Cursor} {inner outer : Nat}

/-- The end of a list in the text: with the comma behind the last item, or without it, the text
follows tokens of the same program. -/
theorem ListEnd.exists_text (h : ListEnd (IsProgram options · program) ts inner outer)
    (hprogram : IsProgram options ts program)
    (hscan : (Cursor.ofSource source).Scans ts last) (hend : last.AtEnd) :
    ∃ before tail closer behind, source.toList = before ++ tail ++ closer :: behind ∧
      Position.bytes before = inner ∧ Position.bytes (before ++ tail ++ [closer]) = outer ∧
      (∃ tail', Text.DifferByComma tail tail') ∧
      ∀ tail', Text.DifferByComma tail tail' → ∃ ts', IsProgram options ts' program ∧
        noticesOf .code ts' = noticesOf .code ts ∧
        Alteration.whole.Follows .code ts'
          (.ofSource (String.ofList (before ++ tail' ++ closer :: behind))) [] := by
  obtain ⟨first, commas, place, closer, rest, rfl, hends, hzone, hcommas, hcloses, hstop, hmore⟩ := h
  rcases hcommas with rfl | rfl
  · -- there is no comma, and one is put into the gap
    obtain ⟨middle, hfirst, hrest⟩ := hscan.walks_first (wholeLines_program hprogram)
    obtain ⟨gap, character, sign, behind, hmiddle, hgap, hline, hsign, hkind, -, hshows, hnext,
      hbehind⟩ := hrest.exists_closer hcloses
    obtain ⟨before, hsource, hposition⟩ := hfirst.scans.standsIn (.ofSource source)
    obtain rfl : behind = middle.next.cursor.rest := by rw [hnext]
    refine ⟨before, gap, character, middle.next.cursor.rest, ?_, ?_, ?_, ?_, ?_⟩
    · rw [hsource, hmiddle, List.append_assoc]
    · rw [hfirst.offset_of_stopsAt hends.stopsAt, hposition, Position.start_after]
    · rw [Cursor.bytes_behind hposition, (hfirst.append (hshows.walks .nil)).offset_of_stopsAt hstop,
        hnext]
    · exact ⟨_, gap, [], hgap, .nil, .inl ⟨(List.append_nil _).symm, rfl⟩⟩
    · rintro tail' ⟨gap', gap'', hgap', hgap'', ⟨rfl, rfl⟩ | ⟨htail, -⟩⟩
      · refine ⟨_, hmore, ?_, hfirst.follows_with_comma hends.finished hzone hsource hsign hkind hcloses
          hbehind hend (by rw [hnext]) hgap' hgap'' hline⟩
        rw [noticesOf_append, noticesOf_append, hzone]
        rfl
      · exact absurd htail (hgap.not_comma hgap')
  · -- there is a comma, and it is taken out
    obtain ⟨middle, hfirst, hrest⟩ := hscan.walks_first (wholeLines_program hprogram)
    obtain ⟨hshows, hrest⟩ := hrest.shows_of_ne (by simp) (by simp)
    obtain ⟨gap, text, hmiddle, hgap, hline⟩ := hshows.exists_gap rfl .comma
    obtain ⟨-, hnext⟩ := Cursor.next_behind_gap .comma hgap hmiddle hline
    obtain ⟨gap', character, sign, behind, htext, hgap', hline', hsign, hkind, -, hshows', hnext',
      hbehind⟩ := hrest.exists_closer hcloses
    obtain rfl : text = gap' ++ character :: behind := by rw [← htext, hnext]
    obtain rfl : behind = middle.next.cursor.next.cursor.rest := by rw [hnext']
    obtain ⟨before, hsource, hposition⟩ := hfirst.scans.standsIn (.ofSource source)
    refine ⟨before, gap ++ ',' :: gap', character, middle.next.cursor.next.cursor.rest, ?_, ?_, ?_,
      ?_, ?_⟩
    · rw [hsource, hmiddle]
      simp
    · rw [hfirst.offset_of_stopsAt hends.stopsAt, hposition, Position.start_after]
    · have hwalk := hfirst.append (hshows.walks (hshows'.walks .nil))
      rw [hwalk.offset_of_stopsAt hstop, Cursor.bytes_behind hposition, Position.after_append,
        Position.after_cons, hnext', hnext]
    · exact ⟨_, gap, gap', hgap, hgap', .inr ⟨rfl, rfl⟩⟩
    · rintro tail' ⟨gap₁, gap₂, hgap₁, hgap₂, ⟨htail, -⟩ | ⟨htail, rfl⟩⟩
      · exact absurd htail.symm ((hgap₁.append hgap₂).not_comma hgap)
      · obtain ⟨rfl, -, rfl⟩ := hgap.unique hgap₁ .comma .comma htail
        have hlines : middle.mode.isDirective = true → '\n' ∉ gap ++ gap' := by
          rw [hnext] at hline'
          exact fun h => by simpa [not_or] using ⟨hline h, hline' h⟩
        exact ⟨_, hmore, rfl, hfirst.follows_without_comma hends.finished hzone hsource hsign hkind
          hcloses hbehind hend (by rw [hnext', hnext]) (hgap.append hgap') hlines⟩

end Grammar

end ConfLang
