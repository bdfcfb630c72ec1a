import ConfLang.Proofs.Alteration.Lexeme
import ConfLang.Proofs.Excerpt.Cursor

/-!
# Cursors in texts that differ further on

Two texts that are the same up to some place have the same tokens in front of it, as long as what
stands behind that place does not belong to them (`Text.Alike`).  `Cursor.Beside` is the relation of
cursors at the same character of such texts.  The places are those of two texts, and they are not
compared: the second cursor only stands somewhere in its own text.

A token is found behind some trivia, where its first character stands.  `Cursor.Reaches` is the
relation of a place to a place behind trivia, so that a token can be cut out of its text.
-/

namespace ConfLang

open Text

variable {tail tail' : List Char} {mark : Char}

/-! ## Texts that may replace each other -/

/-- What does not reach into one of two texts is read in the same way in front of the other one. -/
structure Text.Alike (tail tail' : List Char) : Prop where
  read : ∀ mode first rest, (Lexeme.read mode first (rest ++ tail)).further ≤ rest.length →
    Lexeme.read mode first (rest ++ tail') = Lexeme.read mode first (rest ++ tail)
  spacing : ∀ rest, ((rest ++ tail).takeWhile isSpacing).length ≤ rest.length →
    (rest ++ tail').takeWhile isSpacing = (rest ++ tail).takeWhile isSpacing
  line : ∀ rest, (trimEnd (line (rest ++ tail))).length ≤ rest.length →
    trimEnd (line (rest ++ tail')) = trimEnd (line (rest ++ tail))

theorem Text.alike_refl (tail : List Char) : Alike tail tail where
  read _ _ _ _ := rfl
  spacing _ _ := rfl
  line _ _ := rfl

theorem Text.alike_mark (hmark : isBlank mark = false) (hpoint : mark ≠ '.') :
    Alike (mark :: tail) (mark :: tail') where
  read mode _ _ h := Lexeme.read_mark mode hmark hpoint h
  spacing _ h := by rw [takeWhile_mark h, takeWhile_mark h]
  line _ h := by rw [trimEnd_line_mark hmark h, trimEnd_line_mark hmark h]

/-- Whether a piece is a token is told by its kind. -/
theorem Piece.token?_of_kind {piece piece' : Piece} (hkind : piece'.kind = piece.kind)
    (htoken : piece.token? = none) : piece'.token? = none := by
  rw [token?] at htoken ⊢
  rw [hkind]
  split at htoken
  · cases htoken
  · rfl

namespace Cursor

/-! ## Behind trivia -/

/-- From a place to another one, with nothing but trivia between them. -/
inductive Reaches : Cursor → Cursor → Prop where
  | refl {cursor : Cursor} : Reaches cursor cursor
  | pass {cursor after last : Cursor} {piece : Piece} : cursor.piece? = some (piece, after) →
    piece.token? = none → piece.faults = [] → Reaches after last → Reaches cursor last

variable {cursor after last other : Cursor} {token : Token} {piece : Piece} {source : List Char}

theorem Reaches.standsIn (h : cursor.Reaches last) (hcursor : cursor.StandsIn source) :
    last.StandsIn source := by
  induction h with
  | refl => exact hcursor
  | pass hpiece _ _ _ ih => exact ih (hcursor.piece? hpiece).1

theorem Reaches.rest (h : cursor.Reaches last) : last.rest <:+ cursor.rest := by
  induction h with
  | refl => exact List.suffix_rfl
  | pass hpiece _ _ _ ih => exact ih.trans (rest_piece? hpiece)

theorem Reaches.isDirective (h : cursor.Reaches last) :
    last.mode.isDirective = cursor.mode.isDirective := by
  induction h with
  | refl => rfl
  | pass hpiece htoken _ _ ih => exact ih.trans (isDirective_of_passed hpiece htoken)

/-- Behind trivia the same token is found as in front of it. -/
theorem Reaches.shows (h : cursor.Reaches last) (hlast : last.Shows token) :
    cursor.Shows token ∧ cursor.next.cursor = last.next.cursor := by
  induction h with
  | refl => exact ⟨hlast, rfl⟩
  | pass hpiece htoken hfaults _ ih =>
      obtain ⟨⟨hshown, hproblems, hkind⟩, hcursor⟩ := ih hlast
      rw [next_of_passed hpiece htoken]
      refine ⟨⟨?_, ?_, hkind⟩, hcursor⟩
      · rw [next_of_passed hpiece htoken]
        exact hshown
      · rw [next_of_passed hpiece htoken, Scan.problems_pass, hproblems, List.append_nil]
        exact Piece.problems_eq_nil_iff.mpr hfaults

/-- A token is a piece behind some trivia. -/
theorem Shows.exists_onset (h : cursor.Shows token) : ∃ onset piece, cursor.Reaches onset ∧
    onset.piece? = some (piece, cursor.next.cursor) ∧ piece.token? = some token ∧
    piece.faults = [] := by
  obtain ⟨hshown, hproblems, hkind⟩ := h
  fun_induction next cursor with
  | case1 => exact absurd hshown.symm fun heq => hkind (heq ▸ rfl)
  | case2 cursor piece after hpiece token' htoken =>
      obtain rfl := hshown
      exact ⟨cursor, piece, .refl, hpiece, htoken, Piece.problems_eq_nil_iff.mp hproblems⟩
  | case3 cursor piece after hpiece htoken scan ih =>
      rw [Scan.problems_pass, List.append_eq_nil_iff] at hproblems
      obtain ⟨onset, found, hreaches, hfound⟩ := ih hshown hproblems.2
      exact ⟨onset, found,
        .pass hpiece htoken (Piece.problems_eq_nil_iff.mp hproblems.1) hreaches, hfound⟩

/-- A piece that is a token is the next token. -/
theorem shows_of_piece? (hpiece : cursor.piece? = some (piece, after))
    (htoken : piece.token? = some token) (hfaults : piece.faults = []) :
    cursor.Shows token ∧ cursor.next.cursor = after := by
  have hnext := next_of_token hpiece htoken
  refine ⟨⟨by rw [hnext], ?_, ?_⟩, by rw [hnext]⟩
  · rw [hnext]
    exact Piece.problems_eq_nil_iff.mpr hfaults
  · intro hkind
    have hscanned := isScanned_of_piece? hpiece htoken
    rw [hkind] at hscanned
    cases hscanned

/-! ## Cursors at the same character -/

/-- A cursor in a text and a cursor in another one, which has other characters from some place
on. -/
structure Beside (source tail tail' : List Char) (cursor other : Cursor) : Prop where
  text : ∃ text, cursor.rest = text ++ tail ∧ other.rest = text ++ tail'
  mode : other.mode = cursor.mode
  stands : other.StandsIn source

namespace Beside

/-- What does not reach behind the place where the texts begin to differ is not longer than what
they share. -/
theorem le_length {text : List Char} (hrest : cursor.rest = text ++ tail) {count : Nat}
    (hcount : count ≤ cursor.rest.length) (htail : tail <:+ cursor.rest.drop count) :
    count ≤ text.length := by
  have hlength := htail.length_le
  rw [List.length_drop, hrest, List.length_append] at hlength
  rw [hrest, List.length_append] at hcount
  omega

theorem advance (h : Beside source tail tail' cursor other) {count : Nat}
    (hcount : count ≤ cursor.rest.length) (htail : tail <:+ cursor.rest.drop count) :
    Beside source tail tail' (cursor.advance count) (other.advance count) := by
  obtain ⟨text, hrest, hrest'⟩ := h.text
  have hinside := le_length hrest hcount htail
  refine ⟨⟨text.drop count, ?_, ?_⟩, ?_, h.stands.advance count⟩
  · rw [Cursor.advance, hrest, List.drop_append_of_le_length hinside]
  · rw [Cursor.advance, hrest', List.drop_append_of_le_length hinside]
  · rw [Cursor.advance, Cursor.advance, hrest, hrest', List.take_append_of_le_length hinside,
      List.take_append_of_le_length hinside, h.mode]

/-- Up to the place where the texts begin to differ. -/
theorem rest_eq {word : List Char} (h : Beside source tail tail' cursor other)
    (hrest : cursor.rest = word ++ tail) : other.rest = word ++ tail' := by
  obtain ⟨text, htext, hrest'⟩ := h.text
  rw [hrest] at htext
  rw [hrest', List.append_cancel_right htext]

/-- In front of the place where the texts begin to differ. -/
theorem at_tail (h : Beside source tail tail' cursor other) (hrest : cursor.rest = tail) :
    other.rest = tail' :=
  (h.rest_eq (hrest.trans (List.nil_append tail).symm)).trans (List.nil_append tail')

theorem piece? (h : Beside source tail tail' cursor other) (halike : Alike tail tail')
    (hpiece : cursor.piece? = some (piece, after)) (htail : tail <:+ after.rest) :
    ∃ piece' after', other.piece? = some (piece', after') ∧
      Beside source tail tail' after after' ∧ piece'.kind = piece.kind ∧
      piece'.faults = piece.faults := by
  unfold Cursor.piece? at hpiece
  split at hpiece
  · cases hpiece
  rename_i first rest hrest
  simp only [Option.some.injEq, Prod.mk.injEq] at hpiece
  obtain ⟨rfl, rfl⟩ := hpiece
  have hwidth : (Lexeme.read cursor.mode first rest).width ≤ cursor.rest.length := by
    rw [hrest]
    exact Nat.succ_le_succ (Lexeme.further_read_le _ _ _)
  have hafter := h.advance hwidth htail
  obtain ⟨text, htext, htext'⟩ := h.text
  have hinside := le_length htext hwidth htail
  cases text with
  | nil => exact absurd hinside (Nat.not_succ_le_zero _)
  | cons first' text =>
      rw [htext, List.cons_append, List.cons.injEq] at hrest
      obtain ⟨rfl, rfl⟩ := hrest
      have hread := halike.read _ _ _ (Nat.le_of_succ_le_succ hinside)
      rw [List.cons_append] at htext'
      have hpiece' := piece?_of_rest htext'
      rw [h.mode, hread] at hpiece'
      refine ⟨_, _, hpiece', ⟨hafter.text, ?_, hafter.stands⟩, rfl, rfl⟩
      exact congrArg (modeAfter · _) hafter.mode

/-- Trivia in front of the place where the texts begin to differ is trivia in both. -/
theorem reaches (h : Beside source tail tail' cursor other) (halike : Alike tail tail')
    (hreaches : cursor.Reaches last) (htail : tail <:+ last.rest) :
    ∃ last', other.Reaches last' ∧ Beside source tail tail' last last' := by
  induction hreaches generalizing other with
  | refl => exact ⟨other, .refl, h⟩
  | pass hpiece htoken hfaults hrest ih =>
      obtain ⟨piece', after', hpiece', hafter, hkind, hfaults'⟩ :=
        h.piece? halike hpiece (htail.trans hrest.rest)
      obtain ⟨last', hlast, hbeside⟩ := ih hafter htail
      exact ⟨last', .pass hpiece' (Piece.token?_of_kind hkind htoken) (hfaults'.trans hfaults) hlast,
        hbeside⟩

/-- A token in front of the place where the texts begin to differ is one of both. -/
theorem next (h : Beside source tail tail' cursor other) (halike : Alike tail tail')
    (hshows : cursor.Shows token) (htail : tail <:+ cursor.next.cursor.rest) :
    (∃ span, other.Shows ⟨token.kind, span⟩) ∧
      Beside source tail tail' cursor.next.cursor other.next.cursor := by
  obtain ⟨onset, piece, hreaches, hpiece, htoken, hfaults⟩ := hshows.exists_onset
  obtain ⟨onset', hreaches', honset⟩ := h.reaches halike hreaches (htail.trans (rest_piece? hpiece))
  obtain ⟨piece', after', hpiece', hafter, hkind, hfaults'⟩ := honset.piece? halike hpiece htail
  have htoken' : piece'.token? = some ⟨token.kind, piece'.span⟩ := by
    rw [Piece.token?, hkind, kind_of_token? htoken]
  obtain ⟨hshows', hcursor⟩ := shows_of_piece? hpiece' htoken' (hfaults'.trans hfaults)
  obtain ⟨hother, hcursor'⟩ := hreaches'.shows hshows'
  exact ⟨⟨_, hother⟩, by rwa [hcursor', hcursor]⟩

/-- Raw text in front of the place where the texts begin to differ is the same in both. -/
theorem rawLine (h : Beside source tail tail' cursor other) (halike : Alike tail tail')
    (htail : tail <:+ cursor.rawLine.cursor.rest) : other.rawLine.text = cursor.rawLine.text ∧
      Beside source tail tail' cursor.rawLine.cursor other.rawLine.cursor := by
  obtain ⟨text, hrest, hrest'⟩ := h.text
  have hwidth : cursor.spacing.length ≤ cursor.rest.length := (List.takeWhile_prefix _).length_le
  have hbehind : tail <:+ (cursor.advance cursor.spacing.length).rest :=
    htail.trans (rest_advance _ _)
  have hspacing : other.spacing = cursor.spacing := by
    have hinside := le_length hrest hwidth hbehind
    rw [spacing, hrest] at hinside
    rw [spacing, spacing, hrest, hrest', halike.spacing _ hinside]
  have hstart := h.advance hwidth hbehind
  obtain ⟨text', hstart', hother⟩ := hstart.text
  have hlength : (trimEnd (line (cursor.advance cursor.spacing.length).rest)).length ≤
      (cursor.advance cursor.spacing.length).rest.length :=
    (length_trimEnd_le _).trans (List.takeWhile_prefix _).length_le
  have hline : trimEnd (line (other.advance cursor.spacing.length).rest) =
      trimEnd (line (cursor.advance cursor.spacing.length).rest) := by
    have hinside := le_length hstart' hlength htail
    rw [hstart'] at hinside
    rw [hstart', hother, halike.line _ hinside]
  have hafter := hstart.advance hlength htail
  simp only [Cursor.rawLine, hspacing, hline]
  exact ⟨trivial, hafter⟩

end Beside

/-- Where the same text is left, the end of a source is its end in both. -/
theorem AtEnd.beside (hend : cursor.AtEnd) (h : Beside source [] [] cursor other) : other.AtEnd := by
  have hblank := hend.isBlank
  clear hend
  induction hblank generalizing other with
  | stop hrest => exact atEnd_of_rest_nil (h.at_tail hrest)
  | pass hpiece htoken hfaults _ ih =>
      obtain ⟨piece', after', hpiece', hafter, hkind, hfaults'⟩ :=
        h.piece? (alike_refl []) hpiece (List.nil_suffix)
      obtain ⟨hend, hproblems⟩ := ih hafter
      have htoken' := Piece.token?_of_kind hkind htoken
      rw [AtEnd, next_of_passed hpiece' htoken', Scan.problems_pass, hproblems, List.append_nil]
      exact ⟨hend, Piece.problems_eq_nil_iff.mpr (hfaults'.trans hfaults)⟩

end Cursor

end ConfLang
