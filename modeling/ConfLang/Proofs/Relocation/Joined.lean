import ConfLang.Proofs.Grammar.View
import ConfLang.Proofs.Relocation.Cursor
import ConfLang.Proofs.Relocation.Lexeme
import ConfLang.Proofs.Relocation.Lines

/-!
# Scanning a source that another one is put behind

With a line feed and another text behind it, a source has the same tokens as before.  Where it
ended, its last line now ends at that line feed: if it is the line of a directive, the line feed
is the token that the end of the source stood in for, and otherwise it is spacing in front of
the other text.
-/

namespace ConfLang.Cursor

variable (tail : List Char) {cursor after last : Cursor} {piece : Piece} {ts : List Token}

/-- A cursor with a line feed and another text behind all that is left. -/
def joined (cursor : Cursor) : Cursor :=
  { cursor with rest := cursor.rest ++ '\n' :: tail }

/-- The beginning of the other text, seen from a cursor at the end. -/
def resumed (cursor : Cursor) : Cursor :=
  ⟨tail, cursor.next.cursor.position.next '\n', {}⟩

/-! ## Pieces -/

theorem advance_joined (cursor : Cursor) {count : Nat} (h : count ≤ cursor.rest.length) :
    (cursor.joined tail).advance count = (cursor.advance count).joined tail := by
  simp only [advance, joined, List.take_append_of_le_length h, List.drop_append_of_le_length h]

theorem piece?_joined (h : cursor.piece? = some (piece, after)) :
    (cursor.joined tail).piece? = some (piece, after.joined tail) := by
  obtain ⟨rest, position, mode⟩ := cursor
  cases rest with
  | nil => cases h
  | cons first rest =>
      simp only [piece?, Option.some.injEq, Prod.mk.injEq] at h
      obtain ⟨rfl, rfl⟩ := h
      have hwidth : (Lexeme.read mode first rest).width ≤ (first :: rest).length :=
        Nat.succ_le_succ (Lexeme.further_read_le mode first rest)
      have hadvance := advance_joined tail ⟨first :: rest, position, mode⟩ hwidth
      simp only [joined, List.cons_append, piece?, Lexeme.read_line tail] at hadvance ⊢
      rw [hadvance]

theorem rawLine_joined (cursor : Cursor) : (cursor.joined tail).rawLine =
    { cursor.rawLine with cursor := cursor.rawLine.cursor.joined tail } := by
  have hspacing : (cursor.joined tail).spacing = cursor.spacing := takeWhile_line tail (by decide)
  have hstart := advance_joined tail cursor
    (List.takeWhile_prefix Text.isSpacing).length_le
  have hline : Text.line ((cursor.advance cursor.spacing.length).joined tail).rest =
      Text.line (cursor.advance cursor.spacing.length).rest := Text.line_line tail
  have hafter := advance_joined tail (cursor.advance cursor.spacing.length)
    ((Text.length_trimEnd_le _).trans (List.takeWhile_prefix (· != '\n')).length_le)
  simp only [rawLine, hspacing]
  rw [← spacing] at hstart
  simp only [hstart, hline]
  rw [← Text.line] at hafter
  simp only [hafter]
  rfl

/-! ## Tokens -/

theorem next_joined (hkind : cursor.next.token.kind ≠ .endOfFile) :
    (cursor.joined tail).next =
      { cursor.next with cursor := cursor.next.cursor.joined tail } := by
  revert hkind
  fun_induction next cursor with
  | case1 cursor hnone => exact fun hkind => absurd rfl hkind
  | case2 cursor piece after hpiece token htoken =>
      intro _
      rw [next_of_token (piece?_joined tail hpiece) htoken]
  | case3 cursor piece after hpiece htoken scan ih =>
      intro hkind
      rw [next_of_passed (piece?_joined tail hpiece) htoken, ih hkind]

/-! ## The end of the source -/

/-- Where nothing is left, the line feed is the next piece. -/
theorem piece?_end (h : cursor.rest = []) : (cursor.joined tail).piece? =
    some (⟨if cursor.mode.isDirective then .token .endOfLine else .trivia .newline,
      .between cursor.position (cursor.position.next '\n'), []⟩,
      ⟨tail, cursor.position.next '\n', {}⟩) :=
  piece?_lineFeed (by rw [joined, h, List.nil_append])

/-- The line feed ends the line of a directive. -/
theorem IsBlank.next_joined_line (h : cursor.IsBlank) : cursor.mode.isDirective = true →
    (cursor.joined tail).next.token = cursor.lineEnd ∧ (cursor.joined tail).next.problems = [] ∧
      (cursor.joined tail).next.cursor = cursor.resumed tail := by
  induction h with
  | stop hrest =>
      intro hline
      have hpiece := piece?_end tail hrest
      rw [hline, if_pos rfl] at hpiece
      rw [next_of_token hpiece rfl, lineEnd, resumed, next_of_rest_nil hrest]
      exact ⟨rfl, rfl, rfl⟩
  | pass hpiece htoken hfaults _ ih =>
      intro hline
      obtain ⟨hlast, hproblems, hcursor⟩ := ih ((isDirective_of_passed hpiece htoken).trans hline)
      rw [next_of_passed (piece?_joined tail hpiece) htoken, lineEnd, resumed,
        next_of_passed hpiece htoken]
      refine ⟨hlast, ?_, hcursor⟩
      simpa [Scan.problems, Piece.problems, hfaults] using hproblems

/-- The line feed is spacing in front of the other text, unless it ends the line of a
directive. -/
theorem IsBlank.next_joined (h : cursor.IsBlank) : cursor.mode.isDirective = false →
    (cursor.joined tail).next.token = (cursor.resumed tail).next.token ∧
      (cursor.joined tail).next.problems = (cursor.resumed tail).next.problems ∧
      (cursor.joined tail).next.cursor = (cursor.resumed tail).next.cursor := by
  induction h with
  | stop hrest =>
      intro hline
      have hpiece := piece?_end tail hrest
      rw [hline, if_neg Bool.false_ne_true] at hpiece
      rw [next_of_passed hpiece rfl, resumed, next_of_rest_nil hrest]
      exact ⟨rfl, by simp [Scan.problems, Piece.problems, lineEnded], rfl⟩
  | @pass cursor after piece hpiece htoken hfaults _ ih =>
      intro hline
      obtain ⟨hlast, hproblems, hcursor⟩ := ih ((isDirective_of_passed hpiece htoken).trans hline)
      have hresumed : cursor.resumed tail = after.resumed tail := by
        rw [resumed, resumed, next_of_passed hpiece htoken]
      rw [next_of_passed (piece?_joined tail hpiece) htoken, hresumed]
      refine ⟨hlast, ?_, hcursor⟩
      rw [← hproblems]
      simp [Scan.problems, Piece.problems, hfaults]

/-! ## Lists of tokens -/

/-- A cursor finds next what another one finds, and is not behind it. -/
structure Meets (cursor other : Cursor) : Prop where
  token : cursor.next.token = other.next.token
  problems : cursor.next.problems = other.next.problems
  after : cursor.next.cursor = other.next.cursor
  offset : cursor.position.offset ≤ other.position.offset

theorem AtEnd.meets_resumed (hend : cursor.AtEnd) (hline : cursor.mode.isDirective = false) :
    (cursor.joined tail).Meets (cursor.resumed tail) := by
  obtain ⟨htoken, hproblems, hcursor⟩ := hend.isBlank.next_joined tail hline
  refine ⟨htoken, hproblems, hcursor, ?_⟩
  have hbytes := cursor.offset_next.1
  have hleft := left_le_of_suffix (rest_next cursor)
  rw [resumed, Position.offset_next]
  change cursor.position.offset ≤ _
  omega

theorem Shows.scans_joined {token : Token} (h : cursor.Shows token)
    (hrest : (cursor.next.cursor.joined tail).Scans ts after) :
    (cursor.joined tail).Scans (token :: ts) after := by
  have hnext := next_joined tail (h.token ▸ h.kind)
  refine Shows.scans ⟨?_, ?_, h.kind⟩ ?_
  · rw [hnext, h.token]
  · rw [hnext]
    exact h.problems
  · rw [hnext]
    exact hrest

theorem Scans.text_joined {text : String} {place : Span}
    (h : cursor.Scans (⟨.restOfLine text, place⟩ :: ts) last)
    (hrest : (cursor.rawLine.cursor.joined tail).Scans ts after) :
    (cursor.joined tail).Scans (⟨.restOfLine text, place⟩ :: ts) after := by
  obtain ⟨rfl, rfl, -⟩ := h.rawLine
  have hraw := cursor.rawLine_joined tail
  have hrest' : (cursor.joined tail).rawLine.cursor.Scans ts after := by rwa [hraw]
  have htext := Scans.text hrest'
  rwa [hraw] at htext

/-- On the way to the end of its line, a directive does not come to the end of the source. -/
theorem Scans.joined_line (h : cursor.Scans ts after) (hline : cursor.mode.isDirective = true)
    (hinside : ∀ token ∈ ts, token.kind ≠ .endOfLine) :
    (cursor.joined tail).Scans ts (after.joined tail) ∧ after.mode.isDirective = true := by
  induction h with
  | nil => exact ⟨.nil, hline⟩
  | token hproblems hkind _ ih =>
      rw [List.forall_mem_cons] at hinside
      have hafter := isDirective_next hkind hinside.1
      rw [hline, Bool.true_or] at hafter
      obtain ⟨hrest, hlast⟩ := ih hafter hinside.2
      exact ⟨Shows.scans_joined tail ⟨rfl, hproblems, hkind⟩ hrest, hlast⟩
  | text hbehind ih =>
      rw [List.forall_mem_cons] at hinside
      obtain ⟨hrest, hlast⟩ := ih hline hinside.2
      exact ⟨Scans.text_joined tail (.text hbehind) hrest, hlast⟩
  | lineEnd =>
      rw [List.forall_mem_cons] at hinside
      exact absurd rfl hinside.1

/-- Behind the end of a source there are no lines. -/
theorem AtEnd.eq_nil_of_wholeLines (hend : cursor.AtEnd) (h : Grammar.WholeLines ts)
    (hscan : cursor.Scans ts after) : ts = [] := by
  have hnone {token : Token} (hshows : cursor.Shows token) : False :=
    hshows.kind (hshows.token ▸ hend.1)
  cases h with
  | nil => rfl
  | token hkind | text hkind => exact (hnone (hscan.shows_inline hkind).1).elim
  | directive hkind => exact (hnone (hscan.shows_starts hkind).1).elim

/-- Whole lines stand in the joined text as well, and behind them comes the other text. -/
theorem Scans.joined (h : Grammar.WholeLines ts) (hscan : cursor.Scans ts last)
    (hend : last.AtEnd) (hline : cursor.mode.isDirective = false) :
    ∃ after, (cursor.joined tail).Scans ts after ∧ after.Meets (last.resumed tail) := by
  induction h generalizing cursor with
  | nil =>
      cases hscan
      exact ⟨_, .nil, hend.meets_resumed tail hline⟩
  | token hkind _ ih =>
      obtain ⟨hshows, hrest⟩ := hscan.shows_inline hkind
      obtain ⟨after, hafter, hmeets⟩ := ih hrest (hshows.isDirective_inline hkind hline)
      exact ⟨after, hshows.scans_joined tail hafter, hmeets⟩
  | text hkind _ ih =>
      obtain ⟨hshows, htext⟩ := hscan.shows_inline hkind
      obtain ⟨-, -, hrest⟩ := htext.rawLine
      obtain ⟨after, hafter, hmeets⟩ := ih hrest (hshows.isDirective_inline hkind hline)
      exact ⟨after, hshows.scans_joined tail (htext.text_joined tail hafter), hmeets⟩
  | directive hkind hinside _ ih =>
      obtain ⟨middle, hhead, hbehind⟩ := hscan.split
      obtain ⟨hshows, hhead⟩ := hhead.shows_starts hkind
      obtain ⟨hhead, hdirective⟩ := hhead.joined_line tail (hshows.isDirective hkind) hinside
      rcases hbehind.endOfLine with ⟨hend', hrest⟩ | ⟨-, hend', htoken, hrest⟩
      · obtain ⟨after, hafter, hmeets⟩ := ih hrest (isDirective_endOfLine (by rw [hend'.token]))
        exact ⟨after, (hshows.scans_joined tail hhead).append (hend'.scans_joined tail hafter),
          hmeets⟩
      · -- The source ends at the end of this line.
        have hlineEnded := hend'.next_lineEnded hdirective
        have hend'' : middle.lineEnded.AtEnd := by rwa [AtEnd, hlineEnded]
        obtain rfl := hend''.eq_nil_of_wholeLines ‹_› hrest
        cases hrest
        obtain ⟨hnext, hproblems, hafter⟩ := hend'.isBlank.next_joined_line tail hdirective
        refine ⟨(middle.joined tail).next.cursor, ?_, ?_⟩
        · refine (hshows.scans_joined tail hhead).append (Shows.scans ⟨?_, hproblems, ?_⟩ .nil)
          · rw [hnext, htoken]
          · simp
        · rw [hafter, resumed, resumed, hlineEnded]
          exact ⟨rfl, rfl, rfl, Nat.le_refl _⟩

end ConfLang.Cursor
