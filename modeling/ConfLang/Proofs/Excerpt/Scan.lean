import ConfLang.Proofs.Excerpt.Cursor
import ConfLang.Proofs.Relocation.Program

/-!
# The tokens of an excerpt

The line of a directive may end where the source ends, at a place that no character stands at.
All other tokens stand in the source themselves (`Cursor.Walks`), and such tokens are found in
an excerpt as well.  Of the tokens of whole lines only the last one can be such an end
(`Cursor.Scans.walks`).
-/

namespace ConfLang

namespace Cursor

/-- The tokens between two cursors that all stand in the source. -/
inductive Walks : Cursor → List Token → Cursor → Prop where
  | nil {cursor} : Walks cursor [] cursor
  | token {cursor after ts} : cursor.next.problems = [] → cursor.next.token.kind ≠ .endOfFile →
    Walks cursor.next.cursor ts after → Walks cursor (cursor.next.token :: ts) after
  | text {cursor after ts} : Walks cursor.rawLine.cursor ts after →
    Walks cursor (⟨.restOfLine cursor.rawLine.text, cursor.rawLine.span⟩ :: ts) after

variable {cursor middle after : Cursor} {token : Token} {ts first rest : List Token}

/-! ## Tokens that stand in the source -/

theorem Shows.walks (h : cursor.Shows token) (hrest : cursor.next.cursor.Walks ts after) :
    cursor.Walks (token :: ts) after := by
  obtain ⟨rfl, hproblems, hkind⟩ := h
  exact .token hproblems hkind hrest

namespace Walks

theorem scans (h : cursor.Walks ts after) : cursor.Scans ts after := by
  induction h with
  | nil => exact .nil
  | token hproblems hkind _ ih => exact .token hproblems hkind ih
  | text _ ih => exact .text ih

theorem append (hfirst : cursor.Walks first middle) (hrest : middle.Walks rest after) :
    cursor.Walks (first ++ rest) after := by
  induction hfirst with
  | nil => exact hrest
  | token hproblems hkind _ ih => exact .token hproblems hkind (ih hrest)
  | text _ ih => exact .text (ih hrest)

theorem split (h : cursor.Walks (first ++ rest) after) :
    ∃ middle, cursor.Walks first middle ∧ middle.Walks rest after := by
  induction first generalizing cursor with
  | nil => exact ⟨cursor, .nil, h⟩
  | cons token ts ih =>
      cases h with
      | token hproblems hkind h =>
          obtain ⟨middle, hfirst, hrest⟩ := ih h
          exact ⟨middle, .token hproblems hkind hfirst, hrest⟩
      | text h =>
          obtain ⟨middle, hfirst, hrest⟩ := ih h
          exact ⟨middle, .text hfirst, hrest⟩

theorem offset_le (h : cursor.Walks ts after) : cursor.position.offset ≤ after.position.offset := by
  induction h with
  | nil => exact Nat.le_refl _
  | token _ _ _ ih => exact (offset_le_next _).trans ih
  | text _ ih => exact (offset_le_rawLine _).trans ih

/-- The tokens between two cursors end in front of the second one. -/
theorem stop_le (h : cursor.Walks ts after) :
    ∀ token ∈ ts, token.span.stop ≤ after.position.offset := by
  induction h with
  | nil => exact nofun
  | @token cursor _ _ _ _ hrest ih =>
      rw [List.forall_mem_cons]
      exact ⟨cursor.offset_next.2.trans_le hrest.offset_le, ih⟩
  | text hrest ih =>
      rw [List.forall_mem_cons]
      exact ⟨hrest.offset_le, ih⟩

/-- The last token between two cursors ends at the second one. -/
theorem stop_last (h : cursor.Walks (ts ++ [token]) after) :
    token.span.stop = after.position.offset := by
  obtain ⟨middle, -, hlast⟩ := h.split
  cases hlast with
  | token _ _ hnil =>
      cases hnil
      exact middle.offset_next.2
  | text hnil =>
      cases hnil
      rfl

/-- On the line of a directive, tokens that do not end it leave it open. -/
theorem isDirective (h : cursor.Walks ts after) (hinside : ∀ token ∈ ts, token.kind ≠ .endOfLine) :
    cursor.mode.isDirective = true → after.mode.isDirective = true := by
  induction h with
  | nil => exact id
  | token _ hkind _ ih =>
      intro hline
      rw [List.forall_mem_cons] at hinside
      apply ih hinside.2
      rw [isDirective_next hkind hinside.1, hline, Bool.true_or]
  | text _ ih =>
      rw [List.forall_mem_cons] at hinside
      exact ih hinside.2

/-- The first token of a directive opens the line of a directive. -/
theorem isDirective_starts (h : cursor.Walks (token :: ts) after)
    (hstarts : token.kind.startsDirectiveLine = true)
    (hinside : ∀ token ∈ ts, token.kind ≠ .endOfLine) : after.mode.isDirective = true := by
  cases h with
  | token hproblems hkind hrest =>
      have hshows : cursor.Shows cursor.next.token := ⟨rfl, hproblems, hkind⟩
      exact hrest.isDirective hinside (hshows.isDirective hstarts)
  | text => cases hstarts

end Walks

/-! ## Whole lines -/

/-- A token that does not end a line stands in the source. -/
theorem Scans.walks_inside (h : cursor.Scans ts after)
    (hinside : ∀ token ∈ ts, token.kind ≠ .endOfLine) : cursor.Walks ts after := by
  induction h with
  | nil => exact .nil
  | token hproblems hkind _ ih =>
      rw [List.forall_mem_cons] at hinside
      exact .token hproblems hkind (ih hinside.2)
  | text _ ih =>
      rw [List.forall_mem_cons] at hinside
      exact .text (ih hinside.2)
  | lineEnd =>
      rw [List.forall_mem_cons] at hinside
      exact absurd rfl hinside.1

/-- Whole lines stand in the source, but for the end of the last one. -/
theorem Scans.walks (h : Grammar.WholeLines ts) (hscan : cursor.Scans ts after) :
    cursor.Walks ts after ∨
      ∃ inside line middle, ts = inside ++ [⟨.endOfLine, line⟩] ∧ cursor.Walks inside middle := by
  induction h generalizing cursor with
  | nil =>
      cases hscan
      exact .inl .nil
  | token hkind _ ih =>
      obtain ⟨hshows, hrest⟩ := hscan.shows_inline hkind
      rcases ih hrest with hwalk | ⟨inside, line, middle, rfl, hwalk⟩
      · exact .inl (hshows.walks hwalk)
      · exact .inr ⟨_ :: inside, line, middle, rfl, hshows.walks hwalk⟩
  | text hkind _ ih =>
      obtain ⟨hshows, htext⟩ := hscan.shows_inline hkind
      obtain ⟨rfl, rfl, hrest⟩ := htext.rawLine
      rcases ih hrest with hwalk | ⟨inside, line, middle, rfl, hwalk⟩
      · exact .inl (hshows.walks (.text hwalk))
      · exact .inr ⟨_ :: _ :: inside, line, middle, rfl, hshows.walks (.text hwalk)⟩
  | @directive token others line rest hkind hinside hwhole ih =>
      obtain ⟨middle, hhead, hbehind⟩ := hscan.split
      obtain ⟨hshows, hhead⟩ := hhead.shows_starts hkind
      have hline := hshows.walks (hhead.walks_inside hinside)
      rcases hbehind.endOfLine with ⟨hend, hrest⟩ | ⟨hdirective, hend, -, hrest⟩
      · rcases ih hrest with hwalk | ⟨inside, line', last, rfl, hwalk⟩
        · exact .inl (hline.append (hend.walks hwalk))
        · refine .inr ⟨token :: others ++ ⟨.endOfLine, line⟩ :: inside, line', last, ?_, ?_⟩
          · exact (List.append_assoc (token :: others) (⟨.endOfLine, line⟩ :: inside) _).symm
          · exact hline.append (hend.walks hwalk)
      · -- behind the end of the source there are no further lines
        have hend' : middle.lineEnded.AtEnd := by rwa [AtEnd, hend.next_lineEnded hdirective]
        obtain rfl := hend'.eq_nil_of_wholeLines hwhole hrest
        exact .inr ⟨_, line, middle, rfl, hline⟩

/-! ## The beginning of an excerpt -/

theorem piece?_fresh {piece : Piece} (hpiece : cursor.piece? = some (piece, after))
    (htoken : piece.token? = some token) (hend : token.kind ≠ .endOfLine)
    (hline : cursor.mode.isDirective = false) :
    { cursor with mode := {} }.piece? = some (piece, after) := by
  obtain ⟨rest, position, atStart, isDirective⟩ := cursor
  obtain rfl : isDirective = false := hline
  cases rest with
  | nil => cases hpiece
  | cons first rest =>
      simp only [piece?, Option.some.injEq, Prod.mk.injEq] at hpiece
      obtain ⟨rfl, rfl⟩ := hpiece
      have hkind := kind_of_token? htoken
      have hread := Lexeme.read_of_token hkind rfl
      have hblank := Lexeme.isBlank_of_token hkind hend
      -- the first character is not blank, so it does not count what stands in front of it
      have hstart (atStart : Bool) (characters : List Char) :
          (first :: characters).foldl startAfter atStart =
            characters.foldl startAfter (first == '\n') := by
        rw [List.foldl_cons, startAfter, hblank, Bool.and_false, Bool.or_false]
      simp only [piece?, hread, advance, Lexeme.width, List.take_succ_cons, hstart]

/-- A token can also be found right in front of it and at the beginning of a line, unless it
belongs to the line of a directive. -/
theorem exists_fresh {source : List Char} (h : cursor.StandsIn source)
    (hkind : cursor.next.token.kind ≠ .endOfFile) (hproblems : cursor.next.problems = [])
    (hend : cursor.next.token.kind ≠ .endOfLine) (hline : cursor.mode.isDirective = false) :
    ∃ fresh : Cursor, fresh.StandsIn source ∧ fresh.mode = {} ∧
      fresh.next.token = cursor.next.token ∧ fresh.next.problems = [] ∧
      fresh.next.cursor = cursor.next.cursor ∧
      cursor.next.token.span.origin = Span.emptyAt fresh.position := by
  fun_induction next cursor with
  | case1 => exact absurd rfl hkind
  | case2 cursor piece after hpiece token htoken =>
      have hfresh := piece?_fresh hpiece htoken hend hline
      refine ⟨_, h.withMode {}, rfl, ?_⟩
      rw [next_of_token hfresh htoken]
      refine ⟨rfl, hproblems, rfl, ?_⟩
      rw [← origin_of_piece? hpiece, Piece.span_of_token? htoken]
  | case3 cursor piece after hpiece htoken scan ih =>
      obtain ⟨hafter, -⟩ := h.piece? hpiece
      rw [Scan.problems_pass, List.append_eq_nil_iff] at hproblems
      exact ih hafter hkind hproblems.2 hend
        ((isDirective_of_passed hpiece htoken).trans hline)

/-- Tokens can also be found right in front of the first one and at the beginning of a line, unless
they belong to the line of a directive. -/
theorem Walks.fresh {source : List Char} (h : cursor.Walks (token :: rest) after)
    (hstands : cursor.StandsIn source)
    (hscanned : token.kind.isScanned = true) (hend : token.kind ≠ .endOfLine)
    (hline : cursor.mode.isDirective = false) :
    ∃ fresh : Cursor, fresh.StandsIn source ∧ fresh.mode = {} ∧
      fresh.Walks (token :: rest) after ∧ token.span.origin = Span.emptyAt fresh.position := by
  cases h with
  | token hproblems hkind hrest =>
      obtain ⟨fresh, hfresh, hmode, htoken, hproblems', hcursor, horigin⟩ :=
        exists_fresh hstands hkind hproblems hend hline
      have hshows : fresh.Shows cursor.next.token := ⟨htoken, hproblems', hkind⟩
      exact ⟨fresh, hfresh, hmode, hshows.walks (hcursor ▸ hrest), horigin⟩
  | text => cases hscanned

/-! ## The tokens of an excerpt -/

/-- The tokens that stand in an excerpt are found there. -/
theorem Walks.excerpt {before tail : List Char} {inner : Cursor} (stop : Position)
    (h : cursor.Walks ts after) (hinner : Excerpt before tail cursor inner)
    (htail : tail <:+ after.rest) :
    ∃ ts' last, inner.Walks ts' last ∧ Excerpt before tail after last ∧
      ts = ts'.map (Token.mapSpan (Span.between (Position.start.after before) stop).placed) := by
  induction h generalizing inner with
  | nil => exact ⟨[], inner, .nil, hinner, rfl⟩
  | token hproblems hkind hrest ih =>
      have htail' := htail.trans hrest.scans.rest
      obtain ⟨hproblems', htoken, hnext⟩ := hinner.next stop hproblems hkind htail'
      obtain ⟨ts', last, hwalk, hlast, hts⟩ := ih hnext htail
      refine ⟨_, last, .token hproblems' ?_ hwalk, hlast, ?_⟩
      · rw [htoken] at hkind
        exact hkind
      · rw [List.map_cons, ← htoken, hts]
  | text hrest ih =>
      have htail' := htail.trans hrest.scans.rest
      obtain ⟨htext, hspan, hraw⟩ := hinner.rawLine stop htail'
      obtain ⟨ts', last, hwalk, hlast, hts⟩ := ih hraw htail
      refine ⟨_, last, .text hwalk, hlast, ?_⟩
      rw [List.map_cons, Token.mapSpan, htext, hspan, hts]

end Cursor

end ConfLang
