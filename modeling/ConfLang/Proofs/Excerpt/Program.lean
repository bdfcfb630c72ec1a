import ConfLang.Proofs.Excerpt.Extent
import ConfLang.Proofs.Excerpt.Scan
import ConfLang.Proofs.Excerpt.Trees
import ConfLang.Proofs.Limit.Truncation

/-!
# Statements read alone

The span of a statement is exactly its source: if a source is read without an error, the text of
the span of each of its statements is a source that is read without an error as well, and it is
that one statement (`parseWith_excerpt`).

## Strategy

The source is a program of the grammar, so the statement has tokens of its own.  Of these the
span reaches over all, or over those in front of the end of its last line
(`Grammar.extent_statement`).  They stand in the text of the span, and a cursor in that text
finds them, at other places (`Cursor.Walks.excerpt`).  If the end of the last line is missing
there, the end of the text stands in for it.  The tree of the tokens found is the statement,
moved to the beginning of the text (`Grammar.reflects_statement`).
-/

namespace ConfLang

variable {options : Options} {source : String}

theorem Span.eq_between {span : Span} {first last : Position}
    (horigin : span.origin = emptyAt first) (hstop : span.stop = last.offset) :
    span = between first last := by
  obtain ⟨start, stop, line, column⟩ := span
  simp only [origin, emptyAt, between, mk.injEq] at horigin ⊢
  exact ⟨horigin.1, hstop, horigin.2.2⟩

/-! ## The tokens of a statement -/

namespace Grammar

variable {ts kept : List Token} {span : Span}

/-- The tokens of a list of statements are those of one of them, with other statements in front
of them. -/
theorem exists_of_mem_many {language : Language Statement} {statements : List Statement}
    {a : Statement} (h : Many language ts statements) (hmem : a ∈ statements) :
    ∃ before others own behind, Many language before others ∧ language own a ∧
      ts = before ++ (own ++ behind) := by
  induction h with
  | nil => cases hmem
  | @cons first rest _ _ h hrest ih =>
      rcases List.mem_cons.mp hmem with rfl | hmem
      · exact ⟨[], [], first, rest, .nil, h, rfl⟩
      · obtain ⟨before, others, own, behind, hothers, hown, rfl⟩ := ih hmem
        exact ⟨first ++ before, _, own, behind, .cons h hothers, hown, (List.append_assoc _ _ _).symm⟩

theorem isProgram_single {a : Statement}
    (h : statement options options.maxNestingDepth false ts a) : IsProgram options ts ⟨[a]⟩ := by
  have hmany := Many.cons h .nil
  rwa [List.append_nil] at hmany

/-- The span of tokens that stand in the source ends behind the last one. -/
theorem Extent.stop_eq {cursor after : Cursor} (h : Extent ts span) (hwalk : cursor.Walks ts after) :
    span.stop = after.position.offset := by
  obtain ⟨inside, last, rfl, hlast, -⟩ := h.last
  obtain ⟨token, hmem, hstop⟩ := h.stop
  have hle := hwalk.stop_le token hmem
  have hend := hwalk.stop_last
  omega

/-- The tokens that a statement reaches over stand in the source.  They are a statement, or they
are one as soon as the line of a directive ends behind them. -/
theorem walks_statement {room : Nat} {inBlock : Bool} {a : Statement} {cursor after : Cursor}
    (h : statement options room inBlock ts a) (hscan : cursor.Scans ts after) :
    ∃ kept middle, kept <+: ts ∧ cursor.Walks kept middle ∧ Extent kept a.span ∧
      (statement options room inBlock kept a ∨ middle.mode.isDirective = true ∧
        ∀ line, statement options room inBlock (kept ++ [⟨.endOfLine, line⟩]) a) := by
  have hwalks := hscan.walks (wholeStatements options room inBlock h)
  rcases extent_statement h with hextent | ⟨kept, hkept⟩
  · obtain ⟨inside, last, hlast, -, hkind⟩ := hextent.last
    rcases hwalks with hwalk | ⟨inside', line, middle, hline, -⟩
    · exact ⟨ts, after, List.prefix_rfl, hwalk, hextent, .inl h⟩
    · -- the last token does not end a line
      rw [hlast] at hline
      obtain ⟨-, hlast⟩ := List.append_inj' hline rfl
      rw [List.singleton_inj.mp hlast] at hkind
      exact absurd rfl hkind
  · obtain ⟨ignored, line, hsplit⟩ := hkept.split
    obtain ⟨middle, hwalk⟩ : ∃ middle, cursor.Walks kept middle := by
      rw [hsplit] at hwalks
      rcases hwalks with hwalk | ⟨inside', line', last, hline, hwalk⟩
      · obtain ⟨middle, hwalk, -⟩ := hwalk.split
        exact ⟨middle, hwalk⟩
      · rw [← List.append_assoc] at hline
        obtain ⟨rfl, -⟩ := List.append_inj' hline rfl
        obtain ⟨middle, hwalk, -⟩ := hwalk.split
        exact ⟨middle, hwalk⟩
    refine ⟨kept, middle, ⟨_, hsplit.symm⟩, hwalk, hkept.extent, .inr ⟨?_, hkept.ended⟩⟩
    obtain ⟨before, token, inside, rfl, hstarts, hinside⟩ := hkept.opens
    obtain ⟨start, -, hwalk⟩ := hwalk.split
    exact hwalk.isDirective_starts hstarts hinside

end Grammar

/-! ## The text of a statement -/

namespace Cursor

/-- The tokens that a span reaches over are the tokens of its text, if a cursor in front of them is
at the beginning of a line. -/
theorem Walks.textIn {cursor after : Cursor} {ts : List Token} {span : Span}
    (h : cursor.Walks ts after) (hstands : cursor.StandsIn source.toList) (hmode : cursor.mode = {})
    (hextent : Grammar.Extent ts span) (horigin : span.origin = Span.emptyAt cursor.position) :
    ∃ ts' last, (ofSource (span.textIn source)).Walks ts' last ∧ last.rest = [] ∧
      last.mode = after.mode ∧ ts = ts'.map (Token.mapSpan span.placed) := by
  obtain ⟨before, hsource, hbefore⟩ := hstands
  obtain ⟨text, htext⟩ := h.scans.rest
  obtain ⟨before', hsource', hafter⟩ := h.scans.standsIn ⟨before, hsource, hbefore⟩
  -- the text stands between the two cursors
  have hwhole : source.toList = before ++ text ++ after.rest := by
    rw [List.append_assoc, htext, hsource]
  obtain rfl : before' = before ++ text := List.append_cancel_right (hsource'.symm.trans hwhole)
  have hspan := Span.eq_between horigin (hextent.stop_eq h)
  rw [hbefore, hafter] at hspan
  have hslice : span.textIn source = String.ofList text := by
    rw [hspan, ← String.ofList_toList (s := source), hwhole, Span.textIn_between]
  have hexcerpt : Excerpt before after.rest cursor (ofSource (String.ofList text)) := by
    refine ⟨?_, hmode, [], ?_, rfl⟩
    · rw [ofSource, String.toList_ofList, htext]
    · rw [List.append_nil, hbefore]
  obtain ⟨ts', last, hwalk, hlast, hts⟩ :=
    h.excerpt (Position.start.after (before ++ text)) hexcerpt List.suffix_rfl
  rw [← hspan] at hts
  rw [hslice]
  exact ⟨ts', last, hwalk, List.self_eq_append_left.mp hlast.rest, hlast.mode.symm, hts⟩

end Cursor

open Grammar in
/-- A statement of a program is read alone from the text of its span. -/
theorem Grammar.Reads.excerpt {program : Program} {statement : Statement}
    (h : Grammar.Reads options source program) (hmem : statement ∈ program.statements) :
    ∃ alone, Grammar.Reads options (statement.span.textIn source) ⟨[alone]⟩ ∧
      alone.mapSpans statement.span.placed = statement := by
  obtain ⟨ts, last, hscan, -, hprogram⟩ := h
  obtain ⟨before, others, own, behind, hothers, hown, rfl⟩ := exists_of_mem_many hprogram hmem
  obtain ⟨start, hbefore, hscan⟩ := hscan.split
  obtain ⟨stop, hscan, -⟩ := hscan.split
  have hline := (wholeLines_many (wholeStatements _ _ _) hothers).isDirective hbefore rfl
  have hstart := hbefore.standsIn (.ofSource source)
  obtain ⟨kept, middle, hkept, hwalk, hextent, hends⟩ := walks_statement hown hscan
  obtain ⟨token, rest, rfl, horigin⟩ := hextent.first
  obtain ⟨dropped, rfl⟩ := hkept
  obtain ⟨hscanned, hkind⟩ := (wholeStatements _ _ _ hown).first
  obtain ⟨fresh, hfresh, hmode, hwalk, horigin'⟩ := hwalk.fresh hstart hscanned hkind hline
  obtain ⟨ts, last, hwalk, hlast, hmiddle, hts⟩ :=
    hwalk.textIn hfresh hmode hextent (horigin.trans horigin')
  have hend := Cursor.atEnd_of_rest_nil hlast
  have hplaced := statement.span.compatible_placed
  rcases hends with hkept | ⟨hdirective, hkept⟩
  · rw [hts] at hkept
    obtain ⟨alone, halone, hsame⟩ := reflects_statement hplaced _ _ _ hkept
    exact ⟨alone, ⟨ts, last, hwalk.scans, hend, isProgram_single halone⟩, hsame⟩
  · -- the end of the text ends the line
    have hkept := hkept (statement.span.placed last.lineEnd.span)
    have hline : [⟨.endOfLine, statement.span.placed last.lineEnd.span⟩] =
        [last.lineEnd].map (Token.mapSpan statement.span.placed) := rfl
    rw [hts, hline, ← List.map_append] at hkept
    obtain ⟨alone, halone, hsame⟩ := reflects_statement hplaced _ _ _ hkept
    have hdirective' : last.mode.isDirective = true := by rw [hmiddle, hdirective]
    have hend' : last.lineEnded.AtEnd := by rwa [Cursor.AtEnd, hend.next_lineEnded hdirective']
    have hscan' := hwalk.scans.append (.lineEnd hdirective' hend .nil)
    exact ⟨alone, ⟨_, _, hscan', hend', isProgram_single halone⟩, hsame⟩

/-! ## The main result -/

/-- **The span of a statement is exactly its source.**  If a source is read without an error, the
text of the span of any of its statements is read without an error as well.  It is one statement,
and that is the one in the source, but for places that are counted from the beginning of the
text. -/
theorem parseWith_excerpt {statement : Statement} (h : (parseWith options source).hasErrors = false)
    (hmem : statement ∈ (parseWith options source).program.statements) :
    (parseWith options (statement.span.textIn source)).hasErrors = false ∧
      ∃ alone, (parseWith options (statement.span.textIn source)).program.statements = [alone] ∧
        alone.mapSpans statement.span.placed = statement := by
  have hunlimited := parseWith_unlimited h
  have hreads : Grammar.Reads { options with maxErrors := none } source
      (parseWith { options with maxErrors := none } source).program :=
    reads_of_hasErrors rfl (by rw [hunlimited, h])
  rw [hunlimited] at hreads
  obtain ⟨alone, halone, hsame⟩ := hreads.excerpt hmem
  obtain ⟨herrors, hprogram⟩ := halone.parseWith_eq
  rw [hasErrors_unlimited] at herrors
  rw [parseWith_unlimited herrors] at hprogram
  exact ⟨herrors, alone, congrArg Program.statements hprogram, hsame⟩

/-- A block ends with its mark, whatever is ignored behind that. -/
theorem exists_excerpt_conditional :
    ∃ statement ∈ (parseWith {} "a = 1\n  %if x # y\n%error \n\tb = 2\n  %endif y z\n").program.statements,
      statement.span.textIn "a = 1\n  %if x # y\n%error \n\tb = 2\n  %endif y z\n" =
        "%if x # y\n%error \n\tb = 2\n  %endif" ∧
      (parseWith {} "%if x # y\n%error \n\tb = 2\n  %endif").hasErrors = false ∧
      ∃ alone, (parseWith {} "%if x # y\n%error \n\tb = 2\n  %endif").program.statements = [alone] ∧
        alone.mapSpans statement.span.placed = statement := by
  set source := "a = 1\n  %if x # y\n%error \n\tb = 2\n  %endif y z\n"
  have herrors : (parseWith {} source).hasErrors = false := by decide +kernel
  have hsecond : (parseWith {} source).program.statements[1]?.map (·.span.textIn source) =
      some "%if x # y\n%error \n\tb = 2\n  %endif" := by decide +kernel
  obtain ⟨statement, hstatement, htext⟩ := Option.map_eq_some_iff.mp hsecond
  have hmem := List.mem_of_getElem? hstatement
  have hexcerpt := parseWith_excerpt herrors hmem
  rw [htext] at hexcerpt
  exact ⟨statement, hmem, htext, hexcerpt⟩

end ConfLang
