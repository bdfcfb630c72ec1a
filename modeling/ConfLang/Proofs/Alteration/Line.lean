import ConfLang.Proofs.Alteration.Body

/-!
# Directive lines of sources that follow tokens

The line of a directive is read like the same line of the first source, unless the condition on it
is gone.  Then the line is left behind all the same, and all that is reported is on it
(`brings_lineOrSkip_gone`), because no reading of a condition takes the end of the line.

What stands behind a mark is skipped without a look at what it is.  So it is the same tokens there,
and only the first of them is remarked.
-/

namespace ConfLang

namespace Cursor

variable {α β : Type} {place : Cursor} {o : Options} {n : Nesting}

theorem lineValue?_map (g : α → β) (line : Reading α) :
    place.lineValue? o n (g <$> line) = (place.lineValue? o n line).map g := by
  rw [lineValue?, lineValue?, ← bind_pure_comp, Reading.bind_run]
  rcases line.run (State.beginning o n place) with ⟨problem | value, s⟩ <;> rfl

end Cursor

namespace Reading

variable {α : Type} {o : Options} {n : Nesting} {behind c : Cursor} {k : Nat}

/-- The line of a directive that opens a block is read through its end or fails, whatever stands
on it. -/
theorem finishes_conditionLine (hlimit : o.maxErrors = none) (hcondition : n.inCondition = false)
    {kind : ConditionKind} (hexists : kind ≠ .fileExists) (hmissing : kind ≠ .fileMissing)
    (opened : Span) (level : Nat) (hline : c.LineTo behind) (hk : k ≤ 1) : Finishes o n behind c k
      (conditionLine kind opened (Expression.read level Operator.lowestPrecedence)) := by
  have hends {condition : Reading Condition} (h : StaysOn o n behind condition) :
      Finishes o n behind c k (condition >>= fun condition =>
        endOfLine (.endOfCondition kind) >>= fun _ => pure condition) :=
    (h hk hline).finishes_bind fun _ _ _ hk' hline' =>
      (finishes_endOfLine hlimit _ hline' hk').bind_pure
  cases kind with
  | holds => exact hends ((staysOn_conditionExpression hcondition
      (staysOn_expression hlimit level _)).bind fun _ => staysOn_pure)
  | defined => exact hends ((staysOn_identifier hlimit _).bind fun _ => staysOn_pure)
  | undefined => exact hends ((staysOn_identifier hlimit _).bind fun _ => staysOn_pure)
  | fileExists => exact absurd rfl hexists
  | fileMissing => exact absurd rfl hmissing

/-- A line that cannot be read is reported. -/
theorem Finishes.lineProblems_ne_nil {line : Reading α} (hlimit : o.maxErrors = none)
    (h : Finishes o n behind c 0 line) (hvalue : c.lineValue? o n line = none) :
    c.lineProblems o n line ≠ [] := by
  cases h with
  | read hcomes =>
      rw [hcomes.lineValue?_eq] at hvalue
      cases hvalue
  | failed hcomes hk hline =>
      obtain ⟨more, hskip, -⟩ := comes_skipLine hlimit hline hk
      rw [(hcomes.lineOrSkip_error hlimit hskip).lineProblems_eq]
      simp

end Reading

namespace Alteration

variable {alteration : Alteration} {zone : Zone} {token : Token} {ts : List Token} {cursor : Cursor}
  {due : List Due}

/-- Where tokens do not count, they stand in the text of every source. -/
theorem Follows.shows_of_ne_code (h : alteration.Follows zone (token :: ts) cursor due)
    (hzone : zone ≠ .code) (hline : token.kind ≠ .endOfLine)
    (htext : ∀ text, token.kind ≠ .restOfLine text) :
    (∃ span, cursor.Shows ⟨token.kind, span⟩) ∧
      alteration.Follows (zone.after token.kind) ts cursor.next.cursor due := by
  cases h with
  | token _ _ hshows hrest => exact ⟨⟨_, hshows⟩, hrest⟩
  | @comma _ _ _ _ place spans _ _ hshows hcommas hcode hrest =>
      obtain rfl : spans = [] := Decidable.byContradiction fun hsome => hzone (hcode hsome)
      cases hcommas
      exact ⟨⟨place, hshows⟩, hrest⟩
  | text => exact absurd rfl (htext _)
  | endOfLine | lineEnd => exact absurd rfl hline
  | absent | gone => exact absurd rfl hzone

/-- Behind a mark, all tokens of the line are ignored. -/
theorem Follows.ignored {which : Mark}
    (h : alteration.Follows (.mark which) (token :: ts) cursor due)
    (hline : token.kind ≠ .endOfLine) (htext : ∀ text, token.kind ≠ .restOfLine text) :
    alteration.Follows .ignored (token :: ts) cursor due := by
  have hafter : (Zone.mark which).after token.kind = Zone.ignored.after token.kind := by
    simp only [Zone.after]
  cases h with
  | token hfirm hkept hshows hrest => exact .token hfirm hkept hshows (hafter ▸ hrest)
  | comma hshows hcommas hcode hrest =>
      exact .comma hshows hcommas (fun hsome => by cases hcode hsome) hrest
  | text => exact absurd rfl (htext _)
  | endOfLine | lineEnd => exact absurd rfl hline

end Alteration

namespace Setting

open Reading Alteration Grammar TokenKind

variable {α : Type} {S : Setting} {n : Nesting} {k : Nat} {zone : Zone} {token current : Token}
  {ts rest : List Token} {lineEnd : Span} {R : α → State → Prop}

/-! ## Conditions that are gone -/

/-- A state stands behind a directive whose condition is gone, on its line. -/
def Astray (S : Setting) (n : Nesting) (rest : List Token) (s : State) : Prop :=
  ∃ c behind due, S.alteration.place c ∧ c.LineTo behind ∧
    S.alteration.Follows .code rest behind due ∧ (¬ S.alteration.KeepsLines) ∧
      S.Stands n c 0 (.line behind :: due) [] s

theorem Astray.note {s : State} (h : S.Astray n rest s) (event : Event) :
    S.Astray n rest (s.note event) := by
  obtain ⟨c, behind, due, hplace, hline, hfollows, hgone, hstands⟩ := h
  exact ⟨c, behind, due, hplace, hline, hfollows, hgone, hstands.note event⟩

theorem brings_advance_gone {line : List Token} (hopens : token.kind.opensCondition = true)
    (hgone : S.alteration.gone token.span.start = true)
    (hline : ∀ other ∈ line, other.kind ≠ .endOfLine) :
    Brings (S.Ahead n .code (token :: line ++ ⟨.endOfLine, lineEnd⟩ :: rest) 0 current) advance
      fun _ s => S.Astray n rest s := by
  rintro s ⟨c, due, rfl, hfollows, hstands⟩
  obtain ⟨behind, due', ⟨place, hshows⟩, hplace, hbehind, rfl, hrest⟩ :=
    hfollows.withoutLine hopens hgone hline
  obtain ⟨-, hadvanced⟩ := hstands.advanced hshows.problems (hshows.token ▸ hshows.kind)
  have hloses : ¬ S.alteration.KeepsLines := fun hkeeps => by simp [hkeeps _] at hgone
  exact ⟨_, _, run_advance s, _, behind, due', hplace, hbehind, hrest, hloses,
    hadvanced.isAt, hadvanced.errors, fun hkeeps => absurd hkeeps hloses⟩

/-- A line whose condition is gone is skipped, and what is reported is on it. -/
theorem brings_lineOrSkip_gone {line : Reading α}
    (hfinishes : ∀ ⦃c behind⦄, c.LineTo behind → Finishes S.options n behind c 0 line)
    (hfails : ∀ place, S.alteration.place place → place.lineValue? S.options n line = none) :
    Brings (S.Astray n rest) (lineOrSkip line) fun found s =>
      found = none ∧ S.At n .code rest 0 s := by
  rintro s ⟨c, behind, due, hplace, hline, hfollows, hloses, hstands⟩
  have hvalue := hfails c hplace
  obtain ⟨hcomes, habove⟩ := (hfinishes hline).lineOrSkip S.unlimited
  obtain ⟨t, hrun, hat, herrors⟩ := hcomes s hstands.isAt
  obtain ⟨reported, hdue, hreported⟩ := hstands.errors
  have hsome := (hfinishes hline).lineProblems_ne_nil S.unlimited hvalue
  rw [hvalue] at hrun
  refine ⟨none, t, ok_of_run hrun, rfl, behind, 0, due, Nat.le_refl 0, hfollows, hat,
    ⟨reported ++ [.line behind], ?_, ?_⟩, fun hkeeps => absurd hkeeps hloses⟩
  · rw [hdue, List.append_assoc]
    rfl
  · have hline := Reported.line hsome habove .nil
    rw [List.append_nil] at hline
    exact herrors ▸ hreported.append hline

/-! ## Conditions that are read -/

theorem reads_conditionExpression {expression : Reading Expression} {ts' : List Token} {k' : Nat}
    {property : Expression → Prop} (hcondition : n.inCondition = false)
    (h : S.Reads n.conditional ts k expression ts' k' property) :
    S.Reads n ts k (conditionExpression expression) ts' k' property :=
  brings_between (fun _ => State.setCondition_true_eq)
    (fun _ => State.setCondition_false_eq hcondition) h

/-- A path is what stands behind the directive on its line.  An empty one is remarked. -/
theorem brings_path {text : String} {span : Span} (kind : ConditionKind) (opened : Span) :
    Brings (S.At n (.path kind) (⟨.restOfLine text, span⟩ :: rest) 0) (path kind opened)
      fun found s => found = text ∧ S.At n .code rest 0 s := by
  rintro s ⟨c, j, due, hj, hfollows, hstands⟩
  obtain rfl := Nat.le_zero.mp hj
  obtain ⟨htext, hrest⟩ := hfollows.raw
  have hraw : EStateM.run rawText s =
      .ok (c.rawLine.text, c.rawLine.span) (s.takeRaw c.rawLine) := by
    rw [run_rawText_of_nil hstands.isAt.lookahead, hstands.isAt.cursor]
    rfl
  have htaken := hstands.takeRaw
  rw [noticesOf, Zone.notices] at htaken
  refine ⟨c.rawLine.text, if c.rawLine.text.isEmpty then (s.takeRaw c.rawLine).report
    (.warning (.emptyPath kind) (opened.through c.rawLine.span)) else s.takeRaw c.rawLine, ?_, htext,
    _, 0, due, Nat.le_refl 0, hrest, ?_⟩
  · rw [path, EStateM.run_bind, hraw]
    simp only
    split <;> rfl
  · rw [htext]
    split
    · rename_i hempty
      rw [if_pos hempty] at htaken
      exact htaken.warn rfl
    · rename_i hempty
      rwa [if_neg hempty] at htaken

/-- The condition of a block is read as the rest of the line of its directive. -/
theorem reads_conditionLine {expression : Reading Expression} {language : Language Expression}
    (hcondition : n.inCondition = false)
    (hexpression : S.ReadsAll n.conditional expression language EndsExpression
      (Expression.unplaced id))
    {kind : ConditionKind} {condition : Condition} (h : Conditional language kind ts condition)
    (opened : Span) :
    Brings (S.At n (opener kind).zone (ts ++ ⟨.endOfLine, lineEnd⟩ :: rest) 0)
      (conditionLine kind opened expression) fun found s =>
        found.unplaced id = condition.unplaced id ∧ S.At n .code rest 1 s := by
  suffices hreads : Brings (S.At n (opener kind).zone (ts ++ ⟨.endOfLine, lineEnd⟩ :: rest) 0)
      (conditionOf kind opened expression) fun found s =>
        found.unplaced id = condition.unplaced id ∧
          S.At n .code (⟨.endOfLine, lineEnd⟩ :: rest) 1 s by
    refine hreads.bind fun found => .of_fact (fun s hs => hs.1) fun hsame => ?_
    exact ((reads_endOfLine _ (Nat.le_refl 1)).from fun s hs => hs.2).bind_pure
      fun _ s hs => ⟨hsame, hs.2⟩
  have hends : Upcoming EndsExpression (⟨.endOfLine, lineEnd⟩ :: rest) :=
    upcoming_endOfLine (by simp [EndsExpression, EndsChain, EndsOperand, Operator.ofToken?])
      (by simp [EndsExpression, EndsChain, EndsOperand, Operator.ofToken?])
  cases h with
  | holds h =>
      exact (reads_conditionExpression hcondition (hexpression h hends (Nat.zero_le 1))).bind_pure
        fun _ s hs => ⟨by simp only [Condition.unplaced, hs.1], hs.2⟩
  | defined hname | undefined hname =>
      exact (reads_name hname _ (Nat.zero_le 1)).bind_pure fun _ s hs =>
        ⟨by simp only [Condition.unplaced, hs.1], hs.2.weaken (Nat.zero_le 1)⟩
  | fileExists | fileMissing =>
      exact (brings_path _ opened).bind_pure fun _ s hs =>
        ⟨by simp only [Condition.unplaced, hs.1], hs.2.weaken (Nat.zero_le 1)⟩

theorem brings_lineOrSkip {line : Reading α} {P : State → Prop}
    (h : Brings P line R) : Brings P (lineOrSkip line) fun found s =>
      ∃ value, found = some value ∧ R value s :=
  h.attempt fun _ => brings_pure fun _ hs => ⟨_, rfl, hs⟩

/-! ## Marks -/

/-- A token that does not count stands in every source. -/
theorem brings_shown_of_ne_code {rest : Token → Reading α} (hzone : zone ≠ .code)
    (hline : token.kind ≠ .endOfLine) (htext : ∀ text, token.kind ≠ .restOfLine text) (hk : k ≤ 1)
    (h : ∀ current : Token, current.kind ≠ .endOfLine → current.kind ≠ .endOfFile →
      Brings (S.Ahead n zone (token :: ts) 0 current) (rest current) R) :
    Brings (S.At n zone (token :: ts) k) (peek >>= rest) R := by
  refine (brings_peek (looked_cons htext) hk).bind fun current => ?_
  refine .of_fact (fun s hs => ?_) fun hkinds : _ ∧ _ => h current hkinds.1 hkinds.2
  obtain ⟨c, due, rfl, hfollows, -⟩ := hs
  obtain ⟨⟨span, hshows⟩, -⟩ := hfollows.shows_of_ne_code hzone hline htext
  rw [hshows.token]
  exact ⟨hline, hshows.kind⟩

theorem brings_advance_ignored (hline : token.kind ≠ .endOfLine)
    (htext : ∀ text, token.kind ≠ .restOfLine text) :
    Brings (S.Ahead n .ignored (token :: ts) 0 current) advance fun _ s =>
      S.At n .ignored ts 0 s := by
  rintro s ⟨c, due, rfl, hfollows, hstands⟩
  obtain ⟨⟨span, hshows⟩, hrest⟩ := hfollows.shows_of_ne_code (by simp) hline htext
  obtain ⟨-, hadvanced⟩ := hstands.advanced hshows.problems (hshows.token ▸ hshows.kind)
  have hafter : Zone.ignored.after token.kind = .ignored := by simp [Zone.after, hline]
  rw [noticesOf, hafter] at hadvanced
  rw [hafter] at hrest
  exact ⟨_, _, run_advance s, _, 0, due, Nat.le_refl 0, hrest, hadvanced⟩

theorem brings_skipLine (hignored : Ignored ts) (hk : k ≤ 1) :
    Brings (S.At n .ignored (ts ++ ⟨.endOfLine, lineEnd⟩ :: rest) k) skipLine fun _ s =>
      S.At n .code rest 1 s := by
  rw [skipLine_eq]
  refine Brings.map (R := fun _ s => S.At n .code rest 1 s) ?_ fun _ _ hs => hs
  induction ts generalizing k with
  | nil =>
      refine Brings.iterate_done (brings_looking looked_endOfLine hk fun current hmeets => ?_)
      obtain hkind | hkind := hmeets.endOfLine
      · rw [hkind]
        exact (brings_lineFeed hkind).bind_pure fun _ s hs => ⟨(), rfl, hs.weaken (Nat.zero_le 1)⟩
      · rw [hkind]
        exact brings_pure fun s hs => ⟨(), rfl, hs.lineEnded hkind⟩
  | cons token ts ih =>
      rw [Ignored, List.forall_mem_cons] at hignored
      obtain ⟨⟨hline, htext⟩, hignored⟩ := hignored
      refine Brings.iterate (fun _ => S.At n .ignored (ts ++ ⟨.endOfLine, lineEnd⟩ :: rest) 0)
        progresses_lineTurn (fun s hs => hs.ordered) ?_ fun _ => ih hignored (Nat.zero_le 1)
      refine brings_shown_of_ne_code (by simp) hline htext hk fun current hend hfile => ?_
      split
      · exact absurd ‹_› hfile
      · exact absurd ‹_› hend
      · exact (brings_advance_ignored hline htext).bind_pure fun _ s hs => hs

/-- The rest of the line of a mark is skipped, and its first token is remarked. -/
theorem brings_endOfMark (which : Mark) (hignored : Ignored ts) (hk : k ≤ 1) :
    Brings (S.At n (.mark which) (ts ++ ⟨.endOfLine, lineEnd⟩ :: rest) k) (endOfMark which)
      fun _ s => S.At n .code rest 1 s := by
  cases ts with
  | nil =>
      refine brings_looking looked_endOfLine hk fun current hmeets => ?_
      obtain hkind | hkind := hmeets.endOfLine
      · rw [hkind]
        exact (brings_lineFeed hkind).map fun _ s hs => hs.weaken (Nat.zero_le 1)
      · rw [hkind]
        exact brings_pure fun s hs => hs.lineEnded hkind
  | cons token ts =>
      obtain ⟨hline, htext⟩ := hignored token List.mem_cons_self
      refine brings_shown_of_ne_code (by simp) hline htext hk fun current hend hfile => ?_
      have hreport : Brings (S.Ahead n (.mark which)
          (token :: ts ++ ⟨.endOfLine, lineEnd⟩ :: rest) 0 current)
          (report (.warning (.extraTokens which) current.span)) fun _ s =>
            S.At n .ignored (token :: ts ++ ⟨.endOfLine, lineEnd⟩ :: rest) 1 s := by
        refine brings_modify fun s hs => ?_
        obtain ⟨c, due, rfl, hfollows, hstands⟩ := hs
        refine ⟨c, 1, due, Nat.le_refl 1, hfollows.ignored hline htext, .warn rfl ?_⟩
        have hnotices : (Zone.mark which).notices token.kind = [.extraTokens which] := by
          cases hkind : token.kind with
          | endOfLine => exact absurd hkind hline
          | _ => rfl
        have hafter : (Zone.mark which).after token.kind = Zone.ignored.after token.kind := by
          simp only [Zone.after]
        rw [List.cons_append, noticesOf, hnotices, hafter] at hstands
        exact hstands
      split
      · exact absurd ‹_› hend
      · exact absurd ‹_› hfile
      · exact hreport.bind fun _ => brings_skipLine hignored (Nat.le_refl 1)

end Setting

end ConfLang
