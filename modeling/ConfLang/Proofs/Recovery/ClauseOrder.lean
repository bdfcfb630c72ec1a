import ConfLang.Proofs.Recovery.Clauses
import ConfLang.Proofs.Recovery.Program

/-!
# What is read of a block whose clauses stand in any order

From any state in front of such a block it is read as one statement, which is told by the clauses
alone, and so are the errors (`clauses_in_any_order`).

The conditions are told by what comes of reading their lines.  Where nothing is reported on the line
of a condition, it is read as what the grammar derives there, and as nothing else
(`elifCondition_iff`).
-/

namespace ConfLang

namespace Reading

open Grammar

variable {o : Options} {n : Nesting} {c c' behind : Cursor} {room : Nat} {clauses : List Clause}
  {close : Span}

/-- A condition is read without an error if and only if the grammar derives what is left of its
line. -/
theorem elifCondition_iff (hlimit : o.maxErrors = none)
    (hroom : n.depth + room = o.maxNestingDepth) (hcondition : n.inCondition = false)
    (hline : c.LineTo behind) {e : Expression} :
    c.lineValue? o n (elifCondition o n) = some e ∧ c.lineProblems o n (elifCondition o n) = [] ↔
      DerivedLine (expression true room) c e behind := by
  rw [elifCondition_eq hroom]
  have hfinishes := finishes_branchCondition hlimit hcondition (room + 1) hline (Nat.zero_le 1)
  constructor
  · rintro ⟨hvalue, hproblems⟩
    exact hfinishes.of_yields hlimit (yields_branchCondition hcondition
      (derives_expression (n := n.conditional) hroom) (worded_expression true room)
      hline.isDirective (Nat.zero_le 1)) hvalue hproblems
  · rintro ⟨middle, ⟨ts, h, hscan⟩, hends⟩
    have hexpression := covers_expression (n := n.conditional) hroom h hscan hends.clear
      hends.endsExpression (Nat.zero_le 1)
    exact hfinishes.of_gives ((gives_conditionExpression hcondition hexpression).bind
      (gives_endOfLine hends _ (Nat.le_refl 1)).bind_pure)

/-- What is wrong with a condition is on the line of its mark. -/
theorem line_of_mem_conditionProblems (hlimit : o.maxErrors = none)
    (hroom : n.depth + room = o.maxNestingDepth) (hcondition : n.inCondition = false)
    (h : FreeClauses o room c clauses close c') :
    ∀ clause ∈ clauses, ∀ problem ∈ clause.conditionProblems o n,
      problem.span.line = clause.start.line := by
  induction h with
  | endif => simp
  | @elif c behind _ _ start _ _ _ _ hshows hline _ _ _ ih =>
      refine List.forall_mem_cons.mpr ⟨fun problem hmem => ?_, ih⟩
      -- The mark and all that is found behind it are above the same line feed.
      have hread := (finishes_branchCondition hlimit hcondition (room + 1) hline
        (Nat.zero_le 1)).lineOrSkip hlimit
      rw [← elifCondition_eq hroom] at hread
      exact (hread.2 problem hmem).line_eq (hshows.above (by simp) hline)
  | otherwise _ _ _ _ _ ih =>
      exact List.forall_mem_cons.mpr ⟨by simp [Clause.conditionProblems], ih⟩

end Reading

/-! ## A block out of order -/

namespace Grammar

theorem Name.expression {inCondition : Bool} {room : Nat} {ts : List Token} {name : Identifier}
    (h : Name ts name) : Grammar.expression inCondition room ts (.name name) := by
  refine .operand ?_
  cases room with
  | zero => exact .suffixed (.primary (.name h))
  | succ room => exact .suffixed (.primary (.name h))

/-- A block with an `%elif` whose condition cannot be read, and with clauses behind the first
`%else`. -/
def unordered : Cursor :=
  .ofSource "%if a\n%elif b\n%elif (\n%else\n%elif c\n%else\n%endif\n"

/-- The tokens of this block. -/
def unorderedTokens : List Token :=
  [⟨.opener .holds, ⟨0, 3, 1, 1⟩⟩, ⟨.name "a" false, ⟨4, 5, 1, 5⟩⟩, ⟨.endOfLine, ⟨5, 6, 1, 6⟩⟩,
    ⟨.mark .elif, ⟨6, 11, 2, 1⟩⟩, ⟨.name "b" false, ⟨12, 13, 2, 7⟩⟩, ⟨.endOfLine, ⟨13, 14, 2, 8⟩⟩,
    ⟨.mark .elif, ⟨14, 19, 3, 1⟩⟩, ⟨.symbol .openParen, ⟨20, 21, 3, 7⟩⟩,
    ⟨.endOfLine, ⟨21, 22, 3, 8⟩⟩, ⟨.mark .otherwise, ⟨22, 27, 4, 1⟩⟩,
    ⟨.endOfLine, ⟨27, 28, 4, 6⟩⟩, ⟨.mark .elif, ⟨28, 33, 5, 1⟩⟩,
    ⟨.name "c" false, ⟨34, 35, 5, 7⟩⟩, ⟨.endOfLine, ⟨35, 36, 5, 8⟩⟩,
    ⟨.mark .otherwise, ⟨36, 41, 6, 1⟩⟩, ⟨.endOfLine, ⟨41, 42, 6, 6⟩⟩,
    ⟨.mark .endif, ⟨42, 48, 7, 1⟩⟩, ⟨.endOfLine, ⟨48, 49, 7, 7⟩⟩]

/-- The clauses of this block. -/
def unorderedClauses : List Clause :=
  [.elif ⟨6, 11, 2, 1⟩ (unordered.behind 4) (.mk [] ⟨14, 14, 3, 1⟩),
    .elif ⟨14, 19, 3, 1⟩ (unordered.behind 7) (.mk [] ⟨22, 22, 4, 1⟩),
    .otherwise ⟨22, 27, 4, 1⟩ (.mk [] ⟨28, 28, 5, 1⟩),
    .elif ⟨28, 33, 5, 1⟩ (unordered.behind 12) (.mk [] ⟨36, 36, 6, 1⟩),
    .otherwise ⟨36, 41, 6, 1⟩ (.mk [] ⟨42, 42, 7, 1⟩)]

theorem unordered_shows {count : Nat} {token : Token} (h : unorderedTokens[count]? = some token) :
    (unordered.behind count).Shows token := by
  have hall : ∀ place < 18, unorderedTokens[place]? = some (unordered.behind place).next.token ∧
      (unordered.behind place).next.problems = [] ∧
      (unordered.behind place).next.token.kind ≠ .endOfFile := by decide +kernel
  obtain ⟨hless, -⟩ := List.getElem?_eq_some_iff.mp h
  obtain ⟨htoken, hproblems, hkind⟩ := hall count hless
  obtain rfl := Option.some.inj (htoken.symm.trans h)
  exact ⟨rfl, hproblems, hkind⟩

theorem unordered_line {count : Nat} {span : Span}
    (h : unorderedTokens[count]? = some ⟨.endOfLine, span⟩) :
    (unordered.behind count).EndsLine (unordered.behind (count + 1)) :=
  .inl ⟨_, unordered_shows h, rfl, unordered.behind_succ count⟩

/-- Each of the tokens stands between two places. -/
theorem unordered_scans {count : Nat} {token : Token} (h : unorderedTokens[count]? = some token) :
    (unordered.behind count).Scans [token] (unordered.behind (count + 1)) := by
  rw [unordered.behind_succ count]
  exact (unordered_shows h).scans .nil

/-- In front of a line on which one character stands behind a blank. -/
theorem unordered_lineTo {count : Nat} (character : Char)
    (h : (unordered.behind count).mode.isDirective = true ∧
      ((unordered.behind count).rest = [' ', character] ++ '\n' :: (unordered.behind (count + 2)).rest ∧
        '\n' ∉ [' ', character] ∧ (unordered.behind (count + 2)).position =
          (unordered.behind count).position.after ([' ', character] ++ ['\n'])) ∧
      (unordered.behind (count + 2)).mode = {}) :
    (unordered.behind count).LineTo (unordered.behind (count + 2)) :=
  ⟨h.1, ⟨_, h.2.1⟩, h.2.2⟩

theorem unordered_firstLine : (unordered.behind 4).LineTo (unordered.behind 6) :=
  unordered_lineTo 'b' (by decide +kernel)

theorem freeBlock_unordered : FreeBlock { maxErrors := none } 255 unordered
    (.holds (.name ⟨"a", false, ⟨4, 5, 1, 5⟩⟩)) (.mk [] ⟨6, 6, 2, 1⟩) unorderedClauses
    ⟨0, 48, 1, 1⟩ (unordered.behind 18) := by
  have hempty {count : Nat} {token : Token} (span : Span) (h : unorderedTokens[count]? = some token)
      (hspan : token.span.origin = span) :
      Body.mk [] span = directiveBody [] (unordered.behind count).next.token := by
    rw [(unordered_shows h).token, ← hspan]
    rfl
  have hparen : (unordered.behind 7).LineTo (unordered.behind 9) :=
    unordered_lineTo '(' (by decide +kernel)
  have hc : (unordered.behind 12).LineTo (unordered.behind 14) :=
    unordered_lineTo 'c' (by decide +kernel)
  rw [unorderedClauses, @hempty 3 _ ⟨6, 6, 2, 1⟩ rfl rfl, @hempty 6 _ ⟨14, 14, 3, 1⟩ rfl rfl,
    @hempty 9 _ ⟨22, 22, 4, 1⟩ rfl rfl, @hempty 11 _ ⟨28, 28, 5, 1⟩ rfl rfl,
    @hempty 14 _ ⟨36, 36, 6, 1⟩ rfl rfl, @hempty 16 _ ⟨42, 42, 7, 1⟩ rfl rfl]
  exact .block (@unordered_shows 0 ⟨.opener .holds, ⟨0, 3, 1, 1⟩⟩ rfl)
    (.holds (Name.expression .name)) (@unordered_scans 1 _ rfl) (@unordered_line 2 _ rfl) .nil .nil
    (.elif (@unordered_shows 3 _ rfl) unordered_firstLine .nil .nil
      (.elif (@unordered_shows 6 _ rfl) hparen .nil .nil
        (.otherwise (@unordered_shows 9 _ rfl) (@unordered_line 10 _ rfl) .nil .nil
          (.elif (@unordered_shows 11 _ rfl) hc .nil .nil
            (.otherwise (@unordered_shows 14 _ rfl) (@unordered_line 15 _ rfl) .nil .nil
              (.endif (@unordered_shows 16 ⟨.mark .endif, ⟨42, 48, 7, 1⟩⟩ rfl)
                (@unordered_line 17 _ rfl)))))))

theorem branches_unordered : branches { maxErrors := none } { depth := 1, chains := 1 }
    unorderedClauses =
      [.mk (.name ⟨"b", false, ⟨12, 13, 2, 7⟩⟩) (.mk [] ⟨14, 14, 3, 1⟩) ⟨6, 14, 2, 1⟩] := by
  have hb := (Reading.elifCondition_iff (o := { maxErrors := none })
    (n := { depth := 1, chains := 1 }) rfl (show 1 + 255 = 256 from rfl) rfl
    unordered_firstLine).mpr
    ⟨_, ⟨_, Name.expression .name, @unordered_scans 4 _ rfl⟩, @unordered_line 5 _ rfl⟩
  have hparen : (unordered.behind 7).lineValue? { maxErrors := none } { depth := 1, chains := 1 }
      (elifCondition { maxErrors := none } { depth := 1, chains := 1 }) = none := by
    rw [← Option.isNone_iff_eq_none]
    decide +kernel
  rw [unorderedClauses, branches_elif, branches_elif]
  simp only [Clause.branch?, hb.1, hparen]
  rfl

end Grammar

/-! ## Any block -/

variable {s : State} {c c' : Cursor} {count room : Nat} {condition : Condition} {body : Body}
  {clauses : List Grammar.Clause} {span : Span}

/-- **Clauses in any order.**  Without a limit of errors, and with room for what is in it, a block
is read as one statement from any state in front of it.  Its branches are those of the `%elif`
clauses in front of the first `%else` whose condition is read up to the end of the line, each with
its own body.  Its last body is that of the first `%else`.  The errors are one for each `%elif`
behind the first `%else`, one for each further `%else`, and those of the conditions, which are on
the line of their `%elif`. -/
theorem clauses_in_any_order (hlimit : s.options.maxErrors = none)
    (hs : s.IsAt s.options s.nesting c count) (hcount : count ≤ 1)
    (hcondition : s.nesting.inCondition = false)
    (hroom : s.nesting.depth + (room + 1) = s.options.maxNestingDepth)
    (h : Grammar.FreeBlock s.options room c condition body clauses span c') :
    (∃ t count', Reading.nextStatement.run s = (.ok (some (.conditional condition body
          (Grammar.branches s.options s.nesting.deeper.inChain clauses)
          (Grammar.lastBody clauses) span)), t) ∧
        t.IsAt s.options s.nesting c' count' ∧
        t.errors = s.errors ++
          (Grammar.clauseProblems s.options s.nesting.deeper.inChain false clauses).map
            Problem.diagnostic) ∧
      ∀ clause ∈ clauses,
        ∀ problem ∈ clause.conditionProblems s.options s.nesting.deeper.inChain,
          problem.span.line = clause.start.line := by
  have hinside : s.nesting.deeper.inChain.depth + room = s.options.maxNestingDepth := by
    rw [← hroom, Nat.add_comm room 1, ← Nat.add_assoc]
    rfl
  obtain ⟨token, hshows⟩ : ∃ token, c.Shows token := by
    cases h with
    | block hshows => exact ⟨_, hshows⟩
  have hbefore : c.pending count = [] := by
    obtain rfl | rfl := Nat.le_one_iff_eq_zero_or_eq_one.mp hcount
    · rfl
    · simp [Cursor.pending, hshows.problems]
  -- The current level is counted, and so is the one inside of the block.
  have hlevels : s.levels = room + 2 := by
    rw [State.levels]
    omega
  constructor
  · obtain ⟨k', hpending, hgives⟩ := Reading.givesWith_freeBlock hlimit hroom hcondition h
      (Nat.le_refl 1)
    obtain ⟨t, count', hrun, -, ht, herrors⟩ := hgives.run_isAt hlimit hs hcount hbefore hpending
    refine ⟨t, count', ?_, ht, herrors⟩
    rw [← hrun, ← hlevels]
    rfl
  · cases h with
    | block _ _ _ _ _ _ hclauses =>
        exact Reading.line_of_mem_conditionProblems hlimit hinside hcondition hclauses

theorem clauses_out_of_order : ∃ t,
    Reading.nextStatement.run (.ofSource
        "%if a\n%elif b\n%elif (\n%else\n%elif c\n%else\n%endif\n" { maxErrors := none }) =
      (.ok (some (.conditional (.holds (.name ⟨"a", false, ⟨4, 5, 1, 5⟩⟩)) (.mk [] ⟨6, 6, 2, 1⟩)
        [.mk (.name ⟨"b", false, ⟨12, 13, 2, 7⟩⟩) (.mk [] ⟨14, 14, 3, 1⟩) ⟨6, 14, 2, 1⟩]
        (some (.mk [] ⟨28, 28, 5, 1⟩)) ⟨0, 48, 1, 1⟩)), t) ∧
    t.errors = [.error (.unexpected .expression .endOfLine) ⟨21, 22, 3, 8⟩,
      .error .elifAfterElse ⟨28, 33, 5, 1⟩, .error .duplicateElse ⟨36, 41, 6, 1⟩] := by
  obtain ⟨⟨t, _, hrun, -, herrors⟩, -⟩ := clauses_in_any_order rfl
    (State.sees_ofSource { maxErrors := none } _).isAt (Nat.zero_le 1) rfl rfl
    Grammar.freeBlock_unordered
  refine ⟨t, hrun.trans ?_, herrors.trans (by decide +kernel)⟩
  exact congrArg (fun branches => (Except.ok (some (Statement.conditional _ _ branches _ _)), t))
    Grammar.branches_unordered

end ConfLang
