import ConfLang.Proofs.Recovery.Failure
import ConfLang.Proofs.Recovery.Program
import ConfLang.Proofs.Relocation.Program

/-!
# Blocks that are left open

A conditional directive block is closed by its `%endif` only.  Where that is missing, all that
comes up to the end of the source is part of the block, and a block that begins there is left open
as well.  So a source ends with blocks one inside the other, each in the last body of the one
around it.
-/

namespace ConfLang

/-! ## The grammar -/

namespace Grammar

/-- A directive that opens a block, and its place. -/
structure Opener where
  kind : ConditionKind
  place : Span

/-- The same directive in a source in which it stands elsewhere. -/
def Opener.moved (displacement : Displacement) (opener : Opener) : Opener :=
  { opener with place := opener.place.moved displacement }

/-- What is wrong with a block that is open at the end of the source. -/
def Opener.missing (opener : Opener) : Problem :=
  ⟨.missingEndif opener.kind opener.place .endOfFile, opener.place⟩

section

variable (condition : Language Expression) (statement : Language Statement)
  (inside : List Token → Prop)

/-- What follows the line that opens a block, if the block is left open: a body, and then either a
clause with what follows its line, or what is left open inside of that body.  Behind the last
clause no other one may come. -/
inductive OpenClauses : Bool → List Token → Prop where
  | open {late body statements rest} : Many statement body statements → inside rest →
    OpenClauses late (body ++ rest)
  | elif {body statements ts e rest start line} : Many statement body statements →
    condition ts e → OpenClauses false rest →
    OpenClauses false (body ++ ⟨.mark .elif, start⟩ :: ts ++ ⟨.endOfLine, line⟩ :: rest)
  | otherwise {body statements ts rest start line} : Many statement body statements →
    Ignored ts → OpenClauses true rest →
    OpenClauses false (body ++ ⟨.mark .otherwise, start⟩ :: ts ++ ⟨.endOfLine, line⟩ :: rest)

/-- A block that is left open. -/
inductive OpenBlock : Opener → List Token → Prop where
  | block {opener ts condition' rest line} : Conditional condition opener.kind ts condition' →
    OpenClauses condition statement inside false rest →
    OpenBlock opener (⟨.opener opener.kind, opener.place⟩ :: ts ++ ⟨.endOfLine, line⟩ :: rest)

end

/-- Blocks that are left open, each inside of the one in front of it, with some room for nesting. -/
def leftOpen (options : Options) : Nat → List Opener → List Token → Prop
  | _, [], ts => ts = []
  | 0, _ :: _, _ => False
  | room + 1, opener :: openers, ts =>
    OpenBlock (expression true room) (statement options room true) (leftOpen options room openers)
      opener ts

/-- A source consists of blocks that are left open, each inside of the one in front of it. -/
def LeavesOpen (options : Options) (source : String) (openers : List Opener) : Prop :=
  ∃ ts last, (Cursor.ofSource source).Scans ts last ∧ last.AtEnd ∧
    leftOpen options options.maxNestingDepth openers ts

end Grammar

namespace Reading

open Grammar

variable {o : Options} {n : Nesting} {c middle c' : Cursor} {k : Nat} {ts : List Token}
  {problems : List Problem}

/-! ## Up to the end of the source -/

/-- From a cursor on, bodies are read up to the end of the source.  Some problems are reported, and
no statement is added. -/
structure RunsOut (problems : List Problem) (o : Options) (n : Nesting)
    (statement : Reading (Option Statement)) (c c' : Cursor) : Prop where
  clean : c.next.problems = []
  ends : c.next.token.kind.EndsStatement
  gives : ∀ ⦃atEnd stops⦄, ClosesAt o n atEnd stops → stops .endOfFile = true → ∀ items,
    GivesWith problems o n c 1 (iterate (bodyTurn atEnd statement) items) c' 1 items

section Block

variable {expression : Reading Expression} {condition : Language Expression}
  {statement : Reading (Option Statement)} {language : Language Statement}
  {inside : List Token → Prop}

theorem runsOut_end (hlimit : o.maxErrors = none) (hend : c.AtEnd) :
    RunsOut [] o n statement c c where
  clean := hend.2
  ends := TokenKind.endsStatement_of_closesBody (by rw [hend.1]; rfl)
  gives atEnd stops hatEnd hstops items := by
    refine Gives.with_nil hlimit (Gives.iterate_done ?_)
    refine (hatEnd.ends (.inl hlimit) (Nat.le_refl 1)).bind ?_
    rw [hend.1, hstops, if_pos rfl]
    exact gives_pure

/-- The last body of a block that is left open ends with the source. -/
theorem givesWith_openBody (hlimit : o.maxErrors = none) (hopening : Opening language)
    (hstatement : CoversStatement o n statement language) {as : List Statement}
    (h : Many language ts as) (hscan : c.Scans ts middle)
    (hrest : RunsOut problems o n statement middle c') (hend : c'.AtEnd) (hk : k ≤ 1) :
    GivesWith problems o n c k (branchBody statement) c' 1 (directiveBody as c'.next.token) := by
  refine givesWith_branchBody hlimit (fun inBraces => ?_) hend.2
  have hatEnd := closesAt_branch (o := o) (n := n) inBraces
  have hturns := (leads_body hatEnd.ends
    (fun kind hopens => TokenKind.stopsBranch_of_opensStatement hopens _) hopening hstatement h
    hscan (.inr hrest.clean) hrest.ends #[] hk).gives (hrest.gives hatEnd rfl _)
  rw [statementsUntil_eq]
  convert hturns.bind_pure using 1
  simp

/-- Behind the line of a clause a block is read up to the end of the source: first a body, and then
further clauses.  They may come as long as no last body was read. -/
def ReadsOut (problems : List Problem) (o : Options) (n : Nesting) (expression : Reading Expression)
    (statement : Reading (Option Statement)) (late : Bool) (c : Cursor) (k : Nat) (c' : Cursor) :
    Prop :=
  ∃ first more middle body, problems = first ++ more ∧ middle.left ≤ c.left ∧
    GivesWith first o n c k (branchBody statement) middle 1 body ∧
    ∀ before : Branches, (late = false → before.otherwise = none) → ∃ after,
      GivesWith more o n middle 1 (iterate (branch expression statement) before) c' 1 after

variable [∀ problems, Obeys (resumption problems).Kept expression]
  [∀ problems, Obeys (resumption problems).Kept statement]

/-- A clause is one more turn if it is read up to its body, and what is behind its line is read up to
the end of the source. -/
theorem ReadsOut.clauses {late : Bool} {behind : Cursor} {before : Branches} {add : Body → Branches}
    (h : ReadsOut problems o n expression statement late behind 1 c')
    (hturn : Leads o n c k (branch expression statement before) behind 1 (do
      let branches ← branchBody statement >>= fun body => pure (add body)
      return .again branches))
    (hless : behind.left < c.left) (hadd : ∀ body, late = false → (add body).otherwise = none) :
    ∃ after, GivesWith problems o n c k (iterate (branch expression statement) before) c' 1
      after := by
  obtain ⟨first, more, middle, body, rfl, hleft, hfirst, hmore⟩ := h
  obtain ⟨after, hafter⟩ := hmore (add body) (hadd body)
  exact ⟨after, (hturn.gives hfirst.bind_pure.bind_pure).iterate_again (hleft.trans_lt hless) hafter⟩

/-- What follows the line that opens a block is read up to the end of the source.  What goes wrong
is what goes wrong inside of the last body. -/
theorem readsOut_openClauses (hlimit : o.maxErrors = none) (hcondition : n.inCondition = false)
    (hexpression : Covers o n.conditional expression condition TokenKind.EndsExpression)
    (hopening : Opening language) (hstatement : CoversStatement o n statement language)
    (hinside : ∀ ⦃ts c⦄, inside ts → c.Scans ts c' → RunsOut problems o n statement c c')
    {late : Bool} (h : OpenClauses condition language inside late ts) (hscan : c.Scans ts c')
    (hend : c'.AtEnd) (hk : k ≤ 1) :
    ReadsOut problems o n expression statement late c k c' := by
  -- The induction is on the clauses; only the body of the last one is open.
  induction h generalizing c k with
  | «open» h hrest =>
      obtain ⟨middle, hbody, hrest'⟩ := hscan.split
      have hlast := givesWith_openBody hlimit hopening hstatement h hbody (hinside hrest hrest')
        hend hk
      refine ⟨problems, [], c', _, (List.append_nil _).symm, hscan.left_le, hlast, ?_⟩
      intro before _
      refine ⟨before, Gives.with_nil hlimit (Gives.iterate_done ?_)⟩
      refine (gives_peek (.inr hend.2) (Nat.le_refl 1)).bind ?_
      rw [hend.1]
      exact gives_pure
  | @elif _ _ _ e _ start _ h he _ ih =>
      rw [List.append_assoc] at hscan
      obtain ⟨middle, hbody, hclause⟩ := hscan.split
      obtain ⟨_, _, hshows, hcond, hline, hrest, hless⟩ := hclause.directiveLine rfl
      have hfirst := gives_branchBody hopening hstatement h hbody hshows rfl hk
      refine ⟨[], problems, middle, _, rfl, hbody.left_le, hfirst.with_nil hlimit, ?_⟩
      intro before hbefore
      have hnone := hbefore rfl
      exact (ih hrest (Nat.le_refl 1)).clauses ((leads_branch_elif hshows before (Nat.le_refl 1)).trans
        (leads_elifBranch hcondition hexpression hnone he hcond hline start).bind) hless
        fun _ _ => hnone
  | @otherwise _ _ _ _ start _ h hignored _ ih =>
      rw [List.append_assoc] at hscan
      obtain ⟨middle, hbody, hclause⟩ := hscan.split
      obtain ⟨_, _, hshows, hignored', hline, hrest, hless⟩ := hclause.directiveLine rfl
      have hfirst := gives_branchBody hopening hstatement h hbody hshows rfl hk
      refine ⟨[], problems, middle, _, rfl, hbody.left_le, hfirst.with_nil hlimit, ?_⟩
      intro before hbefore
      exact (ih hrest (Nat.le_refl 1)).clauses
        ((leads_branch_otherwise hshows before (Nat.le_refl 1)).trans
          (leads_otherwiseBranch (hbefore rfl) hignored hignored' hline start).bind) hless
        fun _ h => absurd h (by simp)

/-- The mark that closes a block is missing at the end of the source. -/
theorem failsWith_endif (hlimit : o.maxErrors = none) (hend : c.AtEnd) (opener : Opener) :
    FailsWith [] o n c 1 (endif opener.kind opener.place) c 1 opener.missing := by
  refine (gives_peek (.inr hend.2) (Nat.le_refl 1)).bind_failsWith ?_
  rw [hend.1, if_neg (by simp)]
  exact failsWith_fail hlimit _ _

/-- A block that is left open fails at the end of the source, behind what goes wrong inside. -/
theorem failsWith_openBlock (hlimit : o.maxErrors = none) (hdepth : n.depth < o.maxNestingDepth)
    (hcondition : n.inCondition = false)
    (hexpression : ∀ m : Nesting, m.depth = n.depth + 1 → m.inCondition = true →
      Covers o m expression condition TokenKind.EndsExpression)
    (hopening : Opening language)
    (hstatement : CoversStatement o n.deeper.inChain statement language)
    (hinside : ∀ ⦃ts c⦄, inside ts → c.Scans ts c' →
      RunsOut problems o n.deeper.inChain statement c c')
    {opener : Opener} (h : OpenBlock condition language inside opener ts) (hscan : c.Scans ts c')
    (hend : c'.AtEnd) (hk : k ≤ 1) :
    FailsWith problems o n c k (conditionalFrom opener.kind opener.place expression statement) c' 1
      opener.missing := by
  obtain ⟨hcond, hclauses⟩ := h
  obtain ⟨_, behind, hopened, hcond', hline, hrest, -⟩ := hscan.directiveLine rfl
  obtain ⟨first, more, middle, body, rfl, -, hfirst, hmore⟩ := readsOut_openClauses
    (n := n.deeper.inChain) hlimit hcondition (hexpression _ rfl rfl) hopening hstatement hinside
    hclauses hrest hend (Nat.le_refl 1)
  obtain ⟨after, hafter⟩ := hmore {} fun _ => rfl
  have hbranching : FailsWith (first ++ more) o n.deeper.inChain behind 1
      (branching opener.kind opener.place expression statement) c' 1 opener.missing := by
    rw [← List.append_nil more]
    exact hfirst.bind_failsWith (hafter.bind_failsWith (failsWith_endif hlimit hend opener).bind)
  have hchain : FailsWith (first ++ more) o n.deeper behind 1
      (between State.openChain State.closeChain
        (branching opener.kind opener.place expression statement)) c' 1 opener.missing :=
    hbranching.between Nesting.inChain
      (fun nesting => { nesting with chains := nesting.chains - 1 }) rfl
  have hhead := gives_conditionalHead (n := n.deeper) hcondition (hexpression _ rfl rfl) hcond
    hopened hcond' hline hk
  rw [conditionalFrom_eq]
  exact FailsWith.bind (FailsWith.nested hdepth (hhead.bind_failsWith hchain.bind))

end Block

/-- A statement that fails at the end of the source is the last one, and adds nothing. -/
theorem FailsWith.runsOut (hlimit : o.maxErrors = none) {room : Nat} {problem : Problem}
    (h : FailsWith problems o n c 1 (Statement.read (room + 1)) c' 1 problem) {token : Token}
    (hshows : c.Shows token) (hopens : token.kind.opensStatement = true)
    (hless : c'.left < c.left) (hend : c'.AtEnd) :
    RunsOut (problems ++ [problem]) o n (Statement.read (room + 1)) c c' where
  clean := hshows.problems
  ends := hshows.token ▸ TokenKind.endsStatement_of_opensStatement hopens
  gives atEnd stops hatEnd hstops items := by
    have := hatEnd.resumes
    have hturn := givesWith_bodyTurn hatEnd hshows (.inl hopens)
      (h.appendStatement hlimit hend items) (Nat.le_refl 1)
    have hall := hturn.iterate_again hless ((runsOut_end hlimit hend).gives hatEnd hstops items)
    rwa [List.append_nil] at hall

/-- Blocks that are left open are read as nothing, and each of them is reported where it was opened,
the innermost one first.  The induction is on the blocks: what is inside of the last body of a block
runs out, and then the block fails, which the body around it takes for its last statement. -/
theorem runsOut_leftOpen (hlimit : o.maxErrors = none) {room : Nat} {openers : List Opener}
    (hroom : n.depth + room = o.maxNestingDepth) (hcondition : n.inCondition = false)
    (h : leftOpen o room openers ts) (hscan : c.Scans ts c') (hend : c'.AtEnd) :
    RunsOut (openers.map Opener.missing).reverse o n (Statement.read (room + 1)) c c' := by
  -- An opener takes one level, and all the others are left open inside of its block.
  induction openers generalizing n c room ts with
  | nil =>
      rw [leftOpen] at h
      subst h
      cases hscan
      exact runsOut_end hlimit hend
  | cons opener openers ih =>
      cases room with
      | zero => exact h.elim
      | succ room =>
          have hroom' : n.deeper.inChain.depth + room = o.maxNestingDepth := by
            rw [← hroom, Nat.add_comm room 1, ← Nat.add_assoc]
            rfl
          have hexpression {m : Nesting} (hm : m.depth = n.depth + 1) (hm' : m.inCondition = true) :
              Covers o m (Expression.read (room + 1) Operator.lowestPrecedence)
                (Grammar.expression true room) TokenKind.EndsExpression :=
            hm' ▸ covers_expression (by omega)
          have hchains : 0 < n.deeper.inChain.chains := Nat.succ_pos _
          have hstatement := covers_statement (n := n.deeper.inChain) hroom' hcondition
          rw [decide_eq_true hchains] at hstatement
          have hfails := failsWith_openBlock hlimit (by omega) hcondition (fun m => hexpression)
            opening_program hstatement (fun _ _ => ih hroom' hcondition) h hscan hend
            (Nat.le_refl 1)
          obtain ⟨⟩ := h
          obtain ⟨_, hhead, hrest⟩ := hscan.split
          obtain ⟨hopened, hcond⟩ := hhead.shows rfl (by simp)
          have hless := (hrest.left_le.trans hcond.left_le).trans_lt hopened.left_lt
          have hread : FailsWith (openers.map Opener.missing).reverse o n c 1
              (Statement.read (room + 2)) c' 1 opener.missing :=
            (gives_shown hopened (Nat.le_refl 1)).bind_failsWith hfails
          rw [List.map_cons, List.reverse_cons]
          exact hread.runsOut hlimit hopened rfl hless hend

end Reading

/-! ## The outcome -/

variable {options : Options} {source other : String} {openers : List Grammar.Opener}

/-- A source of blocks that are left open is a program without statements. -/
theorem parseWith_of_leavesOpen (hlimit : options.maxErrors = none)
    (h : Grammar.LeavesOpen options other openers) :
    (parseWith options other).program.statements = [] ∧ (parseWith options other).errors =
      (openers.map Grammar.Opener.missing).reverse.map Problem.diagnostic := by
  obtain ⟨ts, last, hscan, hend, h⟩ := h
  have hbody := ((Reading.runsOut_leftOpen (n := {}) hlimit (Nat.zero_add _) rfl h hscan hend).gives
    Reading.closesAt_program rfl #[]).weaken (Nat.zero_le 1) (Nat.le_refl 1)
  obtain ⟨hprogram, herrors⟩ := parseWith_of_givesWith (hbody.bind_pure.wholeProgram hlimit) hend
  exact ⟨congrArg Program.statements hprogram, herrors⟩

/-- Blocks that are left open do not go on with a statement in front of them. -/
theorem goesOn_of_leavesOpen (h : Grammar.LeavesOpen options other openers) :
    (Cursor.ofSource other).next.token.kind.goesOn = false := by
  obtain ⟨ts, last, hscan, hend, h⟩ := h
  cases openers with
  | nil =>
      rw [Grammar.leftOpen] at h
      subst h
      cases hscan
      rw [hend.1]
      rfl
  | cons opener openers =>
      cases hroom : options.maxNestingDepth with
      | zero =>
          rw [hroom] at h
          exact h.elim
      | succ room =>
          rw [hroom] at h
          obtain ⟨⟩ := h
          obtain ⟨_, hhead, -⟩ := hscan.split
          rw [(hhead.shows rfl (by simp)).1.token]
          rfl

/-- **Blocks without an end.**  Behind a source that is read without an error, with a line feed in
between, there may be blocks that are left open, each inside of the last body of the one in front of
it.  Without a limit of errors, none of them leaves anything in the program, and there is one error
for each of them, at the directive that opened it, the innermost one first. -/
theorem openBlocks_parseWith (hlimit : options.maxErrors = none)
    (hsource : (parseWith options source).hasErrors = false)
    (h : Grammar.LeavesOpen options other openers) :
    (parseWith options (source ++ "\n" ++ other)).program = (parseWith options source).program ∧
      (parseWith options (source ++ "\n" ++ other)).errors = openers.reverse.map fun opener =>
        (opener.moved (.behind (source ++ "\n"))).missing.diagnostic := by
  obtain ⟨seam, xs, ys, s, t, hplace, hxs, hys, hafter, hstatements⟩ :=
    exists_joined_run hlimit hsource (goesOn_of_leavesOpen h)
  have hunlimited : t.options.maxErrors = none := by rw [hafter.options, hafter.unlimited]
  obtain ⟨hfirst, herrors⟩ := parseWith_of_turns hxs hafter.unlimited hafter.going
  obtain ⟨hall, herrors'⟩ := parseWith_of_turns hys hunlimited hafter.going'
  obtain ⟨hnone, hmissing⟩ := parseWith_of_leavesOpen hlimit h
  constructor
  · rw [← hfirst, hnone, List.map_nil, List.append_nil, ← hall] at hstatements
    exact congrArg Program.mk hstatements
  · rw [herrors', hafter.errors, ← herrors, hmissing, hplace, List.map_map, List.map_reverse,
      List.map_map, List.map_reverse]
    rfl

/-- A block with an `%elif` and an `%else`, and another one inside of its last body.  There is no room
for a third one. -/
theorem leavesOpen_nested : Grammar.LeavesOpen { maxNestingDepth := 2, maxErrors := none }
    "%if X\nc = 3\n%elif Y\n%else\n%ifdef Z\nd = 4"
    [⟨.holds, ⟨0, 3, 1, 1⟩⟩, ⟨.defined, ⟨26, 32, 5, 1⟩⟩] := by
  have hscan : (Cursor.ofSource "%if X\nc = 3\n%elif Y\n%else\n%ifdef Z\nd = 4").Scans _ _ :=
    Cursor.scans_ahead (show Cursor.pending _ 17 = [] by decide +kernel) (by decide +kernel)
  have htokens : (Cursor.ofSource "%if X\nc = 3\n%elif Y\n%else\n%ifdef Z\nd = 4").ahead 17 =
      [⟨.opener .holds, ⟨0, 3, 1, 1⟩⟩, ⟨.name "X" false, ⟨4, 5, 1, 5⟩⟩] ++
        ⟨.endOfLine, ⟨5, 6, 1, 6⟩⟩ ::
      (([⟨.name "c" false, ⟨6, 7, 2, 1⟩⟩, ⟨.symbol .assign, ⟨8, 9, 2, 3⟩⟩,
          ⟨.integer 3, ⟨10, 11, 2, 5⟩⟩] ++ []) ++
        [⟨.mark .elif, ⟨12, 17, 3, 1⟩⟩, ⟨.name "Y" false, ⟨18, 19, 3, 7⟩⟩] ++
        ⟨.endOfLine, ⟨19, 20, 3, 8⟩⟩ ::
      ([] ++ [⟨.mark .otherwise, ⟨20, 25, 4, 1⟩⟩] ++ ⟨.endOfLine, ⟨25, 26, 4, 6⟩⟩ ::
      ([] ++ ([⟨.opener .defined, ⟨26, 32, 5, 1⟩⟩, ⟨.name "Z" false, ⟨33, 34, 5, 8⟩⟩] ++
        ⟨.endOfLine, ⟨34, 35, 5, 9⟩⟩ ::
      (([⟨.name "d" false, ⟨35, 36, 6, 1⟩⟩, ⟨.symbol .assign, ⟨37, 38, 6, 3⟩⟩,
        ⟨.integer 4, ⟨39, 40, 6, 5⟩⟩] ++ []) ++ []))))) := by
    decide +kernel
  rw [htokens] at hscan
  refine ⟨_, _, hscan, ⟨by decide +kernel, by decide +kernel⟩, ?_⟩
  have hname {room : Nat} (name : String) (span : Span) : Grammar.expression true room
      [⟨.name name false, span⟩] (.name ⟨name, false, span⟩) := by
    cases room <;> exact .operand (.suffixed (.primary (.name .name)))
  refine .block (.holds (hname _ _)) (.elif
    (.cons (.assign .name (.operand (.suffixed (.primary .integer)))) .nil) (hname _ _)
    (.otherwise .nil Grammar.ignored_nil (.open .nil ?_)))
  exact .block (.defined .name) (.open
    (.cons (.assign .name (.operand (.suffixed (.primary .integer)))) .nil) rfl)

theorem errors_openBlocks :
    (parseWith { maxNestingDepth := 2, maxErrors := none }
        ("a = 1" ++ "\n" ++ "%if X\nc = 3\n%elif Y\n%else\n%ifdef Z\nd = 4")).program =
      (parseWith { maxNestingDepth := 2, maxErrors := none } "a = 1").program ∧
    (parseWith { maxNestingDepth := 2, maxErrors := none }
        ("a = 1" ++ "\n" ++ "%if X\nc = 3\n%elif Y\n%else\n%ifdef Z\nd = 4")).errors =
      [.error (.missingEndif .defined ⟨32, 38, 6, 1⟩ .endOfFile) ⟨32, 38, 6, 1⟩,
        .error (.missingEndif .holds ⟨6, 9, 2, 1⟩ .endOfFile) ⟨6, 9, 2, 1⟩] := by
  have hsource : (parseWith { maxNestingDepth := 2, maxErrors := none } "a = 1").hasErrors = false :=
    by decide +kernel
  obtain ⟨hprogram, herrors⟩ := openBlocks_parseWith rfl hsource leavesOpen_nested
  refine ⟨hprogram, herrors.trans ?_⟩
  decide +kernel

end ConfLang
