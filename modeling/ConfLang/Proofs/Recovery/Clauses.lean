import ConfLang.Proofs.Bodies.Turn
import ConfLang.Proofs.DirectiveLine.Condition
import ConfLang.Proofs.Recovery.Statement

/-!
# Blocks whose clauses stand in any order

The clauses of a conditional directive block are meant to be some `%elif` branches and one `%else`
behind them.  Here they come in any order and number, and behind an `%elif` stands anything that
does not leave the line.  Such a block is read as a whole, whatever is wrong with its clauses.

* A branch counts if its condition is read up to the end of the line and no `%else` came before.
  All branches are read, and each has its own body.
* The first `%else` counts.
* An `%elif` behind the first `%else` is one error, and so is each further `%else`.  All other
  errors are those of the conditions.

What a condition is read as, and what is wrong with it, is what comes of reading its line by itself
(`Cursor.lineValue?`, `Cursor.lineProblems`).

## Strategy

What one clause adds to the branches that were read before it is `Branches.add`, and each kind of
clause is read as that (`givesWith_elifBranch`, `givesWith_otherwiseBranch`).  The loop is the fold
of these steps, by induction on the clauses.
-/

namespace ConfLang

namespace Grammar

variable {o : Options} {n : Nesting} {room : Nat}

/-- A clause behind the first body of a block.  Of a branch the place behind its mark is told, where
its condition begins. -/
inductive Clause where
  | elif (start : Span) (place : Cursor) (body : Body)
  | otherwise (start : Span) (body : Body)

/-- The clauses of a block in any order, up to the mark that closes the block, whose place is told,
and the end of its line. -/
inductive FreeClauses (o : Options) (room : Nat) : Cursor → List Clause → Span → Cursor → Prop where
  | endif {c c' close} : c.Shows ⟨.mark .endif, close⟩ → c.next.cursor.EndsLine c' →
    FreeClauses o room c [] close c'
  | elif {c behind middle c' start ts statements clauses close} : c.Shows ⟨.mark .elif, start⟩ →
    c.next.cursor.LineTo behind → Many (statement o room true) ts statements →
    behind.Scans ts middle → FreeClauses o room middle clauses close c' →
    FreeClauses o room c
      (.elif start c.next.cursor (directiveBody statements middle.next.token) :: clauses) close c'
  | otherwise {c behind middle c' start ts statements clauses close} :
    c.Shows ⟨.mark .otherwise, start⟩ → c.next.cursor.EndsLine behind →
    Many (statement o room true) ts statements → behind.Scans ts middle →
    FreeClauses o room middle clauses close c' →
    FreeClauses o room c
      (.otherwise start (directiveBody statements middle.next.token) :: clauses) close c'

/-- A block with a condition that can be read, and with clauses in any order. -/
inductive FreeBlock (o : Options) (room : Nat) :
    Cursor → Condition → Body → List Clause → Span → Cursor → Prop where
  | block {c middle behind ahead c' kind opened head condition ts statements clauses close} :
    c.Shows ⟨.opener kind, opened⟩ → Conditional (expression true room) kind head condition →
    c.next.cursor.Scans head middle → middle.EndsLine behind →
    Many (statement o room true) ts statements → behind.Scans ts ahead →
    FreeClauses o room ahead clauses close c' →
    FreeBlock o room c condition (directiveBody statements ahead.next.token) clauses
      (opened.through close) c'

/-! ## What clauses stand for -/

/-- The reading of the condition of a further branch, through the end of its line. -/
def elifCondition (o : Options) (n : Nesting) : Reading Expression :=
  Reading.branchCondition
    (Expression.read (o.maxNestingDepth + 1 - n.depth) Operator.lowestPrecedence)

namespace Clause

/-- The last body, if a clause is one. -/
def otherwise? : Clause → Option Body
  | elif _ _ _ => none
  | otherwise _ body => some body

/-- The branch of a clause, if its condition can be read. -/
def branch? (o : Options) (n : Nesting) : Clause → Option Branch
  | elif start place body => (place.lineValue? o n (elifCondition o n)).map fun condition =>
      .mk condition body (start.through body.span)
  | otherwise _ _ => none

/-- What is wrong with the condition of a clause. -/
def conditionProblems (o : Options) (n : Nesting) : Clause → List Problem
  | elif _ place _ => place.lineProblems o n (elifCondition o n)
  | otherwise _ _ => []

/-- The mark that begins a clause. -/
def start : Clause → Span
  | elif start _ _ | otherwise start _ => start

/-- What is wrong with a clause behind the last body. -/
def lateProblem : Clause → Problem
  | elif start _ _ => ⟨.elifAfterElse, start⟩
  | otherwise start _ => ⟨.duplicateElse, start⟩

/-- What is reported where a clause is read, behind a last body or not. -/
def problems (o : Options) (n : Nesting) (late : Bool) (clause : Clause) : List Problem :=
  (if late then [clause.lateProblem] else []) ++ clause.conditionProblems o n

end Clause

/-- The branches that count: those in front of the first last body. -/
def branches (o : Options) (n : Nesting) (clauses : List Clause) : List Branch :=
  (clauses.takeWhile (·.otherwise?.isNone)).filterMap (·.branch? o n)

/-- The last body that counts: the first one. -/
def lastBody (clauses : List Clause) : Option Body :=
  clauses.findSome? (·.otherwise?)

theorem branches_elif (start : Span) (place : Cursor) (body : Body) (clauses : List Clause) :
    branches o n (.elif start place body :: clauses) =
      (Clause.branch? o n (.elif start place body)).toList ++ branches o n clauses := by
  rw [branches, List.takeWhile_cons_of_pos rfl, List.filterMap_cons]
  cases Clause.branch? o n (.elif start place body) <;> rfl

/-- What is reported where clauses are read, behind a last body or not. -/
def clauseProblems (o : Options) (n : Nesting) : Bool → List Clause → List Problem
  | _, [] => []
  | late, clause :: rest =>
    clause.problems o n late ++ clauseProblems o n (late || clause.otherwise?.isSome) rest

end Grammar

namespace Reading

open Grammar

variable {o : Options} {n : Nesting} {c c' middle behind : Cursor} {k room : Nat}
  {clauses : List Clause} {close : Span}

/-- What a clause adds to the branches in front of it. -/
def Branches.add (o : Options) (n : Nesting) (before : Branches) (clause : Clause) : Branches where
  elifs := if before.otherwise.isNone then before.elifs ++ (clause.branch? o n).toList
    else before.elifs
  otherwise := before.otherwise <|> clause.otherwise?

theorem isSome_add (before : Branches) (clause : Clause) :
    (before.add o n clause).otherwise.isSome =
      (before.otherwise.isSome || clause.otherwise?.isSome) := by
  obtain ⟨elifs, _ | last⟩ := before <;> simp [Branches.add]

/-- Behind some branches, clauses add those in front of the first last body, and that body. -/
theorem foldl_add (clauses : List Clause) (before : Branches) :
    clauses.foldl (Branches.add o n) before =
      ⟨if before.otherwise.isNone then before.elifs ++ branches o n clauses else before.elifs,
        before.otherwise.or (lastBody clauses)⟩ := by
  induction clauses generalizing before with
  | nil =>
      obtain ⟨elifs, _ | body⟩ := before
      · simp [branches, lastBody]
      · rfl
  | cons clause rest ih =>
      rw [List.foldl_cons, ih]
      obtain ⟨elifs, _ | body⟩ := before
      · cases clause with
        | elif start place body =>
            rw [branches_elif]
            simp [Branches.add, lastBody, Clause.otherwise?, ← Array.toList_inj]
        | otherwise start body =>
            simp [Branches.add, lastBody, branches, Clause.otherwise?, Clause.branch?]
      · -- There is a last body already, so the clause adds nothing.
        simp [Branches.add]

theorem foldl_add_nothing (clauses : List Clause) : clauses.foldl (Branches.add o n) {} =
    ⟨(branches o n clauses).toArray, lastBody clauses⟩ := by
  rw [foldl_add]
  simp

/-! ## One clause -/

/-- A clause behind the last body is reported at its mark. -/
theorem givesWith_late {α : Type} {rest : Reading α} {a : α} {problems : List Problem}
    (hlimit : o.maxErrors = none) [∀ problems, Obeys (resumption problems).Kept rest]
    (late : Bool) (problem : Problem) (hrest : GivesWith problems o n c 0 rest c' k a) :
    GivesWith ((if late then [problem] else []) ++ problems) o n c 0 (do
      if late = true then report problem.diagnostic
      rest) c' k a := by
  cases late with
  | false => exact hrest
  | true => exact ((comes_report hlimit problem).givesWith hlimit).bind hrest

/-- With some room left, the condition of a branch is read with one level more. -/
theorem elifCondition_eq (hroom : n.depth + room = o.maxNestingDepth) : elifCondition o n =
    branchCondition (Expression.read (room + 1) Operator.lowestPrecedence) := by
  rw [elifCondition, show o.maxNestingDepth + 1 - n.depth = room + 1 by omega]

theorem withElif_eq (before : Branches) (start : Span) (place : Cursor) (body : Body) :
    before.withElif start (place.lineValue? o n (elifCondition o n)) body =
      before.add o n (.elif start place body) := by
  obtain ⟨elifs, _ | last⟩ := before <;>
    cases hvalue : place.lineValue? o n (elifCondition o n) <;>
      simp [Branches.withElif, Branches.add, Clause.branch?, Clause.otherwise?, hvalue]

theorem elifBranch_eq_withElif (expression : Reading Expression)
    (statement : Reading (Option Statement)) (start : Span) (before : Branches) :
    elifBranch expression statement start before = (do
      if before.otherwise.isSome = true then report (.error .elifAfterElse start)
      let condition ← lineOrSkip (branchCondition expression)
      let body ← branchBody statement
      return before.withElif start condition body) := by
  unfold elifBranch
  obtain ⟨elifs, _ | last⟩ := before
  · refine bind_congr fun condition => bind_congr fun body => ?_
    cases condition <;> rfl
  · refine bind_congr fun _ => bind_congr fun condition => bind_congr fun body => ?_
    cases condition <;> rfl

/-- A branch is added if its condition can be read and there is no last body. -/
theorem givesWith_elifBranch (hlimit : o.maxErrors = none)
    (hroom : n.depth + room = o.maxNestingDepth) (hcondition : n.inCondition = false) {body : Body}
    (start : Span) (before : Branches) (hline : c.LineTo behind)
    (hbody : Gives o n behind 0 (branchBody (Statement.read (room + 1))) c' 1 body) :
    GivesWith ((Clause.elif start c body).problems o n before.otherwise.isSome) o n c 0
      (elifBranch (Expression.read (room + 1) Operator.lowestPrecedence)
        (Statement.read (room + 1)) start before) c' 1
      (before.add o n (.elif start c body)) := by
  have hread := (finishes_branchCondition hlimit hcondition (room + 1) hline
    (Nat.zero_le 1)).lineOrSkip hlimit
  rw [← elifCondition_eq hroom] at hread
  rw [elifBranch_eq_withElif, ← withElif_eq, ← elifCondition_eq hroom]
  have (problems : List Problem) : Obeys (resumption problems).Kept (elifCondition o n) :=
    inferInstanceAs (Obeys _ (branchCondition _))
  exact givesWith_late hlimit _ ⟨.elifAfterElse, start⟩
    ((hread.1.givesWith hlimit).bind_gives hlimit hbody.bind_pure)

/-- The first last body is kept. -/
theorem givesWith_otherwiseBranch (hlimit : o.maxErrors = none) {body : Body} (start : Span)
    (before : Branches) (hline : c.EndsLine behind)
    (hbody : Gives o n behind 1 (branchBody (Statement.read (room + 1))) c' 1 body) :
    GivesWith ((Clause.otherwise start body).problems o n before.otherwise.isSome) o n c 0
      (otherwiseBranch (Statement.read (room + 1)) start before) c' 1
      (before.add o n (.otherwise start body)) := by
  have hadd : before.add o n (.otherwise start body) =
      { before with otherwise := before.otherwise <|> some body } := by
    obtain ⟨elifs, _ | last⟩ := before <;> simp [Branches.add, Clause.branch?, Clause.otherwise?]
  rw [hadd]
  refine givesWith_late hlimit _ ⟨.duplicateElse, start⟩ ?_
  have hmark := gives_endOfMark (o := o) (n := n) .otherwise ignored_nil .nil hline (Nat.zero_le 1)
  exact Gives.with_nil hlimit (hmark.bind (hbody.bind gives_pure))

/-! ## All clauses -/

/-- Every clause begins with a mark, and so does what closes the block. -/
theorem shows_freeClauses (h : FreeClauses o room c clauses close c') :
    ∃ token which, c.Shows token ∧ token.kind = .mark which := by
  cases h with
  | endif hshows | elif hshows | otherwise hshows => exact ⟨_, _, hshows, rfl⟩

/-- The body of a clause ends in front of the next one. -/
theorem gives_clauseBody (hroom : n.depth + room = o.maxNestingDepth)
    (hcondition : n.inCondition = false) (hchains : 0 < n.chains) {ts : List Token}
    {statements : List Statement} (h : Many (Grammar.statement o room true) ts statements)
    (hscan : c.Scans ts middle) (hrest : FreeClauses o room middle clauses close c') (hk : k ≤ 1) :
    Gives o n c k (branchBody (Statement.read (room + 1))) middle 1
      (directiveBody statements middle.next.token) := by
  obtain ⟨token, which, hshows, hmark⟩ := shows_freeClauses hrest
  have hstatement := covers_statement hroom hcondition
  rw [decide_eq_true hchains] at hstatement
  rw [hshows.token]
  exact gives_branchBody opening_program hstatement h hscan hshows hmark hk

/-- The clauses of a block are read up to the mark that closes it. -/
theorem givesWith_freeClauses (hlimit : o.maxErrors = none)
    (hroom : n.depth + room = o.maxNestingDepth) (hcondition : n.inCondition = false)
    (hchains : 0 < n.chains) (h : FreeClauses o room c clauses close c') (before : Branches)
    (hk : k ≤ 1) :
    ∃ middle, GivesWith (clauseProblems o n before.otherwise.isSome clauses) o n c k
        (iterate (branch (Expression.read (room + 1) Operator.lowestPrecedence)
          (Statement.read (room + 1))) before) middle 1 (clauses.foldl (Branches.add o n) before) ∧
      middle.Shows ⟨.mark .endif, close⟩ ∧ middle.next.cursor.EndsLine c' := by
  induction h generalizing k before with
  | @endif c c' close hshows hline =>
      refine ⟨c, Gives.with_nil hlimit (Gives.iterate_done ?_), hshows, hline⟩
      exact (gives_shown hshows hk).bind gives_pure
  | @elif c behind middle c' start ts statements clauses close hshows hline h hscan hclauses ih =>
      -- The condition may fail, but the line is left behind in both cases.
      obtain ⟨last, hrest, hlast⟩ := ih (before.add o n _) (Nat.le_refl 1)
      have hbody := gives_clauseBody hroom hcondition hchains h hscan hclauses (Nat.zero_le 1)
      have hbranch := givesWith_elifBranch hlimit hroom hcondition start before hline hbody
      have hless := (hscan.left_le.trans hline.left_lt.le).trans_lt hshows.left_lt
      rw [isSome_add] at hrest
      exact ⟨last, ((leads_branch_elif hshows before hk).gives hbranch.bind_pure).iterate_again
        hless hrest, hlast⟩
  | @otherwise c behind middle c' start ts statements clauses close hshows hline h hscan hclauses
    ih =>
      obtain ⟨last, hrest, hlast⟩ := ih (before.add o n _) (Nat.le_refl 1)
      have hbody := gives_clauseBody hroom hcondition hchains h hscan hclauses (Nat.le_refl 1)
      have hbranch := givesWith_otherwiseBranch hlimit start before hline hbody
      have hless := (hscan.left_le.trans hline.left_le).trans_lt hshows.left_lt
      rw [isSome_add] at hrest
      exact ⟨last, ((leads_branch_otherwise hshows before hk).gives hbranch.bind_pure).iterate_again
        hless hrest, hlast⟩

/-! ## Blocks -/

/-- Behind the last mark nothing is looked at but the end of the source. -/
theorem gives_lineEnd (mark : Mark) (h : c.EndsLine c') (hk : k ≤ 1) : ∃ k',
    (∀ j ≤ k', c'.pending j = []) ∧ Gives o n c k (endOfMark mark) c' k' () := by
  rcases h with ⟨token, hshows, hkind, rfl⟩ | ⟨hline, hend, rfl⟩
  · refine ⟨0, fun j hj => by rw [Nat.le_zero.mp hj]; rfl, (gives_shown hshows hk).bind ?_⟩
    rw [hkind]
    exact (gives_advance hshows).map
  · refine ⟨1, fun j hj => ?_, gives_endOfMark mark ignored_nil .nil
      (.inr ⟨hline, hend, rfl⟩) hk⟩
    obtain rfl | rfl := Nat.le_one_iff_eq_zero_or_eq_one.mp hj
    · rfl
    · rw [Cursor.pending, hend.next_lineEnded hline, hend.2]
      rfl

/-- Behind its condition a block is read through its end. -/
theorem givesWith_branching (hlimit : o.maxErrors = none)
    (hroom : n.depth + room = o.maxNestingDepth) (hcondition : n.inCondition = false)
    (hchains : 0 < n.chains) {ts : List Token} {statements : List Statement}
    (h : Many (Grammar.statement o room true) ts statements) (hscan : c.Scans ts middle)
    (hclauses : FreeClauses o room middle clauses close c') (kind : ConditionKind) (opened : Span) :
    ∃ k', (∀ j ≤ k', c'.pending j = []) ∧
      GivesWith (clauseProblems o n false clauses) o n c 1
        (branching kind opened (Expression.read (room + 1) Operator.lowestPrecedence)
          (Statement.read (room + 1))) c' k'
        ⟨directiveBody statements middle.next.token,
          ⟨(branches o n clauses).toArray, lastBody clauses⟩, close⟩ := by
  have hthen := gives_clauseBody hroom hcondition hchains h hscan hclauses (Nat.le_refl 1)
  obtain ⟨last, hiterate, hendif, hend⟩ :=
    givesWith_freeClauses hlimit hroom hcondition hchains hclauses {} (Nat.le_refl 1)
  obtain ⟨k', hpending, hmark⟩ := gives_lineEnd (o := o) (n := n) .endif hend (Nat.zero_le 1)
  have hclose : Gives o n last 1 (endif kind opened) c' k' close := by
    refine (gives_shown hendif (Nat.le_refl 1)).bind ?_
    rw [if_pos rfl]
    exact (gives_advance hendif).bind hmark.bind_pure
  rw [foldl_add_nothing] at hiterate
  exact ⟨k', hpending, hthen.bind_with (hiterate.bind_gives hlimit hclose.bind_pure)⟩

/-- A block is read as a whole, whatever is wrong with its clauses. -/
theorem givesWith_freeBlock (hlimit : o.maxErrors = none)
    (hroom : n.depth + (room + 1) = o.maxNestingDepth) (hcondition : n.inCondition = false)
    {condition : Condition} {body : Body} {span : Span}
    (h : FreeBlock o room c condition body clauses span c') (hk : k ≤ 1) : ∃ k',
    (∀ j ≤ k', c'.pending j = []) ∧
      GivesWith (clauseProblems o n.deeper.inChain false clauses) o n c k
        (Statement.read (room + 2)) c' k' (some (.conditional condition body
          (branches o n.deeper.inChain clauses) (lastBody clauses) span)) := by
  cases h with
  | @block middle behind ahead _ kind opened head _ ts statements _ close hopened hcond hhead hline
      hbody hinside hclauses =>
      have hdeeper : n.deeper.inChain.depth + room = o.maxNestingDepth := by
        rw [← hroom, Nat.add_comm room 1, ← Nat.add_assoc]
        rfl
      have hexpression : Covers o n.deeper.conditional
          (Expression.read (room + 1) Operator.lowestPrecedence) (Grammar.expression true room)
          TokenKind.EndsExpression := covers_expression hdeeper
      have hhead := gives_conditionalHead (n := n.deeper) hcondition hexpression hcond hopened hhead
        hline (Nat.le_refl 1)
      obtain ⟨k', hpending, hbranching⟩ := givesWith_branching (n := n.deeper.inChain) hlimit hdeeper
        hcondition (Nat.succ_pos _) hbody hinside hclauses kind opened
      have hchain := GivesWith.between Nesting.inChain
        (fun nesting => { nesting with chains := nesting.chains - 1 }) rfl hbranching
      have hfrom : GivesWith (clauseProblems o n.deeper.inChain false clauses) o n c 1
          (conditionalFrom kind opened (Expression.read (room + 1) Operator.lowestPrecedence)
            (Statement.read (room + 1))) c' k' (some (.conditional condition
              (directiveBody statements ahead.next.token) (branches o n.deeper.inChain clauses)
              (lastBody clauses) (opened.through close))) := by
        rw [conditionalFrom_eq]
        exact GivesWith.bind_gives hlimit (GivesWith.nested (by omega)
          (hhead.bind_with hchain.bind_pure)) ((gives_note _).bind gives_pure)
      exact ⟨k', hpending, (gives_shown hopened hk).bind_with hfrom⟩

end Reading

end ConfLang
