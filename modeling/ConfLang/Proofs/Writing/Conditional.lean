import ConfLang.Proofs.Grammar.Words
import ConfLang.Proofs.Writing.Statement

/-!
# Conditional directive blocks are read again

The lines of a conditional directive block begin with directives, so the ends of these lines are
tokens.  Between them stand bodies of any number of statements.  The induction is on the branches
behind the first body, from the closing directive backwards.

Together with the other kinds of statements this gives the main statement for whole programs:
what is writable is read again.
-/

namespace ConfLang

open Grammar Text Cursor

variable {options : Options} {expanding inBlock : Bool} {room : Nat} {pad tail : List Char}
  {cursor : Cursor}

/-! ## Conditions -/

/-- A condition can be read again. -/
def Condition.Rereadable : Condition → Prop
  | .holds expression => expression.Rereadable true
  | .defined name | .undefined name => Quotable name.name
  | .fileExists path | .fileMissing path => IsRestOfLine path

/-- What is written behind the directive that opens a block. -/
def Condition.text : Condition → String
  | .holds expression => expression.source
  | .defined name | .undefined name => name.text
  | .fileExists path | .fileMissing path => path

theorem Condition.source_eq (condition : Condition) :
    condition.source.toList = '%' :: (condition.kind.word.toList ++ ' ' :: condition.text.toList) := by
  cases condition <;> simp [source, text, ConditionKind.directive]

theorem Condition.Rereadable.rereads {condition : Condition} (h : condition.Rereadable)
    (hroom : condition.writtenHeight ≤ room)
    (hrest : cursor.rest = ' ' :: (condition.text.toList ++ '\n' :: tail)) :
    cursor.Rereads (Conditional (expression true room) condition.kind) ('\n' :: tail)
      condition.Resembles := by
  have hstop : ∀ character ∈ ('\n' :: tail).head?, isWordPart character = false := by
    simp [isWordPart]
  cases condition with
  | holds e =>
      refine (Expression.Rereadable.operand h hroom (faces_of_space hrest)
        (stops_cons _ (by decide) (by decide))).imp Condition.holds fun ts again ha hlike => ?_
      exact ⟨.holds (expression_of_operand ha), congrArg Condition.holds hlike.erased, hlike.height⟩
  | defined name =>
      refine (Faces.name (faces_of_space hrest) h hstop).imp Condition.defined
        fun ts again ha hlike => ⟨.defined ha, congrArg Condition.defined hlike, rfl⟩
  | undefined name =>
      refine (Faces.name (faces_of_space hrest) h hstop).imp Condition.undefined
        fun ts again ha hlike => ⟨.undefined ha, congrArg Condition.undefined hlike, rfl⟩
  | fileExists path =>
      obtain ⟨place, hraw⟩ := crosses_rawLine h hrest
      exact ⟨_, _, _, hraw, .fileExists, rfl, rfl⟩
  | fileMissing path =>
      obtain ⟨place, hraw⟩ := crosses_rawLine h hrest
      exact ⟨_, _, _, hraw, .fileMissing, rfl, rfl⟩

/-! ## Behind the first body -/

/-- From a cursor at a line, what follows the first body of a block is scanned, and the text behind
it is at a line again. -/
def Cursor.RereadsClauses (cursor : Cursor) (options : Options) (room : Nat) (tail : List Char)
    (branches : List Branch) (last : Option Body) : Prop :=
  ∃ next rest after branches' last' close, cursor.Scans (next :: rest) after ∧ after.AtLine tail ∧
    Clauses (expression true room) (statement options room true) (next :: rest) branches' last'
      close ∧
    Branch.ResemblesClauses branches last branches' last'

/-- The lines behind the first body of a block, and what follows them. -/
def clauseLines (pad tail : List Char) (branches : List Branch) (last : Option Body) : List Char :=
  written pad (Branch.lines branches ++ (Body.otherwiseLines last ++ ["%endif"])) ++ tail

/-- The end of the line of a directive is read again, and the statements behind it. -/
theorem Statement.rereads_body {statements : List Statement}
    (h : ∀ statement ∈ statements, statement.Rereadable options inBlock)
    (hroom : Statement.writtenHeightList statements ≤ room)
    (hpad : ∀ character ∈ pad, character = ' ') (hdirective : cursor.mode.isDirective = true)
    (hrest : cursor.rest =
      '\n' :: (written (deeperPad pad) (Statement.linesOf statements) ++ tail)) :
    ∃ line ts after again, cursor.Scans (⟨.endOfLine, line⟩ :: ts) after ∧ after.AtLine tail ∧
      Many (statement options room inBlock) ts again ∧ Statement.ResemblesList statements again := by
  obtain ⟨line, hend, hbody⟩ := scans_endOfLine hdirective hrest
  obtain ⟨ts, after, again, hscan, hafter, hmany, hlike⟩ :=
    Statement.rereads_many h hroom (eq_space_of_mem_deeperPad hpad) hbody
  exact ⟨line, ts, after, again, hend.append hscan, hafter, hmany, hlike⟩

theorem scans_endif (options : Options) (room : Nat) (hpad : ∀ character ∈ pad, character = ' ')
    (hline : cursor.AtLine (clauseLines pad tail [] none)) :
    ∃ next rest after close, cursor.Scans (next :: rest) after ∧ after.AtLine tail ∧
      Clauses (expression true room) (statement options room true) (next :: rest) [] none close := by
  have htext : clauseLines pad tail [] none =
      pad ++ '%' :: ("endif".toList ++ '\n' :: tail) := by
    simp [clauseLines, Branch.lines, Body.otherwiseLines]
  rw [htext] at hline
  have hkind : TokenKind.ofDirective? "endif" = some (.mark .endif) := by decide
  obtain ⟨start, hstart, hrest, hdirective⟩ :=
    (hline.indent hpad).directive hkind (by decide) rfl (by simp [isWordPart])
  obtain ⟨line, hend, hafter⟩ := scans_endOfLine hdirective hrest
  exact ⟨_, _, _, _, hstart.append hend, hafter, .endif ignored_nil⟩

theorem rereads_otherwise {last : Option Body} (h : ∀ body ∈ last, body.Rereadable options true)
    (hroom : Body.writtenHeightOption last ≤ room) (hpad : ∀ character ∈ pad, character = ' ')
    (hline : cursor.AtLine (clauseLines pad tail [] last)) :
    cursor.RereadsClauses options room tail [] last := by
  cases last with
  | none =>
      obtain ⟨next, rest, after, close, hscan, hafter, hclauses⟩ :=
        scans_endif options room hpad hline
      exact ⟨next, rest, after, [], none, close, hscan, hafter, hclauses, ⟨rfl, rfl⟩, rfl, rfl⟩
  | some body =>
      obtain ⟨statements, span⟩ := body
      have htext : clauseLines pad tail [] (some (.mk statements span)) =
          pad ++ '%' :: ("else".toList ++ '\n' :: (written (deeperPad pad)
            (Statement.linesOf statements) ++ clauseLines pad tail [] none)) := by
        simp [clauseLines, Branch.lines, Body.otherwiseLines, Body.lines]
      rw [htext] at hline
      have hkind : TokenKind.ofDirective? "else" = some (.mark .otherwise) := by decide
      obtain ⟨start, hstart, hrest, hdirective⟩ :=
        (hline.indent hpad).directive hkind (by decide) rfl (by simp [isWordPart])
      obtain ⟨line, ts, middle, again, hscan, hmiddle, hmany, hlike⟩ :=
        Statement.rereads_body (h _ rfl) hroom hpad hdirective hrest
      obtain ⟨next, rest, after, close, hscan', hafter, hclauses⟩ :=
        scans_endif options room hpad hmiddle
      have hall := (hstart.append hscan).append hscan'
      refine ⟨_, _, _, _, _, _, hall, hafter, .otherwise ignored_nil hmany hclauses,
        ⟨rfl, rfl⟩, ?_, hlike.height⟩
      exact congrArg some hlike.body.erased

theorem rereads_clauses {branches : List Branch} {last : Option Body}
    (h : ∀ branch ∈ branches,
      branch.condition.Rereadable true ∧ branch.body.Rereadable options true)
    (hlast : ∀ body ∈ last, body.Rereadable options true)
    (hroom : Branch.writtenHeightList branches ≤ room)
    (hroom' : Body.writtenHeightOption last ≤ room) (hpad : ∀ character ∈ pad, character = ' ')
    (hline : cursor.AtLine (clauseLines pad tail branches last)) :
    cursor.RereadsClauses options room tail branches last := by
  -- A branch is read again from its own lines, and the clauses behind it by induction.
  induction branches generalizing cursor with
  | nil => exact rereads_otherwise hlast hroom' hpad hline
  | cons branch branches ih =>
      obtain ⟨condition, ⟨statements, place⟩, span⟩ := branch
      rw [List.forall_mem_cons] at h
      have hcondition : condition.Rereadable true := h.1.1
      have hstatements : ∀ statement ∈ statements, statement.Rereadable options true := h.1.2
      have hparts := Nat.max_le.mp hroom
      have hfirst := Nat.max_le.mp hparts.1
      have htext : clauseLines pad tail (.mk condition (.mk statements place) span :: branches) last =
          pad ++ '%' :: ("elif".toList ++ ' ' :: (condition.source.toList ++ '\n' ::
            (written (deeperPad pad) (Statement.linesOf statements) ++
              clauseLines pad tail branches last))) := by
        simp [clauseLines, Branch.lines, Body.lines]
      rw [htext] at hline
      have hkind : TokenKind.ofDirective? "elif" = some (.mark .elif) := by decide
      obtain ⟨start, hstart, hrest, hdirective⟩ :=
        (hline.indent hpad).directive hkind (by decide) rfl (by simp [isWordPart])
      obtain ⟨ts, between, e, hexpression, he, hlike⟩ := hcondition.operand hfirst.1
        (faces_of_space hrest) (stops_cons _ (by decide) (by decide))
      obtain ⟨line, ts', middle, again, hscan, hmiddle, hmany, hlikes⟩ := Statement.rereads_body
        hstatements hfirst.2 hpad (hexpression.line.trans hdirective) hexpression.rest
      obtain ⟨next, rest, after, branches', last', close, hscan', hafter, hclauses, hlike'⟩ :=
        ih h.2 hparts.2 hmiddle
      have hall := ((hstart.append hexpression.scans).append hscan).append hscan'
      refine ⟨_, _, _, _, _, _, by simpa using hall, hafter,
        .elif (expression_of_operand he) hmany hclauses, ⟨?_, ?_⟩, hlike'.last⟩
      · simp only [Branch.erasedList, directiveBody, Body.erased, hlike.erased, hlikes.erased,
          hlike'.branches.1]
      · simp only [Branch.heightList, Branch.writtenHeightList, directiveBody, Body.height,
          Body.writtenHeight, hlike.height, hlikes.height, hlike'.branches.2]

/-! ## Whole blocks -/

theorem ofDirective?_word (kind : ConditionKind) :
    TokenKind.ofDirective? kind.word = some (.opener kind) := by
  cases kind <;> decide

theorem Statement.rereadable_conditional {condition : Condition} {body : Body}
    {branches : List Branch} {last : Option Body} {span : Span} (hcondition : condition.Rereadable)
    (hbody : body.Rereadable options true)
    (hbranches : ∀ branch ∈ branches,
      branch.condition.Rereadable true ∧ branch.body.Rereadable options true)
    (hlast : ∀ body ∈ last, body.Rereadable options true) :
    (Statement.conditional condition body branches last span).Rereadable options inBlock := by
  intro room pad tail cursor hroom hpad hline
  obtain ⟨statements, place⟩ := body
  have hmembers : ∀ statement ∈ statements, statement.Rereadable options true := hbody
  obtain ⟨below, rfl⟩ := Nat.exists_eq_add_one.mpr (Nat.zero_lt_of_lt hroom)
  have hparts := Nat.max_le.mp (Nat.le_of_succ_le_succ hroom)
  have hfirst := Nat.max_le.mp hparts.1
  have hsecond := Nat.max_le.mp hparts.2
  -- the line of the directive, the indented statements, and the clauses
  have htext : written pad (lines (.conditional condition (.mk statements place) branches last
      span)) ++ tail = pad ++ '%' :: (condition.kind.word.toList ++ ' ' ::
        (condition.text.toList ++ '\n' :: (written (deeperPad pad) (Statement.linesOf statements) ++
          clauseLines pad tail branches last))) := by
    simp [lines, Body.lines, clauseLines, condition.source_eq]
  rw [htext] at hline
  obtain ⟨opened, hopened, hrest, hdirective⟩ := (hline.indent hpad).directive
    (ofDirective?_word condition.kind) (by cases condition.kind <;> decide) rfl
    (by simp [isWordPart])
  obtain ⟨ts, between, again, hcrosses, hlanguage, hlike⟩ :=
    hcondition.rereads hfirst.1 hrest
  obtain ⟨line, ts', middle, again', hscan, hmiddle, hmany, hlikes⟩ := Statement.rereads_body
    hmembers hfirst.2 hpad (hcrosses.line.trans hdirective) hcrosses.rest
  obtain ⟨next, rest, after, branches', last', close, hscan', hafter, hclauses, hlike'⟩ :=
    rereads_clauses hbranches hlast hsecond.1 hsecond.2 hpad hmiddle
  have hall := ((hopened.append hcrosses.scans).append hscan).append hscan'
  refine ⟨_, _, _, by simpa using hall, hafter, .conditional rfl hlanguage hmany hclauses, ?_, ?_⟩
  · simp only [erased, directiveBody, Body.erased, hlike.erased, hlikes.erased, hlike'.branches.1,
      hlike'.last.1]
  · simp only [height, writtenHeight, directiveBody, Body.height, Body.writtenHeight, hlike.height,
      hlikes.height, hlike'.branches.2, hlike'.last.2]

/-! ## All statements -/

theorem Condition.IsWritable.rereadable {condition : Condition} (h : condition.IsWritable) :
    condition.Rereadable := by
  cases condition with
  | holds e => exact Expression.IsWritable.rereadable (e := e) h
  | _ => exact h

mutual

/-- What is writable is read again. -/
theorem Statement.IsWritable.rereadable
    (hallowed : expanding = true → options.expandingAssign = true) {inBlock : Bool} :
    ∀ {statement : Statement}, statement.IsWritable expanding inBlock → statement.Rereadable options inBlock
  | .constant _ none _ _, h => Statement.rereadable_constant h.1 h.2.2.rereadable
  | .constant _ (some _) _ _, h =>
    Statement.rereadable_typedConstant h.1 (h.2.1 _ rfl).rereadable h.2.2.rereadable
  | .group _ _ _, h => Statement.rereadable_group h.1 (Body.IsWritable.rereadable hallowed h.2)
  | .assign _ _ _, h => Statement.rereadable_assign h.1 h.2.rereadable
  | .append _ _ _, h => Statement.rereadable_append h.1 h.2.rereadable
  | .expand _ _ _, h => Statement.rereadable_expand h.1 (hallowed h.2.1) h.2.2.1 h.2.2.2
  | .choice _ _ none _, h =>
    Statement.rereadable_choice h.1.rereadable (Body.IsWritable.rereadable hallowed h.2.1)
  | .choice _ _ (some _) _, h =>
    Statement.rereadable_choiceElse h.1.rereadable (Body.IsWritable.rereadable hallowed h.2.1)
      (Body.IsWritable.rereadable hallowed h.2.2)
  | .conditional _ _ _ none _, h =>
    Statement.rereadable_conditional h.1.rereadable (Body.IsWritable.rereadable hallowed h.2.1)
      (Branch.IsWritableList.rereadable hallowed h.2.2.1) (by rintro _ ⟨⟩)
  | .conditional _ _ _ (some _) _, h =>
    Statement.rereadable_conditional h.1.rereadable (Body.IsWritable.rereadable hallowed h.2.1)
      (Branch.IsWritableList.rereadable hallowed h.2.2.1)
      (by
        rintro _ ⟨⟩
        exact Body.IsWritable.rereadable hallowed h.2.2.2)
  | .message _ _ _, h => Statement.rereadable_message h
  | .passage _ _, h => Statement.rereadable_passage h

theorem Body.IsWritable.rereadable
    (hallowed : expanding = true → options.expandingAssign = true) {inBlock : Bool} :
    ∀ {body : Body}, body.IsWritable expanding inBlock → body.Rereadable options inBlock
  | .mk _ _, h => Statement.IsWritableList.rereadable hallowed h

theorem Statement.IsWritableList.rereadable
    (hallowed : expanding = true → options.expandingAssign = true) {inBlock : Bool} :
    ∀ {statements : List Statement}, Statement.IsWritableList expanding inBlock statements →
      ∀ statement ∈ statements, statement.Rereadable options inBlock
  | [], _ => nofun
  | _ :: _, h => List.forall_mem_cons.mpr
    ⟨Statement.IsWritable.rereadable hallowed h.1,
      Statement.IsWritableList.rereadable hallowed h.2⟩

theorem Branch.IsWritableList.rereadable
    (hallowed : expanding = true → options.expandingAssign = true) :
    ∀ {branches : List Branch}, Branch.IsWritableList expanding branches → ∀ branch ∈ branches,
      branch.condition.Rereadable true ∧ branch.body.Rereadable options true
  | [], _ => nofun
  | .mk _ _ _ :: _, h => List.forall_mem_cons.mpr
    ⟨⟨h.1.rereadable, Body.IsWritable.rereadable hallowed h.2.1⟩,
      Branch.IsWritableList.rereadable hallowed h.2.2⟩

end

end ConfLang
