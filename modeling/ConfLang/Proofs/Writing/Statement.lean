import ConfLang.Proofs.Writing.Expression

/-!
# Statements are read again

Wherever the lines of a statement stand behind some indentation, their tokens are a statement of
the grammar that is the same but for what a source does not show.  Statements have no mark of
their end, so all there is to say about what follows is that it begins on a line of its own: a
line feed stands before it, which has not been taken unless it ended the line of a directive.

The induction is on the statement, and inside the lines of a conditional directive block it is on
its branches.
-/

namespace ConfLang

open Grammar Text Cursor

variable {α β : Type} {options : Options} {expanding inBlock : Bool} {room : Nat}
  {pad tail : List Char} {cursor : Cursor}

/-! ## Lines -/

/-- Lines behind some indentation, each with a line feed at its end. -/
def written (pad : List Char) (lines : List String) : List Char :=
  lines.flatMap fun line => pad ++ line.toList ++ ['\n']

@[simp] theorem written_nil (pad : List Char) : written pad [] = [] := rfl

@[simp] theorem written_cons (pad : List Char) (line : String) (lines : List String) :
    written pad (line :: lines) = pad ++ (line.toList ++ '\n' :: written pad lines) := by
  simp [written]

@[simp] theorem written_append (pad : List Char) (first second : List String) :
    written pad (first ++ second) = written pad first ++ written pad second :=
  List.flatMap_append

/-- The indentation of a body. -/
def deeperPad (pad : List Char) : List Char :=
  pad ++ [' ', ' ', ' ', ' ']

@[simp] theorem written_indented (pad : List Char) (lines : List String) :
    written pad (indented lines) = written (deeperPad pad) lines := by
  simp [written, indented, deeperPad, List.flatMap_map]

theorem eq_space_of_mem_deeperPad (h : ∀ character ∈ pad, character = ' ') :
    ∀ character ∈ deeperPad pad, character = ' ' := by
  simpa [deeperPad, or_imp, forall_and] using h

theorem toList_unlines (lines : List String) : (unlines lines).toList = written [] lines := by
  induction lines with
  | nil => rfl
  | cons line lines ih =>
      rw [unlines] at ih ⊢
      simp [ih]

namespace Cursor

/-! ## Tokens at the beginning and the end of a line -/

/-- From a cursor at a line, a tree of a language is scanned that is like another one, and the
text behind it is at a line again. -/
def RereadsLines (cursor : Cursor) (language : Language α) (tail : List Char) (like : α → Prop) :
    Prop :=
  ∃ ts after a, cursor.Scans ts after ∧ after.AtLine tail ∧ language ts a ∧ like a

/-- What ends in front of a line feed ends its line, unless the line is that of a directive. -/
theorem Rereads.lines {language : Language α} {like : α → Prop}
    (h : cursor.Rereads language ('\n' :: tail) like) (hline : cursor.mode.isDirective = false) :
    cursor.RereadsLines language tail like := by
  obtain ⟨ts, after, a, hcrosses, ha, hlike⟩ := h
  exact ⟨ts, after, a, hcrosses.scans, atLine_of_newline (hcrosses.line.trans hline) hcrosses.rest,
    ha, hlike⟩

theorem Faces.keyword (word : Keyword) (h : cursor.Faces (word.text.toList ++ ' ' :: tail)) :
    ∃ span, cursor.Crosses [⟨.keyword word, span⟩] cursor.next.cursor (' ' :: tail) :=
  (h.finds (fun _ => Lexeme.spells_keyword word (by simp [isWordPart])) nofun).crosses rfl

/-- The directive that a line begins with. -/
theorem AtLine.directive {kind : TokenKind} {word : String}
    (h : cursor.AtLine ('%' :: (word.toList ++ tail)))
    (hkind : TokenKind.ofDirective? word = some kind)
    (hword : word.toList.all isWordPart = true) (hstarts : kind.startsDirectiveLine = true)
    (htail : ∀ character ∈ tail.head?, isWordPart character = false) :
    ∃ span, cursor.Scans [⟨kind, span⟩] cursor.next.cursor ∧ cursor.next.cursor.rest = tail ∧
      cursor.next.cursor.mode.isDirective = true := by
  have hfinds : cursor.Finds kind tail := by
    have htext : cursor.AtLine (('%' :: word.toList) ++ tail) := h
    refine htext.finds (fun mode hatStart hline => ?_) ?_
    · exact Lexeme.spells_directive hatStart hline (List.all_eq_true.mp hword)
        (by rwa [String.ofList_toList]) htail
    · rintro rfl
      cases hstarts
  obtain ⟨span, hshows⟩ := hfinds.shows
  refine ⟨span, hshows.scans .nil, hfinds.rest, ?_⟩
  rw [hfinds.line, hstarts, Bool.or_true]

theorem scans_endOfLine (hline : cursor.mode.isDirective = true) (hrest : cursor.rest = '\n' :: tail) :
    ∃ span, cursor.Scans [⟨.endOfLine, span⟩] cursor.next.cursor ∧
      cursor.next.cursor.AtLine tail := by
  obtain ⟨span, hshows, hafter⟩ := endOfLine_of_rest hline hrest
  exact ⟨span, hshows.scans .nil, hafter⟩

theorem crosses_rawLine {value : String} (h : IsRestOfLine value)
    (hrest : cursor.rest = ' ' :: (value.toList ++ '\n' :: tail)) :
    ∃ span, cursor.Crosses [⟨.restOfLine value, span⟩] cursor.rawLine.cursor ('\n' :: tail) := by
  obtain ⟨htext, hbehind, hline⟩ := rawLine_of_rest h hrest
  refine ⟨cursor.rawLine.span, ?_, hbehind, hline⟩
  rw [← htext]
  exact .text .nil

end Cursor

/-! ## Statements that are the same but for what a source does not show -/

/-- A statement is the same as another one but for what a source does not show. -/
structure Statement.Resembles (statement again : Statement) : Prop where
  erased : again.erased = statement.erased
  height : again.height = statement.writtenHeight

/-- The same for lists of statements. -/
structure Statement.ResemblesList (statements again : List Statement) : Prop where
  erased : Statement.erasedList again = Statement.erasedList statements
  height : Statement.heightList again = Statement.writtenHeightList statements

/-- The same for bodies. -/
structure Body.Resembles (body again : Body) : Prop where
  erased : again.erased = body.erased
  height : again.height = body.writtenHeight

/-- The same for conditions. -/
structure Condition.Resembles (condition again : Condition) : Prop where
  erased : again.erased = condition.erased
  height : again.height = condition.writtenHeight

/-- The same for what follows the first body of a conditional directive block. -/
structure Branch.ResemblesClauses (branches : List Branch) (last : Option Body)
    (branches' : List Branch) (last' : Option Body) : Prop where
  branches : Branch.erasedList branches' = Branch.erasedList branches ∧
    Branch.heightList branches' = Branch.writtenHeightList branches
  last : Body.erasedOption last' = Body.erasedOption last ∧
    Body.heightOption last' = Body.writtenHeightOption last

theorem Statement.ResemblesList.body {statements again : List Statement} {span span' : Span}
    (h : Statement.ResemblesList statements again) :
    (Body.mk statements span).Resembles (Body.mk again span') where
  erased := by rw [Body.erased, Body.erased, h.erased]
  height := h.height

namespace Grammar

/-- What may stand one level deeper than a statement with some room for nesting. -/
def deeper (options : Options) : Nat → Option Deeper
  | 0 => none
  | room + 1 => some ⟨expression true room, statement options room⟩

theorem statement_of_isStatement {ts : List Token} {x : Statement}
    (h : IsStatement options inBlock (expression false room) (deeper options room) ts x) :
    statement options room inBlock ts x := by
  cases room <;> exact h

end Grammar

/-- Wherever there is room for it, a statement is read again from its lines. -/
def Statement.Rereadable (options : Options) (inBlock : Bool) (statement : Statement) : Prop :=
  ∀ {room : Nat} {pad tail : List Char} {cursor : Cursor}, statement.writtenHeight ≤ room →
    (∀ character ∈ pad, character = ' ') →
    cursor.AtLine (written pad statement.lines ++ tail) →
    cursor.RereadsLines
      (IsStatement options inBlock (expression false room) (deeper options room)) tail
      statement.Resembles

/-- The same for the statements of a body. -/
def Body.Rereadable (options : Options) (inBlock : Bool) (body : Body) : Prop :=
  ∀ statement ∈ body.statements, statement.Rereadable options inBlock

/-! ## Lists of statements -/

theorem Statement.rereads_many {statements : List Statement}
    (h : ∀ statement ∈ statements, statement.Rereadable options inBlock)
    (hroom : Statement.writtenHeightList statements ≤ room)
    (hpad : ∀ character ∈ pad, character = ' ')
    (hline : cursor.AtLine (written pad (Statement.linesOf statements) ++ tail)) :
    cursor.RereadsLines (Many (Grammar.statement options room inBlock)) tail
      (Statement.ResemblesList statements) := by
  induction statements generalizing cursor with
  | nil => exact ⟨[], cursor, [], .nil, hline, .nil, rfl, rfl⟩
  | cons first rest ih =>
      rw [List.forall_mem_cons] at h
      have hparts := Nat.max_le.mp hroom
      rw [Statement.linesOf, written_append, List.append_assoc] at hline
      -- The next statement begins on a line of its own, where the first one has ended.
      obtain ⟨ts, middle, again, hscan, hmiddle, hfirst, hlike⟩ := h.1 hparts.1 hpad hline
      obtain ⟨ts', after, others, hscan', hafter, hothers, hlikes⟩ := ih h.2 hparts.2 hmiddle
      refine ⟨_, _, _, hscan.append hscan', hafter, .cons (statement_of_isStatement hfirst) hothers,
        ?_, ?_⟩
      · rw [Statement.erasedList, Statement.erasedList, hlike.erased, hlikes.erased]
      · rw [Statement.heightList, Statement.writtenHeightList, hlike.height, hlikes.height]

/-- A block is read again from its opening brace through its closing one. -/
theorem Body.Rereadable.rereads_block {body : Body} (h : body.Rereadable options inBlock)
    (hroom : body.writtenHeight ≤ room) (hpad : ∀ character ∈ pad, character = ' ')
    (hline : cursor.mode.isDirective = false)
    (hrest : cursor.rest =
      ' ' :: '\x7b' :: '\n' :: (written (deeperPad pad) body.lines ++ (pad ++ '\x7d' :: tail))) :
    cursor.Rereads (Block (Grammar.statement options room inBlock)) tail body.Resembles := by
  obtain ⟨statements, span⟩ := body
  obtain ⟨opened, hopened⟩ := Faces.symbol .openBrace (faces_of_space hrest) (by simp)
  have hbody := atLine_of_newline (hopened.line.trans hline) hopened.rest
  obtain ⟨ts, after, again, hscan, hafter, hmany, hlike⟩ :=
    Statement.rereads_many h hroom (eq_space_of_mem_deeperPad hpad) hbody
  obtain ⟨close, hclose⟩ := Faces.symbol .closeBrace (hafter.indent hpad).toFaces (by simp)
  refine ⟨_, _, _, ⟨(hopened.scans.append hscan).append hclose.scans, hclose.rest, ?_⟩,
    .block hmany, hlike.body⟩
  rw [hclose.line, hafter.line, hline]

/-! ## Declarations and assignments -/

/-- The sign of an assignment and its value are read again up to the end of the line. -/
theorem Expression.Rereadable.rereads_value {value : Expression} (h : value.Rereadable false)
    (sign : Symbol) (hroom : value.writtenHeight ≤ room)
    (hrest : cursor.rest =
      ' ' :: (sign.text.toList ++ ' ' :: (value.source.toList ++ '\n' :: tail))) :
    ∃ place ts after again, cursor.Crosses (⟨.symbol sign, place⟩ :: ts) after ('\n' :: tail) ∧
      expression false room ts again ∧ value.Resembles value.writtenHeight again := by
  obtain ⟨place, hplace⟩ := Faces.symbol sign (faces_of_space hrest) (by simp)
  obtain ⟨ts, after, again, hvalue, hlanguage, hlike⟩ := h.operand hroom
    (faces_of_space hplace.rest) (stops_cons _ (by decide) (by decide))
  exact ⟨place, ts, after, again, hplace.append hvalue, expression_of_operand hlanguage, hlike⟩

namespace Statement

theorem rereadable_constant {name : Identifier} {value : Expression} {span : Span}
    (hname : Quotable name.name) (hvalue : value.Rereadable false) :
    (Statement.constant name none value span).Rereadable options inBlock := by
  intro room pad tail cursor hroom hpad hline
  have htext : written pad (lines (.constant name none value span)) ++ tail =
      pad ++ ("const".toList ++ ' ' :: (name.text.toList ++ ' ' :: '=' :: ' ' ::
        (value.source.toList ++ '\n' :: tail))) := by
    simp [lines]
  rw [htext] at hline
  obtain ⟨start, hstart⟩ := Faces.keyword .constant (hline.indent hpad).toFaces
  obtain ⟨ts, after, again, hlabel, hlanguage, hlike⟩ :=
    Faces.name (faces_of_space hstart.rest) hname (by simp [isWordPart])
  obtain ⟨sign, ts', after', again', hsecond, hlanguage', hlike'⟩ :=
    hvalue.rereads_value .assign (Nat.max_le.mp hroom).2 hlabel.rest
  refine Rereads.lines ⟨_, _, _, (hstart.append hlabel).append hsecond,
    .constant hlanguage hlanguage', ?_, ?_⟩ hline.line
  · simp only [erased, Option.map, hlike, hlike'.erased]
  · simp only [height, writtenHeight, Option.elim, hlike'.height]

theorem rereadable_typedConstant {name : Identifier} {type value : Expression} {span : Span}
    (hname : Quotable name.name) (htype : type.Rereadable false) (hvalue : value.Rereadable false) :
    (Statement.constant name (some type) value span).Rereadable options inBlock := by
  intro room pad tail cursor hroom hpad hline
  have htext : written pad (lines (.constant name (some type) value span)) ++ tail =
      pad ++ ("const".toList ++ ' ' :: (name.text.toList ++ ':' :: ' ' :: (type.source.toList ++
        ' ' :: '=' :: ' ' :: (value.source.toList ++ '\n' :: tail)))) := by
    simp [lines]
  rw [htext] at hline
  have hparts := Nat.max_le.mp hroom
  obtain ⟨start, hstart⟩ := Faces.keyword .constant (hline.indent hpad).toFaces
  obtain ⟨ts, after, again, hlabel, hlanguage, hlike⟩ :=
    Faces.name (faces_of_space hstart.rest) hname (by simp [isWordPart])
  obtain ⟨colon, hcolon⟩ := Faces.symbol .colon (faces_of_rest hlabel.rest) (by simp)
  obtain ⟨ts', after', again', hfirst, hlanguage', hlike'⟩ := htype.operand
    hparts.1 (faces_of_space hcolon.rest) (stops_cons _ (by decide) (by decide))
  obtain ⟨sign, ts'', after'', again'', hsecond, hlanguage'', hlike''⟩ :=
    hvalue.rereads_value .assign hparts.2 hfirst.rest
  have hall := ((hstart.append hlabel).append (hcolon.append hfirst)).append hsecond
  refine Rereads.lines ⟨_, _, _, hall,
    .typedConstant hlanguage (expression_of_operand hlanguage') hlanguage'', ?_, ?_⟩ hline.line
  · simp only [erased, Option.map, hlike, hlike'.erased, hlike''.erased]
  · simp only [height, writtenHeight, Option.elim, hlike'.height, hlike''.height]

theorem rereadable_assign {target : Identifier} {value : Expression} {span : Span}
    (hname : Quotable target.name) (hvalue : value.Rereadable false) :
    (Statement.assign target value span).Rereadable options inBlock := by
  intro room pad tail cursor hroom hpad hline
  have htext : written pad (lines (.assign target value span)) ++ tail =
      pad ++ (target.text.toList ++ ' ' :: '=' :: ' ' :: (value.source.toList ++ '\n' :: tail)) := by
    simp [lines]
  rw [htext] at hline
  obtain ⟨ts, after, again, hlabel, hlanguage, hlike⟩ :=
    Faces.name (hline.indent hpad).toFaces hname (by simp [isWordPart])
  obtain ⟨sign, ts', after', again', hsecond, hlanguage', hlike'⟩ :=
    hvalue.rereads_value .assign hroom hlabel.rest
  refine Rereads.lines ⟨_, _, _, hlabel.append hsecond, .assign hlanguage hlanguage', ?_,
    hlike'.height⟩ hline.line
  simp only [erased, hlike, hlike'.erased]

theorem rereadable_append {target : Identifier} {value : Expression} {span : Span}
    (hname : Quotable target.name) (hvalue : value.Rereadable false) :
    (Statement.append target value span).Rereadable options inBlock := by
  intro room pad tail cursor hroom hpad hline
  have htext : written pad (lines (.append target value span)) ++ tail =
      pad ++ (target.text.toList ++ ' ' :: '+' :: '=' :: ' ' ::
        (value.source.toList ++ '\n' :: tail)) := by
    simp [lines]
  rw [htext] at hline
  obtain ⟨ts, after, again, hlabel, hlanguage, hlike⟩ :=
    Faces.name (hline.indent hpad).toFaces hname (by simp [isWordPart])
  obtain ⟨sign, ts', after', again', hsecond, hlanguage', hlike'⟩ :=
    hvalue.rereads_value .append hroom hlabel.rest
  refine Rereads.lines ⟨_, _, _, hlabel.append hsecond, .append hlanguage hlanguage', ?_,
    hlike'.height⟩ hline.line
  simp only [erased, hlike, hlike'.erased]

theorem rereadable_expand {target : Identifier} {text : String} {span : Span}
    (hblock : inBlock = true) (hallowed : options.expandingAssign = true)
    (hname : Quotable target.name) (hvalue : IsRestOfLine text) :
    (Statement.expand target text span).Rereadable options inBlock := by
  intro room pad tail cursor hroom hpad hline
  have htext : written pad (lines (.expand target text span)) ++ tail =
      pad ++ (target.text.toList ++ ' ' :: '+' :: ' ' :: (text.toList ++ '\n' :: tail)) := by
    simp [lines]
  rw [htext] at hline
  obtain ⟨ts, after, again, hlabel, hlanguage, hlike⟩ :=
    Faces.name (hline.indent hpad).toFaces hname (by simp [isWordPart])
  obtain ⟨sign, hsign⟩ := Faces.symbol .plus (faces_of_space hlabel.rest) (by simp)
  obtain ⟨place, hraw⟩ := crosses_rawLine hvalue hsign.rest
  refine Rereads.lines ⟨_, _, _, hlabel.append (hsign.append hraw),
    .expand hblock hallowed hlanguage, ?_, rfl⟩ hline.line
  simp only [erased, hlike]

theorem rereadable_group {name : Identifier} {body : Body} {span : Span}
    (hname : Quotable name.name) (hbody : body.Rereadable options inBlock) :
    (Statement.group name body span).Rereadable options inBlock := by
  intro room pad tail cursor hroom hpad hline
  obtain ⟨below, rfl⟩ := Nat.exists_eq_add_one.mpr (Nat.zero_lt_of_lt hroom)
  have htext : written pad (lines (.group name body span)) ++ tail =
      pad ++ ("group".toList ++ ' ' :: (name.text.toList ++ ' ' :: '\x7b' :: '\n' ::
        (written (deeperPad pad) body.lines ++ (pad ++ '\x7d' :: '\n' :: tail)))) := by
    simp [lines]
  rw [htext] at hline
  obtain ⟨start, hstart⟩ := Faces.keyword .group (hline.indent hpad).toFaces
  obtain ⟨ts, after, again, hlabel, hlanguage, hlike⟩ :=
    Faces.name (faces_of_space hstart.rest) hname (by simp [isWordPart])
  have hfirst := hstart.append hlabel
  obtain ⟨ts', after', again', hblock, hlanguage', hlike'⟩ := hbody.rereads_block
    (Nat.le_of_succ_le_succ hroom) hpad (hfirst.line.trans hline.line) hlabel.rest
  refine Rereads.lines ⟨_, _, _, hfirst.append hblock,
    .group rfl hlanguage hlanguage', ?_, ?_⟩ hline.line
  · simp only [erased, hlike, hlike'.erased]
  · simp only [height, writtenHeight, hlike'.height]

/-! ## Choices -/

/-- The condition of a choice and its first block are read again from the word `if` through the
closing brace. -/
theorem rereads_choiceHead {condition : Expression} {body : Body}
    (hcondition : condition.Rereadable false) (hbody : body.Rereadable options inBlock)
    (hroom : condition.writtenHeight ≤ room) {below : Nat} (hbelow : body.writtenHeight ≤ below)
    (hpad : ∀ character ∈ pad, character = ' ')
    (hline : cursor.AtLine (pad ++ ("if".toList ++ ' ' :: '(' :: (condition.source.toList ++
      ')' :: ' ' :: '\x7b' :: '\n' :: (written (deeperPad pad) body.lines ++
        (pad ++ '\x7d' :: tail)))))) :
    ∃ start opened ts close ts' after e block,
      cursor.Crosses (⟨.keyword .ifWord, start⟩ :: ⟨.symbol .openParen, opened⟩ :: ts ++
        ⟨.symbol .closeParen, close⟩ :: ts') after tail ∧
      expression false room ts e ∧ condition.Resembles condition.writtenHeight e ∧
      Block (Grammar.statement options below inBlock) ts' block ∧ body.Resembles block := by
  obtain ⟨start, hstart⟩ := Faces.keyword .ifWord (hline.indent hpad).toFaces
  obtain ⟨opened, hopened⟩ := Faces.symbol .openParen (faces_of_space hstart.rest) (by simp)
  obtain ⟨ts, after, e, hfirst, hlanguage, hlike⟩ := hcondition.operand hroom
    (faces_of_rest hopened.rest) (stops_cons _ (by decide) (by decide))
  obtain ⟨close, hclose⟩ := Faces.symbol .closeParen (faces_of_rest hfirst.rest) (by simp)
  have hhead := hstart.append (hopened.append hfirst)
  -- The block begins on the line of the word, which is not that of a directive.
  obtain ⟨ts', after', block, hblock, hlanguage', hlike'⟩ := hbody.rereads_block hbelow hpad
    ((hhead.append hclose).line.trans hline.line) hclose.rest
  exact ⟨start, opened, ts, close, ts', after', e, block, hhead.append (hclose.append hblock),
    expression_of_operand hlanguage, hlike, hlanguage', hlike'⟩

theorem rereadable_choice {condition : Expression} {body : Body} {span : Span}
    (hcondition : condition.Rereadable false) (hbody : body.Rereadable options inBlock) :
    (Statement.choice condition body none span).Rereadable options inBlock := by
  intro room pad tail cursor hroom hpad hline
  have hparts := Nat.max_le.mp hroom
  obtain ⟨below, rfl⟩ := Nat.exists_eq_add_one.mpr (Nat.zero_lt_of_lt hparts.2)
  have hbodies := Nat.max_le.mp (Nat.le_of_succ_le_succ hparts.2)
  have htext : written pad (lines (.choice condition body none span)) ++ tail =
      pad ++ ("if".toList ++ ' ' :: '(' :: (condition.source.toList ++ ')' :: ' ' :: '\x7b' ::
        '\n' :: (written (deeperPad pad) body.lines ++ (pad ++ '\x7d' :: '\n' :: tail)))) := by
    simp [lines, Body.elseLines]
  rw [htext] at hline
  obtain ⟨_, _, _, _, _, after, e, block, hhead, hlanguage, hlike, hlanguage', hlike'⟩ :=
    rereads_choiceHead hcondition hbody hparts.1 hbodies.1 hpad hline
  refine Rereads.lines ⟨_, _, _, hhead, .choice rfl hlanguage hlanguage', ?_, ?_⟩ hline.line
  · simp only [erased, Body.erasedOption, hlike.erased, hlike'.erased]
  · simp only [height, writtenHeight, Body.heightOption, Body.writtenHeightOption, hlike.height,
      hlike'.height]

theorem rereadable_choiceElse {condition : Expression} {body other : Body} {span : Span}
    (hcondition : condition.Rereadable false) (hbody : body.Rereadable options inBlock)
    (hother : other.Rereadable options inBlock) :
    (Statement.choice condition body (some other) span).Rereadable options inBlock := by
  intro room pad tail cursor hroom hpad hline
  have hparts := Nat.max_le.mp hroom
  obtain ⟨below, rfl⟩ := Nat.exists_eq_add_one.mpr (Nat.zero_lt_of_lt hparts.2)
  have hbodies := Nat.max_le.mp (Nat.le_of_succ_le_succ hparts.2)
  have htext : written pad (lines (.choice condition body (some other) span)) ++ tail =
      pad ++ ("if".toList ++ ' ' :: '(' :: (condition.source.toList ++ ')' :: ' ' :: '\x7b' ::
        '\n' :: (written (deeperPad pad) body.lines ++ (pad ++ '\x7d' :: ' ' ::
          ("else".toList ++ ' ' :: '\x7b' :: '\n' :: (written (deeperPad pad) other.lines ++
            (pad ++ '\x7d' :: '\n' :: tail))))))) := by
    simp [lines, Body.elseLines]
  rw [htext] at hline
  obtain ⟨_, _, _, _, _, after, e, block, hhead, hlanguage, hlike, hlanguage', hlike'⟩ :=
    rereads_choiceHead hcondition hbody hparts.1 hbodies.1 hpad hline
  obtain ⟨word, hword⟩ := Faces.keyword .elseWord (faces_of_space hhead.rest)
  obtain ⟨ts, after', block', hblock, hlanguage'', hlike''⟩ := hother.rereads_block
    hbodies.2 hpad ((hhead.append hword).line.trans hline.line) hword.rest
  refine Rereads.lines ⟨_, _, _, hhead.append (hword.append hblock),
    .choiceElse rfl hlanguage hlanguage' hlanguage'', ?_, ?_⟩ hline.line
  · simp only [erased, Body.erasedOption, hlike.erased, hlike'.erased, hlike''.erased]
  · simp only [height, writtenHeight, Body.heightOption, Body.writtenHeightOption, hlike.height,
      hlike'.height, hlike''.height]

/-! ## Directive lines -/

theorem rereadable_message {severity : Severity} {text : String} {span : Span}
    (h : IsRestOfLine text) :
    (Statement.message severity text span).Rereadable options inBlock := by
  intro room pad tail cursor hroom hpad hline
  have htext : written pad (lines (.message severity text span)) ++ tail =
      pad ++ '%' :: (severity.text.toList ++ ' ' :: (text.toList ++ '\n' :: tail)) := by
    simp [lines]
  rw [htext] at hline
  have hkind : TokenKind.ofDirective? severity.text = some (.message severity) := by
    cases severity <;> decide
  obtain ⟨start, hstart, hrest, hdirective⟩ := (hline.indent hpad).directive hkind
    (by cases severity <;> decide) rfl (by simp [isWordPart])
  obtain ⟨place, hraw⟩ := crosses_rawLine h hrest
  obtain ⟨line, hend, hafter⟩ := scans_endOfLine (hraw.line.trans hdirective) hraw.rest
  exact ⟨_, _, _, hstart.append (hraw.scans.append hend), hafter, .message, rfl, rfl⟩

theorem rereadable_passage {text : String} {span : Span} (h : IsPassage text) :
    (Statement.passage text span).Rereadable options inBlock := by
  intro room pad tail cursor hroom hpad hline
  have htext : written pad (lines (.passage text span)) ++ tail =
      pad ++ ('%' :: text.toList ++ '\n' :: tail) := by
    simp [lines]
  rw [htext] at hline
  obtain ⟨place, hplace⟩ := ((hline.indent hpad).finds (fun _ hatStart hdirective =>
    Lexeme.spells_passage h hatStart hdirective) nofun).crosses rfl
  exact Rereads.lines ⟨_, _, _, hplace, .passage, rfl, rfl⟩ hline.line

end Statement

end ConfLang
