import ConfLang.Proofs.Grammar.Language
import ConfLang.Proofs.Nesting.Height
import ConfLang.Proofs.Writing.Scan
import ConfLang.Proofs.Writing.Tree

/-!
# Expressions are read again

Wherever the source of an expression stands in front of a text that does not go on with it, the
tokens of the source are an operand of the grammar, and the tree they stand for is the
expression but for what a source does not show.  The source of a binary operation is an operand
because of its parentheses.  What is called or accessed must not be a negation, and that is
where the source has the other parentheses.

The induction is on the expression.  Each construct has a lemma of its own that takes the
induction hypotheses as `Rereadable`.
-/

namespace ConfLang

open Grammar Text

variable {α β : Type} {inCondition : Bool} {room : Nat} {tail : List Char}

/-! ## Tokens one after the other -/

namespace Cursor

variable {cursor middle after : Cursor} {ts ts' : List Token} {rest rest' : List Char}

/-- Some tokens are scanned on one line, and a text follows them. -/
structure Crosses (cursor : Cursor) (ts : List Token) (after : Cursor) (rest : List Char) :
    Prop where
  scans : cursor.Scans ts after
  rest : after.rest = rest
  line : after.mode.isDirective = cursor.mode.isDirective

theorem Crosses.append (h : cursor.Crosses ts middle rest) (h' : middle.Crosses ts' after rest') :
    cursor.Crosses (ts ++ ts') after rest' :=
  ⟨h.scans.append h'.scans, h'.rest, h'.line.trans h.line⟩

theorem Finds.crosses {kind : TokenKind} (h : cursor.Finds kind rest)
    (hstarts : kind.startsDirectiveLine = false) :
    ∃ span, cursor.Crosses [⟨kind, span⟩] cursor.next.cursor rest := by
  obtain ⟨span, hshows⟩ := h.shows
  refine ⟨span, hshows.scans .nil, h.rest, ?_⟩
  rw [h.line, hstarts, Bool.or_false]

theorem Faces.symbol (sign : Symbol) (h : cursor.Faces (sign.text.toList ++ tail))
    (htail : sign = .assign ∨ sign = .plus → tail.head? ≠ some '=') :
    ∃ span, cursor.Crosses [⟨.symbol sign, span⟩] cursor.next.cursor tail :=
  (h.finds (fun _ => Lexeme.spells_symbol sign htail) nofun).crosses rfl

/-- From a cursor, a tree of a language is scanned that is like another one, and a text follows
it. -/
def Rereads (cursor : Cursor) (language : Language α) (tail : List Char) (like : α → Prop) :
    Prop :=
  ∃ ts after a, cursor.Crosses ts after tail ∧ language ts a ∧ like a

theorem Rereads.imp {language : Language α} {language' : Language β} {like : α → Prop}
    {like' : β → Prop} (h : cursor.Rereads language tail like) (f : α → β)
    (himp : ∀ ts a, language ts a → like a → language' ts (f a) ∧ like' (f a)) :
    cursor.Rereads language' tail like' := by
  obtain ⟨ts, after, a, hcrosses, ha, hlike⟩ := h
  obtain ⟨hlanguage, hlike'⟩ := himp ts a ha hlike
  exact ⟨ts, after, f a, hcrosses, hlanguage, hlike'⟩

theorem Faces.name {name : Identifier} (h : cursor.Faces (name.text.toList ++ tail))
    (hname : Quotable name.name)
    (htail : ∀ character ∈ tail.head?, isWordPart character = false) :
    cursor.Rereads Name tail (fun again => again.erased = name.erased) := by
  obtain ⟨span, hcrosses⟩ :=
    (h.finds (fun _ => Lexeme.spells_name hname htail) nofun).crosses rfl
  exact ⟨_, _, _, hcrosses, .name, rfl⟩

end Cursor

open Cursor

/-! ## Lists with commas -/

theorem rereads_items {item : Language α} {source : β → String} {like : β → α → Prop} {xs : List β}
    (hitem : ∀ x ∈ xs, ∀ {cursor : Cursor} {tail : List Char},
      cursor.Faces ((source x).toList ++ tail) → Stops tail → cursor.Rereads item tail (like x))
    {cursor : Cursor} (hrest : xs = [] → cursor.rest = tail)
    (h : cursor.Faces ((", ".intercalate (xs.map source)).toList ++ tail)) (htail : Stops tail) :
    cursor.Rereads (Items item) tail (List.Forall₂ like xs) := by
  induction xs generalizing cursor with
  | nil => exact ⟨[], cursor, [], ⟨.nil, hrest rfl, rfl⟩, .nil, .nil⟩
  | cons x xs ih =>
      rw [List.forall_mem_cons] at hitem
      cases xs with
      | nil =>
          have hone := hitem.1 (by simpa using h) htail
          exact hone.imp (fun a => [a]) fun ts a ha hlike => ⟨.last ha, .cons hlike .nil⟩
      | cons y ys =>
          -- What follows the first one begins with a comma, which cannot belong to it.
          have htext : (", ".intercalate ((x :: y :: ys).map source)).toList ++ tail =
              (source x).toList ++ (Symbol.comma.text.toList ++
                ' ' :: ((", ".intercalate ((y :: ys).map source)).toList ++ tail)) := by
            simp [Symbol.text]
          rw [htext] at h
          obtain ⟨ts, after, a, hfirst, ha, hlike⟩ := hitem.1 h (stops_cons _ (by decide) (by decide))
          obtain ⟨comma, hcomma⟩ := (faces_of_rest hfirst.rest).symbol .comma (by simp)
          obtain ⟨ts', after', as, hothers, has, hlikes⟩ :=
            ih hitem.2 nofun (faces_of_space hcomma.rest)
          exact ⟨_, _, _, hfirst.append (hcomma.append hothers), .cons ha has, .cons hlike hlikes⟩

/-! ## Expressions that are the same but for what a source does not show -/

/-- An expression is the same as another one but for what a source does not show, and has a
given height. -/
structure Expression.Resembles (e : Expression) (height : Nat) (again : Expression) : Prop where
  erased : again.erased = e.erased
  height : again.height = height

namespace Expression

@[simp] theorem erased_ungrouped (e : Expression) : e.ungrouped.erased = e.erased := by
  match e with
  | .group inner _ => exact erased_ungrouped inner
  | .integer _ _ | .float _ _ | .string _ _ | .array _ _ | .name _ | .negation _ _
  | .binary _ _ _ _ | .call _ _ _ | .member _ _ _ | .defined _ _ => rfl

@[simp] theorem writtenHeight_ungrouped (e : Expression) :
    e.ungrouped.writtenHeight = e.writtenHeight := by
  match e with
  | .group inner _ => exact writtenHeight_ungrouped inner
  | .integer _ _ | .float _ _ | .string _ _ | .array _ _ | .name _ | .negation _ _
  | .binary _ _ _ _ | .call _ _ _ | .member _ _ _ | .defined _ _ => rfl

/-- Of the expressions only names are the same as a name. -/
theorem ungrouped_of_erased_name {e : Expression} {name : Identifier}
    (h : e.erased = .name name) : ∃ other, e.ungrouped = .name other ∧ other.name = name.name := by
  match e with
  | .group inner _ => exact ungrouped_of_erased_name (e := inner) h
  | .name other =>
      obtain rfl : other.erased = name := Expression.name.inj h
      exact ⟨other, rfl, rfl⟩

/-- Whether an expression is a negation, whatever parentheses stand around it. -/
def isNegation (e : Expression) : Bool :=
  match e.ungrouped with
  | .negation _ _ => true
  | _ => false

end Expression

namespace Grammar

/-- What may stand inside of an operand with some room for nesting. -/
def inside (inCondition : Bool) : Nat → Option (Language Expression)
  | 0 => none
  | room + 1 => some (expression inCondition room)

theorem operand_of_suffixed {ts : List Token} {e : Expression}
    (h : Suffixed inCondition (inside inCondition room) ts e) : operand inCondition room ts e := by
  cases room <;> exact .suffixed h

theorem expression_of_operand {ts : List Token} {e : Expression}
    (h : operand inCondition room ts e) : expression inCondition room ts e :=
  .operand h

/-- A single name is a name. -/
theorem Suffixed.eq_name {inner : Option (Language Expression)} {text : String} {quoted : Bool}
    {span : Span} {e : Expression}
    (h : Suffixed inCondition inner [⟨.name text quoted, span⟩] e) :
    e = .name ⟨text, quoted, span⟩ := by
  generalize hts : [(⟨.name text quoted, span⟩ : Token)] = ts at h
  cases h with
  | primary h =>
      cases h with
      | name h =>
          cases h
          cases hts
          rfl
      | integer => cases hts
      | float => cases hts
      | string => cases hts
      | defined => simp at hts
      | group => simp at hts
      | array => simp at hts
  | @member first rest object member dot h hmember =>
      cases first with
      | nil => simp at hts
      | cons => simp at hts
  | @call expression first rest callee arguments opened close =>
      cases first with
      | nil => simp at hts
      | cons => simp at hts

end Grammar

/-! ## Constructs -/

/-- Wherever there is room for it, an expression is read again from its source, and unless it is
a negation, it can be called or accessed. -/
structure Expression.Rereadable (inCondition : Bool) (e : Expression) : Prop where
  operand : ∀ {room : Nat} {cursor : Cursor} {tail : List Char}, e.writtenHeight ≤ room →
    cursor.Faces (e.source.toList ++ tail) → Stops tail →
    cursor.Rereads (Grammar.operand inCondition room) tail (e.Resembles e.writtenHeight)
  suffixed : e.isNegation = false → ∀ {room : Nat} {cursor : Cursor} {tail : List Char},
    e.writtenHeight ≤ room → cursor.Faces (e.source.toList ++ tail) → Stops tail →
    cursor.Rereads (Suffixed inCondition (inside inCondition room)) tail
      (e.Resembles e.writtenHeight)

namespace Expression

variable {e : Expression} {cursor : Cursor}

theorem rereadable_of_suffixed
    (h : ∀ {room : Nat} {cursor : Cursor} {tail : List Char}, e.writtenHeight ≤ room →
      cursor.Faces (e.source.toList ++ tail) → Stops tail →
      cursor.Rereads (Suffixed inCondition (inside inCondition room)) tail
        (e.Resembles e.writtenHeight)) : e.Rereadable inCondition where
  operand hroom hfaces htail :=
    (h hroom hfaces htail).imp id fun _ _ ha hlike => ⟨operand_of_suffixed ha, hlike⟩
  suffixed _ := h

theorem rereadable_of_primary
    (h : ∀ {room : Nat} {cursor : Cursor} {tail : List Char}, e.writtenHeight ≤ room →
      cursor.Faces (e.source.toList ++ tail) → Stops tail →
      cursor.Rereads (Primary inCondition (inside inCondition room)) tail
        (e.Resembles e.writtenHeight)) : e.Rereadable inCondition :=
  rereadable_of_suffixed fun hroom hfaces htail =>
    (h hroom hfaces htail).imp id fun _ _ ha hlike => ⟨.primary ha, hlike⟩

/-- In an operand with room for another layer, an expression is read again in parentheses. -/
theorem rereads_parentheses {text : List Char} {like : Expression → Prop}
    (h : ∀ {cursor : Cursor} {tail : List Char}, cursor.Faces (text ++ tail) → Stops tail →
      cursor.Rereads (expression inCondition room) tail like)
    (hfaces : cursor.Faces ('(' :: (text ++ ')' :: tail))) :
    cursor.Rereads (Primary inCondition (inside inCondition (room + 1))) tail
      (fun again => ∃ inner span, again = .group inner span ∧ like inner) := by
  obtain ⟨opened, hopened⟩ := Faces.symbol .openParen hfaces (by simp)
  obtain ⟨ts, after, inner, hinner, hlanguage, hlike⟩ :=
    h (faces_of_rest hopened.rest) (stops_cons _ (by decide) (by decide))
  obtain ⟨close, hclose⟩ := Faces.symbol .closeParen (faces_of_rest hinner.rest) (by simp)
  exact ⟨_, _, _, (hopened.append hinner).append hclose, .group rfl hlanguage, inner, _, rfl, hlike⟩

/-! ### Literals and names -/

theorem rereadable_integer {value : Int64} {span : Span} (h : 0 ≤ value) :
    (Expression.integer value span).Rereadable inCondition := by
  refine rereadable_of_primary fun _ hfaces htail => ?_
  obtain ⟨hsome, hdigits, hrange, hvalue⟩ := toString_toInt h
  rw [source] at hfaces
  obtain ⟨place, hcrosses⟩ := (hfaces.finds
    (fun _ => Lexeme.spells_integer hsome hdigits hrange htail) nofun).crosses rfl
  rw [hvalue] at hcrosses
  exact ⟨_, _, _, hcrosses, .integer, rfl, rfl⟩

theorem rereadable_float {value : Binary64} {span : Span} (hsign : value.isNegative = false)
    (hnumber : value.isNaN = false) (hfinite : value.isInfinite = false) :
    (Expression.float value span).Rereadable inCondition := by
  refine rereadable_of_primary fun _ hfaces htail => ?_
  obtain ⟨whole, fraction, htext, hwhole, hfraction, hdigits, hvalue⟩ :=
    Binary64.source_eq hsign hnumber hfinite
  rw [source, htext] at hfaces
  obtain ⟨place, hcrosses⟩ := (hfaces.finds
    (fun _ => Lexeme.spells_float hwhole hfraction hdigits htail) nofun).crosses rfl
  rw [hvalue] at hcrosses
  exact ⟨_, _, _, hcrosses, .float, rfl, rfl⟩

theorem rereadable_string {text : String} {span : Span} (h : Quotable text) :
    (Expression.string text span).Rereadable inCondition := by
  refine rereadable_of_primary fun _ hfaces _ => ?_
  obtain ⟨place, hcrosses⟩ :=
    (hfaces.finds (fun _ => Lexeme.spells_quoted .string h) nofun).crosses rfl
  exact ⟨_, _, _, hcrosses, .string, rfl, rfl⟩

theorem rereadable_name {name : Identifier} (h : Quotable name.name) :
    (Expression.name name).Rereadable inCondition := by
  refine rereadable_of_primary fun _ hfaces htail => ?_
  refine (Faces.name hfaces h htail.word).imp Expression.name fun ts again hname hlike => ?_
  exact ⟨.name hname, congrArg Expression.name hlike, rfl⟩

theorem rereadable_defined {name : Identifier} {span : Span} (hcondition : inCondition = true)
    (h : Quotable name.name) : (Expression.defined name span).Rereadable inCondition := by
  refine rereadable_of_primary fun {room cursor tail} _ hfaces htail => ?_
  have htext : (source (.defined name span)).toList ++ tail =
      "defined".toList ++ '(' :: (name.text.toList ++ ')' :: tail) := by
    simp [source]
  rw [htext] at hfaces
  obtain ⟨start, hstart⟩ := (hfaces.finds (fun _ =>
    Lexeme.spells_word (by decide) (by simp [isWordPart])) (by decide)).crosses (by decide)
  obtain ⟨opened, hopened⟩ := Faces.symbol .openParen (faces_of_rest hstart.rest) (by simp)
  obtain ⟨ts, after, again, hname, hlanguage, hlike⟩ :=
    Faces.name (faces_of_rest hopened.rest) h (by simp [isWordPart])
  obtain ⟨close, hclose⟩ := Faces.symbol .closeParen (faces_of_rest hname.rest) (by simp)
  refine ⟨_, _, _, (hstart.append (hopened.append hname)).append hclose,
    .defined hcondition hlanguage, ?_, rfl⟩
  simp only [erased, hlike]

/-! ### Operations -/

theorem Rereadable.group (h : e.Rereadable inCondition) {span : Span} :
    (Expression.group e span).Rereadable inCondition where
  operand hroom hfaces htail :=
    (h.operand hroom hfaces htail).imp id fun _ _ ha hlike => ⟨ha, hlike.erased, hlike.height⟩
  suffixed hnegation _ _ _ hroom hfaces htail :=
    (h.suffixed hnegation hroom hfaces htail).imp id
      fun _ _ ha hlike => ⟨ha, hlike.erased, hlike.height⟩

theorem Rereadable.negation (h : e.Rereadable inCondition) {span : Span} :
    (Expression.negation e span).Rereadable inCondition where
  operand {room cursor tail} hroom hfaces htail := by
    obtain ⟨below, rfl⟩ := Nat.exists_eq_add_one.mpr (Nat.zero_lt_of_lt hroom)
    have htext : (source (.negation e span)).toList ++ tail = '!' :: (e.source.toList ++ tail) := by
      simp [source]
    rw [htext] at hfaces
    obtain ⟨sign, hsign⟩ := Faces.symbol .bang hfaces (by simp)
    obtain ⟨ts, after, again, hoperand, hlanguage, hlike⟩ :=
      h.operand (Nat.le_of_succ_le_succ hroom) (faces_of_rest hsign.rest) htail
    refine ⟨_, _, _, hsign.append hoperand, .negation rfl hlanguage, ?_, ?_⟩
    · simp only [erased, hlike.erased]
    · simp only [height, writtenHeight, hlike.height]
  suffixed := nofun

theorem Rereadable.binary {operator : Operator} {left right : Expression} {span : Span}
    (hleft : left.Rereadable inCondition) (hright : right.Rereadable inCondition) :
    (Expression.binary operator left right span).Rereadable inCondition := by
  refine rereadable_of_primary fun {room cursor tail} hroom hfaces _ => ?_
  obtain ⟨below, rfl⟩ := Nat.exists_eq_add_one.mpr (Nat.zero_lt_of_lt hroom)
  have hparts := Nat.max_le.mp (Nat.le_of_succ_le_succ hroom)
  have htext : (source (.binary operator left right span)).toList ++ tail =
      '(' :: ((left.source.toList ++ ' ' :: (operator.symbol.text.toList ++
        ' ' :: right.source.toList)) ++ ')' :: tail) := by
    simp [source]
  rw [htext] at hfaces
  have hinner : ∀ {cursor : Cursor} {tail : List Char},
      cursor.Faces ((left.source.toList ++ ' ' :: (operator.symbol.text.toList ++
        ' ' :: right.source.toList)) ++ tail) → Stops tail →
      cursor.Rereads (expression inCondition below) tail
        ((Expression.binary operator left right span).Resembles
          (max left.writtenHeight right.writtenHeight)) := by
    intro cursor tail hfaces htail
    rw [List.append_assoc, List.cons_append, List.append_assoc, List.cons_append] at hfaces
    obtain ⟨ts, after, first, hfirst, hlanguage, hlike⟩ :=
      hleft.operand hparts.1 hfaces (stops_cons _ (by decide) (by decide))
    obtain ⟨sign, hsign⟩ := Faces.symbol operator.symbol (faces_of_space hfirst.rest)
      (by cases operator <;> simp [Operator.symbol])
    obtain ⟨ts', after', second, hsecond, hlanguage', hlike'⟩ :=
      hright.operand hparts.2 (faces_of_space hsign.rest) htail
    refine ⟨_, _, _, hfirst.append (hsign.append hsecond),
      .operation (Nat.zero_le _) (.operand hlanguage) (.operand hlanguage'), ?_, ?_⟩
    · simp only [erased, hlike.erased, hlike'.erased]
    · simp only [height, hlike.height, hlike'.height]
  refine (rereads_parentheses hinner hfaces).imp id fun ts again hlanguage hlike => ⟨hlanguage, ?_⟩
  obtain ⟨inner, place, rfl, hlike⟩ := hlike
  exact ⟨hlike.erased, congrArg (· + 1) hlike.height⟩

/-! ### What is called or accessed -/

/-- How an expression is written where it is called or accessed: a negation in parentheses, the
name `defined` in quotes, and anything else as it is. -/
theorem operandSource_cases (e : Expression) :
    (e.isNegation = true ∧ (∀ source, e.operandSource source = "(" ++ source ++ ")") ∧
        ∀ height, e.operandHeight height = height + 1) ∨
      e.isNegation = false ∧ (∀ height, e.operandHeight height = height) ∧
        ((∃ name, e.ungrouped = .name name ∧ name.name = "defined" ∧
            ∀ source, e.operandSource source = Quote.name.written "defined") ∨
          ((∀ name, e.ungrouped = .name name → name.name ≠ "defined") ∧
            ∀ source, e.operandSource source = source)) := by
  unfold isNegation operandSource operandHeight
  cases e.ungrouped with
  | negation operand span => simp
  | name name => by_cases h : name.name = "defined" <;> simp [h]
  | _ => simp

theorem Rereadable.rereads_negation (h : e.Rereadable inCondition) (hroom : e.writtenHeight ≤ room)
    (hfaces : cursor.Faces ('(' :: (e.source.toList ++ ')' :: tail))) :
    cursor.Rereads (Primary inCondition (inside inCondition (room + 1))) tail
      (fun again => (∀ name, again ≠ .name name) ∧ e.Resembles (e.writtenHeight + 1) again) := by
  have hinner : ∀ {cursor : Cursor} {tail : List Char}, cursor.Faces (e.source.toList ++ tail) →
      Stops tail → cursor.Rereads (expression inCondition room) tail (e.Resembles e.writtenHeight) :=
    fun hfaces htail => (h.operand hroom hfaces htail).imp id
      fun _ _ ha hlike => ⟨expression_of_operand ha, hlike⟩
  refine (rereads_parentheses hinner hfaces).imp id fun ts again hlanguage hlike => ⟨hlanguage, ?_⟩
  obtain ⟨inner, place, rfl, hlike⟩ := hlike
  exact ⟨nofun, hlike.erased, congrArg (· + 1) hlike.height⟩

/-- In quotes the name `defined` is a name like any other. -/
theorem rereads_quoted {name : Identifier} (hname : e.ungrouped = .name name)
    (hdefined : name.name = "defined")
    (hfaces : cursor.Faces ((Quote.name.written "defined").toList ++ tail)) :
    cursor.Rereads (fun ts again => Primary inCondition (inside inCondition room) ts again ∧
      ¬ asksDefined inCondition ts) tail (e.Resembles e.writtenHeight) := by
  have hquotable : Quotable "defined" := ⟨by decide, by decide⟩
  obtain ⟨span, hcrosses⟩ :=
    (hfaces.finds (fun _ => Lexeme.spells_quoted .name hquotable) nofun).crosses rfl
  refine ⟨_, _, _, hcrosses, ⟨.name .name, ?_⟩, ?_, ?_⟩
  · rintro ⟨-, _, hsame⟩
    cases hsame
  · rw [← e.erased_ungrouped, hname, erased, erased, Identifier.erased, Identifier.erased, hdefined]
  · rw [← e.writtenHeight_ungrouped, hname]
    rfl

/-- What is called or accessed is no negation, and does not ask whether a name is defined. -/
theorem Rereadable.rereads_operand (h : e.Rereadable inCondition)
    (hroom : e.operandHeight e.writtenHeight ≤ room)
    (hfaces : cursor.Faces ((e.operandSource e.source).toList ++ tail)) (htail : Stops tail) :
    cursor.Rereads (fun ts again => Suffixed inCondition (inside inCondition room) ts again ∧
      ¬ asksDefined inCondition ts) tail (e.Resembles (e.operandHeight e.writtenHeight)) := by
  rcases e.operandSource_cases with ⟨-, hsource, hheight⟩ |
    ⟨hnegation, hheight, ⟨name, hname, hdefined, hsource⟩ | ⟨hother, hsource⟩⟩
  · -- A negation has parentheses of its own here, and so it needs another layer.
    rw [hheight] at hroom ⊢
    obtain ⟨below, rfl⟩ := Nat.exists_eq_add_one.mpr (Nat.zero_lt_of_lt hroom)
    have htext : (e.operandSource e.source).toList ++ tail =
        '(' :: (e.source.toList ++ ')' :: tail) := by
      simp [hsource]
    rw [htext] at hfaces
    have hinner := h.rereads_negation (Nat.le_of_succ_le_succ hroom) hfaces
    refine hinner.imp id fun ts again hlanguage ⟨hnone, hlike⟩ => ⟨⟨.primary hlanguage, ?_⟩, hlike⟩
    rintro ⟨-, _, rfl⟩
    exact hnone _ (Suffixed.eq_name (.primary hlanguage))
  · rw [hheight]
    rw [hsource] at hfaces
    exact (rereads_quoted hname hdefined hfaces).imp id
      fun _ _ hlanguage hlike => ⟨⟨.primary hlanguage.1, hlanguage.2⟩, hlike⟩
  · -- Anything else is written as it is.
    rw [hheight] at hroom ⊢
    rw [hsource] at hfaces
    refine (h.suffixed hnegation hroom hfaces htail).imp id fun ts again hlanguage hlike => ?_
    refine ⟨⟨hlanguage, ?_⟩, hlike⟩
    -- Only the bare name could ask the question.
    rintro ⟨-, _, rfl⟩
    obtain rfl := Suffixed.eq_name hlanguage
    obtain ⟨name, hname, hdefined⟩ := ungrouped_of_erased_name hlike.erased.symm
    exact hother name hname hdefined

/-- A name does not begin with a digit. -/
theorem text_begins (name : Identifier) (tail : List Char) :
    ∀ digit ∈ (name.text.toList ++ tail).head?, digit.isDigit = false := by
  rw [Identifier.text, writtenName]
  split
  · rename_i hbare
    rw [isBareName, Bool.and_eq_true] at hbare
    revert hbare
    cases name.name.toList with
    | nil => simp [isWord]
    | cons first rest =>
        rintro ⟨hword, -⟩ digit hdigit
        rw [isWord, Bool.and_eq_true] at hword
        cases hdigit
        exact Lexeme.isDigit_of_isWordStart hword.1
  · simp [Quote.written, Quote.delimiter]

theorem Rereadable.member (h : e.Rereadable inCondition) {member : Identifier} {span : Span}
    (hmember : Quotable member.name) :
    (Expression.member e member span).Rereadable inCondition := by
  refine rereadable_of_suffixed fun {room cursor tail} hroom hfaces htail => ?_
  have htext : (source (.member e member span)).toList ++ tail =
      (e.operandSource e.source).toList ++ '.' :: (member.text.toList ++ tail) := by
    simp [source]
  rw [htext] at hfaces
  obtain ⟨ts, after, again, hobject, hlanguage, hlike⟩ :=
    h.rereads_operand hroom hfaces (stops_point (text_begins member tail))
  obtain ⟨dot, hdot⟩ := Faces.symbol .dot (faces_of_rest hobject.rest) (by simp)
  obtain ⟨ts', after', name, hname, hlanguage', hlike'⟩ :=
    Faces.name (faces_of_rest hdot.rest) hmember htail.word
  refine ⟨_, _, _, hobject.append (hdot.append hname), .member hlanguage.1 hlanguage', ?_, ?_⟩
  · simp only [erased, hlike.erased, hlike']
  · exact hlike.height

end Expression

/-! ### Lists -/

theorem Expression.sources_eq (elements : List Expression) :
    Expression.sources elements = elements.map Expression.source := by
  induction elements with
  | nil => rfl
  | cons first rest ih => rw [sources, ih, List.map_cons]

theorem Argument.sources_eq (arguments : List Argument) :
    Argument.sources arguments = arguments.map Argument.source := by
  induction arguments with
  | nil => rfl
  | cons first rest ih => rw [sources, ih, List.map_cons]

/-- An argument is the same as another one but for what a source does not show. -/
def Argument.Resembles (argument again : Argument) : Prop :=
  again.label.map Identifier.erased = argument.label.map Identifier.erased ∧
    argument.value.Resembles argument.value.writtenHeight again.value

theorem Expression.resembles_list {elements again : List Expression}
    (h : List.Forall₂ (fun e => e.Resembles e.writtenHeight) elements again) :
    Expression.erasedList again = Expression.erasedList elements ∧
      Expression.heightList again = Expression.writtenHeightList elements := by
  induction h with
  | nil => exact ⟨rfl, rfl⟩
  | cons hfirst _ ih =>
      simp only [erasedList, heightList, writtenHeightList, hfirst.erased, hfirst.height, ih.1, ih.2,
        and_self]

theorem Argument.resembles_list {arguments again : List Argument}
    (h : List.Forall₂ Argument.Resembles arguments again) :
    Argument.erasedList again = Argument.erasedList arguments ∧
      Argument.heightList again = Argument.writtenHeightList arguments := by
  induction h with
  | nil => exact ⟨rfl, rfl⟩
  | @cons first first' _ _ hfirst _ ih =>
      obtain ⟨label, value⟩ := first
      obtain ⟨label', value'⟩ := first'
      obtain ⟨hlabel, hvalue⟩ := hfirst
      simp only [Argument.label, Argument.value] at hlabel hvalue
      simp only [erasedList, heightList, writtenHeightList, hlabel, hvalue.erased, hvalue.height,
        ih.1, ih.2, and_self]

/-- An argument can be read again if its value can be. -/
structure Argument.Rereadable (inCondition : Bool) (argument : Argument) : Prop where
  label : ∀ name ∈ argument.label, Quotable name.name
  value : argument.value.Rereadable inCondition

theorem Argument.Rereadable.rereads {argument : Argument} {cursor : Cursor}
    (h : argument.Rereadable inCondition) (hroom : argument.value.writtenHeight ≤ room)
    (hfaces : cursor.Faces (argument.source.toList ++ tail)) (htail : Stops tail) :
    cursor.Rereads (LabelledArgument (expression inCondition room)) tail argument.Resembles := by
  obtain ⟨label, value⟩ := argument
  cases label with
  | none =>
      exact (h.value.operand hroom hfaces htail).imp (Argument.mk none) fun ts again hlanguage hlike =>
        ⟨.positional (expression_of_operand hlanguage), rfl, hlike⟩
  | some label =>
      have htext : (Argument.source (.mk (some label) value)).toList ++ tail =
          '.' :: (label.text.toList ++ ' ' :: '=' :: ' ' :: (value.source.toList ++ tail)) := by
        simp [Argument.source]
      rw [htext] at hfaces
      obtain ⟨dot, hdot⟩ := Faces.symbol .dot hfaces (by simp)
      obtain ⟨ts, after, name, hname, hlanguage, hlike⟩ :=
        Faces.name (faces_of_rest hdot.rest) (h.label _ rfl) (by simp [isWordPart])
      obtain ⟨sign, hsign⟩ := Faces.symbol .assign (faces_of_space hname.rest) (by simp)
      obtain ⟨ts', after', again, hvalue, hlanguage', hlike'⟩ :=
        h.value.operand hroom (faces_of_space hsign.rest) htail
      refine ⟨_, _, _, (hdot.append hname).append (hsign.append hvalue),
        .labelled hlanguage (expression_of_operand hlanguage'), ?_, hlike'⟩
      exact congrArg some hlike

namespace Expression

theorem rereadable_array {elements : List Expression} {span : Span}
    (h : ∀ e ∈ elements, e.Rereadable inCondition) :
    (Expression.array elements span).Rereadable inCondition := by
  refine rereadable_of_primary fun {room cursor tail} hroom hfaces _ => ?_
  obtain ⟨below, rfl⟩ := Nat.exists_eq_add_one.mpr (Nat.zero_lt_of_lt hroom)
  have htext : (source (.array elements span)).toList ++ tail =
      '[' :: ((", ".intercalate (elements.map source)).toList ++ ']' :: tail) := by
    simp [source, sources_eq]
  rw [htext] at hfaces
  obtain ⟨opened, hopened⟩ := Faces.symbol .openBracket hfaces (by simp)
  have hheights := writtenHeightList_le.mp (Nat.le_of_succ_le_succ hroom)
  have helement : ∀ e ∈ elements, ∀ {cursor : Cursor} {tail : List Char},
      cursor.Faces (e.source.toList ++ tail) → Stops tail →
      cursor.Rereads (expression inCondition below) tail (e.Resembles e.writtenHeight) :=
    fun e he _ _ hfaces htail => ((h e he).operand (hheights e he) hfaces htail).imp id
      fun _ _ ha hlike => ⟨expression_of_operand ha, hlike⟩
  obtain ⟨ts, after, again, hitems, hlanguage, hlike⟩ := rereads_items helement
    (fun hnil => by rw [hopened.rest, hnil]; rfl) (faces_of_rest hopened.rest)
    (stops_cons _ (by decide) (by decide))
  obtain ⟨close, hclose⟩ := Faces.symbol .closeBracket (faces_of_rest hitems.rest) (by simp)
  obtain ⟨herased, hheight⟩ := resembles_list hlike
  refine ⟨_, _, _, (hopened.append hitems).append hclose, .array rfl hlanguage, ?_, ?_⟩
  · rw [erased, erased, herased]
  · rw [height, writtenHeight, hheight]

theorem Rereadable.call {callee : Expression} {arguments : List Argument} {span : Span}
    (hcallee : callee.Rereadable inCondition) (h : ∀ a ∈ arguments, a.Rereadable inCondition) :
    (Expression.call callee arguments span).Rereadable inCondition := by
  refine rereadable_of_suffixed fun {room cursor tail} hroom hfaces _ => ?_
  have hparts := Nat.max_le.mp hroom
  obtain ⟨below, rfl⟩ := Nat.exists_eq_add_one.mpr (Nat.zero_lt_of_lt hparts.2)
  have htext : (source (.call callee arguments span)).toList ++ tail =
      (callee.operandSource callee.source).toList ++
        '(' :: ((", ".intercalate (arguments.map Argument.source)).toList ++ ')' :: tail) := by
    simp [source, Argument.sources_eq]
  rw [htext] at hfaces
  obtain ⟨ts, after, again, hfirst, hlanguage, hlike⟩ :=
    hcallee.rereads_operand hparts.1 hfaces (stops_cons _ (by decide) (by decide))
  obtain ⟨opened, hopened⟩ := Faces.symbol .openParen (faces_of_rest hfirst.rest) (by simp)
  have hheights := Argument.writtenHeightList_le.mp (Nat.le_of_succ_le_succ hparts.2)
  have hargument : ∀ a ∈ arguments, ∀ {cursor : Cursor} {tail : List Char},
      cursor.Faces (a.source.toList ++ tail) → Stops tail →
      cursor.Rereads (LabelledArgument (expression inCondition below)) tail a.Resembles :=
    fun a ha _ _ hfaces htail => (h a ha).rereads (hheights a ha) hfaces htail
  obtain ⟨ts', after', again', hitems, hlanguage', hlike'⟩ := rereads_items hargument
    (fun hnil => by rw [hopened.rest, hnil]; rfl) (faces_of_rest hopened.rest)
    (stops_cons _ (by decide) (by decide))
  obtain ⟨close, hclose⟩ := Faces.symbol .closeParen (faces_of_rest hitems.rest) (by simp)
  obtain ⟨herased, hheight⟩ := Argument.resembles_list hlike'
  refine ⟨_, _, _, (hfirst.append (hopened.append hitems)).append hclose,
    .call rfl hlanguage.1 hlanguage.2 hlanguage', ?_, ?_⟩
  · rw [erased, erased, herased, hlike.erased]
  · rw [height, writtenHeight, hheight, hlike.height]

end Expression

/-! ## All expressions -/

mutual

/-- What is writable is read again. -/
theorem Expression.IsWritable.rereadable : ∀ {e : Expression}, e.IsWritable inCondition →
    e.Rereadable inCondition
  | .integer _ _, h => Expression.rereadable_integer h
  | .float _ _, h => Expression.rereadable_float h.1 h.2.1 h.2.2
  | .string _ _, h => Expression.rereadable_string h
  | .name _, h => Expression.rereadable_name h
  | .defined _ _, h => Expression.rereadable_defined h.1 h.2
  | .array _ _, h => Expression.rereadable_array (Expression.IsWritableList.rereadable h)
  | .negation e _, h => (Expression.IsWritable.rereadable (e := e) h).negation
  | .group e _, h => (Expression.IsWritable.rereadable (e := e) h).group
  | .binary _ _ _ _, h =>
    (Expression.IsWritable.rereadable h.1).binary (Expression.IsWritable.rereadable h.2)
  | .call _ _ _, h =>
    (Expression.IsWritable.rereadable h.1).call (Argument.IsWritableList.rereadable h.2)
  | .member _ _ _, h => (Expression.IsWritable.rereadable h.1).member h.2

theorem Expression.IsWritableList.rereadable : ∀ {elements : List Expression},
    Expression.IsWritableList inCondition elements → ∀ e ∈ elements, e.Rereadable inCondition
  | [], _ => nofun
  | _ :: _, h => List.forall_mem_cons.mpr
    ⟨Expression.IsWritable.rereadable h.1, Expression.IsWritableList.rereadable h.2⟩

theorem Argument.IsWritableList.rereadable : ∀ {arguments : List Argument},
    Argument.IsWritableList inCondition arguments → ∀ a ∈ arguments, a.Rereadable inCondition
  | [], _ => nofun
  | .mk _ _ :: _, h => List.forall_mem_cons.mpr
    ⟨⟨h.1, Expression.IsWritable.rereadable h.2.1⟩, Argument.IsWritableList.rereadable h.2.2⟩

end

end ConfLang
