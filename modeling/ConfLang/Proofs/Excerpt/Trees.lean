import ConfLang.Proofs.Excerpt.Cursor
import ConfLang.Proofs.Grammar.Words
import ConfLang.Proofs.Relocation.Trees

/-!
# Derivations at other places

The grammar does not look at places.  It only makes the spans of a tree from those of its tokens,
by going from one through another and by taking the beginning of one.  So if tokens are moved in
a way that agrees with both, a tree of the moved tokens is a moved tree of the tokens.
-/

namespace ConfLang

variable {f : Span → Span}

/-- A change of places that agrees with the ways in which spans are made of spans. -/
structure Span.Compatible (f : Span → Span) : Prop where
  through : ∀ first last : Span, f (first.through last) = (f first).through (f last)
  origin : ∀ span : Span, f span.origin = (f span).origin

theorem Span.compatible_placed (base : Span) : Compatible base.placed :=
  ⟨base.placed_through, base.placed_origin⟩

/-! ## Parts of trees -/

/-- An argument of a call with other spans. -/
def Argument.mapSpans (f : Span → Span) : Argument → Argument
  | .mk label value => .mk (label.map (Identifier.mapSpans f)) (value.mapSpans f)

theorem Argument.mapSpansList_eq (arguments : List Argument) :
    Argument.mapSpansList f arguments = arguments.map (Argument.mapSpans f) := by
  induction arguments with
  | nil => rw [mapSpansList, List.map_nil]
  | cons first rest ih =>
      obtain ⟨label, value⟩ := first
      rw [mapSpansList, ih, List.map_cons, mapSpans]

@[simp] theorem Body.span_mapSpans (body : Body) : (body.mapSpans f).span = f body.span := by
  cases body
  simp only [Body.mapSpans, Body.span]

theorem Body.mapSpansOption_eq_none {body : Option Body} (h : Body.mapSpansOption f body = none) :
    body = none := by
  cases body with
  | none => rfl
  | some body =>
      rw [mapSpansOption] at h
      cases h

theorem Branch.mapSpansList_eq_nil {branches : List Branch}
    (h : Branch.mapSpansList f branches = []) :
    branches = [] := by
  cases branches with
  | nil => rfl
  | cons first rest =>
      obtain ⟨condition, body, span⟩ := first
      rw [mapSpansList] at h
      cases h

namespace Grammar

variable {α : Type}

/-- A tree of moved tokens is the moved tree of the tokens. -/
def Reflects (f : Span → Span) (move : α → α) (language : Language α) : Prop :=
  ∀ ⦃ts a⦄, language (ts.map (Token.mapSpan f)) a → ∃ a', language ts a' ∧ move a' = a

/-! ## Lists of tokens -/

section Inversion

variable {ts rest : List Token} {kind : TokenKind} {span : Span}

theorem map_eq_token (h : ts.map (Token.mapSpan f) = ⟨kind, span⟩ :: rest) :
    ∃ span' rest', ts = ⟨kind, span'⟩ :: rest' ∧ f span' = span ∧
      rest'.map (Token.mapSpan f) = rest := by
  obtain ⟨⟨kind', span'⟩, rest', rfl, htoken, hrest⟩ := List.map_eq_cons_iff.mp h
  obtain ⟨rfl, hspan⟩ := Token.mk.inj htoken
  exact ⟨span', rest', rfl, hspan, hrest⟩

theorem map_eq_last (h : ts.map (Token.mapSpan f) = [⟨kind, span⟩]) :
    ∃ span', ts = [⟨kind, span'⟩] ∧ f span' = span := by
  obtain ⟨span', rest, rfl, hspan, hrest⟩ := map_eq_token h
  rw [List.map_eq_nil_iff.mp hrest]
  exact ⟨span', rfl, hspan⟩

theorem map_eq_split {first : List Token}
    (h : ts.map (Token.mapSpan f) = first ++ ⟨kind, span⟩ :: rest) :
    ∃ first' span' rest', ts = first' ++ ⟨kind, span'⟩ :: rest' ∧
      first'.map (Token.mapSpan f) = first ∧ f span' = span ∧ rest'.map (Token.mapSpan f) = rest := by
  obtain ⟨first', others, rfl, hfirst, hothers⟩ := List.map_eq_append_iff.mp h
  obtain ⟨span', rest', rfl, hspan, hrest⟩ := map_eq_token hothers
  exact ⟨first', span', rest', rfl, hfirst, hspan, hrest⟩

theorem map_eq_concat {first : List Token} (h : ts.map (Token.mapSpan f) = first ++ [⟨kind, span⟩]) :
    ∃ first' span', ts = first' ++ [⟨kind, span'⟩] ∧ first'.map (Token.mapSpan f) = first ∧
      f span' = span := by
  obtain ⟨first', span', rest, rfl, hfirst, hspan, hrest⟩ := map_eq_split h
  rw [List.map_eq_nil_iff.mp hrest]
  exact ⟨first', span', rfl, hfirst, hspan⟩

end Inversion

/-! ## Names and lists -/

theorem reflects_name : Reflects f (Identifier.mapSpans f) Name := by
  intro ts name h
  generalize hts : ts.map (Token.mapSpan f) = tokens at h
  obtain ⟨⟩ := h
  obtain ⟨span, rfl, rfl⟩ := map_eq_last hts
  exact ⟨_, .name, rfl⟩

variable {move : α → α} {item : Language α}

theorem Reflects.many (hitem : Reflects f move item) : Reflects f (List.map move) (Many item) := by
  intro ts as h
  generalize hts : ts.map (Token.mapSpan f) = tokens at h
  induction h generalizing ts with
  | nil =>
      obtain rfl := List.map_eq_nil_iff.mp hts
      exact ⟨[], .nil, rfl⟩
  | cons h _ ih =>
      obtain ⟨first, rest, rfl, rfl, hrest⟩ := List.map_eq_append_iff.mp hts
      obtain ⟨a, ha, rfl⟩ := hitem h
      obtain ⟨as, has, rfl⟩ := ih hrest
      exact ⟨a :: as, .cons ha has, rfl⟩

theorem Reflects.items (hitem : Reflects f move item) : Reflects f (List.map move) (Items item) := by
  intro ts as h
  generalize hts : ts.map (Token.mapSpan f) = tokens at h
  induction h generalizing ts with
  | nil =>
      obtain rfl := List.map_eq_nil_iff.mp hts
      exact ⟨[], .nil, rfl⟩
  | last h =>
      subst hts
      obtain ⟨a, ha, rfl⟩ := hitem h
      exact ⟨[a], .last ha, rfl⟩
  | cons h _ ih =>
      obtain ⟨first, comma, rest, rfl, rfl, -, hrest⟩ := map_eq_split hts
      obtain ⟨a, ha, rfl⟩ := hitem h
      obtain ⟨as, has, rfl⟩ := ih hrest
      exact ⟨a :: as, .cons ha has, rfl⟩

/-! ## Expressions -/

/-- The trees of moved tokens are moved expressions. -/
abbrev ReflectsExpression (f : Span → Span) (language : Language Expression) : Prop :=
  Reflects f (Expression.mapSpans f) language

theorem reflects_binary (hf : Span.Compatible f) {operand : Language Expression}
    (hoperand : ReflectsExpression f operand) (least : Nat) :
    ReflectsExpression f (Binary operand least) := by
  intro ts e h
  generalize hts : ts.map (Token.mapSpan f) = tokens at h
  induction h generalizing ts with
  | operand h =>
      subst hts
      obtain ⟨e, he, rfl⟩ := hoperand h
      exact ⟨e, .operand he, rfl⟩
  | operation hleast _ _ ihleft ihright =>
      obtain ⟨first, sign, rest, rfl, hfirst, -, hrest⟩ := map_eq_split hts
      obtain ⟨left, hleft, rfl⟩ := ihleft hfirst
      obtain ⟨right, hright, rfl⟩ := ihright hrest
      refine ⟨_, .operation hleast hleft hright, ?_⟩
      rw [Expression.mapSpans, hf.through, Expression.span_mapSpans, Expression.span_mapSpans]

theorem reflects_labelledArgument {expression : Language Expression}
    (hexpression : ReflectsExpression f expression) :
    Reflects f (Argument.mapSpans f) (LabelledArgument expression) := by
  intro ts argument h
  generalize hts : ts.map (Token.mapSpan f) = tokens at h
  cases h with
  | positional h =>
      subst hts
      obtain ⟨e, he, rfl⟩ := hexpression h
      exact ⟨_, .positional he, rfl⟩
  | labelled hlabel h =>
      obtain ⟨head, sign, rest, rfl, hhead, -, rfl⟩ := map_eq_split hts
      obtain ⟨dot, label, rfl, -, rfl⟩ := map_eq_token hhead
      obtain ⟨name, hname, rfl⟩ := reflects_name hlabel
      obtain ⟨e, he, rfl⟩ := hexpression h
      exact ⟨_, .labelled hname he, rfl⟩

section Operands

variable {inCondition : Bool} {inner : Option (Language Expression)}

theorem reflects_primary (hf : Span.Compatible f)
    (hinner : ∀ language ∈ inner, ReflectsExpression f language) :
    ReflectsExpression f (Primary inCondition inner) := by
  intro ts e h
  generalize hts : ts.map (Token.mapSpan f) = tokens at h
  cases h with
  | integer =>
      obtain ⟨span, rfl, rfl⟩ := map_eq_last hts
      exact ⟨_, .integer, by rw [Expression.mapSpans]⟩
  | float =>
      obtain ⟨span, rfl, rfl⟩ := map_eq_last hts
      exact ⟨_, .float, by rw [Expression.mapSpans]⟩
  | string =>
      obtain ⟨span, rfl, rfl⟩ := map_eq_last hts
      exact ⟨_, .string, by rw [Expression.mapSpans]⟩
  | name h =>
      subst hts
      obtain ⟨name, hname, rfl⟩ := reflects_name h
      exact ⟨_, .name hname, by rw [Expression.mapSpans]⟩
  | defined hcondition h =>
      obtain ⟨head, close, rfl, hhead, rfl⟩ := map_eq_concat hts
      obtain ⟨start, others, rfl, rfl, hothers⟩ := map_eq_token hhead
      obtain ⟨opened, label, rfl, -, rfl⟩ := map_eq_token hothers
      obtain ⟨name, hname, rfl⟩ := reflects_name h
      exact ⟨_, .defined hcondition hname, by rw [Expression.mapSpans, hf.through]⟩
  | group hmem h =>
      obtain ⟨head, close, rfl, hhead, rfl⟩ := map_eq_concat hts
      obtain ⟨opened, inside, rfl, rfl, rfl⟩ := map_eq_token hhead
      obtain ⟨e, he, rfl⟩ := hinner _ hmem h
      exact ⟨_, .group hmem he, by rw [Expression.mapSpans, hf.through]⟩
  | array hmem h =>
      obtain ⟨head, close, rfl, hhead, rfl⟩ := map_eq_concat hts
      obtain ⟨opened, inside, rfl, rfl, rfl⟩ := map_eq_token hhead
      obtain ⟨elements, helements, rfl⟩ := Reflects.items (hinner _ hmem) h
      refine ⟨_, .array hmem helements, ?_⟩
      rw [Expression.mapSpans, Expression.mapSpansList_eq, hf.through]

theorem asksDefined_map {ts : List Token} (h : asksDefined inCondition ts) :
    asksDefined inCondition (ts.map (Token.mapSpan f)) := by
  obtain ⟨hcondition, span, rfl⟩ := h
  exact ⟨hcondition, f span, rfl⟩

theorem reflects_suffixed (hf : Span.Compatible f)
    (hinner : ∀ language ∈ inner, ReflectsExpression f language) :
    ReflectsExpression f (Suffixed inCondition inner) := by
  intro ts e h
  generalize hts : ts.map (Token.mapSpan f) = tokens at h
  induction h generalizing ts with
  | primary h =>
      subst hts
      obtain ⟨e, he, rfl⟩ := reflects_primary hf hinner h
      exact ⟨e, .primary he, rfl⟩
  | member _ hmember ih =>
      obtain ⟨first, dot, rest, rfl, hfirst, -, rfl⟩ := map_eq_split hts
      obtain ⟨object, hobject, rfl⟩ := ih hfirst
      obtain ⟨member, hmember', rfl⟩ := reflects_name hmember
      refine ⟨_, .member hobject hmember', ?_⟩
      rw [Expression.mapSpans, hf.through, Expression.span_mapSpans]
      rfl
  | call hmem _ hasks harguments ih =>
      obtain ⟨head, close, rfl, hhead, rfl⟩ := map_eq_concat hts
      obtain ⟨first, opened, rest, rfl, rfl, -, rfl⟩ := map_eq_split hhead
      obtain ⟨callee, hcallee, rfl⟩ := ih rfl
      obtain ⟨arguments, harguments', rfl⟩ :=
        Reflects.items (reflects_labelledArgument (hinner _ hmem)) harguments
      have hasks' : ¬ asksDefined inCondition first := fun h => hasks (asksDefined_map h)
      refine ⟨_, .call hmem hcallee hasks' harguments', ?_⟩
      rw [Expression.mapSpans, Argument.mapSpansList_eq, hf.through, Expression.span_mapSpans]

theorem reflects_anyOperand (hf : Span.Compatible f)
    (hinner : ∀ language ∈ inner, ReflectsExpression f language) :
    ReflectsExpression f (Operand inCondition inner) := by
  intro ts e h
  generalize hts : ts.map (Token.mapSpan f) = tokens at h
  cases h with
  | negation hmem h =>
      obtain ⟨sign, rest, rfl, rfl, rfl⟩ := map_eq_token hts
      obtain ⟨e, he, rfl⟩ := hinner _ hmem h
      refine ⟨_, .negation hmem he, ?_⟩
      rw [Expression.mapSpans, hf.through, Expression.span_mapSpans]
  | suffixed h =>
      subst hts
      have hbinary : ∀ language ∈ inner.map fun operand => Binary operand Operator.lowestPrecedence,
          ReflectsExpression f language := by
        intro language hmem
        obtain ⟨operand, hoperand, rfl⟩ := Option.map_eq_some_iff.mp hmem
        exact reflects_binary hf (hinner _ hoperand) _
      obtain ⟨e, he, rfl⟩ := reflects_suffixed hf hbinary h
      exact ⟨e, .suffixed he, rfl⟩

end Operands

theorem reflects_operand (hf : Span.Compatible f) (inCondition : Bool) (room : Nat) :
    ReflectsExpression f (operand inCondition room) := by
  induction room with
  | zero => exact reflects_anyOperand hf nofun
  | succ room ih =>
      apply reflects_anyOperand hf
      intro language hmem
      obtain rfl := Option.mem_some.mp hmem
      exact ih

theorem reflects_expression (hf : Span.Compatible f) (inCondition : Bool) (room : Nat) :
    ReflectsExpression f (expression inCondition room) :=
  reflects_binary hf (reflects_operand hf inCondition room) _

/-! ## Bodies -/

/-- The trees of moved tokens are moved statements. -/
abbrev ReflectsStatement (f : Span → Span) (language : Language Statement) : Prop :=
  Reflects f (Statement.mapSpans f) language

variable {language : Language Statement}

theorem reflects_block (hf : Span.Compatible f) (hlanguage : ReflectsStatement f language) :
    Reflects f (Body.mapSpans f) (Block language) := by
  intro ts body h
  generalize hts : ts.map (Token.mapSpan f) = tokens at h
  obtain ⟨h⟩ := h
  obtain ⟨head, close, rfl, hhead, rfl⟩ := map_eq_concat hts
  obtain ⟨opened, inside, rfl, rfl, rfl⟩ := map_eq_token hhead
  obtain ⟨statements, hstatements, rfl⟩ := hlanguage.many h
  refine ⟨_, .block hstatements, ?_⟩
  rw [Body.mapSpans, Statement.mapSpansList_eq, hf.through]

theorem mapSpans_directiveBody (hf : Span.Compatible f) (statements : List Statement) (next : Token) :
    (directiveBody statements next).mapSpans f =
      directiveBody (statements.map (Statement.mapSpans f)) (next.mapSpan f) := by
  rw [directiveBody, directiveBody, Body.mapSpans, Statement.mapSpansList_eq, List.head?_map,
    List.getLast?_map]
  cases statements.head? with
  | none => exact congrArg _ (hf.origin next.span)
  | some first =>
      cases statements.getLast? with
      | none => exact congrArg _ (hf.origin next.span)
      | some last =>
          simp only [Option.map_some, Statement.span_mapSpans, hf.through]

/-! ## Conditional directive blocks -/

theorem reflects_conditional {expression : Language Expression}
    (hexpression : ReflectsExpression f expression) (kind : ConditionKind) :
    Reflects f (Condition.mapSpans f) (Conditional expression kind) := by
  intro ts condition h
  generalize hts : ts.map (Token.mapSpan f) = tokens at h
  cases h with
  | holds h =>
      subst hts
      obtain ⟨e, he, rfl⟩ := hexpression h
      exact ⟨_, .holds he, rfl⟩
  | defined h =>
      subst hts
      obtain ⟨name, hname, rfl⟩ := reflects_name h
      exact ⟨_, .defined hname, rfl⟩
  | undefined h =>
      subst hts
      obtain ⟨name, hname, rfl⟩ := reflects_name h
      exact ⟨_, .undefined hname, rfl⟩
  | fileExists =>
      obtain ⟨span, rfl, -⟩ := map_eq_last hts
      exact ⟨_, .fileExists, rfl⟩
  | fileMissing =>
      obtain ⟨span, rfl, -⟩ := map_eq_last hts
      exact ⟨_, .fileMissing, rfl⟩

theorem ignored_of_map {ts : List Token} (h : Ignored (ts.map (Token.mapSpan f))) : Ignored ts :=
  fun token hmem => h (token.mapSpan f) (List.mem_map_of_mem hmem)

theorem reflects_clauses (hf : Span.Compatible f) {expression : Language Expression}
    (hexpression : ReflectsExpression f expression) (hlanguage : ReflectsStatement f language)
    {ts : List Token} {branches : List Branch} {last : Option Body} {close : Span}
    (h : Clauses expression language (ts.map (Token.mapSpan f)) branches last close) :
    ∃ branches' last' close', Clauses expression language ts branches' last' close' ∧
      Branch.mapSpansList f branches' = branches ∧ Body.mapSpansOption f last' = last ∧
      f close' = close := by
  generalize hts : ts.map (Token.mapSpan f) = tokens at h
  induction h generalizing ts with
  | endif hignored =>
      obtain ⟨head, line, rfl, hhead, -⟩ := map_eq_concat hts
      obtain ⟨close, ignored, rfl, rfl, rfl⟩ := map_eq_token hhead
      refine ⟨_, _, _, .endif (ignored_of_map hignored), ?_, ?_, rfl⟩
      · rw [Branch.mapSpansList]
      · rw [Body.mapSpansOption]
  | otherwise hignored hbody _ ih =>
      obtain ⟨head, others, rfl, hhead, hothers⟩ := List.map_eq_append_iff.mp hts
      obtain ⟨next, rest, rfl, rfl, rfl⟩ := List.map_eq_cons_iff.mp hothers
      obtain ⟨line, feed, body, rfl, hline, -, rfl⟩ := map_eq_split hhead
      obtain ⟨start, ignored, rfl, -, rfl⟩ := map_eq_token hline
      obtain ⟨statements, hstatements, rfl⟩ := hlanguage.many hbody
      obtain ⟨branches, last, close, hclauses, hbranches, hlast, rfl⟩ := ih List.map_cons
      obtain rfl := Branch.mapSpansList_eq_nil hbranches
      obtain rfl := Body.mapSpansOption_eq_none hlast
      refine ⟨_, _, _, .otherwise (ignored_of_map hignored) hstatements hclauses, hbranches, ?_, rfl⟩
      rw [Body.mapSpansOption, mapSpans_directiveBody hf]
  | elif hcondition hbody _ ih =>
      obtain ⟨head, others, rfl, hhead, hothers⟩ := List.map_eq_append_iff.mp hts
      obtain ⟨next, rest, rfl, rfl, rfl⟩ := List.map_eq_cons_iff.mp hothers
      obtain ⟨line, feed, body, rfl, hline, -, rfl⟩ := map_eq_split hhead
      obtain ⟨start, condition, rfl, rfl, rfl⟩ := map_eq_token hline
      obtain ⟨e, he, rfl⟩ := hexpression hcondition
      obtain ⟨statements, hstatements, rfl⟩ := hlanguage.many hbody
      obtain ⟨branches, last, close, hclauses, rfl, hlast, rfl⟩ := ih List.map_cons
      refine ⟨_, _, _, .elif he hstatements hclauses, ?_, hlast, rfl⟩
      rw [Branch.mapSpansList, hf.through, ← mapSpans_directiveBody hf, Body.span_mapSpans]

/-! ## Statements -/

theorem reflects_anyStatement (hf : Span.Compatible f) {options : Options} {inBlock : Bool}
    {expression : Language Expression} {inner : Option Deeper}
    (hexpression : ReflectsExpression f expression)
    (hinner : ∀ deeper ∈ inner, ReflectsExpression f deeper.condition ∧
      ∀ inBlock, ReflectsStatement f (deeper.statement inBlock)) :
    ReflectsStatement f (IsStatement options inBlock expression inner) := by
  intro ts statement h
  generalize hts : ts.map (Token.mapSpan f) = tokens at h
  cases h with
  | constant hlabel h =>
      obtain ⟨head, sign, rest, rfl, hhead, -, rfl⟩ := map_eq_split hts
      obtain ⟨start, label, rfl, rfl, rfl⟩ := map_eq_token hhead
      obtain ⟨name, hname, rfl⟩ := reflects_name hlabel
      obtain ⟨value, hvalue, rfl⟩ := hexpression h
      refine ⟨_, .constant hname hvalue, ?_⟩
      rw [Statement.mapSpans, hf.through, Expression.span_mapSpans, Option.map_none]
  | typedConstant hlabel htype h =>
      obtain ⟨head, sign, rest, rfl, hhead, -, rfl⟩ := map_eq_split hts
      obtain ⟨first, colon, others, rfl, hfirst, -, rfl⟩ := map_eq_split hhead
      obtain ⟨start, label, rfl, rfl, rfl⟩ := map_eq_token hfirst
      obtain ⟨name, hname, rfl⟩ := reflects_name hlabel
      obtain ⟨type, htype', rfl⟩ := hexpression htype
      obtain ⟨value, hvalue, rfl⟩ := hexpression h
      refine ⟨_, .typedConstant hname htype' hvalue, ?_⟩
      rw [Statement.mapSpans, hf.through, Expression.span_mapSpans, Option.map_some]
  | group hmem hlabel h =>
      obtain ⟨head, block, rfl, hhead, rfl⟩ := List.map_eq_append_iff.mp hts
      obtain ⟨start, label, rfl, rfl, rfl⟩ := map_eq_token hhead
      obtain ⟨name, hname, rfl⟩ := reflects_name hlabel
      obtain ⟨body, hbody, rfl⟩ := reflects_block hf ((hinner _ hmem).2 inBlock) h
      refine ⟨_, .group hmem hname hbody, ?_⟩
      rw [Statement.mapSpans, hf.through, Body.span_mapSpans]
  | assign hlabel h =>
      obtain ⟨label, sign, rest, rfl, rfl, -, rfl⟩ := map_eq_split hts
      obtain ⟨target, htarget, rfl⟩ := reflects_name hlabel
      obtain ⟨value, hvalue, rfl⟩ := hexpression h
      refine ⟨_, .assign htarget hvalue, ?_⟩
      rw [Statement.mapSpans, hf.through, Expression.span_mapSpans]
      rfl
  | append hlabel h =>
      obtain ⟨label, sign, rest, rfl, rfl, -, rfl⟩ := map_eq_split hts
      obtain ⟨target, htarget, rfl⟩ := reflects_name hlabel
      obtain ⟨value, hvalue, rfl⟩ := hexpression h
      refine ⟨_, .append htarget hvalue, ?_⟩
      rw [Statement.mapSpans, hf.through, Expression.span_mapSpans]
      rfl
  | expand hblock hoption hlabel =>
      obtain ⟨label, sign, raw, rfl, rfl, -, hraw⟩ := map_eq_split hts
      obtain ⟨place, rfl, rfl⟩ := map_eq_last hraw
      obtain ⟨target, htarget, rfl⟩ := reflects_name hlabel
      refine ⟨_, .expand hblock hoption htarget, ?_⟩
      rw [Statement.mapSpans, hf.through]
      rfl
  | choice hmem hcondition h =>
      obtain ⟨head, close, block, rfl, hhead, -, rfl⟩ := map_eq_split hts
      obtain ⟨start, others, rfl, rfl, hothers⟩ := map_eq_token hhead
      obtain ⟨opened, condition, rfl, -, rfl⟩ := map_eq_token hothers
      obtain ⟨e, he, rfl⟩ := hexpression hcondition
      obtain ⟨body, hbody, rfl⟩ := reflects_block hf ((hinner _ hmem).2 inBlock) h
      refine ⟨_, .choice hmem he hbody, ?_⟩
      rw [Statement.mapSpans, hf.through, Body.span_mapSpans, Body.mapSpansOption]
  | choiceElse hmem hcondition h h' =>
      have hblock := reflects_block hf ((hinner _ hmem).2 inBlock)
      obtain ⟨choice, word, block', rfl, hchoice, -, rfl⟩ := map_eq_split hts
      obtain ⟨head, close, block, rfl, hhead, -, rfl⟩ := map_eq_split hchoice
      obtain ⟨start, others, rfl, rfl, hothers⟩ := map_eq_token hhead
      obtain ⟨opened, condition, rfl, -, rfl⟩ := map_eq_token hothers
      obtain ⟨e, he, rfl⟩ := hexpression hcondition
      obtain ⟨body, hbody, rfl⟩ := hblock h
      obtain ⟨other, hother, rfl⟩ := hblock h'
      refine ⟨_, .choiceElse hmem he hbody hother, ?_⟩
      rw [Statement.mapSpans, hf.through, Body.span_mapSpans, Body.mapSpansOption]
  | conditional hmem hcondition hbody hclauses =>
      obtain ⟨hconditions, hstatements⟩ := hinner _ hmem
      obtain ⟨head, others, rfl, hhead, hothers⟩ := List.map_eq_append_iff.mp hts
      obtain ⟨next, rest, rfl, rfl, rfl⟩ := List.map_eq_cons_iff.mp hothers
      obtain ⟨first, line, body, rfl, hfirst, -, rfl⟩ := map_eq_split hhead
      obtain ⟨opened, question, rfl, rfl, rfl⟩ := map_eq_token hfirst
      obtain ⟨condition, hcondition', rfl⟩ := reflects_conditional hconditions _ hcondition
      obtain ⟨statements, hstatements', rfl⟩ := (hstatements true).many hbody
      rw [← List.map_cons] at hclauses
      obtain ⟨branches, last, close, hclauses', rfl, rfl, rfl⟩ :=
        reflects_clauses hf hconditions (hstatements true) hclauses
      refine ⟨_, .conditional hmem hcondition' hstatements' hclauses', ?_⟩
      rw [Statement.mapSpans, hf.through, mapSpans_directiveBody hf]
  | message =>
      obtain ⟨start, others, rfl, rfl, hothers⟩ := map_eq_token hts
      obtain ⟨place, feed, rfl, rfl, hfeed⟩ := map_eq_token hothers
      obtain ⟨line, rfl, -⟩ := map_eq_last hfeed
      refine ⟨_, .message, ?_⟩
      rw [Statement.mapSpans, hf.through]
  | passage =>
      obtain ⟨span, rfl, rfl⟩ := map_eq_last hts
      exact ⟨_, .passage, by rw [Statement.mapSpans]⟩

/-- A statement of moved tokens is a moved statement of the tokens. -/
theorem reflects_statement (hf : Span.Compatible f) (options : Options) (room : Nat)
    (inBlock : Bool) :
    ReflectsStatement f (statement options room inBlock) := by
  induction room generalizing inBlock with
  | zero => exact reflects_anyStatement hf (reflects_expression hf false 0) nofun
  | succ room ih =>
      apply reflects_anyStatement hf (reflects_expression hf false (room + 1))
      intro deeper hdeeper
      obtain rfl := Option.mem_some.mp hdeeper
      exact ⟨reflects_expression hf true room, ih⟩

end Grammar

end ConfLang
