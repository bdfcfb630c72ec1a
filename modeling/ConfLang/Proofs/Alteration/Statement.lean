import ConfLang.Proofs.Alteration.Conditional
import ConfLang.Proofs.Grammar.Words

/-!
# Statements and programs of sources that follow tokens

The first token of a statement stands in every source that follows its tokens, so the same kind of
statement is read there.  The induction on the room that is left for nesting ties the kinds together,
as in the proof that statements of the grammar are read.

A program is read to the end of the source.  Then nothing is due any more: the errors are those that
were due from the beginning, and all remarks were made (`brings_wholeProgram`).
-/

namespace ConfLang.Setting

open Reading Alteration Grammar TokenKind

variable {S : Setting} {n : Nesting} {k level : Nat} {ts rest : List Token} {current : Token}

theorem leaves_some {a left found : Statement} (h : a.without? S.alteration.gone = some left)
    (hsame : found.unplaced id = left.unplaced id) : S.Leaves a (some found) := by
  rw [Leaves, h, Option.map_some, Option.map_some, hsame]

/-! ## Declarations and assignments -/

section Simple

variable {expression : Reading Expression} {language : Language Expression}
  {label : List Token} {name : Identifier} {value : Expression} {start sign : Span}

theorem reads_noType (hcolon : Upcoming (· ≠ .symbol .colon) ts) (hk : k ≤ 1) :
    S.Reads n ts k (declaredType expression) ts 1 (· = none) := by
  refine (brings_not_accept hcolon.1 (fun hmeets => hcolon.2 _ hmeets rfl) hk).bind fun taken => ?_
  refine .of_fact (fun s hs => hs.1) fun htaken => ?_
  rw [if_neg (by simp [htaken])]
  exact brings_pure fun s hs => ⟨rfl, hs.2⟩

variable (hexpression : S.ReadsAll n expression language EndsExpression (Expression.unplaced id))
include hexpression

theorem reads_type {type : Expression} (h : language ts type) {colon : Span}
    (hends : Upcoming EndsExpression rest) (hk : k ≤ 1) :
    S.Reads n (⟨.symbol .colon, colon⟩ :: (ts ++ rest)) k (declaredType expression) rest 1
      fun found => found.map (Expression.unplaced id) = some (type.unplaced id) := by
  refine (reads_accept rfl hk).bind fun taken => .of_fact (fun s hs => hs.1) fun htaken => ?_
  rw [if_pos htaken]
  exact ((hexpression h hends (Nat.zero_le 1)).from fun s hs => hs.2).bind_pure
    fun _ s hs => ⟨congrArg some hs.1, hs.2⟩

/-- The declaration of a constant, with a type or without. -/
theorem brings_constant (hname : Name label name) (typeTokens : List Token)
    (type : Option Expression) (htype : ∀ ⦃rest⦄, Upcoming EndsExpression rest →
      Upcoming (· ≠ .symbol .colon) rest → S.Reads n (typeTokens ++ rest) 0
        (declaredType expression) rest 1 fun found =>
          found.map (Expression.unplaced id) = type.map (Expression.unplaced id))
    (h : language ts value) (hends : Upcoming EndsExpression rest) (span : Span) :
    Brings (S.Ahead n .code (⟨.keyword .constant, start⟩ ::
        (label ++ (typeTokens ++ ⟨.symbol .assign, sign⟩ :: (ts ++ rest)))) 0 current)
      (constant expression) fun found s => found.unplaced id =
        (Statement.constant name type value span).unplaced id ∧ S.At n .code rest 1 s := by
  refine (brings_take rfl).bind fun _ => ?_
  refine ((reads_name hname _ (Nat.zero_le 1)).from fun s hs => hs.2).bind fun name' => ?_
  refine .of_fact (fun s hs => hs.1) fun hname' => ?_
  refine ((htype (upcoming_of_isFirm rfl endsExpression_assign) (upcoming_of_isFirm rfl
    (by simp))).from fun s hs => hs.2).bind fun type' => ?_
  refine .of_fact (fun s hs => hs.1) fun htype' => ?_
  refine ((reads_expect rfl _ (Nat.le_refl 1)).from fun s hs => hs.2).bind fun _ => ?_
  exact ((hexpression h hends (Nat.zero_le 1)).from fun s hs => hs.2).bind_pure fun value' s hs =>
    ⟨by simp only [Statement.unplaced, hname', htype', hs.1], hs.2⟩

/-- An assignment, by its sign. -/
theorem brings_assignment (hname : Name label name) (h : language ts value)
    (hends : Upcoming EndsExpression rest) (span : Span) (hk : k ≤ 1) :
    S.Reads n (label ++ ⟨.symbol .assign, sign⟩ :: (ts ++ rest)) k (assignment expression) rest 1
      (fun found => found.unplaced id = (Statement.assign name value span).unplaced id) ∧
    S.Reads n (label ++ ⟨.symbol .append, sign⟩ :: (ts ++ rest)) k (assignment expression) rest 1
      fun found => found.unplaced id = (Statement.append name value span).unplaced id := by
  constructor <;>
  · refine (reads_name hname _ hk).bind fun name' => .of_fact (fun s hs => hs.1) fun hname' => ?_
    refine Brings.from ?_ fun s hs => hs.2
    refine brings_shown rfl (Nat.zero_le 1) fun current hkind => ?_
    rw [hkind]
    refine (brings_take rfl).bind fun _ => ?_
    exact ((hexpression h hends (Nat.zero_le 1)).from fun s hs => hs.2).bind_pure
      fun value' s hs => ⟨by simp only [Statement.unplaced, hname', hs.1], hs.2⟩

end Simple

section Raw

variable {label : List Token} {name : Identifier} {start sign place lineEnd : Span}
  {text : String}

/-- Inside a conditional directive block a text can be assigned. -/
theorem reads_expand {expression : Reading Expression} (hchains : n.chains > 0)
    (hoption : S.options.expandingAssign = true) (hname : Name label name) (span : Span)
    (hk : k ≤ 1) :
    S.Reads n (label ++ ⟨.symbol .plus, sign⟩ :: ⟨.restOfLine text, place⟩ :: rest) k
      (assignment expression) rest 0
      fun found => found.unplaced id = (Statement.expand name text span).unplaced id := by
  refine (reads_name hname _ hk).bind fun name' => .of_fact (fun s hs => hs.1) fun hname' => ?_
  refine Brings.from ?_ fun s hs => hs.2
  refine brings_shown rfl (Nat.zero_le 1) fun current hkind => ?_
  rw [hkind]
  refine brings_get fun s hs => ?_
  rw [hs.at.nesting, hs.at.options, if_pos ⟨hchains, hoption⟩]
  refine (brings_take rfl).bind fun _ => ?_
  exact ((brings_rawText rfl).from fun s hs => hs.2).bind_pure fun raw s hs =>
    ⟨by simp only [Statement.unplaced, hname', hs.1], hs.2⟩

theorem brings_message {severity : Severity} (span : Span) :
    Brings (S.Ahead n .code (⟨.message severity, start⟩ :: ⟨.restOfLine text, place⟩ ::
        ⟨.endOfLine, lineEnd⟩ :: rest) 0 current)
      (message severity) fun found s => found.unplaced id =
        (Statement.message severity text span).unplaced id ∧ S.At n .code rest 1 s := by
  refine (brings_advance rfl (fun hopens => by cases hopens) rfl).bind fun _ => ?_
  refine ((brings_rawText rfl).from fun s hs => hs.2).bind fun raw => ?_
  refine .of_fact (fun s hs => hs.1) fun htext => ?_
  exact ((reads_endOfLine _ (Nat.zero_le 1)).from fun s hs => hs.2).bind_pure fun _ s hs =>
    ⟨by simp only [Statement.unplaced, htext], hs.2⟩

end Raw

/-! ## Blocks of statements -/

section Blocks

variable {expression : Reading Expression} {language : Language Expression}
  {inside : Language Statement} {start : Span} {body : Body}
  (hdepth : n.depth < S.options.maxNestingDepth) (hopening : Opening inside)
  (hstatement : S.ReadsStatements n.deeper.inBraces (Statement.read level) inside)
include hdepth hopening hstatement

theorem brings_group {label : List Token} {name : Identifier} (hname : Name label name)
    (h : Block inside ts body) (hmisses : S.Misses (body.conditionLines n.deeper.inBraces))
    (span : Span) :
    Brings (S.Ahead n .code (⟨.keyword .group, start⟩ :: (label ++ (ts ++ rest))) 0 current)
      (group (Statement.read level)) fun found s =>
        S.Leaves (.group name body span) (some found) ∧ S.At n .code rest 0 s := by
  refine (brings_take rfl).bind fun _ => ?_
  refine ((reads_name hname _ (Nat.zero_le 1)).from fun s hs => hs.2).bind fun name' => ?_
  refine .of_fact (fun s hs => hs.1) fun hname' => ?_
  refine ((reads_block hdepth hopening hstatement h hmisses _ (Nat.zero_le 1)).from
    fun s hs => hs.2).bind_pure fun body' s hs => ⟨leaves_some rfl ?_, hs.2⟩
  have hsame := hs.1
  unfold LeavesBody at hsame
  simp only [Statement.unplaced, hname', hsame]

/-- The block behind `else`, if there is one. -/
theorem reads_else (h : Block inside ts body)
    (hmisses : S.Misses (body.conditionLines n.deeper.inBraces)) {word : Span} (hk : k ≤ 1) :
    S.Reads n (⟨.keyword .elseWord, word⟩ :: (ts ++ rest)) k (elseBlock (Statement.read level))
      rest 1 fun found => Body.unplacedOption id found =
        Body.unplacedOption id (Body.withoutOption S.alteration.gone (some body)) := by
  refine (reads_accept rfl hk).bind fun taken => .of_fact (fun s hs => hs.1) fun htaken => ?_
  rw [if_pos htaken]
  refine ((reads_block hdepth hopening hstatement h hmisses _ (Nat.zero_le 1)).from
    fun s hs => hs.2).bind_pure fun body' s hs => ⟨?_, hs.2.weaken (Nat.zero_le 1)⟩
  exact congrArg some hs.1

omit hdepth hopening hstatement in
theorem reads_noElse (helse : Upcoming (· ≠ .keyword .elseWord) rest) (hk : k ≤ 1) :
    S.Reads n rest k (elseBlock (Statement.read level)) rest 1 fun found =>
      Body.unplacedOption id found =
        Body.unplacedOption id (Body.withoutOption S.alteration.gone none) := by
  refine (brings_not_accept helse.1 (fun hmeets => helse.2 _ hmeets rfl) hk).bind fun taken => ?_
  refine .of_fact (fun s hs => hs.1) fun htaken => ?_
  rw [if_neg (by simp [htaken])]
  exact brings_pure fun s hs => ⟨rfl, hs.2⟩

theorem brings_choice
    (hexpression : S.ReadsAll n expression language EndsExpression (Expression.unplaced id))
    {e : Expression} (he : language ts e) {ts' : List Token} (h : Block inside ts' body)
    (elseTokens : List Token) {last : Option Body} {opened close : Span}
    (helse : S.Reads n (elseTokens ++ rest) 0 (elseBlock (Statement.read level)) rest 1
      fun found => Body.unplacedOption id found =
        Body.unplacedOption id (Body.withoutOption S.alteration.gone last))
    (hmisses : S.Misses (body.conditionLines n.deeper.inBraces)) (span : Span) :
    Brings (S.Ahead n .code (⟨.keyword .ifWord, start⟩ :: ⟨.symbol .openParen, opened⟩ ::
        (ts ++ ⟨.symbol .closeParen, close⟩ :: (ts' ++ (elseTokens ++ rest)))) 0 current)
      (choice expression (Statement.read level)) fun found s =>
        S.Leaves (.choice e body last span) (some found) ∧ S.At n .code rest 1 s := by
  refine (brings_take rfl).bind fun _ => ?_
  refine ((reads_expect rfl _ (Nat.zero_le 1)).from fun s hs => hs.2).bind fun _ => ?_
  have hparen : Upcoming EndsExpression
      (⟨.symbol .closeParen, close⟩ :: (ts' ++ (elseTokens ++ rest))) :=
    upcoming_of_isFirm rfl (endsExpression_closing .paren)
  refine ((hexpression he hparen (Nat.zero_le 1)).from fun s hs => hs.2).bind fun e' => ?_
  refine .of_fact (fun s hs => hs.1) fun hsame => ?_
  refine ((reads_closing .paren _ (Nat.le_refl 1)).from fun s hs => hs.2).bind fun _ => ?_
  refine ((reads_block hdepth hopening hstatement h hmisses _ (Nat.zero_le 1)).from
    fun s hs => hs.2).bind fun body' => .of_fact (fun s hs => hs.1) fun hbody => ?_
  refine (helse.from fun s hs => hs.2).bind_pure fun last' s hs => ⟨leaves_some rfl ?_, hs.2⟩
  unfold LeavesBody at hbody
  simp only [Statement.unplaced, hsame, hbody, hs.1]

end Blocks

/-! ## All statements -/

/-- What may stand one level deeper is read there, and there is room for it. -/
structure ReadsDeeper (S : Setting) (n : Nesting) (level : Nat) (deeper : Deeper) : Prop where
  depth : n.depth < S.options.maxNestingDepth
  levels : level = S.options.maxNestingDepth + 1 - (n.depth + 1)
  opening : ∀ inBlock, Opening (deeper.statement inBlock)
  words : ∀ ⦃ts e⦄, deeper.condition ts e → ∀ token ∈ ts, token.kind ≠ .endOfLine
  statement : ∀ m : Nesting, m.depth = n.depth + 1 → m.inCondition = false →
    S.ReadsStatements m (Statement.read level) (deeper.statement (decide (0 < m.chains)))
  condition : ∀ m : Nesting, m.depth = n.depth + 1 → m.inCondition = true →
    S.ReadsAll m (Expression.read level Operator.lowestPrecedence) deeper.condition EndsExpression
      (Expression.unplaced id)

theorem readsStatements_any {expression : Reading Expression} {language : Language Expression}
    {deeper : Option Deeper} (hcondition : n.inCondition = false)
    (hexpression : S.ReadsAll n expression language EndsExpression (Expression.unplaced id))
    (hdeeper : ∀ d ∈ deeper, S.ReadsDeeper n level d) :
    S.ReadsStatements n (Reading.statement expression
        ⟨Expression.read level Operator.lowestPrecedence, Statement.read level⟩)
      (IsStatement S.options (decide (0 < n.chains)) language deeper) := by
  intro ts a rest k h hends hk hmisses
  have hone := Nat.le_refl 1
  have hendsExpression : Upcoming EndsExpression rest := hends.imp fun _ h => h.1
  have hnamed {label tail : List Token} {target : Identifier} (hname : Name label target)
      {found : Statement → Prop} (hreads : S.Reads n (label ++ tail) 1 (assignment expression) rest 1
        found) (hfound : ∀ b, found b → S.Leaves a (some b)) :
      S.Reads n (label ++ tail) k (Reading.statement expression
        ⟨Expression.read level Operator.lowestPrecedence, Statement.read level⟩) rest 1
        (S.Leaves a) := by
    obtain ⟨⟩ := hname
    refine brings_shown rfl hk fun current hkind => ?_
    rw [hkind]
    exact (hreads.from fun s hs => hs.at).map fun b s hs => ⟨hfound b hs.1, hs.2⟩
  cases h with
  | constant hname h =>
      simp only [List.cons_append, List.append_assoc]
      refine brings_shown rfl hk fun current hkind => ?_
      rw [hkind]
      exact (brings_constant hexpression hname [] none (fun rest _ hcolon =>
        (reads_noType hcolon (Nat.zero_le 1)).imp (fun _ h => h) fun _ s hs =>
          ⟨hs.1 ▸ rfl, hs.2⟩) h hendsExpression _).map fun b s hs => ⟨leaves_some rfl hs.1, hs.2⟩
  | @typedConstant _ ts _ _ type _ _ colon _ hname htype h =>
      simp only [List.cons_append, List.append_assoc]
      refine brings_shown rfl hk fun current hkind => ?_
      rw [hkind]
      exact (brings_constant hexpression hname (⟨.symbol .colon, colon⟩ :: ts) (some type)
        (fun rest hends _ => reads_type hexpression htype hends (Nat.zero_le 1)) h hendsExpression
          _).map fun b s hs => ⟨leaves_some rfl hs.1, hs.2⟩
  | group hd hname h =>
      have hinner := hdeeper _ hd
      simp only [List.cons_append, List.append_assoc]
      refine brings_shown rfl hk fun current hkind => ?_
      rw [hkind]
      exact (brings_group hinner.depth (hinner.opening _) (hinner.statement n.deeper.inBraces rfl
        hcondition) hname h hmisses _).map fun b s hs => ⟨hs.1, hs.2.weaken (Nat.zero_le 1)⟩
  | assign hname h =>
      rw [List.append_assoc]
      exact hnamed hname (brings_assignment hexpression hname h hendsExpression _ hone).1
        fun b => leaves_some rfl
  | append hname h =>
      rw [List.append_assoc]
      exact hnamed hname (brings_assignment hexpression hname h hendsExpression _ hone).2
        fun b => leaves_some rfl
  | expand hblock hoption hname =>
      rw [List.append_assoc]
      exact hnamed hname ((reads_expand (of_decide_eq_true hblock) hoption hname _ hone).imp
        (fun _ h => h) fun _ s hs => ⟨hs.1, hs.2.weaken (Nat.zero_le 1)⟩) fun b => leaves_some rfl
  | choice hd he h =>
      have hinner := hdeeper _ hd
      simp only [List.cons_append, List.append_assoc]
      refine brings_shown rfl hk fun current hkind => ?_
      rw [hkind]
      rw [Statement.conditionLines] at hmisses
      exact (brings_choice hinner.depth (hinner.opening _) (hinner.statement n.deeper.inBraces rfl
        hcondition) hexpression he h [] (reads_noElse (hends.imp fun _ h => h.2) (Nat.zero_le 1)) hmisses.left _).map
        fun b s hs => hs
  | @choiceElse _ _ _ ts'' _ _ _ _ _ _ word hd he h h' =>
      have hinner := hdeeper _ hd
      simp only [List.cons_append, List.append_assoc]
      refine brings_shown rfl hk fun current hkind => ?_
      rw [hkind]
      rw [Statement.conditionLines] at hmisses
      have hstatement := hinner.statement n.deeper.inBraces rfl hcondition
      exact (brings_choice hinner.depth (hinner.opening _) hstatement hexpression he h
        (⟨.keyword .elseWord, word⟩ :: ts'') (reads_else hinner.depth
          (hinner.opening _) hstatement h' hmisses.right (Nat.zero_le 1)) hmisses.left _).map
        fun b s hs => hs
  | conditional hd hcond hbody hclauses =>
      have hinner := hdeeper _ hd
      simp only [List.cons_append, List.append_assoc]
      refine brings_shown rfl hk fun current hkind => ?_
      rw [hkind]
      exact (reads_conditionalFrom hinner.depth hcondition hinner.condition hinner.words
        hinner.levels (hinner.opening _) (hinner.statement n.deeper.inChain rfl hcondition) hcond
        hbody hclauses hmisses hone _).from fun s hs => hs.at
  | message =>
      refine brings_shown rfl hk fun current hkind => ?_
      rw [hkind]
      exact (brings_message _).map fun b s hs => ⟨leaves_some rfl hs.1, hs.2⟩
  | passage =>
      refine brings_shown rfl hk fun current hkind => ?_
      rw [hkind]
      exact (brings_take rfl).bind_pure fun _ s hs =>
        ⟨leaves_some rfl rfl, hs.2.weaken (Nat.zero_le 1)⟩

/-- Statements are read with as much room for nesting as the grammar gives them. -/
theorem readsStatements {room : Nat} (hroom : n.depth + room = S.options.maxNestingDepth)
    (hcondition : n.inCondition = false) :
    S.ReadsStatements n (Statement.read (room + 1))
      (Grammar.statement S.options room (decide (0 < n.chains))) := by
  have hexpression {room : Nat} {m : Nesting} (hroom : m.depth + room = S.options.maxNestingDepth)
      {b : Bool} (hb : m.inCondition = b) :
      S.ReadsAll m (Expression.read (room + 1) Operator.lowestPrecedence)
        (Grammar.expression b room) EndsExpression (Expression.unplaced id) :=
    hb ▸ readsAll_expression hroom
  induction room generalizing n with
  | zero => exact readsStatements_any hcondition (hexpression hroom hcondition) nofun
  | succ room ih =>
      refine readsStatements_any hcondition (hexpression hroom hcondition) fun d hd => ?_
      obtain rfl := Option.mem_some.mp hd
      have hdeeper {m : Nesting} (hm : m.depth = n.depth + 1) :
          m.depth + room = S.options.maxNestingDepth := by omega
      refine ⟨by omega, by omega, fun inBlock => ?_, fun ts e h token hmem => ?_,
        fun m hm => ih (hdeeper hm), fun m hm => hexpression (hdeeper hm)⟩
      · cases room <;> exact opening_statement
      · exact (isScanned_of_isPlain ((worded_expression true room).plain h token hmem)).2

/-! ## Programs -/

theorem brings_wholeProgram {program : Program} (h : IsProgram S.options ts program)
    (hmisses : S.Misses program.conditionLines) :
    Brings (S.At {} .code ts 0) wholeProgram fun found s =>
      found.unplaced id = (program.without S.alteration.gone).unplaced id ∧ S.At {} .code [] 1 s := by
  refine brings_get fun s hs => ?_
  have hlevels : s.levels = S.options.maxNestingDepth + 1 := by
    rw [State.levels, hs.nesting, hs.options]
    rfl
  rw [hlevels]
  have hnil {property : TokenKind → Prop} (h : property .endOfFile) : Upcoming property [] :=
    ⟨looked_nil, fun kind hkind => hkind ▸ h⟩
  have hstatements := reads_statementsUntil (k := 0) .program endsAt_program
    (fun kind hopens => by cases kind <;> first | rfl | simp [opensStatement] at hopens)
    opening_program (readsStatements (n := {}) (Nat.zero_add _) rfl) h
    (hnil (by simp [EndsStatement, EndsExpression, EndsChain, EndsOperand, Operator.ofToken?]))
    (hnil rfl) hmisses (Nat.zero_le 1)
  rw [List.append_nil] at hstatements
  refine Brings.bind (R := fun _ => S.At {} .code ts 0)
    (brings_modify fun s hs => hs.note _) fun _ => ?_
  refine hstatements.bind fun statements => .of_fact (fun s hs => hs.1) fun hsame => ?_
  refine ((brings_warnDuplicates _).from fun s hs => hs.2).bind_pure fun _ s hs => ⟨?_, hs⟩
  rw [Program.unplaced, Program.without, Program.unplaced, hsame]

end ConfLang.Setting
