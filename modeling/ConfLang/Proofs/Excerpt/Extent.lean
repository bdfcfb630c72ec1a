import ConfLang.Proofs.Grammar.Words
import ConfLang.Proofs.Relocation.Lines

/-!
# From the first token through the last

The span of a tree goes from the first one of its tokens through the last one.  Statements that
end with the line of a directive are an exception: the end of that line, and what is ignored in
front of it, does not belong to the span.  But then it does not count where the line ends either
(`KeptLine`).
-/

namespace ConfLang

namespace Grammar

/-- A span begins with the first token of a list, and reaches as far as one of them, but not less
far than the last one. -/
structure Extent (ts : List Token) (span : Span) : Prop where
  first : ∃ token rest, ts = token :: rest ∧ span.origin = token.span.origin
  last : ∃ inside token, ts = inside ++ [token] ∧ token.span.stop ≤ span.stop ∧
    token.kind ≠ .endOfLine
  stop : ∃ token ∈ ts, span.stop = token.span.stop

variable {ts first rest : List Token} {span other : Span}

theorem Extent.single {kind : TokenKind} (h : kind ≠ .endOfLine) : Extent [⟨kind, span⟩] span where
  first := ⟨_, [], rfl, rfl⟩
  last := ⟨[], _, rfl, Nat.le_refl _, h⟩
  stop := ⟨_, List.mem_singleton_self _, rfl⟩

/-- From the tokens that a list begins with through those that it ends with. -/
theorem Extent.through (h : Extent first span) (h' : Extent rest other) (hfirst : first <+: ts)
    (hrest : rest <:+ ts) : Extent ts (span.through other) where
  first := by
    obtain ⟨token, inside, rfl, horigin⟩ := h.first
    obtain ⟨behind, rfl⟩ := hfirst
    exact ⟨token, inside ++ behind, rfl, horigin⟩
  last := by
    obtain ⟨inside, token, rfl, hstop, hkind⟩ := h'.last
    obtain ⟨before, rfl⟩ := hrest
    refine ⟨before ++ inside, token, (List.append_assoc _ _ _).symm, ?_, hkind⟩
    exact hstop.trans (Nat.le_max_left _ _)
  stop := by
    obtain ⟨token, hmem, hstop⟩ := h.stop
    obtain ⟨token', hmem', hstop'⟩ := h'.stop
    rcases Nat.le_total span.stop other.stop with hle | hle
    · exact ⟨token', hrest.subset hmem', (Nat.max_eq_left hle).trans hstop'⟩
    · exact ⟨token, hfirst.subset hmem, (Nat.max_eq_right hle).trans hstop⟩

/-- From the token that a list begins with through another part of it. -/
theorem Extent.from_token {kind : TokenKind} (h : Extent rest other) (hrest : rest <:+ ts)
    (hfirst : [⟨kind, span⟩] <+: ts) (hkind : kind ≠ .endOfLine) : Extent ts (span.through other) :=
  (Extent.single hkind).through h hfirst hrest

theorem Extent.symbol {sign : Symbol} : Extent [⟨.symbol sign, span⟩] span :=
  .single nofun

/-! ## Expressions -/

theorem extent_name {name : Identifier} (h : Name ts name) : Extent ts name.span := by
  obtain ⟨⟩ := h
  exact .single nofun

/-- The spans of expressions go from the first token through the last. -/
def HasExtent (language : Language Expression) : Prop :=
  ∀ ⦃ts e⦄, language ts e → Extent ts e.span

theorem suffix_behind (first : List Token) (token : Token) (rest : List Token) :
    rest <:+ first ++ token :: rest :=
  (List.suffix_cons token rest).trans (List.suffix_append first _)

theorem extent_binary {operand : Language Expression} (hoperand : HasExtent operand) (least : Nat) :
    HasExtent (Binary operand least) := by
  intro ts e h
  induction h with
  | operand h => exact hoperand h
  | operation _ _ _ ihleft ihright =>
      exact ihleft.through ihright (List.prefix_append _ _) (suffix_behind _ _ _)

variable {inCondition : Bool} {inner : Option (Language Expression)}

theorem extent_primary : HasExtent (Primary inCondition inner) := by
  intro ts e h
  cases h with
  | integer => exact .single nofun
  | float => exact .single nofun
  | string => exact .single nofun
  | name h => exact extent_name h
  | defined | group | array =>
      exact Extent.symbol.from_token (List.suffix_append _ _) ⟨_, rfl⟩ nofun

theorem extent_suffixed : HasExtent (Suffixed inCondition inner) := by
  intro ts e h
  induction h with
  | primary h => exact extent_primary h
  | member _ hname ih =>
      exact ih.through (extent_name hname) (List.prefix_append _ _) (suffix_behind _ _ _)
  | call _ _ _ _ ih =>
      rw [List.append_assoc]
      exact ih.through .symbol (List.prefix_append _ _)
        ((List.suffix_append _ _).trans (List.suffix_append _ _))

theorem extent_anyOperand (hinner : ∀ language ∈ inner, HasExtent language) :
    HasExtent (Operand inCondition inner) := by
  intro ts e h
  cases h with
  | negation hmem h =>
      exact (hinner _ hmem h).from_token (List.suffix_cons _ _) ⟨_, rfl⟩ nofun
  | suffixed h => exact extent_suffixed h

theorem extent_expression (inCondition : Bool) (room : Nat) :
    HasExtent (expression inCondition room) := by
  apply extent_binary
  induction room with
  | zero => exact extent_anyOperand nofun
  | succ room ih =>
      apply extent_anyOperand
      intro language hmem
      obtain rfl := Option.mem_some.mp hmem
      exact ih

/-! ## Statements -/

theorem extent_block {language : Language Statement} {body : Body} (h : Block language ts body) :
    Extent ts body.span := by
  obtain ⟨h⟩ := h
  exact Extent.symbol.from_token (List.suffix_append _ _) ⟨_, rfl⟩ nofun

/-- A statement that ends with the line of a directive: its span goes through a token on that
line, and the line may as well end right behind that token. -/
structure KeptLine (language : Language Statement) (ts kept : List Token) (statement : Statement) :
    Prop where
  extent : Extent kept statement.span
  split : ∃ ignored line, ts = kept ++ (ignored ++ [⟨.endOfLine, line⟩])
  opens : ∃ before token inside, kept = before ++ token :: inside ∧
    token.kind.startsDirectiveLine = true ∧ ∀ other ∈ inside, other.kind ≠ .endOfLine
  ended : ∀ line, language (kept ++ [⟨.endOfLine, line⟩]) statement

/-- Tokens of a language end with the line of a mark that closes a block, and they belong to the
language if that line ends right behind the mark as well. -/
def EndsWithMark (belongs : List Token → Prop) (close : Span) (ts : List Token) : Prop :=
  ∃ before ignored line,
    ts = before ++ ⟨.mark .endif, close⟩ :: (ignored ++ [⟨.endOfLine, line⟩]) ∧
    ∀ line', belongs (before ++ [⟨.mark .endif, close⟩, ⟨.endOfLine, line'⟩])

/-- It does not count what stands in front of such tokens, if no more than the first one of them
matters there. -/
theorem EndsWithMark.behind {belongs belongs' : List Token → Prop} {close : Span} {head : List Token}
    {next : Token} (h : EndsWithMark belongs close (next :: rest))
    (hhead : ∀ others, belongs (next :: others) → belongs' (head ++ next :: others)) :
    EndsWithMark belongs' close (head ++ next :: rest) := by
  obtain ⟨before, ignored, line, hrest, hended⟩ := h
  refine ⟨head ++ before, ignored, line, by rw [hrest, List.append_assoc], fun line' => ?_⟩
  have hline := hended line'
  rw [List.append_assoc]
  cases before with
  | nil =>
      obtain ⟨rfl, -⟩ := List.cons.inj hrest
      exact hhead _ hline
  | cons first before =>
      obtain ⟨rfl, -⟩ := List.cons.inj hrest
      exact hhead _ hline

/-- It does not count what is ignored behind the mark that closes a block. -/
theorem endsWithMark_clauses {expression : Language Expression} {language : Language Statement}
    {branches : List Branch} {last : Option Body} {close : Span}
    (h : Clauses expression language ts branches last close) :
    EndsWithMark (Clauses expression language · branches last close) close ts := by
  induction h with
  | @endif ignored close line hignored =>
      have hnone : Ignored [] := List.forall_mem_nil _
      exact ⟨[], ignored, line, rfl, fun line' => .endif hnone⟩
  | otherwise hignored hbody _ ih => exact ih.behind fun _ => .otherwise hignored hbody
  | elif hcondition hbody _ ih => exact ih.behind fun _ => .elif hcondition hbody

theorem extent_anyStatement {options : Options} {inBlock inCondition : Bool} {room : Nat}
    {inner : Option Deeper} {statement : Statement}
    (h : IsStatement options inBlock (expression inCondition room) inner ts statement) :
    Extent ts statement.span ∨ ∃ kept, KeptLine
      (IsStatement options inBlock (expression inCondition room) inner) ts kept statement := by
  have hexpression := extent_expression inCondition room
  cases h with
  | constant _ h =>
      exact .inl ((hexpression h).from_token (suffix_behind _ _ _) ⟨_, rfl⟩ nofun)
  | typedConstant _ _ h =>
      rw [List.append_assoc]
      exact .inl ((hexpression h).from_token ((suffix_behind _ _ _).trans (List.suffix_append _ _))
        ⟨_, rfl⟩ nofun)
  | group _ _ h =>
      exact .inl ((extent_block h).from_token (List.suffix_append _ _) ⟨_, rfl⟩ nofun)
  | assign hname h | append hname h =>
      exact .inl ((extent_name hname).through (hexpression h) (List.prefix_append _ _)
        (suffix_behind _ _ _))
  | @expand label target text sign place _ _ hname =>
      have hplace : Extent [⟨.restOfLine text, place⟩] place := .single nofun
      exact .inl ((extent_name hname).through hplace (List.prefix_append _ _)
        (suffix_behind label ⟨.symbol .plus, sign⟩ _))
  | choice _ _ h =>
      exact .inl ((extent_block h).from_token (suffix_behind _ _ _) ⟨_, rfl⟩ nofun)
  | choiceElse _ _ _ h =>
      exact .inl ((extent_block h).from_token (suffix_behind _ _ _) ⟨_, rfl⟩ nofun)
  | @conditional deeper kind ts condition body statements next rest branches last opened line close
      hmem hcondition hbody hclauses =>
      -- The tokens up to the closing mark are kept; the rest of its line is none of the statement.
      right
      have hends : EndsWithMark (IsStatement options inBlock (expression inCondition room) inner ·
          (.conditional condition (directiveBody statements next) branches last
            (opened.through close)))
          close (⟨.opener kind, opened⟩ :: ts ++ ⟨.endOfLine, line⟩ :: body ++ next :: rest) :=
        (endsWithMark_clauses hclauses).behind fun _ => .conditional hmem hcondition hbody
      obtain ⟨before, ignored, line', hts, hended⟩ := hends
      cases before with
      | nil => cases (List.cons.inj hts).1
      | cons first before =>
          obtain ⟨rfl, -⟩ := List.cons.inj hts
          have hclose : Extent [⟨.mark .endif, close⟩] close := .single nofun
          refine ⟨⟨.opener kind, opened⟩ :: before ++ [⟨.mark .endif, close⟩], ?_, ?_, ?_, ?_⟩
          · exact hclose.from_token (List.suffix_append _ _) ⟨_, rfl⟩ nofun
          · exact ⟨ignored, line', by rw [hts, List.append_assoc]; rfl⟩
          · exact ⟨_, _, [], rfl, rfl, List.forall_mem_nil _⟩
          · intro line'
            rw [List.append_assoc]
            exact hended line'
  | @message severity text start place line =>
      -- Here all but the line feed is kept.
      right
      have hplace : Extent [⟨.restOfLine text, place⟩] place := .single nofun
      refine ⟨[⟨.message severity, start⟩, ⟨.restOfLine text, place⟩], ?_, ?_, ?_, ?_⟩
      · exact hplace.from_token (List.suffix_cons _ _) ⟨_, rfl⟩ nofun
      · exact ⟨[], line, rfl⟩
      · exact ⟨[], _, _, rfl, rfl, by simp⟩
      · exact fun line' => .message
  | passage => exact .inl (.single nofun)

theorem extent_statement {options : Options} {room : Nat} {inBlock : Bool} {a : Statement}
    (h : statement options room inBlock ts a) :
    Extent ts a.span ∨ ∃ kept, KeptLine (statement options room inBlock) ts kept a := by
  cases room with
  | zero => exact extent_anyStatement h
  | succ room => exact extent_anyStatement h

end Grammar

end ConfLang
