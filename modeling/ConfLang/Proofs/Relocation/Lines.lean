import ConfLang.Proofs.Grammar.Words

/-!
# Programs are made of whole lines

The line of a directive is ended by a token.  In a program of the grammar each such line is
complete: behind its first token comes its end, and what stands behind the end begins on another
line.  All other tokens do not care for lines, but raw text, which follows a token.

So behind a program the line is not that of a directive, wherever the program ends.
-/

namespace ConfLang

/-- A token that neither begins nor ends the line of a directive, and that is found without
asking for raw text. -/
def TokenKind.isInline (kind : TokenKind) : Bool :=
  kind.isScanned && kind ≠ .endOfLine && !kind.startsDirectiveLine

theorem TokenKind.isInline_of_isPlain {kind : TokenKind} (h : kind.isPlain = true) :
    kind.isInline = true := by
  cases kind <;> first | rfl | simp [isPlain] at h

theorem TokenKind.isScanned_of_starts {kind : TokenKind} (h : kind.startsDirectiveLine = true) :
    kind.isScanned = true ∧ kind ≠ .endOfLine := by
  cases kind <;> simp_all [startsDirectiveLine, isScanned]

namespace Cursor

variable {cursor after : Cursor} {token : Token} {ts : List Token}

theorem Scans.shows_inline (h : cursor.Scans (token :: ts) after)
    (hkind : token.kind.isInline = true) :
    cursor.Shows token ∧ cursor.next.cursor.Scans ts after := by
  simp only [TokenKind.isInline, Bool.and_eq_true, decide_eq_true_eq] at hkind
  exact h.shows hkind.1.1 hkind.1.2

theorem Scans.shows_starts (h : cursor.Scans (token :: ts) after)
    (hkind : token.kind.startsDirectiveLine = true) :
    cursor.Shows token ∧ cursor.next.cursor.Scans ts after := by
  obtain ⟨hscanned, hline⟩ := TokenKind.isScanned_of_starts hkind
  exact h.shows hscanned hline

theorem Shows.isDirective_inline (h : cursor.Shows token) (hkind : token.kind.isInline = true)
    (hline : cursor.mode.isDirective = false) : cursor.next.cursor.mode.isDirective = false := by
  simp only [TokenKind.isInline, Bool.and_eq_true, decide_eq_true_eq, Bool.not_eq_true'] at hkind
  rw [isDirective_next, h.token, hline, hkind.2, Bool.or_false]
  · exact h.token ▸ h.kind
  · exact h.token ▸ hkind.1.2

end Cursor

namespace Grammar

/-- Tokens in which all lines of directives are complete. -/
inductive WholeLines : List Token → Prop where
  | nil : WholeLines []
  | token {token rest} : token.kind.isInline = true → WholeLines rest → WholeLines (token :: rest)
  | text {token text place rest} : token.kind.isInline = true → WholeLines rest →
    WholeLines (token :: ⟨.restOfLine text, place⟩ :: rest)
  | directive {token inside line rest} : token.kind.startsDirectiveLine = true →
    (∀ other ∈ inside, other.kind ≠ .endOfLine) → WholeLines rest →
    WholeLines (token :: inside ++ ⟨.endOfLine, line⟩ :: rest)

variable {ts xs ys : List Token}

theorem WholeLines.append (hxs : WholeLines xs) (hys : WholeLines ys) : WholeLines (xs ++ ys) := by
  induction hxs with
  | nil => exact hys
  | token hkind _ ih => exact .token hkind ih
  | text hkind _ ih => exact .text hkind ih
  | directive hkind hinside _ ih =>
      rw [List.append_assoc]
      exact .directive hkind hinside ih

/-- Whole lines begin with a token that can be found by itself. -/
theorem WholeLines.first {token : Token} {rest : List Token} (h : WholeLines (token :: rest)) :
    token.kind.isScanned = true ∧ token.kind ≠ .endOfLine := by
  have hinline (hkind : token.kind.isInline = true) :
      token.kind.isScanned = true ∧ token.kind ≠ .endOfLine := by
    simp only [TokenKind.isInline, Bool.and_eq_true, decide_eq_true_eq] at hkind
    exact hkind.1
  cases h with
  | token hkind => exact hinline hkind
  | text hkind => exact hinline hkind
  | directive hkind => exact TokenKind.isScanned_of_starts hkind

/-- Behind whole lines the line is not that of a directive, if it was not in front of them. -/
theorem WholeLines.isDirective {cursor after : Cursor} (h : WholeLines ts)
    (hscan : cursor.Scans ts after) (hline : cursor.mode.isDirective = false) :
    after.mode.isDirective = false := by
  induction h generalizing cursor with
  | nil =>
      cases hscan
      exact hline
  | token hkind _ ih =>
      obtain ⟨hshows, hrest⟩ := hscan.shows_inline hkind
      exact ih hrest (hshows.isDirective_inline hkind hline)
  | text hkind _ ih =>
      obtain ⟨hshows, htext⟩ := hscan.shows_inline hkind
      obtain ⟨-, -, hrest⟩ := htext.rawLine
      exact ih hrest (hshows.isDirective_inline hkind hline)
  | directive _ _ _ ih =>
      obtain ⟨middle, -, hbehind⟩ := hscan.split
      obtain ⟨last, hends, hrest⟩ := hbehind.endsLine
      exact ih hrest hends.isDirective

theorem wholeLines_of_plain (h : ∀ token ∈ ts, token.kind.isPlain = true) : WholeLines ts := by
  induction ts with
  | nil => exact .nil
  | cons token rest ih =>
      rw [List.forall_mem_cons] at h
      exact .token (TokenKind.isInline_of_isPlain h.1) (ih h.2)

theorem wholeLines_name {name : Identifier} (h : Name ts name) : WholeLines ts :=
  wholeLines_of_plain (worded_name.plain h)

theorem wholeLines_expression {inCondition : Bool} {room : Nat} {e : Expression}
    (h : expression inCondition room ts e) : WholeLines ts :=
  wholeLines_of_plain ((worded_expression inCondition room).plain h)

/-- Plain tokens do not end a line. -/
theorem ne_endOfLine_of_plain (h : ∀ token ∈ ts, token.kind.isPlain = true) :
    ∀ token ∈ ts, token.kind ≠ .endOfLine :=
  fun token hmem => (TokenKind.isScanned_of_isPlain (h token hmem)).2

/-! ## Bodies -/

/-- All statements of a language are made of whole lines. -/
def WholeStatements (language : Language Statement) : Prop :=
  ∀ ⦃ts a⦄, language ts a → WholeLines ts

variable {language : Language Statement} {statements : List Statement}

theorem wholeLines_many (hstatement : WholeStatements language)
    (h : Many language ts statements) : WholeLines ts := by
  induction h with
  | nil => exact .nil
  | cons h _ ih => exact (hstatement h).append ih

theorem wholeLines_block (hstatement : WholeStatements language) {body : Body}
    (h : Block language ts body) : WholeLines ts := by
  obtain ⟨h⟩ := h
  exact (WholeLines.token rfl (wholeLines_many hstatement h)).append (.token rfl .nil)

theorem wholeLines_clauses {room : Nat} (hstatement : WholeStatements language)
    {branches : List Branch} {last : Option Body} {close : Span}
    (h : Clauses (expression true room) language ts branches last close) : WholeLines ts := by
  induction h with
  | endif hignored => exact .directive rfl (fun token hmem => (hignored token hmem).1) .nil
  | otherwise hignored hbody _ ih =>
      rw [List.append_assoc, List.cons_append]
      exact .directive rfl (fun token hmem => (hignored token hmem).1)
        ((wholeLines_many hstatement hbody).append ih)
  | elif hcondition hbody _ ih =>
      rw [List.append_assoc, List.cons_append]
      exact .directive rfl (ne_endOfLine_of_plain ((worded_expression true room).plain hcondition))
        ((wholeLines_many hstatement hbody).append ih)

/-- What stands behind an opening directive does not end its line. -/
theorem ne_endOfLine_of_conditional {room : Nat} {kind : ConditionKind} {condition : Condition}
    (h : Conditional (expression true room) kind ts condition) :
    ∀ token ∈ ts, token.kind ≠ .endOfLine := by
  cases h with
  | holds h => exact ne_endOfLine_of_plain ((worded_expression true room).plain h)
  | defined h | undefined h => exact ne_endOfLine_of_plain (worded_name.plain h)
  | fileExists | fileMissing => simp

/-! ## Statements -/

theorem wholeStatements_any {options : Options} {inBlock : Bool} {room : Nat}
    {inner : Option Deeper}
    (hinner : ∀ deeper ∈ inner, (∃ room, deeper.condition = expression true room) ∧
      ∀ inBlock, WholeStatements (deeper.statement inBlock)) :
    WholeStatements (IsStatement options inBlock (expression false room) inner) := by
  intro ts a h
  cases h with
  | constant hname h =>
      exact .append (.token rfl (wholeLines_name hname)) (.token rfl (wholeLines_expression h))
  | typedConstant hname htype h =>
      exact .append (.append (.token rfl (wholeLines_name hname))
        (.token rfl (wholeLines_expression htype))) (.token rfl (wholeLines_expression h))
  | group hd hname h =>
      exact .append (.token rfl (wholeLines_name hname))
        (wholeLines_block ((hinner _ hd).2 inBlock) h)
  | assign hname h | append hname h =>
      exact (wholeLines_name hname).append (.token rfl (wholeLines_expression h))
  | expand _ _ hname => exact (wholeLines_name hname).append (.text rfl .nil)
  | choice hd he h =>
      have hblock := wholeLines_block ((hinner _ hd).2 inBlock) h
      exact .append (.token rfl (.token rfl (wholeLines_expression he))) (.token rfl hblock)
  | choiceElse hd he h h' =>
      have hblock := wholeLines_block ((hinner _ hd).2 inBlock) h
      have hother := wholeLines_block ((hinner _ hd).2 inBlock) h'
      exact .append (.append (.token rfl (.token rfl (wholeLines_expression he)))
        (.token rfl hblock)) (.token rfl hother)
  | conditional hd hcondition hbody hclauses =>
      obtain ⟨⟨room, hlanguage⟩, hstatement⟩ := hinner _ hd
      rw [hlanguage] at hcondition hclauses
      rw [List.append_assoc, List.cons_append]
      exact .directive rfl (ne_endOfLine_of_conditional hcondition)
        ((wholeLines_many (hstatement true) hbody).append
          (wholeLines_clauses (hstatement true) hclauses))
  | message =>
      show WholeLines (_ :: [_] ++ ⟨.endOfLine, _⟩ :: [])
      exact .directive rfl (by simp) .nil
  | passage => exact .token rfl .nil

theorem wholeStatements (options : Options) (room : Nat) (inBlock : Bool) :
    WholeStatements (statement options room inBlock) := by
  induction room generalizing inBlock with
  | zero => exact wholeStatements_any nofun
  | succ room ih =>
      refine wholeStatements_any fun deeper hdeeper => ?_
      obtain rfl := Option.mem_some.mp hdeeper
      exact ⟨⟨room, rfl⟩, ih⟩

/-- A program is made of whole lines. -/
theorem wholeLines_program {options : Options} {program : Program}
    (h : IsProgram options ts program) : WholeLines ts :=
  wholeLines_many (wholeStatements options options.maxNestingDepth false) h

end Grammar

end ConfLang
