import ConfLang.Proofs.Grammar.Language
import ConfLang.Proofs.Grammar.Scan

/-!
# The tokens of expressions

An expression is never empty, and its first token tells that it is one.  All its tokens stay
on the line they are on as far as directives are concerned: none of them is the end of a
directive line, or begins one.
-/

namespace ConfLang

namespace TokenKind

/-- Whether a token can stand inside an expression or a name. -/
def isPlain : TokenKind → Bool
  | symbol .openBrace | symbol .closeBrace => false
  | integer _ | float _ | string _ | name _ _ | keyword _ | symbol _ => true
  | _ => false

/-- Whether something primary can begin with a token. -/
def beginsPrimary : TokenKind → Bool
  | integer _ | float _ | string _ | name _ _ => true
  | symbol sign => sign = .openParen ∨ sign = .openBracket
  | _ => false

/-- Whether an expression can begin with a token. -/
def beginsExpression (kind : TokenKind) : Bool :=
  kind = .symbol .bang || kind.beginsPrimary

/-- Whether an element of a list or an argument of a call can begin with a token. -/
def beginsItem (kind : TokenKind) : Bool :=
  kind = .symbol .dot || kind.beginsExpression

theorem isPlain_operator (operator : Operator) : (symbol operator.symbol).isPlain = true := by
  cases operator <;> rfl

theorem isScanned_of_isPlain {kind : TokenKind} (h : kind.isPlain = true) :
    kind.isScanned = true ∧ kind ≠ .endOfLine := by
  cases kind <;> simp_all [isPlain, isScanned]

end TokenKind

namespace Cursor

variable {cursor after : Cursor} {ts : List Token}

/-- On the way over plain tokens the line of a directive goes on. -/
theorem Scans.isDirective (h : cursor.Scans ts after)
    (hplain : ∀ token ∈ ts, token.kind.isPlain = true) :
    after.mode.isDirective = cursor.mode.isDirective := by
  induction ts generalizing cursor with
  | nil =>
      cases h
      rfl
  | cons token rest ih =>
      rw [List.forall_mem_cons] at hplain
      obtain ⟨hscanned, hline⟩ := TokenKind.isScanned_of_isPlain hplain.1
      obtain ⟨hshows, hrest⟩ := h.shows hscanned hline
      have hstep := isDirective_next (hshows.token ▸ hshows.kind) (hshows.token ▸ hline)
      have hstarts : token.kind.startsDirectiveLine = false := by
        cases hkind : token.kind <;> simp_all [TokenKind.isPlain, TokenKind.startsDirectiveLine]
      rw [hshows.token, hstarts, Bool.or_false] at hstep
      exact (ih hrest hplain.2).trans hstep

end Cursor

namespace Grammar

variable {α : Type}

/-- All tokens of a language are plain, and the first one is of some kinds. -/
structure Worded (begins : TokenKind → Bool) (language : Language α) : Prop where
  begins : ∀ {ts a}, language ts a → ∃ token rest, ts = token :: rest ∧ begins token.kind = true
  plain : ∀ {ts a}, language ts a → ∀ token ∈ ts, token.kind.isPlain = true

variable {begins : TokenKind → Bool} {language : Language α} {ts : List Token} {a : α}
  {inCondition : Bool} {inner : Option (Language Expression)}

/-- The first token stands in the source. -/
theorem Worded.shows (hl : Worded begins language) (h : language ts a) {c c' : Cursor}
    (hscan : c.Scans ts c') : ∃ token, c.Shows token ∧ begins token.kind = true := by
  obtain ⟨token, rest, rfl, hbegins⟩ := hl.begins h
  obtain ⟨hscanned, hline⟩ := TokenKind.isScanned_of_isPlain (hl.plain h token List.mem_cons_self)
  exact ⟨token, (hscan.shows hscanned hline).1, hbegins⟩

theorem Worded.imp {begins' : TokenKind → Bool} (hl : Worded begins language)
    (himp : ∀ kind, begins kind = true → begins' kind = true) : Worded begins' language where
  begins h := by
    obtain ⟨token, rest, rfl, hbegins⟩ := hl.begins h
    exact ⟨token, rest, rfl, himp _ hbegins⟩
  plain := hl.plain

theorem Worded.expression (hl : Worded TokenKind.beginsPrimary language) :
    Worded TokenKind.beginsExpression language :=
  hl.imp fun _ h => by simp [TokenKind.beginsExpression, h]

theorem Worded.item (hl : Worded TokenKind.beginsExpression language) :
    Worded TokenKind.beginsItem language :=
  hl.imp fun _ h => by simp [TokenKind.beginsItem, h]

theorem worded_name : Worded TokenKind.beginsPrimary Name where
  begins h := by
    cases h
    exact ⟨_, _, rfl, rfl⟩
  plain h := by
    cases h
    simp [TokenKind.isPlain]

theorem plain_items (hl : Worded begins language) {as : List α} (h : Items language ts as) :
    ∀ token ∈ ts, token.kind.isPlain = true := by
  induction h with
  | nil => simp
  | last h => exact hl.plain h
  | cons h _ ih =>
      rw [List.forall_mem_append, List.forall_mem_cons]
      exact ⟨hl.plain h, rfl, ih⟩

theorem worded_binary {operand : Language Expression} {least : Nat}
    (hl : Worded TokenKind.beginsExpression operand) :
    Worded TokenKind.beginsExpression (Binary operand least) where
  begins h := by
    induction h with
    | operand h => exact hl.begins h
    | operation _ _ _ ih _ =>
        obtain ⟨token, rest, rfl, hbegins⟩ := ih
        exact ⟨token, _, rfl, hbegins⟩
  plain h := by
    induction h with
    | operand h => exact hl.plain h
    | operation _ _ _ ih ih' =>
        rw [List.forall_mem_append, List.forall_mem_cons]
        exact ⟨ih, TokenKind.isPlain_operator _, ih'⟩

theorem worded_labelledArgument {expression : Language Expression}
    (hl : Worded TokenKind.beginsExpression expression) :
    Worded TokenKind.beginsItem (LabelledArgument expression) where
  begins h := by
    cases h with
    | positional h => exact hl.item.begins h
    | labelled _ h => exact ⟨_, _, rfl, rfl⟩
  plain h := by
    cases h with
    | positional h => exact hl.plain h
    | labelled hname h =>
        rw [List.cons_append, List.forall_mem_cons, List.forall_mem_append, List.forall_mem_cons]
        exact ⟨rfl, worded_name.plain hname, rfl, hl.plain h⟩

theorem worded_primary (hl : ∀ language ∈ inner, Worded TokenKind.beginsExpression language) :
    Worded TokenKind.beginsPrimary (Primary inCondition inner) where
  begins h := by
    cases h with
    | name h => exact worded_name.begins h
    | _ => exact ⟨_, _, rfl, rfl⟩
  plain h := by
    have hitem {language : Language Expression} (h : language ∈ inner) := hl language h
    cases h with
    | name h => exact worded_name.plain h
    | defined _ h =>
        simp only [List.cons_append, List.forall_mem_cons, List.forall_mem_append]
        exact ⟨rfl, rfl, worded_name.plain h, rfl, nofun⟩
    | group hinner h =>
        simp only [List.cons_append, List.forall_mem_cons, List.forall_mem_append]
        exact ⟨rfl, (hitem hinner).plain h, rfl, nofun⟩
    | array hinner h =>
        simp only [List.cons_append, List.forall_mem_cons, List.forall_mem_append]
        exact ⟨rfl, plain_items (hitem hinner) h, rfl, nofun⟩
    | _ => simp [TokenKind.isPlain]

theorem worded_suffixed (hl : ∀ language ∈ inner, Worded TokenKind.beginsExpression language) :
    Worded TokenKind.beginsPrimary (Suffixed inCondition inner) where
  begins h := by
    induction h with
    | primary h => exact (worded_primary hl).begins h
    | member _ _ ih =>
        obtain ⟨token, rest, rfl, hbegins⟩ := ih
        exact ⟨token, _, rfl, hbegins⟩
    | call _ _ _ _ ih =>
        obtain ⟨token, rest, rfl, hbegins⟩ := ih
        exact ⟨token, _, rfl, hbegins⟩
  plain h := by
    induction h with
    | primary h => exact (worded_primary hl).plain h
    | member _ hname ih =>
        rw [List.forall_mem_append, List.forall_mem_cons]
        exact ⟨ih, rfl, worded_name.plain hname⟩
    | call hinner _ _ h ih =>
        have hitems := plain_items (worded_labelledArgument (hl _ hinner)) h
        simp only [List.cons_append, List.append_assoc, List.forall_mem_cons,
          List.forall_mem_append]
        exact ⟨ih, rfl, hitems, rfl, nofun⟩

theorem worded_anyOperand
    (hl : ∀ language ∈ inner, Worded TokenKind.beginsExpression language) :
    Worded TokenKind.beginsExpression (Operand inCondition inner) := by
  have hsuffixed : Worded TokenKind.beginsPrimary (Suffixed inCondition
      (inner.map fun operand => Binary operand Operator.lowestPrecedence)) := by
    refine worded_suffixed fun language h => ?_
    obtain ⟨operand, hoperand, rfl⟩ := Option.map_eq_some_iff.mp h
    exact worded_binary (hl operand hoperand)
  constructor
  · intro ts a h
    cases h with
    | negation => exact ⟨_, _, rfl, rfl⟩
    | suffixed h => exact hsuffixed.expression.begins h
  · intro ts a h
    cases h with
    | negation hinner h =>
        rw [List.forall_mem_cons]
        exact ⟨rfl, (hl _ hinner).plain h⟩
    | suffixed h => exact hsuffixed.plain h

theorem worded_operand (inCondition : Bool) (room : Nat) :
    Worded TokenKind.beginsExpression (operand inCondition room) := by
  induction room with
  | zero => exact worded_anyOperand nofun
  | succ room ih =>
      refine worded_anyOperand fun language h => ?_
      obtain rfl := Option.mem_some.mp h
      exact ih

theorem worded_expression (inCondition : Bool) (room : Nat) :
    Worded TokenKind.beginsExpression (expression inCondition room) :=
  worded_binary (worded_operand inCondition room)

theorem ignored_nil : Ignored [] :=
  fun _ hmem => absurd hmem List.not_mem_nil

end Grammar

end ConfLang
