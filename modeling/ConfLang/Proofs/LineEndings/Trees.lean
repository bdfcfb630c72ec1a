import ConfLang.Proofs.Likeness.Tree
import ConfLang.Proofs.LineEndings.Cursor
import ConfLang.Proofs.Taint

/-!
# Trees without their places

Two sources that differ in the ends of their lines only cannot have the same trees, as spans count
bytes.  What is left of a tree without its spans is what the two have in common (`unplaced`).

Quoted texts are put through a function there.  With the identity this changes nothing else; but
when the reading is tainted, the end of a line may be part of a quoted text, and only a function
that overlooks it sees the same on both sides (`State.Overlooks`).
-/

namespace ConfLang

variable (view : String → String)

/-! ## Trees -/

/-- A name without its place, its text seen through `view` if it is quoted. -/
def Identifier.unplaced (name : Identifier) : Identifier :=
  { name := if name.quoted then view name.name else name.name, quoted := name.quoted }

mutual

/-- An expression without its spans, with its quoted texts seen through `view`. -/
def Expression.unplaced : Expression → Expression
  | .integer value _ => .integer value {}
  | .float value _ => .float value {}
  | .string text _ => .string (view text) {}
  | .array elements _ => .array (Expression.unplacedList elements) {}
  | .name name => .name (name.unplaced view)
  | .negation operand _ => .negation operand.unplaced {}
  | .group inner _ => .group inner.unplaced {}
  | .binary operator left right _ => .binary operator left.unplaced right.unplaced {}
  | .call callee arguments _ => .call callee.unplaced (Argument.unplacedList arguments) {}
  | .member object member _ => .member object.unplaced (member.unplaced view) {}
  | .defined name _ => .defined (name.unplaced view) {}

/-- Expressions without their spans. -/
def Expression.unplacedList : List Expression → List Expression
  | [] => []
  | first :: rest => first.unplaced :: Expression.unplacedList rest

/-- Arguments of a call without their spans. -/
def Argument.unplacedList : List Argument → List Argument
  | [] => []
  | .mk label value :: rest =>
    .mk (label.map (Identifier.unplaced view)) value.unplaced :: Argument.unplacedList rest

end

/-- The condition of a directive without its spans. -/
def Condition.unplaced : Condition → Condition
  | .holds expression => .holds (expression.unplaced view)
  | .defined name => .defined (name.unplaced view)
  | .undefined name => .undefined (name.unplaced view)
  | .fileExists path => .fileExists path
  | .fileMissing path => .fileMissing path

mutual

/-- A statement without its spans, with its quoted texts seen through `view`. -/
def Statement.unplaced : Statement → Statement
  | .constant name type value _ =>
    .constant (name.unplaced view) (type.map (Expression.unplaced view)) (value.unplaced view) {}
  | .group name body _ => .group (name.unplaced view) body.unplaced {}
  | .assign target value _ => .assign (target.unplaced view) (value.unplaced view) {}
  | .append target value _ => .append (target.unplaced view) (value.unplaced view) {}
  | .expand target text _ => .expand (target.unplaced view) text {}
  | .choice condition thenBody elseBody _ =>
    .choice (condition.unplaced view) thenBody.unplaced (Body.unplacedOption elseBody) {}
  | .conditional condition thenBody branches elseBody _ =>
    .conditional (condition.unplaced view) thenBody.unplaced (Branch.unplacedList branches)
      (Body.unplacedOption elseBody) {}
  | .message severity text _ => .message severity text {}
  | .passage text _ => .passage text {}

/-- A body without its spans. -/
def Body.unplaced : Body → Body
  | .mk statements _ => .mk (Statement.unplacedList statements) {}

/-- Statements without their spans. -/
def Statement.unplacedList : List Statement → List Statement
  | [] => []
  | first :: rest => first.unplaced :: Statement.unplacedList rest

/-- A body that may be missing, without its spans. -/
def Body.unplacedOption : Option Body → Option Body
  | none => none
  | some body => some body.unplaced

/-- Branches without their spans. -/
def Branch.unplacedList : List Branch → List Branch
  | [] => []
  | .mk condition body _ :: rest =>
    .mk (condition.unplaced view) body.unplaced {} :: Branch.unplacedList rest

end

/-- A program without its spans, with its quoted texts seen through `view`. -/
def Program.unplaced (program : Program) : Program :=
  ⟨Statement.unplacedList view program.statements⟩

/-! ## What may be overlooked -/

/-- Once a reading is tainted, a carriage return at the end of a text is not seen. -/
def State.Overlooks (s : State) (view : String → String) : Prop :=
  s.Tainted → ∀ text, view (text ++ "\r") = view text

namespace Lasting

variable {s : State}

/-- Two things are the same without their places, as far as a tainted reading lets see. -/
def alikeUnplaced {α : Type} (unplaced : (String → String) → α → α) (first second : α) :
    Lasting where
  holds s := ∀ view, s.Overlooks view → unplaced view second = unplaced view first
  lasts hgrows h view hview := h view fun hbefore => hview (hbefore.of_grows hgrows)

/-- Two texts are the same, but for a carriage return at the end of the second one if the reading
is tainted. -/
def alikeQuoted (first second : String) : Lasting where
  holds s := second = first ∨ s.Tainted ∧ second = first ++ "\r"
  lasts hgrows := Or.imp_right (And.imp_left fun h => h.of_grows hgrows)

theorem view_of_alikeQuoted {view : String → String} {first second : String}
    (h : alikeQuoted first second s) (hview : s.Overlooks view) : view second = view first := by
  rcases h with rfl | ⟨htainted, rfl⟩
  · rfl
  · exact hview htainted first

end Lasting

open Lasting

/-- Names at the same line and column that are the same. -/
def Identifier.alikeUnplaced (first second : Identifier) : Lasting :=
  (sure (first.span.Level second.span)).and (Lasting.alikeUnplaced Identifier.unplaced first second)

/-- Expressions on the same line that are the same. -/
def Expression.alikeUnplaced (first second : Expression) : Lasting :=
  (sure (second.span.line = first.span.line)).and
    (Lasting.alikeUnplaced Expression.unplaced first second)

/-- Statements on the same line that are the same and declare the same name. -/
def Statement.alikeUnplaced (first second : Statement) : Lasting :=
  ((sure (second.span.line = first.span.line)).and
    (option Identifier.alikeUnplaced first.declaredName? second.declaredName?)).and
    (Lasting.alikeUnplaced Statement.unplaced first second)

namespace Lasting

variable {s : State} {view : String → String} {span : Span → Span → Lasting}

theorem name_of_alikeUnplaced {first second : Identifier} (h : first.alikeUnplaced second s) :
    second.name = first.name ∨ s.Tainted := by
  by_cases htainted : s.Tainted
  · exact .inr htainted
  · have hname := congrArg Identifier.name (h.2 id fun h => absurd h htainted)
    simp only [Identifier.unplaced, id_eq, ite_self] at hname
    exact .inl hname

theorem unplaced_option {α : Type} {alike : α → α → Lasting} {unplaced : α → α}
    {first second : Option α} (h : option alike first second s)
    (hsame : ∀ {first second}, alike first second s → unplaced second = unplaced first) :
    second.map unplaced = first.map unplaced := by
  cases first <;> cases second
  · rfl
  · exact h.elim
  · exact h.elim
  · exact congrArg some (hsame h)

theorem unplaced_elements (hview : s.Overlooks view) {first second : List Expression}
    (h : all Expression.alikeUnplaced first second s) :
    Expression.unplacedList view second = Expression.unplacedList view first := by
  rw [all_holds] at h
  induction h with
  | nil => rfl
  | cons hhead _ ih => rw [Expression.unplacedList, Expression.unplacedList, hhead.2 view hview, ih]

theorem unplaced_arguments (hview : s.Overlooks view) {first second : List Argument}
    (h : all (argument Identifier.alikeUnplaced Expression.alikeUnplaced) first second s) :
    Argument.unplacedList view second = Argument.unplacedList view first := by
  rw [all_holds] at h
  induction h with
  | nil => rfl
  | @cons first second _ _ hhead _ ih =>
      obtain ⟨label, value⟩ := first
      obtain ⟨label', value'⟩ := second
      obtain ⟨hlabel, hvalue⟩ := hhead
      have hlabels : label'.map (Identifier.unplaced view) = label.map (Identifier.unplaced view) :=
        unplaced_option hlabel fun h => h.2 view hview
      have hvalues : value'.unplaced view = value.unplaced view := hvalue.2 view hview
      rw [Argument.unplacedList, Argument.unplacedList, ih, hlabels, hvalues]

theorem unplaced_statements (hview : s.Overlooks view) {first second : List Statement}
    (h : all Statement.alikeUnplaced first second s) :
    Statement.unplacedList view second = Statement.unplacedList view first := by
  rw [all_holds] at h
  induction h with
  | nil => rfl
  | cons hhead _ ih => rw [Statement.unplacedList, Statement.unplacedList, hhead.2 view hview, ih]

theorem unplaced_body (hview : s.Overlooks view) {first second : Body}
    (h : body span Statement.alikeUnplaced first second s) :
    second.unplaced view = first.unplaced view := by
  obtain ⟨statements, span⟩ := first
  obtain ⟨statements', span'⟩ := second
  have hsame : Statement.unplacedList view statements' = Statement.unplacedList view statements :=
    unplaced_statements hview h.1
  rw [Body.unplaced, Body.unplaced, hsame]

theorem unplaced_bodyOption (hview : s.Overlooks view) {first second : Option Body}
    (h : option (body span Statement.alikeUnplaced) first second s) :
    Body.unplacedOption view second = Body.unplacedOption view first := by
  cases first <;> cases second
  · rfl
  · exact h.elim
  · exact h.elim
  · rw [Body.unplacedOption, Body.unplacedOption, unplaced_body hview h]

theorem unplaced_branches (hview : s.Overlooks view) {first second : List Branch}
    (h : all (branch span Expression.alikeUnplaced Statement.alikeUnplaced) first second s) :
    Branch.unplacedList view second = Branch.unplacedList view first := by
  rw [all_holds] at h
  induction h with
  | nil => rfl
  | @cons first second _ _ hhead _ ih =>
      obtain ⟨condition, body, span⟩ := first
      obtain ⟨condition', body', span'⟩ := second
      obtain ⟨⟨hcondition, hbody⟩, -⟩ := hhead
      have hconditions : condition'.unplaced view = condition.unplaced view :=
        hcondition.2 view hview
      have hbodies : body'.unplaced view = body.unplaced view := unplaced_body hview hbody
      rw [Branch.unplacedList, Branch.unplacedList, ih, hconditions, hbodies]

theorem unplaced_condition (hview : s.Overlooks view) {text : String → Prop}
    {first second : Condition}
    (h : condition Identifier.alikeUnplaced Expression.alikeUnplaced text first second s) :
    second.unplaced view = first.unplaced view := by
  cases first <;> cases second <;> simp only [condition, sure_holds] at h <;>
    simp only [Condition.unplaced]
  · rw [h.2 view hview]
  · rw [h.2 view hview]
  · rw [h.2 view hview]
  · rw [h.1]
  · rw [h.1]

end Lasting

end ConfLang
