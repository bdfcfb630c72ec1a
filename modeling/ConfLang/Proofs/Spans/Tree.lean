import ConfLang.Proofs.Placement.Text
import ConfLang.Tree.Statement
import Mathlib.Data.List.Basic

/-!
# Trees of spans

Every part of a program has a span, and parts have parts.  A program therefore is a row of trees
of spans.  Such a tree is nested in a source if each of its spans points at a real place of the
source, the spans of the parts lie inside the span of the whole, and parts lie one behind the
other.

Parts are what has a span of its own: expressions, names, statements, bodies and branches.  Raw
text and operators are no parts.
-/

namespace ConfLang

/-- The span of a part of a program, and the trees of its own parts. -/
inductive SpanTree where
  | node (span : Span) (children : List SpanTree)

namespace SpanTree

/-- A part without parts. -/
def leaf (span : Span) : SpanTree :=
  node span []

/-- The span of the whole. -/
def span : SpanTree → Span
  | node span _ => span

/-- The spans of a tree point into a source, each encloses those below it, and siblings come in
the order of the source and share no byte. -/
inductive Nested (source : String) : SpanTree → Prop
  | node {span : Span} {children : List SpanTree} : span.PointsInto source →
    (∀ child ∈ children, Nested source child) →
    (∀ child ∈ children, span.start ≤ child.span.start ∧ child.span.stop ≤ span.stop) →
    children.Pairwise (fun first second => first.span.stop ≤ second.span.start) →
    Nested source (node span children)

end SpanTree

/-! ## The trees of a program -/

/-- The tree of a name. -/
def Identifier.spanTree (name : Identifier) : SpanTree :=
  .leaf name.span

mutual

/-- The tree of an expression. -/
def Expression.spanTree : Expression → SpanTree
  | .integer _ span | .float _ span | .string _ span => .leaf span
  | .array elements span => .node span (Expression.spanTrees elements)
  | .name name => name.spanTree
  | .negation operand span => .node span [operand.spanTree]
  | .group inner span => .node span [inner.spanTree]
  | .binary _ left right span => .node span [left.spanTree, right.spanTree]
  | .call callee arguments span => .node span (callee.spanTree :: Argument.spanTrees arguments)
  | .member object member span => .node span [object.spanTree, member.spanTree]
  | .defined name span => .node span [name.spanTree]

/-- The trees of expressions. -/
def Expression.spanTrees : List Expression → List SpanTree
  | [] => []
  | first :: rest => first.spanTree :: Expression.spanTrees rest

/-- The trees of arguments, each with its label in front of it. -/
def Argument.spanTrees : List Argument → List SpanTree
  | [] => []
  | .mk label value :: rest =>
    label.toList.map Identifier.spanTree ++ value.spanTree :: Argument.spanTrees rest

end

/-- The tree of what is asked in a condition.  A path is no part. -/
def Condition.spanTrees : Condition → List SpanTree
  | holds expression => [expression.spanTree]
  | defined name | undefined name => [name.spanTree]
  | fileExists _ | fileMissing _ => []

mutual

/-- The tree of a statement. -/
def Statement.spanTree : Statement → SpanTree
  | .constant name type value span =>
    .node span (name.spanTree :: type.toList.map Expression.spanTree ++ [value.spanTree])
  | .group name body span => .node span [name.spanTree, body.spanTree]
  | .assign target value span | .append target value span =>
    .node span [target.spanTree, value.spanTree]
  | .expand target _ span => .node span [target.spanTree]
  | .choice condition thenBody elseBody span =>
    .node span (condition.spanTree :: thenBody.spanTree :: Body.optionTrees elseBody)
  | .conditional condition thenBody branches elseBody span =>
    .node span (condition.spanTrees ++ thenBody.spanTree ::
      (Branch.spanTrees branches ++ Body.optionTrees elseBody))
  | .message _ _ span | .passage _ span => .leaf span

/-- The tree of a body. -/
def Body.spanTree : Body → SpanTree
  | .mk statements span => .node span (Statement.spanTrees statements)

/-- The tree of a body that need not be there. -/
def Body.optionTrees : Option Body → List SpanTree
  | none => []
  | some body => [body.spanTree]

/-- The trees of statements. -/
def Statement.spanTrees : List Statement → List SpanTree
  | [] => []
  | first :: rest => first.spanTree :: Statement.spanTrees rest

/-- The trees of branches. -/
def Branch.spanTrees : List Branch → List SpanTree
  | [] => []
  | .mk condition body span :: rest =>
    .node span [condition.spanTree, body.spanTree] :: Branch.spanTrees rest

end

@[simp] theorem Expression.span_spanTree (e : Expression) : e.spanTree.span = e.span := by
  cases e <;> rfl

@[simp] theorem Statement.span_spanTree (statement : Statement) :
    statement.spanTree.span = statement.span := by
  cases statement <;> rfl

@[simp] theorem Body.span_spanTree (body : Body) : body.spanTree.span = body.span := by
  cases body
  rfl

theorem Expression.spanTrees_append (first second : List Expression) :
    Expression.spanTrees (first ++ second) =
      Expression.spanTrees first ++ Expression.spanTrees second := by
  induction first with
  | nil => rfl
  | cons e rest ih => simp only [List.cons_append, spanTrees, ih]

theorem Argument.spanTrees_append (first second : List Argument) :
    Argument.spanTrees (first ++ second) =
      Argument.spanTrees first ++ Argument.spanTrees second := by
  induction first with
  | nil => rfl
  | cons argument rest ih =>
      obtain ⟨label, value⟩ := argument
      simp only [List.cons_append, spanTrees, ih, List.append_assoc]

theorem Statement.spanTrees_eq (statements : List Statement) :
    Statement.spanTrees statements = statements.map Statement.spanTree := by
  induction statements with
  | nil => rfl
  | cons statement rest ih => rw [spanTrees, ih, List.map_cons]

theorem Branch.spanTrees_append (first second : List Branch) :
    Branch.spanTrees (first ++ second) = Branch.spanTrees first ++ Branch.spanTrees second := by
  induction first with
  | nil => rfl
  | cons branch rest ih =>
      obtain ⟨condition, body, span⟩ := branch
      simp only [List.cons_append, spanTrees, ih]

/-! ## Rows of trees -/

/-- Nested trees lie one behind the other between two places of a source. -/
structure InSequence (source : String) (first : Nat) (trees : List SpanTree) (last : Nat) : Prop where
  le : first ≤ last
  nested : ∀ tree ∈ trees, tree.Nested source
  inside : ∀ tree ∈ trees, first ≤ tree.span.start ∧ tree.span.stop ≤ last
  increasing : trees.Pairwise fun earlier later => earlier.span.stop ≤ later.span.start

theorem SpanTree.Nested.pointsInto {source : String} {tree : SpanTree} (h : tree.Nested source) :
    tree.span.PointsInto source := by
  cases h
  assumption

namespace InSequence

variable {source : String} {first middle last first' last' : Nat} {trees others : List SpanTree}

theorem nil (h : first ≤ last) : InSequence source first [] last :=
  ⟨h, nofun, nofun, .nil⟩

theorem leaf {span : Span} (h : span.PointsInto source) (hfirst : first ≤ span.start)
    (hlast : span.stop ≤ last) : InSequence source first [.leaf span] last where
  le := hfirst.trans (h.start_le_stop.trans hlast)
  nested := by
    intro tree htree
    rw [List.mem_singleton.mp htree]
    exact .node h nofun nofun .nil
  inside := by
    intro tree htree
    rw [List.mem_singleton.mp htree]
    exact ⟨hfirst, hlast⟩
  increasing := List.pairwise_singleton _ _

theorem mono (h : InSequence source first trees last) (hlast : last ≤ last') :
    InSequence source first trees last' where
  le := h.le.trans hlast
  nested := h.nested
  inside := fun tree htree => ⟨(h.inside tree htree).1, (h.inside tree htree).2.trans hlast⟩
  increasing := h.increasing

theorem append (h : InSequence source first trees middle)
    (h' : InSequence source middle others last) : InSequence source first (trees ++ others) last where
  le := h.le.trans h'.le
  nested := by
    intro tree htree
    rcases List.mem_append.mp htree with htree | htree
    · exact h.nested tree htree
    · exact h'.nested tree htree
  inside := by
    intro tree htree
    rcases List.mem_append.mp htree with htree | htree
    · exact ⟨(h.inside tree htree).1, (h.inside tree htree).2.trans h'.le⟩
    · exact ⟨h.le.trans (h'.inside tree htree).1, (h'.inside tree htree).2⟩
  increasing := List.pairwise_append.mpr ⟨h.increasing, h'.increasing,
    fun earlier hearlier later hlater =>
      (h.inside earlier hearlier).2.trans (h'.inside later hlater).1⟩

/-- Behind its first tree a row goes on. -/
theorem tail {tree : SpanTree} (h : InSequence source first (tree :: trees) last) :
    InSequence source tree.span.stop trees last where
  le := (h.inside tree List.mem_cons_self).2
  nested := fun other hother => h.nested other (List.mem_cons_of_mem _ hother)
  inside := fun other hother => ⟨(List.pairwise_cons.mp h.increasing).1 other hother,
    (h.inside other (List.mem_cons_of_mem _ hother)).2⟩
  increasing := h.increasing.tail

/-- Trees may be left out of a row. -/
theorem sublist (h : InSequence source first trees last) (hsub : others.Sublist trees) :
    InSequence source first others last where
  le := h.le
  nested := fun tree htree => h.nested tree (hsub.subset htree)
  inside := fun tree htree => h.inside tree (hsub.subset htree)
  increasing := h.increasing.sublist hsub

/-- The first tree of a row begins in front of all others, and the last one ends behind them. -/
theorem between {front back : SpanTree} (h : InSequence source first trees last)
    (hfront : trees.head? = some front) (hback : trees.getLast? = some back) :
    ∀ tree ∈ trees, front.span.start ≤ tree.span.start ∧ tree.span.stop ≤ back.span.stop := by
  have hle {tree : SpanTree} (htree : tree ∈ trees) : tree.span.start ≤ tree.span.stop :=
    (h.nested tree htree).pointsInto.start_le_stop
  have hincreasing := h.increasing
  intro tree htree
  constructor
  · obtain ⟨rest, rfl⟩ := List.head?_eq_some_iff.mp hfront
    rcases List.mem_cons.mp htree with rfl | hrest
    · exact Nat.le_refl _
    · exact (hle List.mem_cons_self).trans ((List.pairwise_cons.mp hincreasing).1 tree hrest)
  · obtain ⟨rest, rfl⟩ := List.getLast?_eq_some_iff.mp hback
    rcases List.mem_append.mp htree with hrest | hlast
    · have hbefore :=
        (List.pairwise_append.mp hincreasing).2.2 tree hrest back (List.mem_singleton_self _)
      exact hbefore.trans (hle (List.mem_append_right _ (List.mem_singleton_self _)))
    · rw [List.mem_singleton.mp hlast]

/-- A row becomes one tree if it is put under the span from its first tree through its last one,
whatever is left out of it. -/
theorem enclose {front : SpanTree} {span : Span} (h : InSequence source first trees last)
    (back : SpanTree) (hfront : trees.head? = some front) (hback : trees.getLast? = some back)
    (hspan : span = front.span.through back.span) (hsub : others.Sublist trees) :
    InSequence source first [.node span others] last := by
  have hbetween := h.between hfront hback
  have hfront' : front ∈ trees := List.mem_of_head? hfront
  have hback' : back ∈ trees := List.mem_of_getLast? hback
  have hpoints := (h.nested front hfront').pointsInto.through (h.nested back hback').pointsInto
  have hstop : max back.span.stop front.span.stop ≤ last :=
    Nat.max_le.mpr ⟨(h.inside back hback').2, (h.inside front hfront').2⟩
  rw [hspan]
  refine ⟨h.le, ?_, ?_, List.pairwise_singleton _ _⟩
  · intro tree htree
    rw [List.mem_singleton.mp htree]
    refine .node hpoints (fun child hchild => h.nested child (hsub.subset hchild))
      (fun child hchild => ?_)
      (h.increasing.sublist hsub)
    obtain ⟨hstart, hstop⟩ := hbetween child (hsub.subset hchild)
    exact ⟨hstart, hstop.trans (Nat.le_max_left _ _)⟩
  · intro tree htree
    rw [List.mem_singleton.mp htree]
    exact ⟨(h.inside front hfront').1, hstop⟩

/-- A row can be taken apart anywhere. -/
theorem split (h : InSequence source first (trees ++ others) last) :
    ∃ middle, InSequence source first trees middle ∧ InSequence source middle others last := by
  obtain ⟨hfirst, hbehind, hcross⟩ := List.pairwise_append.mp h.increasing
  have hhead := h.sublist (List.sublist_append_left trees others)
  have hothers := h.sublist (List.sublist_append_right trees others)
  cases hback : trees.getLast? with
  | none =>
      obtain rfl := List.getLast?_eq_none_iff.mp hback
      exact ⟨first, .nil (Nat.le_refl _), hothers⟩
  | some back =>
      have hmem : back ∈ trees := List.mem_of_getLast? hback
      obtain ⟨front, hfront⟩ := Option.isSome_iff_exists.mp
        (List.isSome_head?.mpr (List.ne_nil_of_mem hmem))
      have hpoints := (hhead.nested back hmem).pointsInto.start_le_stop
      refine ⟨back.span.stop, ⟨(hhead.inside back hmem).1.trans hpoints, hhead.nested,
        fun tree htree => ⟨(hhead.inside tree htree).1, (hhead.between hfront hback tree htree).2⟩,
        hfirst⟩,
        ⟨(hhead.inside back hmem).2, hothers.nested,
        fun tree htree => ⟨hcross back hmem tree htree, (hothers.inside tree htree).2⟩, hbehind⟩⟩

/-- Only the trees at the end of a row are put under a span. -/
theorem enclose_behind {front : SpanTree} {span : Span} {parts : List SpanTree}
    (h : InSequence source first (trees ++ others) last) (back : SpanTree)
    (hfront : others.head? = some front) (hback : others.getLast? = some back)
    (hspan : span = front.span.through back.span) (hsub : parts.Sublist others) :
    InSequence source first (trees ++ [.node span parts]) last := by
  obtain ⟨middle, hhead, hbehind⟩ := h.split
  exact hhead.append (hbehind.enclose back hfront hback hspan hsub)

end InSequence

end ConfLang
