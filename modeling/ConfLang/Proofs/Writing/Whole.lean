import ConfLang.Proofs.Writing.Quiet
import ConfLang.Proofs.Writing.RoundTrip

/-!
# Expressions are read again as a whole

A source that is nothing but an expression is read as that expression, whichever way the tree was
made, and so is the condition behind `%if`.  All of the source is read then, and nothing is
reported: neither errors nor warnings.

What can be written is known from `Expression.IsWritable`.  Its integers and floating-point numbers
have no sign, as there is no sign in front of numbers in the language, and a negative zero would be
written with one.  Its names and strings can be quoted.  It may ask whether a name is defined where
it is a condition, and nowhere else.

## Strategy

That the grammar derives the tree from the tokens of its source, and that it is read then without an
error, is known from `Expression.IsWritable.rereadable` and `covers_expression`.  This view of a
reading forgets the warnings.  That there are none of them is known from following the tokens
(`consumes_expression`).
-/

namespace ConfLang

open Reading Cursor Grammar

/-! ## Expressions that ask nothing -/

mutual

/-- Where an expression does not ask whether names are defined, it does not matter whether it could
do so. -/
theorem Expression.IsWritable.elsewhere : ∀ {e : Expression}, e.IsWritable true →
    e.belongs false = true → e.IsWritable false
  | .integer _ _, h, _ | .float _ _, h, _ | .string _ _, h, _ | .name _, h, _ => h
  | .array _ _, h, hbelongs => Expression.IsWritableList.elsewhere h hbelongs
  | .negation e _, h, hbelongs => Expression.IsWritable.elsewhere (e := e) h hbelongs
  | .group e _, h, hbelongs => Expression.IsWritable.elsewhere (e := e) h hbelongs
  | .binary _ _ _ _, h, hbelongs =>
    have hparts := Bool.and_eq_true_iff.mp hbelongs
    ⟨Expression.IsWritable.elsewhere h.1 hparts.1, Expression.IsWritable.elsewhere h.2 hparts.2⟩
  | .call _ _ _, h, hbelongs =>
    have hparts := Bool.and_eq_true_iff.mp hbelongs
    ⟨Expression.IsWritable.elsewhere h.1 hparts.1,
      Argument.IsWritableList.elsewhere h.2 hparts.2⟩
  | .member _ _ _, h, hbelongs => ⟨Expression.IsWritable.elsewhere h.1 hbelongs, h.2⟩

theorem Expression.IsWritableList.elsewhere : ∀ {elements : List Expression},
    Expression.IsWritableList true elements → Expression.belongsList false elements = true →
      Expression.IsWritableList false elements
  | [], _, _ => trivial
  | _ :: _, h, hbelongs =>
    have hparts := Bool.and_eq_true_iff.mp hbelongs
    ⟨Expression.IsWritable.elsewhere h.1 hparts.1,
      Expression.IsWritableList.elsewhere h.2 hparts.2⟩

theorem Argument.IsWritableList.elsewhere : ∀ {arguments : List Argument},
    Argument.IsWritableList true arguments → Argument.belongsList false arguments = true →
      Argument.IsWritableList false arguments
  | [], _, _ => trivial
  | .mk _ _ :: _, h, hbelongs =>
    have hparts := Bool.and_eq_true_iff.mp hbelongs
    ⟨h.1, Expression.IsWritable.elsewhere h.2.1 hparts.1,
      Argument.IsWritableList.elsewhere h.2.2 hparts.2⟩

end

/-! ## In the condition of a block -/

section

variable {options : Options} {e again : Expression} {ts : List Token} {c middle : Cursor}
  {opened close : Span}

/-- The source of a block that has a condition and nothing else. -/
def Expression.block (e : Expression) : String :=
  "%if " ++ e.source ++ "\n%endif\n"

/-- Such a block is all that stands behind a cursor, with some tokens as its condition. -/
structure Cursor.ShowsBlock (c : Cursor) (opened : Span) (ts : List Token) (middle : Cursor)
    (close : Span) : Prop where
  opener : c.Shows ⟨.opener .holds, opened⟩
  condition : c.next.cursor.Scans ts middle
  endOfCondition : ∃ line, middle.Shows ⟨.endOfLine, line⟩
  mark : middle.next.cursor.Shows ⟨.mark .endif, close⟩
  endOfMark : ∃ line, middle.next.cursor.next.cursor.Shows ⟨.endOfLine, line⟩
  atEnd : middle.next.cursor.next.cursor.next.cursor.AtEnd

theorem Expression.IsWritable.showsBlock {room : Nat} (h : e.IsWritable true)
    (hroom : e.writtenHeight ≤ room) :
    ∃ opened ts middle close again, (Cursor.ofSource e.block).ShowsBlock opened ts middle close ∧
      expression true room ts again ∧ again.erased = e.erased := by
  have hline : (Cursor.ofSource e.block).AtLine
      ('%' :: ("if".toList ++ ' ' :: (e.source.toList ++ '\n' ::
        ('%' :: ("endif".toList ++ ['\n']))))) :=
    ⟨rfl, [], by simp [Cursor.ofSource, block], nofun, rfl⟩
  obtain ⟨opened, hopened, hrest, hdirective⟩ :=
    hline.directive (ofDirective?_word .holds) (by decide) rfl (by simp [Text.isWordPart])
  have hcondition : (Condition.holds e).Rereadable := h.rereadable
  obtain ⟨ts, middle, again, hcrosses, hlanguage, hlike⟩ := hcondition.rereads hroom hrest
  obtain ⟨line, hends, hbehind⟩ := endOfLine_of_rest (hcrosses.line.trans hdirective) hcrosses.rest
  have hendif : TokenKind.ofDirective? "endif" = some (.mark .endif) := by decide
  obtain ⟨close, hmark, hrest', hdirective'⟩ :=
    hbehind.directive hendif (by decide) rfl (by simp [Text.isWordPart])
  obtain ⟨line', hends', hlast⟩ := endOfLine_of_rest hdirective' hrest'
  obtain ⟨hopened, -⟩ := hopened.shows_last rfl (by simp)
  obtain ⟨hmark, -⟩ := hmark.shows_last rfl (by simp)
  cases hlanguage with
  | @holds _ again hexpression =>
      exact ⟨opened, ts, middle, close, again,
        ⟨hopened, hcrosses.scans, ⟨line, hends⟩, hmark, ⟨line', hends'⟩, hlast.atEnd⟩, hexpression,
        Condition.holds.inj hlike.erased⟩

/-- With room for the block and its condition, the whole source is read as a block. -/
theorem Cursor.ShowsBlock.givesQuietly {room : Nat} (h : c.ShowsBlock opened ts middle close)
    (hlimit : options.maxNestingDepth = room + 1) (hcondition : expression true room ts again) :
    GivesQuietly options {} c 0 wholeProgram middle.next.cursor.next.cursor.next.cursor 1
      ⟨[.conditional (.holds again) (.mk [] close.origin) [] none (opened.through close)]⟩ := by
  obtain ⟨line, hends⟩ := h.endOfCondition
  obtain ⟨line', hends'⟩ := h.endOfMark
  have hroom : (Nesting.deeper {}).conditional.depth + room = options.maxNestingDepth := by
    rw [hlimit]
    exact Nat.add_comm 1 room
  have hline := (gives_conditionLine (n := Nesting.deeper {}) rfl (covers_expression hroom)
    (.holds hcondition) h.condition (.inl ⟨_, hends, rfl, rfl⟩) opened).quietly
    (quiet_conditionLine opened (room + 1))
  -- each part of the block begins in front of the next one, so the block ends behind its start
  have hless := hends'.left_lt.trans (h.mark.left_lt.trans (hends.left_lt.trans_le
    (h.condition.left_le.trans h.opener.left_lt.le)))
  refine givesQuietly_get fun s hoptions hnesting => ?_
  rw [State.levels_of_start hoptions hnesting, hlimit]
  refine givesQuietly_program h.opener ?_ h.atEnd hless rfl
  refine GivesQuietly.bind (givesQuietly_shown h.opener (Nat.le_refl 1)) ?_
  exact givesQuietly_conditionalFrom (hlimit ▸ Nat.zero_lt_succ room) h.opener hline h.mark hends'
    (Nat.le_refl 1)

/-! ## Alone -/

theorem Expression.IsWritable.gives_alone (h : e.IsWritable false)
    (hroom : e.writtenHeight ≤ options.maxNestingDepth) :
    ∃ last again, GivesQuietly options {} (.ofSource e.source) 0
        (nextExpression Operator.lowestPrecedence) last 1 again ∧
      last.AtEnd ∧ again.erased = e.erased := by
  have hfaces : (Cursor.ofSource e.source).Faces (e.source.toList ++ []) :=
    faces_of_rest (List.append_nil _).symm
  obtain ⟨ts, last, again, hcrosses, hlanguage, hlike⟩ :=
    h.rereadable.operand hroom hfaces ⟨by simp, by simp⟩
  have hend : last.AtEnd := atEnd_of_rest_nil hcrosses.rest
  have hends : last.next.token.kind.EndsExpression := by
    simp [hend.1, TokenKind.EndsExpression, TokenKind.EndsChain, TokenKind.EndsOperand,
      Operator.ofToken?]
  refine ⟨last, again, givesQuietly_get fun s hoptions hnesting => ?_, hend, hlike.erased⟩
  rw [State.levels_of_start hoptions hnesting]
  exact (covers_expression (n := {}) (Nat.zero_add _) (expression_of_operand hlanguage)
    hcrosses.scans (.inr hend.2) hends (Nat.zero_le 1)).quietly (quiet_expression _ _)

/-! ## Main result -/

/-- All of a source was read, and nothing was reported. -/
structure State.IsDone (s : State) : Prop where
  atEnd : s.peeked.1.kind = .endOfFile
  silent : s.peeked.2.diagnostics = #[]

theorem Expression.IsWritable.parseWith_block (h : e.IsWritable true)
    (hroom : e.writtenHeight < options.maxNestingDepth) :
    (parseWith options e.block).diagnostics = [] ∧ (parseWith options e.block).program.erased =
      ⟨[.conditional (.holds e.erased) (.mk [] {}) [] none {}]⟩ := by
  obtain ⟨room, hlimit⟩ := Nat.exists_eq_add_one.mpr (Nat.zero_lt_of_lt hroom)
  obtain ⟨opened, ts, middle, close, again, hshows, hcondition, herased⟩ :=
    h.showsBlock (Nat.le_of_lt_succ (hlimit ▸ hroom))
  obtain ⟨j, hj, s', hs', hwarnings, hrun⟩ := (hshows.givesQuietly hlimit hcondition).ofSource
  have hsilent := silent_of_sees hs' hj hshows.atEnd hwarnings
  rw [parseWith, run_of_ok hrun]
  refine ⟨congrArg Array.toList hsilent, ?_⟩
  change Program.mk [.conditional (.holds again.erased) (.mk [] {}) [] none {}] = _
  rw [herased]

theorem Expression.IsWritable.run_nextExpression (h : e.IsWritable false)
    (hroom : e.writtenHeight ≤ options.maxNestingDepth) :
    ∃ again s', (nextExpression Operator.lowestPrecedence).run (.ofSource e.source options) =
      (.ok again, s') ∧ s'.IsDone ∧ again.erased = e.erased := by
  obtain ⟨last, again, hgives, hend, herased⟩ := h.gives_alone hroom
  obtain ⟨j, hj, s', hs', hwarnings, hrun⟩ := hgives.ofSource
  obtain ⟨htoken, hpeeked⟩ := hs'.peeked fun _ => .inr hend.2
  have hsilent := silent_of_sees hpeeked (max_le hj (Nat.le_refl 1)) hend
    (s'.warnings_peeked.trans hwarnings)
  exact ⟨again, s', run_of_ok hrun, ⟨htoken ▸ hend.1, hsilent⟩, herased⟩

end

end ConfLang
