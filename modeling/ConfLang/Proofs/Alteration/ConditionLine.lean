import ConfLang.Proofs.Alteration.Text
import ConfLang.Proofs.Alteration.Trees
import ConfLang.Proofs.Relocation.Lines

/-!
# The lines of conditions among tokens

Each directive with a condition in a program has a line of its own among the tokens of the program:
its first token, what the condition is read from, and the end of the line.  Something comes behind
that line, since the block is closed further on, so the line is ended by a line feed of the source.

The directives of a program come in the order of their tokens (`LinesIn`), so no two of them begin
at the same offset.
-/

namespace ConfLang

namespace ConditionLine

/-- The first token of the line. -/
def token (line : ConditionLine) : TokenKind :=
  match line.kind with
  | some kind => .opener kind
  | none => .mark .elif

/-- How that token is written. -/
def directive (line : ConditionLine) : String :=
  match line.kind with
  | some kind => kind.directive
  | none => Mark.elif.directive

/-- The line stands among tokens, and a token that is found by itself comes behind it. -/
def IsIn (line : ConditionLine) (ts : List Token) : Prop :=
  ∃ first start words lineEnd next rest,
    ts = first ++ (start :: words ++ ⟨.endOfLine, lineEnd⟩ :: next :: rest) ∧
      start.kind = line.token ∧ start.span.start = line.start ∧
      (∀ other ∈ words, other.kind ≠ .endOfLine) ∧
      next.kind.isScanned = true ∧ next.kind ≠ .endOfLine

variable {line : ConditionLine} {ts xs ys : List Token}

theorem IsIn.append_left (h : line.IsIn ys) : line.IsIn (xs ++ ys) := by
  obtain ⟨first, start, words, lineEnd, next, rest, rfl, h⟩ := h
  exact ⟨xs ++ first, start, words, lineEnd, next, rest, (List.append_assoc _ _ _).symm, h⟩

theorem IsIn.append_right (h : line.IsIn xs) : line.IsIn (xs ++ ys) := by
  obtain ⟨first, start, words, lineEnd, next, rest, rfl, h⟩ := h
  exact ⟨first, start, words, lineEnd, next, rest ++ ys, by simp, h⟩

end ConditionLine

/-- Where the tokens begin behind which a condition stands. -/
def conditionStarts (ts : List Token) : List Nat :=
  (ts.filter (·.kind.opensCondition)).map (·.span.start)

theorem conditionStarts_append (xs ys : List Token) :
    conditionStarts (xs ++ ys) = conditionStarts xs ++ conditionStarts ys := by
  rw [conditionStarts, List.filter_append, List.map_append]
  rfl

/-- All of these lines stand among tokens, in the same order. -/
structure LinesIn (ts : List Token) (lines : List ConditionLine) : Prop where
  isIn : ∀ line ∈ lines, line.IsIn ts
  starts : (lines.map (·.start)).Sublist (conditionStarts ts)

namespace LinesIn

variable {ts xs ys : List Token} {line : ConditionLine} {lines others : List ConditionLine}

theorem nil : LinesIn ts [] :=
  ⟨nofun, List.nil_sublist _⟩

theorem append (h : LinesIn xs lines) (h' : LinesIn ys others) :
    LinesIn (xs ++ ys) (lines ++ others) where
  isIn line hmem := (List.mem_append.mp hmem).elim (fun hmem => (h.isIn line hmem).append_right)
    fun hmem => (h'.isIn line hmem).append_left
  starts := by
    rw [List.map_append, conditionStarts_append]
    exact h.starts.append h'.starts

theorem behind (xs : List Token) (h : LinesIn ys lines) : LinesIn (xs ++ ys) lines :=
  LinesIn.append .nil h

theorem before (ys : List Token) (h : LinesIn xs lines) : LinesIn (xs ++ ys) lines := by
  rw [← List.append_nil lines]
  exact h.append .nil

/-- A line and the lines behind it. -/
theorem cons {start next : Token} {words rest : List Token} {lineEnd : Span}
    (hstart : start.kind = line.token) (hoffset : start.span.start = line.start)
    (hwords : ∀ other ∈ words, other.kind ≠ .endOfLine)
    (hnext : next.kind.isScanned = true ∧ next.kind ≠ .endOfLine)
    (h : LinesIn (next :: rest) lines) :
    LinesIn (start :: words ++ ⟨.endOfLine, lineEnd⟩ :: next :: rest) (line :: lines) := by
  have hbehind := h.behind (words ++ [⟨.endOfLine, lineEnd⟩])
  rw [List.append_assoc, List.singleton_append] at hbehind
  constructor
  · rw [List.forall_mem_cons]
    exact ⟨⟨[], start, words, lineEnd, next, rest, rfl, hstart, hoffset, hwords, hnext⟩,
      (hbehind.behind [start]).isIn⟩
  · have hopens : start.kind.opensCondition = true := by
      rw [hstart, ConditionLine.token]
      split <;> rfl
    have hstarts (ts : List Token) :
        conditionStarts (start :: ts) = line.start :: conditionStarts ts := by
      simp [conditionStarts, hopens, hoffset]
    rw [List.cons_append, hstarts]
    exact hbehind.starts.cons_cons _

end LinesIn

/-! ## The lines of a program -/

namespace Grammar

variable {ts : List Token} {n : Nesting}

/-- The lines of all statements of a language stand among their tokens. -/
def HasLines (language : Language Statement) : Prop :=
  ∀ ⦃ts a⦄, language ts a → ∀ n, LinesIn ts (a.conditionLines n)

variable {language : Language Statement}

theorem linesIn_many (hlanguage : HasLines language) {statements : List Statement}
    (h : Many language ts statements) : LinesIn ts (Statement.conditionLinesList n statements) := by
  induction h with
  | nil => exact .nil
  | cons h _ ih => exact (hlanguage h n).append ih

theorem linesIn_block (hlanguage : HasLines language) {body : Body} (h : Block language ts body) :
    LinesIn ts (body.conditionLines n) := by
  obtain ⟨h⟩ := h
  exact (LinesIn.behind [_] (linesIn_many hlanguage h)).before _

/-- Statements begin with a token that is found by itself, and so does what stands behind them. -/
theorem first_of_many {statements : List Statement} {next : Token} (rest : List Token)
    (hlanguage : WholeStatements language) (h : Many language ts statements)
    (hnext : next.kind.isScanned = true ∧ next.kind ≠ .endOfLine) :
    ∃ first behind, ts ++ next :: rest = first :: behind ∧
      first.kind.isScanned = true ∧ first.kind ≠ .endOfLine := by
  have hlines := wholeLines_many hlanguage h
  cases ts with
  | nil => exact ⟨next, rest, rfl, hnext⟩
  | cons first behind => exact ⟨first, behind ++ next :: rest, rfl, hlines.first⟩

theorem first_of_clauses {expression : Language Expression} {branches : List Branch}
    {last : Option Body} {close : Span} {next : Token} {rest : List Token}
    (h : Clauses expression language (next :: rest) branches last close) :
    next.kind.isScanned = true ∧ next.kind ≠ .endOfLine := by
  generalize hts : next :: rest = ts at h
  cases h <;> (obtain ⟨rfl, -⟩ := List.cons.inj hts; exact ⟨rfl, nofun⟩)

theorem linesIn_clauses {room : Nat} (hwhole : WholeStatements language)
    (hlanguage : HasLines language) {branches : List Branch} {last : Option Body} {close : Span}
    (h : Clauses (expression true room) language ts branches last close) :
    LinesIn ts (Branch.conditionLinesList n branches ++ Body.conditionLinesOption n last) := by
  induction h with
  | endif => exact .nil
  | otherwise _ hbody =>
      simp only [List.append_assoc, List.cons_append]
      exact (((linesIn_many hlanguage hbody).before _).behind [_]).behind (_ :: _)
  | @elif words _ body _ next rest _ _ _ lineEnd _ hcondition hbody hclauses ih =>
      obtain ⟨first, behind, htokens, hfirst⟩ :=
        first_of_many rest hwhole hbody (first_of_clauses hclauses)
      have hbehind : LinesIn (body ++ next :: rest) _ := (linesIn_many (n := n) hlanguage hbody).append ih
      rw [List.append_assoc, @List.cons_append _ _ body, htokens]
      rw [htokens, ← List.append_assoc] at hbehind
      exact .cons rfl rfl (ne_endOfLine_of_plain ((worded_expression true room).plain hcondition))
        hfirst hbehind

theorem hasLines_any {options : Options} {inBlock : Bool} {room : Nat} {inner : Option Deeper}
    (hinner : ∀ deeper ∈ inner, (∃ room, deeper.condition = expression true room) ∧
      ∀ inBlock, WholeStatements (deeper.statement inBlock) ∧ HasLines (deeper.statement inBlock)) :
    HasLines (IsStatement options inBlock (expression false room) inner) := by
  intro ts a h n
  cases h with
  | group hd _ h => exact (linesIn_block ((hinner _ hd).2 inBlock).2 h).behind _
  | choice hd _ h =>
      rw [Statement.conditionLines, Body.conditionLinesOption, List.append_nil]
      exact ((linesIn_block ((hinner _ hd).2 inBlock).2 h).behind [_]).behind _
  | choiceElse hd _ h h' =>
      have hlines := ((hinner _ hd).2 inBlock).2
      exact (((linesIn_block hlines h).behind [_]).behind _).append
        ((linesIn_block hlines h').behind [_])
  | @conditional _ kind words _ body _ next rest _ _ opened lineEnd _ hd hcondition hbody hclauses =>
      obtain ⟨⟨room, hlanguage⟩, hstatement⟩ := hinner _ hd
      rw [hlanguage] at hcondition hclauses
      obtain ⟨first, behind, htokens, hfirst⟩ :=
        first_of_many rest (hstatement true).1 hbody (first_of_clauses hclauses)
      have hbehind : LinesIn (body ++ next :: rest) _ :=
        (linesIn_many (n := n.deeper.inChain) (hstatement true).2 hbody).append
          (linesIn_clauses (n := n.deeper.inChain) (hstatement true).1 (hstatement true).2 hclauses)
      rw [List.append_assoc, @List.cons_append _ _ body, htokens]
      rw [htokens, ← List.append_assoc] at hbehind
      refine .cons ?_ rfl (ne_endOfLine_of_conditional hcondition) hfirst hbehind
      cases hcondition <;> rfl
  | _ => exact .nil

theorem hasLines (options : Options) (room : Nat) (inBlock : Bool) :
    HasLines (statement options room inBlock) := by
  induction room generalizing inBlock with
  | zero => exact hasLines_any nofun
  | succ room ih =>
      refine hasLines_any fun deeper hdeeper => ?_
      obtain rfl := Option.mem_some.mp hdeeper
      exact ⟨⟨room, rfl⟩, fun inBlock => ⟨wholeStatements options room inBlock, ih inBlock⟩⟩

/-- The directives with a condition in a program stand among its tokens. -/
theorem linesIn_program {options : Options} {program : Program} (h : IsProgram options ts program) :
    LinesIn ts program.conditionLines :=
  linesIn_many (hasLines options options.maxNestingDepth false) h

end Grammar

/-! ## Offsets -/

/-- Tokens begin behind each other. -/
theorem Cursor.Scans.conditionStarts_increasing {cursor last : Cursor} {ts : List Token}
    (h : cursor.Scans ts last) : (conditionStarts ts).Pairwise (· < ·) := by
  have hmem {ts : List Token} {start : Nat} (h : start ∈ conditionStarts ts) :
      ∃ token ∈ ts, token.span.start = start := by
    obtain ⟨token, htoken, hstart⟩ := List.mem_map.mp h
    exact ⟨token, List.mem_of_mem_filter htoken, hstart⟩
  induction h with
  | nil => exact .nil
  | @token cursor _ ts hproblems hkind hrest ih =>
      rw [conditionStarts, List.filter_cons]
      split
      · have hshows : cursor.Shows cursor.next.token := ⟨rfl, hproblems, hkind⟩
        refine .cons (fun start hstart => ?_) ih
        obtain ⟨token, htoken, rfl⟩ := hmem hstart
        exact hshows.start_lt.trans_le (hrest.offset_le_start token htoken)
      · exact ih
  | text _ ih => exact ih
  | lineEnd _ _ _ ih => exact ih

end ConfLang
