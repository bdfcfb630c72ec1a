import ConfLang.Proofs.Alteration.Trees

/-!
# Bodies of sources that follow tokens

A statement of the grammar is read from every source that follows its tokens, without the branches
whose conditions are gone.  If the statement is itself such a block, nothing is given for it.

A body ends where its tokens end, whatever is read in it: in front of a token that closes it, and
that token stands in every source, or at the end of the source.
-/

namespace ConfLang.Setting

open Reading Alteration Grammar TokenKind

variable {S : Setting} {n : Nesting} {k : Nat} {ts rest : List Token} {lines more : List ConditionLine}

/-! ## Conditions that are gone -/

/-- Of some directives, those that are gone cannot be read where they are. -/
def Misses (S : Setting) (lines : List ConditionLine) : Prop :=
  ∀ line ∈ lines, S.alteration.gone line.start = true →
    line.IsText ∧ ∀ place, S.alteration.place place → line.Fails S.options place

theorem Misses.left (h : S.Misses (lines ++ more)) : S.Misses lines :=
  fun line hmem => h line (List.mem_append_left _ hmem)

theorem Misses.right (h : S.Misses (lines ++ more)) : S.Misses more :=
  fun line hmem => h line (List.mem_append_right _ hmem)

theorem Misses.head {line : ConditionLine} (h : S.Misses (line :: lines))
    (hgone : S.alteration.gone line.start = true) :
    line.IsText ∧ ∀ place, S.alteration.place place → line.Fails S.options place :=
  h line List.mem_cons_self hgone

theorem Misses.take (h : S.Misses lines) (count : Nat) : S.Misses (lines.take count) :=
  fun line hmem => h line (List.mem_of_mem_take hmem)

theorem Misses.tail {line : ConditionLine} (h : S.Misses (line :: lines)) : S.Misses lines :=
  fun line hmem => h line (List.mem_cons_of_mem _ hmem)

/-! ## Statements -/

/-- What is read is what is left of a statement, but for its spans. -/
def Leaves (S : Setting) (statement : Statement) (found : Option Statement) : Prop :=
  found.map (Statement.unplaced id) =
    (statement.without? S.alteration.gone).map (Statement.unplaced id)

/-- A reading reads all statements that a language allows. -/
def ReadsStatements (S : Setting) (n : Nesting) (f : Reading (Option Statement))
    (language : Language Statement) : Prop :=
  ∀ ⦃ts a rest k⦄, language ts a → Upcoming EndsStatement rest → k ≤ 1 →
    S.Misses (a.conditionLines n) → S.Reads n (ts ++ rest) k f rest 1 (S.Leaves a)

/-- A body is seen to end in front of certain tokens, and not in front of others. -/
def EndsAt (S : Setting) (n : Nesting) (atEnd : Reading Bool) (stops : TokenKind → Bool) : Prop :=
  ∀ ⦃ts k b⦄, Upcoming (stops · = b) ts → k ≤ 1 → S.Reads n ts k atEnd ts 1 (· = b)

theorem endsAt_program : S.EndsAt n atEndOfProgram stopsProgram := by
  intro ts k b hupcoming hk
  refine brings_looking hupcoming.1 hk fun current hmeets => brings_get fun s hs => ?_
  rw [hs.at.stopped, ← hupcoming.2 _ hmeets]
  simp only [Bool.false_eq_true, or_false]
  exact brings_pure fun s hs => ⟨rfl, hs.at⟩

theorem endsAt_block : S.EndsAt n atEndOfBlock stopsBlock := by
  intro ts k b hupcoming hk
  refine brings_looking hupcoming.1 hk fun current hmeets => brings_get fun s hs => ?_
  rw [hs.at.stopped, ← hupcoming.2 _ hmeets]
  simp only [Bool.false_eq_true, or_false]
  exact brings_pure fun s hs => ⟨rfl, hs.at⟩

theorem endsAt_branch (inBraces : Bool) :
    S.EndsAt n (atEndOfBranch inBraces) (stopsBranch inBraces) := by
  intro ts k b hupcoming hk
  refine brings_get fun s hs => ?_
  rw [hs.stopped, if_neg Bool.false_ne_true]
  refine brings_looking hupcoming.1 hk fun current hmeets => ?_
  rw [← hupcoming.2 _ hmeets]
  cases current.kind with
  | symbol sign => cases sign <;> exact brings_pure fun s hs => ⟨rfl, hs.at⟩
  | _ => exact brings_pure fun s hs => ⟨rfl, hs.at⟩

theorem isFirm_of_opensStatement {kind : TokenKind} (h : kind.opensStatement = true) :
    kind.isFirm = true := by
  cases kind <;> first | rfl | simp [opensStatement] at h

/-! ## Statement by statement -/

section Bodies

variable {level : Nat} {language : Language Statement} (enclosure : Enclosure)
  {stops : TokenKind → Bool} {as : List Statement}

/-- Behind a statement of a body stands another one, or what stands behind the body. -/
theorem upcoming_many (hopening : Opening language) (h : Many language ts as)
    (hends : Upcoming EndsStatement rest) : Upcoming EndsStatement (ts ++ rest) := by
  cases h with
  | nil => exact hends
  | cons h _ =>
      obtain ⟨token, more, rfl, hopens⟩ := hopening h
      exact upcoming_of_isFirm (isFirm_of_opensStatement hopens)
        (endsStatement_of_opensStatement hopens)

/-- What is left of a statement is put behind the statements in front of it. -/
theorem brings_appendStatement {a : Statement} {statement : Reading (Option Statement)}
    (hstatement : S.Reads n ts k statement rest 1 (S.Leaves a)) (items : Array Statement) :
    S.Reads n ts k (appendStatement statement items) rest 1 fun items' =>
      Statement.unplacedList id items'.toList = Statement.unplacedList id items.toList ++
        Statement.unplacedList id (a.without? S.alteration.gone).toList := by
  refine brings_get fun s hs => ?_
  refine Brings.attempt hstatement fun found => .of_fact (fun s hs => hs.1) fun hleaves => ?_
  unfold Leaves at hleaves
  cases hleft : a.without? S.alteration.gone with
  | none =>
      rw [hleft, Option.map_none, Option.map_eq_none_iff] at hleaves
      subst hleaves
      exact brings_pure fun s hs => ⟨by simp [Statement.unplacedList], hs.2⟩
  | some left =>
      rw [hleft, Option.map_some, Option.map_eq_some_iff] at hleaves
      obtain ⟨found, rfl, hsame⟩ := hleaves
      refine brings_pure fun s hs => ⟨?_, hs.2⟩
      simp [Statement.unplacedList_append, Statement.unplacedList, hsame]

variable (hatEnd : S.EndsAt n enclosure.atEnd stops)
  (hstops : ∀ kind : TokenKind, kind.opensStatement = true → stops kind = false)
  (hopening : Opening language)
  (hstatement : S.ReadsStatements n (Statement.read level) language)
include hatEnd hstops hopening hstatement

/-- The statements of a body are read one after the other. -/
theorem reads_body (h : Many language ts as) (hends : Upcoming EndsStatement rest)
    (hstop : Upcoming (stops · = true) rest)
    (hmisses : S.Misses (Statement.conditionLinesList n as)) (items : Array Statement)
    (hk : k ≤ 1) :
    S.Reads n (ts ++ rest) k (iterate (bodyTurn enclosure.atEnd (Statement.read level)) items)
      rest 1 fun result => Statement.unplacedList id result.toList =
        Statement.unplacedList id items.toList ++
          Statement.unplacedList id (Statement.withoutList S.alteration.gone as) := by
  -- The induction is on the statements, with any statements read in front of them.
  induction h generalizing k items with
  | nil =>
      refine Brings.iterate_done ((hatEnd hstop hk).bind fun stop => ?_)
      refine .of_fact (fun s hs => hs.1) fun hstop => ?_
      rw [if_pos hstop]
      refine brings_pure fun s hs => ⟨items, rfl, ?_, hs.2⟩
      simp [Statement.withoutList, Statement.unplacedList]
  | @cons first second a as h hmany ih =>
      rw [Statement.conditionLinesList] at hmisses
      have hrest := upcoming_many hopening hmany hends
      obtain ⟨token, more, hfirst, hopens⟩ := hopening h
      have hgoes : Upcoming (stops · = false) (first ++ (second ++ rest)) := by
        rw [hfirst]
        exact upcoming_of_isFirm (isFirm_of_opensStatement hopens) (hstops _ hopens)
      rw [List.append_assoc]
      refine Brings.iterate (fun items' s => Statement.unplacedList id items'.toList =
          Statement.unplacedList id items.toList ++
            Statement.unplacedList id (a.without? S.alteration.gone).toList ∧
              S.At n .code (second ++ rest) 1 s)
        (progresses_bodyTurn enclosure level items) (fun s hs => hs.ordered) ?_ fun items' => ?_
      · refine (hatEnd hgoes hk).bind fun stop => .of_fact (fun s hs => hs.1) fun hstop => ?_
        rw [if_neg (by simp [hstop])]
        exact ((brings_appendStatement (hstatement h hrest (Nat.le_refl 1) hmisses.left)
          items).from fun s hs => hs.2).bind_pure fun _ s hs => hs
      · refine .of_fact (fun s hs => hs.1) fun hsame => ?_
        refine (ih hmisses.right items' (Nat.le_refl 1)).imp (fun s hs => hs.2)
          fun result s hs => ⟨?_, hs.2⟩
        simp only [hs.1, hsame, Statement.withoutList, Statement.unplacedList_append,
          List.append_assoc]

theorem reads_statementsUntil (h : Many language ts as) (hends : Upcoming EndsStatement rest)
    (hstop : Upcoming (stops · = true) rest)
    (hmisses : S.Misses (Statement.conditionLinesList n as)) (hk : k ≤ 1) :
    S.Reads n (ts ++ rest) k (statementsUntil enclosure.atEnd (Statement.read level)) rest 1
      fun result => Statement.unplacedList id result =
        Statement.unplacedList id (Statement.withoutList S.alteration.gone as) := by
  rw [statementsUntil_eq]
  exact (reads_body enclosure hatEnd hstops hopening hstatement h hends hstop hmisses #[] hk).bind_pure
    fun _ s hs => ⟨by simpa [Statement.unplacedList] using hs.1, hs.2⟩

end Bodies

theorem isRepetition_duplicateWarnings (statements : List Statement) :
    ∀ diagnostic ∈ duplicateWarnings [] statements,
      diagnostic.isError = false ∧ diagnostic.isRepetition = true := by
  intro diagnostic hmem
  obtain ⟨_, _, _, rfl⟩ := exists_of_mem_duplicateWarnings hmem
  exact ⟨rfl, rfl⟩

theorem brings_warnDuplicates (statements : List Statement) : Brings (S.At n .code ts k)
    (warnDuplicates statements) fun _ s => S.At n .code ts k s :=
  brings_modify fun _ hs => hs.repeated (isRepetition_duplicateWarnings statements)

/-! ## Bodies -/

section Blocks

variable {level : Nat} {language : Language Statement} {body : Body} {as : List Statement}

/-- What is read is what is left of a body, but for its spans. -/
def LeavesBody (S : Setting) (body found : Body) : Prop :=
  found.unplaced id = (body.without S.alteration.gone).unplaced id

theorem leavesBody_mk {statements : List Statement} (span span' : Span)
    (h : Statement.unplacedList id statements =
      Statement.unplacedList id (Statement.withoutList S.alteration.gone as)) :
    S.LeavesBody (.mk as span) (.mk statements span') := by
  simp only [LeavesBody, Body.without, Body.unplaced, h]

theorem reads_block (hdepth : n.depth < S.options.maxNestingDepth) (hopening : Opening language)
    (hstatement : S.ReadsStatements n.deeper.inBraces (Statement.read level) language)
    (h : Block language ts body) (hmisses : S.Misses (body.conditionLines n.deeper.inBraces))
    (expectation : Expectation) (hk : k ≤ 1) :
    S.Reads n (ts ++ rest) k (block (Statement.read level) expectation) rest 0
      (S.LeavesBody body) := by
  obtain @⟨ts, as, opened, close, h⟩ := h
  simp only [List.cons_append, List.append_assoc, List.nil_append]
  have hclose {property : TokenKind → Prop} (h : property (.symbol .closeBrace)) :
      Upcoming property (⟨.symbol .closeBrace, close⟩ :: rest) := upcoming_of_isFirm rfl h
  have hstatements := reads_statementsUntil .braces endsAt_block
    (fun kind hopens => by cases kind <;> first | rfl | simp [opensStatement] at hopens)
    hopening hstatement h (hclose ⟨endsExpression_closing .brace, by simp⟩) (hclose rfl) hmisses
    (Nat.zero_le 1)
  have hbraces := brings_between (fun _ => State.openBrace_eq) (fun _ => State.closeBrace_eq)
    hstatements
  refine Brings.bind (R := fun read s => Statement.unplacedList id read.2 =
    Statement.unplacedList id (Statement.withoutList S.alteration.gone as) ∧
      S.At n .code (⟨.symbol .closeBrace, close⟩ :: rest) 1 s) ?_ fun read => ?_
  · refine brings_nested hdepth ((reads_expect rfl _ hk).bind fun _ => ?_)
    exact (hbraces.from fun s hs => hs.2).bind_pure fun _ s hs => hs
  refine .of_fact (fun s hs => hs.1) fun hsame => ?_
  refine ((brings_warnDuplicates _).from fun s hs => hs.2).bind fun _ => ?_
  exact (reads_closing .brace _ (Nat.le_refl 1)).bind_pure fun _ s hs =>
    ⟨leavesBody_mk _ _ hsame, hs.2⟩

theorem endsStatement_mark (which : Mark) : (TokenKind.mark which).EndsStatement := by
  simp [EndsStatement, EndsExpression, EndsChain, EndsOperand, Operator.ofToken?]

/-- The body of a directive ends in front of a mark. -/
theorem reads_branchBody (hopening : Opening language)
    (hstatement : S.ReadsStatements n (Statement.read level) language) (h : Many language ts as)
    (hmisses : S.Misses (Statement.conditionLinesList n as)) {next : Token} {which : Mark}
    (hmark : next.kind = .mark which) (hk : k ≤ 1) :
    S.Reads n (ts ++ next :: rest) k (branchBody (Statement.read level)) (next :: rest) 1
      (S.LeavesBody (directiveBody as next)) := by
  have hnext {property : TokenKind → Prop} (h : property (.mark which)) :
      Upcoming property (next :: rest) :=
    upcoming_of_isFirm (by rw [hmark]; rfl) (hmark ▸ h)
  refine brings_get fun s hs => ?_
  refine Brings.from ?_ fun s hs => hs
  refine (reads_statementsUntil (.branch _) (endsAt_branch _)
    (fun kind hopens => stopsBranch_of_opensStatement hopens _) hopening hstatement h
    (hnext (endsStatement_mark which)) (hnext rfl) hmisses hk).bind fun statements => ?_
  refine .of_fact (fun s hs => hs.1) fun hsame => ?_
  refine ((brings_warnDuplicates _).from fun s hs => hs.2).bind fun _ => ?_
  refine Brings.bind_pure (R := fun _ s => S.At n .code (next :: rest) 1 s) ?_
    fun span s hs => ⟨leavesBody_mk _ span hsame, hs⟩
  unfold branchSpan
  have hpeek : Brings (S.At n .code (next :: rest) 1) (peek >>= fun token => pure token.span.origin)
      fun _ s => S.At n .code (next :: rest) 1 s :=
    brings_looking (looked_of_isFirm (by rw [hmark]; rfl)) (Nat.le_refl 1) fun current _ => brings_pure fun s hs => hs.at
  cases statements.head? <;> cases statements.getLast? <;>
    first
    | exact brings_pure fun s hs => hs
    | exact hpeek

end Blocks

end ConfLang.Setting
