import ConfLang.Proofs.Likeness.Body

/-!
# Reading conditional directive blocks alike

The rules of a block take the readings of what is inside of it as parameters.  Expressions
in its conditions are read in the nesting of a condition, its statements in that of a block.
-/

namespace ConfLang.Likeness

open Reading StateLikeness

variable {L : Likeness} {n : Nesting} {K : Lasting} {α β : Type}

/-! ## Conditions -/

section Conditions

variable {expression expression' : Reading Expression}
  (hn : n.inCondition = false)
  (h : ∀ K, L.Alike n.conditional K expression expression' (L.expression true))

include hn h in
theorem alike_conditionExpression :
    L.Alike n K (conditionExpression expression) (conditionExpression expression')
      (L.expression true) := by
  unfold conditionExpression
  refine Alike.between (m := n.conditional) ?_ ?_ (h K)
  · exact fun s hs => State.setCondition_true_eq hs
  · exact fun s hs => State.setCondition_false_eq hn hs

theorem alike_path (kind : ConditionKind) {opened opened' : Span}
    (hopened : ∀ s, K s → L.place opened opened' s) :
    L.Alike n K (path kind opened) (path kind opened') fun first second =>
      .sure (second = first ∧ L.text first) := by
  unfold path
  refine alike_rawText.bind fun raw raw' => .of_known (fun s hs => hs.2.1) fun ⟨hsame, htext⟩ => ?_
  obtain ⟨text, span⟩ := raw
  obtain ⟨text', span'⟩ := raw'
  simp only at hsame htext ⊢
  rw [hsame]
  split
  · refine Alike.bind (alike_report (fun s hs => ⟨?_, .inl rfl⟩) (by rfl)) fun _ _ => ?_
    · exact L.span_through (L.place_span (hopened s hs.1)) hs.2.2
    · exact alike_pure fun _ _ => ⟨rfl, htext⟩
  · exact alike_pure fun _ _ => ⟨rfl, htext⟩

include hn h in
theorem alike_conditionOf (kind : ConditionKind) {opened opened' : Span}
    (hopened : ∀ s, K s → L.place opened opened' s) :
    L.Alike n K (conditionOf kind opened expression) (conditionOf kind opened' expression')
      L.condition := by
  unfold conditionOf
  cases kind with
  | holds =>
      exact (alike_conditionExpression hn h).bind fun _ _ => alike_pure fun s hs => hs.2
  | defined => exact (alike_identifier _).bind fun _ _ => alike_pure fun s hs => hs.2
  | undefined => exact (alike_identifier _).bind fun _ _ => alike_pure fun s hs => hs.2
  | fileExists => exact (alike_path _ hopened).bind fun _ _ => alike_pure fun s hs => hs.2
  | fileMissing => exact (alike_path _ hopened).bind fun _ _ => alike_pure fun s hs => hs.2

include hn h in
theorem alike_conditionLine (kind : ConditionKind) {opened opened' : Span}
    (hopened : ∀ s, K s → L.place opened opened' s) :
    L.Alike n K (conditionLine kind opened expression) (conditionLine kind opened' expression')
      L.condition := by
  unfold conditionLine
  refine (alike_conditionOf hn h kind hopened).bind fun _ _ => ?_
  exact (alike_endOfLine _).bind_same fun _ => alike_pure fun s hs => hs.2

include hn h in
theorem alike_branchCondition :
    L.Alike n K (branchCondition expression) (branchCondition expression')
      (L.expression true) := by
  unfold branchCondition
  refine (alike_conditionExpression hn h).bind fun _ _ => ?_
  exact (alike_endOfLine _).bind_same fun _ => alike_pure fun s hs => hs.2

end Conditions

theorem alike_lineOrSkip {line : Reading α} {line' : Reading β} {value : α → β → Lasting}
    (h : L.Alike n K line line' value) :
    L.Alike n K (lineOrSkip line) (lineOrSkip line') (.option value) := by
  unfold lineOrSkip
  refine h.attempt.bind fun result result' => ?_
  match result, result' with
  | .ok _, .ok _ => exact alike_pure fun s hs => hs.2
  | .ok _, .error _ => exact .of_known (fun s hs => hs.2) False.elim
  | .error _, .ok _ => exact .of_known (fun s hs => hs.2) False.elim
  | .error problem, .error problem' =>
      refine Alike.bind (alike_report (fun s hs => hs.2) (by rfl)) fun _ _ => ?_
      exact alike_skipLine.bind fun _ _ => alike_pure (a := none) (b := none) fun _ _ => trivial

theorem alike_endOfMark (mark : Mark) :
    L.Alike n K (endOfMark mark) (endOfMark mark) same := by
  unfold endOfMark
  refine alike_peek.bind fun token₁ token₂ => .of_kind (fun s hs => hs.2) (fun hkind => ?_)
    (fun _ _ hkind hkind' => ?_) fun _ _ hkind hkind' => ?_
  · rw [hkind]
    split
    · exact alike_advance.map fun _ _ _ _ => rfl
    · exact alike_pure fun _ _ => rfl
    · refine Alike.bind (alike_report (fun s hs => ?_) (by rfl)) fun _ _ => alike_skipLine
      exact ⟨L.token_span hs.2, .inl rfl⟩
  all_goals
    rw [hkind, hkind']
    refine Alike.bind (alike_report (fun s hs => ?_) (by rfl)) fun _ _ => alike_skipLine
    exact ⟨L.token_span hs.2, .inl rfl⟩

/-! ## Branches -/

/-- Alike branches behind the first body of a block. -/
def branchesAlike (L : Likeness) (first second : Branches) : Lasting :=
  (collected L.branch first.elifs second.elifs).and
    (.option (L.body true) first.otherwise second.otherwise)

/-- Whether the last body has come is known alike. -/
theorem branchesAlike_isSome {first second : Branches} {s : State}
    (h : L.branchesAlike first second s) :
    second.otherwise.isSome = first.otherwise.isSome := by
  have hotherwise := h.2
  revert hotherwise
  cases first.otherwise <;> cases second.otherwise <;> simp [Lasting.option]

section Branches

variable {expression expression' : Reading Expression}
  {statement statement' : Reading (Option Statement)} (hn : n.inCondition = false)
  (hexpression : ∀ K,
    L.Alike n.conditional K expression expression' (L.expression true))
  (hstatement : ∀ K,
    L.Alike n K statement statement' (.option (L.statement true)))

/-- A mark that stands where it must not is reported on both sides or on none. -/
theorem Alike.after_report {c c' : Bool} {cause : Cause} {start start' : Span}
    {k : Unit → Reading α} {l : Unit → Reading β} {value : α → β → Lasting} (hsame : c' = c)
    (hstart : ∀ s, K s → L.span start start' s) (hcause : ∀ like, cause.Like like cause)
    (h : L.Alike n K (k ()) (l ()) value) :
    L.Alike n K (if c = true then report (.error cause start) >>= k else k ())
      (if c' = true then report (.error cause start') >>= l else l ()) value := by
  subst hsame
  split
  · refine Alike.bind (alike_report (fun s hs => ⟨hstart s hs, .inl (hcause _)⟩) (by rfl)) fun _ _ => ?_
    exact h.weaken (fun s hs => hs.1) fun _ _ _ _ hv => hv
  · exact h

include hn hexpression hstatement in
theorem alike_elifBranch {start start' : Span} {first second : Branches}
    (hstart : ∀ s, K s → L.span start start' s)
    (hbranches : ∀ s, K s → L.branchesAlike first second s) :
    L.Alike n K (elifBranch expression statement start first)
      (elifBranch expression' statement' start' second) L.branchesAlike := by
  refine .of_known (fun s hs => branchesAlike_isSome (hbranches s hs)) fun hsome => ?_
  unfold elifBranch
  refine Alike.after_report hsome hstart (fun _ => rfl) ?_
  refine (alike_lineOrSkip (alike_branchCondition hn hexpression)).bind fun c c' => ?_
  refine (alike_branchBody hstatement).bind fun body body' => ?_
  match hc : c, hc' : c', ho : first.otherwise, ho' : second.otherwise with
  | some c, some c', none, none =>
      refine alike_pure fun s hs => ?_
      obtain ⟨⟨hknown, hcondition⟩, hbody⟩ := hs
      refine ⟨collected_push (hbranches s hknown).1 ⟨⟨hcondition, hbody⟩, ?_⟩, trivial⟩
      exact L.span_through (hstart s hknown) hbody.2
  | none, none, _, _ => exact alike_pure fun s hs => hbranches s hs.1.1
  | some _, some _, some _, some _ => exact alike_pure fun s hs => hbranches s hs.1.1
  | none, some _, _, _ => exact .of_known (fun s hs => hs.1.2) False.elim
  | some _, none, _, _ => exact .of_known (fun s hs => hs.1.2) False.elim
  | _, _, none, some _ => simp [ho, ho'] at hsome
  | _, _, some _, none => simp [ho, ho'] at hsome

include hstatement in
theorem alike_otherwiseBranch {start start' : Span} {first second : Branches}
    (hstart : ∀ s, K s → L.span start start' s)
    (hbranches : ∀ s, K s → L.branchesAlike first second s) :
    L.Alike n K (otherwiseBranch statement start first)
      (otherwiseBranch statement' start' second) L.branchesAlike := by
  refine .of_known (fun s hs => branchesAlike_isSome (hbranches s hs)) fun hsome => ?_
  unfold otherwiseBranch
  refine Alike.after_report hsome hstart (fun _ => rfl) ?_
  refine (alike_endOfMark _).bind fun _ _ => (alike_branchBody hstatement).bind fun body body' => ?_
  refine alike_pure fun s hs => ?_
  obtain ⟨⟨hknown, -⟩, hbody⟩ := hs
  refine ⟨(hbranches s hknown).1, ?_⟩
  have hotherwise := (hbranches s hknown).2
  revert hotherwise
  cases first.otherwise <;> cases second.otherwise <;> simp only [Lasting.option]
  · exact fun _ => hbody
  · exact False.elim
  · exact False.elim
  · exact id

include hn hexpression hstatement in
theorem alike_branch (first second : Branches) :
    L.Alike n (K.and (L.branchesAlike first second)) (Reading.branch expression statement first)
      (Reading.branch expression' statement' second) (turned L.branchesAlike) := by
  unfold Reading.branch
  refine alike_peek.bind fun token₁ token₂ => .of_kind (fun s hs => hs.2) (fun hkind => ?_)
    (fun _ _ hkind hkind' => ?_) fun _ _ hkind hkind' => ?_
  · rw [hkind]
    split
    · refine alike_advance.bind fun _ _ => ?_
      refine Alike.bind (V := L.branchesAlike) ?_ fun _ _ => alike_pure fun s hs => hs.2
      exact alike_elifBranch hn hexpression hstatement (fun s hs => L.token_span hs.1.2)
        fun s hs => hs.1.1.2
    · refine alike_advance.bind fun _ _ => ?_
      refine Alike.bind (V := L.branchesAlike) ?_ fun _ _ => alike_pure fun s hs => hs.2
      exact alike_otherwiseBranch hstatement (fun s hs => L.token_span hs.1.2)
        fun s hs => hs.1.1.2
    · exact alike_pure fun s hs => hs.1.2
  all_goals
    rw [hkind, hkind']
    exact alike_pure fun s hs => hs.1.2

omit hn hexpression hstatement in
theorem watches_branch :
    Watches (Reading.branch expression statement) (Reading.branch expression statement) := by
  refine watches_of_peek (fun _ => rfl) fun {_ token _ _ _} hkind => ?_
  simp only [hkind]
  exact nofun

theorem alike_endif (kind : ConditionKind) {opened opened' : Span}
    (hopened : ∀ s, K s → L.place opened opened' s) :
    L.Alike n K (endif kind opened) (endif kind opened') L.span := by
  unfold endif
  refine alike_peek.bind fun token₁ token₂ => .of_kind_iff (.mark .endif) rfl
    (fun s hs => hs.2) fun hkind => ?_
  simp only [hkind]
  split
  · refine alike_advance.bind fun _ _ => (alike_endOfMark _).bind fun _ _ => ?_
    exact alike_pure fun s hs => L.token_span hs.1.1.2
  · refine alike_fail (fun s hs => L.place_span (hopened s hs.1)) fun s hs => ?_
    exact (L.kind_eq hs.2).imp_left fun hsame => ⟨_, hopened s hs.1, by rw [hsame]⟩

/-- Alike parts of a block behind its condition. -/
def branchingAlike (L : Likeness) (first second : Branching) : Lasting :=
  ((L.body true first.thenBody second.thenBody).and
    (L.branchesAlike first.branches second.branches)).and (L.span first.close second.close)

include hn hexpression hstatement in
theorem alike_branching (kind : ConditionKind) {opened opened' : Span}
    (hopened : ∀ s, K s → L.place opened opened' s) :
    L.Alike n K (branching kind opened expression statement)
      (branching kind opened' expression' statement') L.branchingAlike := by
  unfold branching
  refine (alike_branchBody hstatement).bind fun thenBody thenBody' => ?_
  refine Alike.bind (V := L.branchesAlike) ?_ fun branches branches' => ?_
  · refine (Alike.iterate (K := K) (alike_branch hn hexpression hstatement) watches_branch
      watches_branch {} {}).weaken ?_ ?_
    · exact fun s hs => ⟨hs.1, .nil, trivial⟩
    · exact fun _ _ _ _ hv => hv
  · refine Alike.bind (alike_endif kind fun s hs => hopened s hs.1.1) fun close close' => ?_
    exact alike_pure fun s hs => ⟨⟨hs.1.1.2, hs.1.2⟩, hs.2⟩

end Branches

/-! ## Blocks -/

/-- A block is alike if its opening directive is taken alike. -/
theorem alike_conditionalFrom {R S : State → State → Prop} {kind : ConditionKind}
    {opened opened' : Span} {b : Bool} {expression expression' : Reading Expression}
    {statement statement' : Reading (Option Statement)} (hn : n.inCondition = false)
    (houtside : ∀ s t, R s t → s.nesting = n ∧ t.nesting = n ∧ t.options = s.options)
    (hopening : ∀ s t, R s t → S s.enter t.enter)
    (hdeep : ∀ s t, R s t → n.depth < s.options.maxNestingDepth ∨ L.state n s t)
    (hstart : L.AlikeFrom S n.deeper advance advance fun _ _ => L.place opened opened')
    (hexpression : ∀ (m : Nesting) K, m.inCondition = true →
      L.Alike m K expression expression' (L.expression true))
    (hstatement : ∀ K,
      L.Alike n.deeper.inChain K statement statement' (.option (L.statement true))) :
    L.AlikeFrom R n (conditionalFrom kind opened expression statement)
      (conditionalFrom kind opened' expression' statement') (.option (L.statement b)) := by
  unfold conditionalFrom
  refine AlikeFrom.bind (V := fun first second =>
    (L.place opened opened').and ((Lasting.option L.condition first.1 second.1).and
      (L.branchingAlike first.2 second.2))) ?_ fun first second => ?_
  · refine AlikeFrom.nested houtside hopening hdeep (hstart.bind fun _ _ => ?_)
    refine (alike_note _ _).bind fun _ _ => ?_
    refine Alike.bind (alike_lineOrSkip (alike_conditionLine (n := n.deeper) hn
      (fun K => hexpression _ K rfl) kind
      fun s hs => hs.1)) fun condition condition' => ?_
    refine Alike.bind (Alike.between (m := n.deeper.inChain) ?_ ?_ (alike_branching (n := n.deeper.inChain) hn
      (fun K => hexpression _ K rfl) hstatement kind fun s hs => hs.1.1))
      fun parts parts' => ?_
    · exact fun s hs => State.openChain_eq hs
    · exact fun s hs => State.closeChain_eq hs
    · exact alike_pure fun s hs => ⟨hs.1.1.1, hs.1.2, hs.2⟩
  · refine (alike_note _ _).bind fun _ _ => alike_pure fun s hs => ?_
    obtain ⟨⟨hopened, hcondition, ⟨hbody, hbranches⟩, hclose⟩, -⟩ := hs
    -- Both conditions were read, or neither was.
    revert hcondition
    cases first.1 <;> cases second.1 <;> simp only [Lasting.option, Option.map]
    · exact id
    · exact id
    · exact id
    · exact fun hcondition => L.conditional hcondition hbody hbranches.1 hbranches.2
        (L.span_through (L.place_span hopened) hclose)

end ConfLang.Likeness
