import ConfLang.Proofs.Grammar.Language
import ConfLang.Proofs.Nesting.Height

/-!
# How much room a derivation needs

A derivation of the grammar needs no more room for nesting than its tree is high.  So a tree
that is derived with any room at all is derived with as much room as its height.

The rules of the grammar have what may stand one level deeper as an optional parameter.  Of
two such parameters it is enough to know that the second one allows all trees of the first
that are lower than a bound (`Narrows`), if the bound leaves room for a layer at all.
-/

namespace ConfLang.Grammar

variable {α : Type} {bound : Nat}

/-- Whatever the first language allows below a bound, the second one does, too. -/
def Narrows (bound : Nat) (height : α → Nat) (first second : Language α) : Prop :=
  ∀ ⦃ts a⦄, first ts a → height a ≤ bound → second ts a

theorem Many.narrow {first second : Language Statement}
    (h : Narrows bound Statement.height first second) {ts : List Token} {xs : List Statement}
    (hmany : Many first ts xs) (hxs : Statement.heightList xs ≤ bound) : Many second ts xs := by
  induction hmany with
  | nil => exact .nil
  | cons hfirst _ ih =>
      rw [Statement.heightList, Nat.max_le] at hxs
      exact .cons (h hfirst hxs.1) (ih hxs.2)

theorem Items.narrow {item item' : Language α} {ts : List Token} {as : List α}
    (hitems : Items item ts as) (h : ∀ ts, ∀ a ∈ as, item ts a → item' ts a) :
    Items item' ts as := by
  induction hitems with
  | nil => exact .nil
  | last ha => exact .last (h _ _ (List.mem_singleton_self _) ha)
  | cons ha _ ih =>
      exact .cons (h _ _ List.mem_cons_self ha) (ih fun ts a hmem => h ts a (List.mem_cons_of_mem _ hmem))

/-! ## Expressions -/

theorem Binary.narrow {operand operand' : Language Expression}
    (h : Narrows bound Expression.height operand operand') (least : Nat) :
    Narrows bound Expression.height (Binary operand least) (Binary operand' least) := by
  intro ts e hbinary he
  induction hbinary with
  | operand hoperand => exact .operand (h hoperand he)
  | operation hleast _ _ ihleft ihright =>
      rw [Expression.height, Nat.max_le] at he
      exact .operation hleast (ihleft he.1) (ihright he.2)

theorem LabelledArgument.narrow {expression expression' : Language Expression}
    (h : Narrows bound Expression.height expression expression') :
    Narrows bound (·.value.height) (LabelledArgument expression) (LabelledArgument expression') := by
  intro ts a hargument ha
  cases hargument with
  | positional he => exact .positional (h he ha)
  | labelled hlabel he => exact .labelled hlabel (h he ha)

/-- If the bound leaves room for a layer, what is lower than the bound may stand inside of the
second, too. -/
def NarrowsInside (bound : Nat) (inner inner' : Option (Language Expression)) : Prop :=
  ∀ language ∈ inner, ∀ below, bound = below + 1 →
    ∃ language' ∈ inner', Narrows below Expression.height language language'

/-- What a layer of some height stands around may stand inside of the second, too. -/
theorem NarrowsInside.inside {inner inner' : Option (Language Expression)}
    {language : Language Expression} {height : Nat} (h : NarrowsInside bound inner inner')
    (hinner : language ∈ inner) (hheight : height + 1 ≤ bound) :
    ∃ below, height ≤ below ∧
      ∃ language' ∈ inner', Narrows below Expression.height language language' := by
  obtain ⟨below, rfl⟩ := Nat.exists_eq_add_one.mpr (Nat.zero_lt_of_lt hheight)
  exact ⟨below, Nat.le_of_succ_le_succ hheight, h language hinner below rfl⟩

section Operands

variable {inCondition : Bool} {inner inner' : Option (Language Expression)}

theorem Primary.narrow (h : NarrowsInside bound inner inner') :
    Narrows bound Expression.height (Primary inCondition inner) (Primary inCondition inner') := by
  intro ts e hprimary he
  cases hprimary with
  | integer => exact .integer
  | float => exact .float
  | string => exact .string
  | name hname => exact .name hname
  | defined hcondition hname => exact .defined hcondition hname
  | group hinner hlanguage =>
      obtain ⟨below, hbelow, language', hinner', hnarrow⟩ := h.inside hinner he
      exact .group hinner' (hnarrow hlanguage hbelow)
  | array hinner hitems =>
      obtain ⟨below, hbelow, language', hinner', hnarrow⟩ := h.inside hinner he
      have helements := Expression.heightList_le.mp hbelow
      exact .array hinner'
        (hitems.narrow fun _ e hmem hlanguage => hnarrow hlanguage (helements e hmem))

theorem Suffixed.narrow (h : NarrowsInside bound inner inner') :
    Narrows bound Expression.height (Suffixed inCondition inner) (Suffixed inCondition inner') := by
  intro ts e hsuffixed he
  induction hsuffixed with
  | primary hprimary => exact .primary (hprimary.narrow h he)
  | member _ hname ih => exact .member (ih he) hname
  | call hinner _ hasks hitems ih =>
      rw [Expression.height, Nat.max_le] at he
      obtain ⟨below, hbelow, language', hinner', hnarrow⟩ := h.inside hinner he.2
      have harguments := Argument.heightList_le.mp hbelow
      exact .call hinner' (ih he.1) hasks (hitems.narrow fun _ a hmem hlanguage =>
        LabelledArgument.narrow hnarrow hlanguage (harguments a hmem))

theorem Operand.narrow (h : NarrowsInside bound inner inner') :
    Narrows bound Expression.height (Operand inCondition inner) (Operand inCondition inner') := by
  have hchain : NarrowsInside bound (inner.map fun operand => Binary operand Operator.lowestPrecedence)
      (inner'.map fun operand => Binary operand Operator.lowestPrecedence) := by
    intro language hlanguage below hbound
    obtain ⟨operand, hinner, rfl⟩ := Option.map_eq_some_iff.mp hlanguage
    obtain ⟨operand', hinner', hnarrow⟩ := h operand hinner below hbound
    exact ⟨_, Option.mem_map_of_mem _ hinner', Binary.narrow hnarrow _⟩
  intro ts e hoperand he
  cases hoperand with
  | negation hinner hlanguage =>
      obtain ⟨below, hbelow, language', hinner', hnarrow⟩ := h.inside hinner he
      exact .negation hinner' (hnarrow hlanguage hbelow)
  | suffixed hsuffixed => exact .suffixed (Suffixed.narrow hchain hsuffixed he)

end Operands

theorem operand_narrow (inCondition : Bool) (room bound : Nat) :
    Narrows bound Expression.height (operand inCondition room) (operand inCondition bound) := by
  induction room generalizing bound with
  | zero => cases bound <;> exact Operand.narrow nofun
  | succ room ih =>
      cases bound with
      | zero =>
          -- Below a bound of zero nothing is nested, whatever the first language allows.
          exact Operand.narrow fun _ _ below hbelow => nomatch hbelow
      | succ bound =>
          refine Operand.narrow ?_
          rintro _ ⟨⟩ below hbelow
          obtain rfl := Nat.succ.inj hbelow
          exact ⟨_, rfl, ih bound⟩

theorem expression_narrow (inCondition : Bool) (room bound : Nat) :
    Narrows bound Expression.height (expression inCondition room) (expression inCondition bound) :=
  Binary.narrow (operand_narrow inCondition room bound) _

/-! ## Statements -/

theorem Block.narrow {first second : Language Statement}
    (h : Narrows bound Statement.height first second) :
    Narrows bound Body.height (Block first) (Block second) := by
  intro ts body hblock hbody
  cases hblock with
  | block hmany => exact .block (hmany.narrow h hbody)

theorem Conditional.narrow {first second : Language Expression} {kind : ConditionKind}
    (h : Narrows bound Expression.height first second) :
    Narrows bound Condition.height (Conditional first kind) (Conditional second kind) := by
  intro ts condition hconditional hcondition
  cases hconditional with
  | holds he => exact .holds (h he hcondition)
  | defined hname => exact .defined hname
  | undefined hname => exact .undefined hname
  | fileExists => exact .fileExists
  | fileMissing => exact .fileMissing

theorem Clauses.narrow {expression expression' : Language Expression}
    {statement statement' : Language Statement}
    (hexpression : Narrows bound Expression.height expression expression')
    (hstatement : Narrows bound Statement.height statement statement') {ts : List Token}
    {branches : List Branch} {last : Option Body} {close : Span}
    (hclauses : Clauses expression statement ts branches last close)
    (hbranches : Branch.heightList branches ≤ bound) (hlast : Body.heightOption last ≤ bound) :
    Clauses expression' statement' ts branches last close := by
  induction hclauses with
  | endif hignored => exact .endif hignored
  | otherwise hignored hmany _ ih =>
      exact .otherwise hignored (hmany.narrow hstatement hlast) (ih hbranches (Nat.zero_le _))
  | elif he hmany _ ih =>
      rw [Branch.heightList, Nat.max_le, Nat.max_le] at hbranches
      exact .elif (hexpression he hbranches.1.1) (hmany.narrow hstatement hbranches.1.2)
        (ih hbranches.2 hlast)

/-- The same for what may stand one level deeper than a statement. -/
def NarrowsDeeper (bound : Nat) (inner inner' : Option Deeper) : Prop :=
  ∀ deeper ∈ inner, ∀ below, bound = below + 1 → ∃ deeper' ∈ inner',
    Narrows below Expression.height deeper.condition deeper'.condition ∧
      ∀ inBlock, Narrows below Statement.height (deeper.statement inBlock) (deeper'.statement inBlock)

theorem NarrowsDeeper.inside {inner inner' : Option Deeper} {deeper : Deeper} {height : Nat}
    (h : NarrowsDeeper bound inner inner') (hinner : deeper ∈ inner) (hheight : height + 1 ≤ bound) :
    ∃ below, height ≤ below ∧
      ∃ deeper' ∈ inner', Narrows below Expression.height deeper.condition deeper'.condition ∧
        ∀ inBlock,
          Narrows below Statement.height (deeper.statement inBlock) (deeper'.statement inBlock) := by
  obtain ⟨below, rfl⟩ := Nat.exists_eq_add_one.mpr (Nat.zero_lt_of_lt hheight)
  exact ⟨below, Nat.le_of_succ_le_succ hheight, h deeper hinner below rfl⟩

theorem IsStatement.narrow {options options' : Options} {inBlock : Bool}
    {expression expression' : Language Expression} {inner inner' : Option Deeper}
    (hoptions : options'.expandingAssign = options.expandingAssign)
    (hexpression : Narrows bound Expression.height expression expression')
    (h : NarrowsDeeper bound inner inner') :
    Narrows bound Statement.height (IsStatement options inBlock expression inner)
      (IsStatement options' inBlock expression' inner') := by
  intro ts x hstatement hx
  -- The height of a statement bounds that of every part, and what stands deeper is lower by one.
  cases hstatement with
  | constant hname hvalue =>
      rw [Statement.height, Nat.max_le] at hx
      exact .constant hname (hexpression hvalue hx.2)
  | typedConstant hname htype hvalue =>
      rw [Statement.height, Nat.max_le] at hx
      exact .typedConstant hname (hexpression htype hx.1) (hexpression hvalue hx.2)
  | group hinner hname hblock =>
      obtain ⟨below, hbelow, deeper', hinner', -, hnarrow⟩ := h.inside hinner hx
      exact .group hinner' hname (Block.narrow (hnarrow _) hblock hbelow)
  | assign hname hvalue => exact .assign hname (hexpression hvalue hx)
  | append hname hvalue => exact .append hname (hexpression hvalue hx)
  | expand hblock hallowed hname => exact .expand hblock (hoptions.trans hallowed) hname
  | choice hinner he hblock =>
      rw [Statement.height, Nat.max_le] at hx
      obtain ⟨below, hbelow, deeper', hinner', -, hnarrow⟩ := h.inside hinner hx.2
      rw [Nat.max_le] at hbelow
      exact .choice hinner' (hexpression he hx.1) (Block.narrow (hnarrow _) hblock hbelow.1)
  | choiceElse hinner he hblock hother =>
      rw [Statement.height, Nat.max_le] at hx
      obtain ⟨below, hbelow, deeper', hinner', -, hnarrow⟩ := h.inside hinner hx.2
      rw [Nat.max_le] at hbelow
      exact .choiceElse hinner' (hexpression he hx.1)  (Block.narrow (hnarrow _) hblock hbelow.1)
        (Block.narrow (hnarrow _) hother hbelow.2)
  | conditional hinner hconditional hmany hclauses =>
      obtain ⟨below, hbelow, deeper', hinner', hcondition, hnarrow⟩ := h.inside hinner hx
      rw [Nat.max_le, Nat.max_le, Nat.max_le] at hbelow
      exact .conditional hinner' (hconditional.narrow hcondition hbelow.1.1)
        (hmany.narrow (hnarrow _) hbelow.1.2)
        (hclauses.narrow hcondition (hnarrow _) hbelow.2.1 hbelow.2.2)
  | message => exact .message
  | passage => exact .passage

theorem statement_narrow {options options' : Options}
    (hoptions : options'.expandingAssign = options.expandingAssign) (room bound : Nat)
    (inBlock : Bool) :
    Narrows bound Statement.height (statement options room inBlock)
      (statement options' bound inBlock) := by
  induction room generalizing bound inBlock with
  | zero =>
      cases bound <;> exact IsStatement.narrow hoptions (expression_narrow false 0 _) nofun
  | succ room ih =>
      cases bound with
      | zero =>
          exact IsStatement.narrow hoptions (expression_narrow false _ _)
            fun _ _ below hbelow => nomatch hbelow
      | succ bound =>
          refine IsStatement.narrow hoptions (expression_narrow false _ _) ?_
          rintro _ ⟨⟩ below hbelow
          obtain rfl := Nat.succ.inj hbelow
          exact ⟨_, rfl, expression_narrow true room bound, fun inBlock => ih bound inBlock⟩

/-- A program needs as much room for nesting as it is high. -/
theorem IsProgram.of_height {options options' : Options}
    (hoptions : options'.expandingAssign = options.expandingAssign) {ts : List Token}
    {program : Program} (h : IsProgram options ts program)
    (hheight : program.height ≤ options'.maxNestingDepth) : IsProgram options' ts program :=
  Many.narrow (statement_narrow hoptions _ _ false) h hheight

end ConfLang.Grammar
