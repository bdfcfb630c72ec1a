import ConfLang.Proofs.Bodies.Turn
import ConfLang.Proofs.Nesting.Height

/-!
# What fits into the limit of nesting

Two things hold of a reading at some depth, both because only `nested` goes deeper and does so
only as long as the limit is not reached:

* the trees that it gives are no higher than what is left of the limit, and
* it does not depend on how the levels go on that are not reached at this depth.

`Within` says both at once, of two readings that differ in such levels.  The rules follow the
steps that readings are made of.
-/

namespace ConfLang

/-- A state at a depth below a limit of nesting. -/
structure State.At (s : State) (limit depth : Nat) : Prop where
  limit : s.options.maxNestingDepth = limit
  depth : s.nesting.depth = depth

namespace Reading

variable {α β σ : Type}

/-- At some depth two readings do the same, come back to that depth, and give only values of
one kind. -/
def Within (limit depth : Nat) (f g : Reading α) (Q : α → Prop) : Prop :=
  ∀ s : State, s.At limit depth →
    f.run s = g.run s ∧ (f.run s).2.At limit depth ∧ ∀ a, (f.run s).1 = .ok a → Q a

variable {limit depth : Nat} {f g : Reading α} {Q : α → Prop}

/-! ## Rules -/

theorem within_pure {a : α} (h : Q a) : Within limit depth (pure a) (pure a) Q :=
  fun _ hs => ⟨rfl, hs, fun _ ha => by cases ha; exact h⟩

theorem within_fail {cause : Cause} {span : Span} :
    Within limit depth (fail cause span : Reading α) (fail cause span) Q :=
  fun _ hs => ⟨rfl, hs, fun _ ha => nomatch ha⟩

instance {diagnostic : Diagnostic} : Obeys balance.Kept (report diagnostic) :=
  ⟨Course.kept_report trivial⟩

/-- A reading without parameters does what it does. -/
theorem within_plain (f : Reading α) [Obeys balance.Kept f] [Adds f] :
    Within limit depth f f fun _ => True := by
  intro s hs
  have hlevel := (Obeys.obeys (P := balance.Kept) (f := f) s).1
  have hgrows := (Obeys.obeys (P := growth.Kept) (f := f) s).1
  refine ⟨rfl, ⟨?_, hlevel.depth.trans hs.depth⟩, fun _ _ => trivial⟩
  rw [hgrows.options, hs.limit]

theorem Within.bind {rest rest' : α → Reading β} {R : β → Prop} (h : Within limit depth f g Q)
    (hrest : ∀ a, Q a → Within limit depth (rest a) (rest' a) R) :
    Within limit depth (f >>= rest) (g >>= rest') R := by
  intro s hs
  obtain ⟨hsame, hroom, hvalue⟩ := h s hs
  rw [bind_run, bind_run, ← hsame]
  generalize f.run s = first at hroom hvalue
  obtain ⟨result, after⟩ := first
  cases result with
  | ok a => exact hrest a (hvalue a rfl) after hroom
  | error problem => exact ⟨rfl, hroom, fun _ ha => nomatch ha⟩

/-- After a reading without parameters. -/
theorem within_after (f : Reading α) [Obeys balance.Kept f] [Adds f] {rest rest' : α → Reading β}
    {R : β → Prop} (hrest : ∀ a, Within limit depth (rest a) (rest' a) R) :
    Within limit depth (f >>= rest) (f >>= rest') R :=
  (within_plain f).bind fun a _ => hrest a

theorem within_get {rest rest' : State → Reading α} (hrest : ∀ s, Within limit depth (rest s) (rest' s) Q) :
    Within limit depth (get >>= rest) (get >>= rest') Q :=
  fun s hs => hrest s s hs

theorem Within.map {k : α → β} {R : β → Prop} (h : Within limit depth f g Q) (hmap : ∀ a, Q a → R (k a)) :
    Within limit depth (k <$> f) (k <$> g) R := by
  rw [← bind_pure_comp, ← bind_pure_comp]
  exact h.bind fun a ha => within_pure (hmap a ha)

theorem Within.attempt (h : Within limit depth f g Q) :
    Within limit depth (attempt f) (attempt g) fun result => ∀ a, result = .ok a → Q a := by
  intro s hs
  obtain ⟨hsame, hroom, hvalue⟩ := h s hs
  rw [attempt_run, attempt_run, ← hsame]
  refine ⟨rfl, hroom, fun result hresult => ?_⟩
  rw [← Except.ok.inj hresult]
  exact hvalue

theorem Within.between {inside : Nat} (opening closing : State → State)
    (hopening : ∀ s : State, s.At limit depth → (opening s).At limit inside)
    (hclosing : ∀ s : State, s.At limit inside → (closing s).At limit depth)
    (h : Within limit inside f g Q) :
    Within limit depth (between opening closing f) (between opening closing g) Q := by
  intro s hs
  obtain ⟨hsame, hat, hvalue⟩ := h _ (hopening s hs)
  rw [between_run, between_run, ← hsame]
  exact ⟨rfl, hclosing _ hat, hvalue⟩

/-- What is nested is read one step deeper, and only below the limit. -/
theorem Within.nested (h : depth < limit → Within limit (depth + 1) f g Q) :
    Within limit depth (nested f) (nested g) fun a => depth < limit ∧ Q a := by
  intro s hs
  by_cases hdepth : depth < limit
  · have hdeeper : s.nesting.depth < s.options.maxNestingDepth := by rwa [hs.limit, hs.depth]
    have hbetween := (h hdepth).between State.enter State.leave
      (fun s hs => ⟨hs.limit, congrArg (· + 1) hs.depth⟩)
      (fun s hs => ⟨hs.limit, Nat.sub_eq_of_eq_add hs.depth⟩)
    rw [nested_run, nested_run, if_pos hdeeper, if_pos hdeeper]
    obtain ⟨hsame, hat, hvalue⟩ := hbetween s hs
    exact ⟨hsame, hat, fun a ha => ⟨hdepth, hvalue a ha⟩⟩
  · have hdeepest : ¬ s.nesting.depth < s.options.maxNestingDepth := by rwa [hs.limit, hs.depth]
    rw [nested_run, nested_run, if_neg hdeepest, if_neg hdeepest]
    obtain ⟨-, hat, -⟩ := within_plain (tooDeep : Reading α) s hs
    exact ⟨rfl, hat, fun a ha => by simp [tooDeep_run] at ha⟩

/-- What holds of the value of a turn. -/
def Turn.Holds (Q : σ → Prop) : Turn σ → Prop
  | .again value => Q value
  | .done value => Q value

theorem Within.iterate {step step' : σ → Reading (Turn σ)} {Q : σ → Prop}
    (hstep : ∀ value, Q value → Within limit depth (step value) (step' value) (Turn.Holds Q))
    {value : σ} (h : Q value) : Within limit depth (iterate step value) (iterate step' value) Q := by
  intro s
  induction hmeasure : s.remaining using Nat.strongRecOn generalizing value s with
  | ind measure ih =>
      subst hmeasure
      intro hs
      obtain ⟨hsame, hroom, hvalue⟩ := hstep value h s hs
      rw [iterate_run, iterate_run, bind_run, bind_run, ← hsame]
      generalize (step value).run s = first at hroom hvalue
      obtain ⟨problem | (value' | value'), after⟩ := first
      · exact ⟨rfl, hroom, fun _ ha => nomatch ha⟩
      · simp only
        rw [afterTurn_again_run, afterTurn_again_run]
        have hagain : Q value' := hvalue _ rfl
        split
        · rename_i hless
          exact ih _ hless hagain after rfl hroom
        · exact within_pure hagain after hroom
      · exact within_pure (Q := Q) (hvalue _ rfl) after hroom

/-! ## Expressions -/

section Expressions

variable {operand operand' inner inner' : Reading Expression}

theorem within_chain {bound : Nat} (h : Within limit depth operand operand' (·.height ≤ bound))
    (least : Nat) :
    Within limit depth (chain operand least) (chain operand' least) (·.height ≤ bound) := by
  induction hmeasure : 5 - least using Nat.strongRecOn generalizing least with
  | ind measure ih =>
      subst hmeasure
      rw [chain_eq, chain_eq]
      refine h.bind fun first hfirst => Within.iterate (fun left hleft => ?_) hfirst
      refine within_after operator? fun operator => ?_
      cases operator with
      | none => exact within_pure hleft
      | some operator =>
          simp only
          split
          · rename_i hleast
            have hless : 5 - (operator.precedence + 1) < 5 - least := by
              have := operator.precedence_le
              omega
            refine within_after advance fun _ => (ih _ hless _ rfl).bind fun right hright => ?_
            exact within_pure (Nat.max_le.mpr ⟨hleft, hright⟩)
          · exact within_pure hleft

theorem within_element {item item' : Reading α} {R : α → Prop} (h : Within limit depth item item' R)
    (bracket : Bracket) {items : Array α} (hitems : ∀ a ∈ items, R a) :
    Within limit depth (element bracket item items) (element bracket item' items)
      (Turn.Holds fun items => ∀ a ∈ items, R a) := by
  unfold element
  refine within_after peek fun token => ?_
  simp only
  split
  · exact within_pure hitems
  · refine h.bind fun a ha => within_after (accept _) fun isThere => ?_
    have hpush : ∀ b ∈ items.push a, R b := by
      intro b hb
      rcases Array.mem_push.mp hb with hb | rfl
      · exact hitems b hb
      · exact ha
    split
    · exact within_after (extraCommas bracket) fun _ => within_pure hpush
    · exact within_pure hpush

theorem within_elements {item item' : Reading α} {R : α → Prop}
    (h : Within limit depth item item' R) (bracket : Bracket) (opened : Span) :
    Within limit depth (elements bracket opened item) (elements bracket opened item')
      fun list => ∀ a ∈ list.1, R a := by
  unfold elements
  have hiterate : Within limit depth (iterate (element bracket item) #[])
      (iterate (element bracket item') #[]) fun items => ∀ a ∈ items, R a :=
    Within.iterate (fun items hitems => within_element h bracket hitems) (by simp)
  refine hiterate.bind fun items hitems => within_after (closing bracket opened) fun close => ?_
  exact within_pure fun a ha => hitems a (Array.mem_toList_iff.mp ha)

theorem within_argument {bound : Nat} (h : Within limit depth inner inner' (·.height ≤ bound)) :
    Within limit depth (argument inner) (argument inner') (·.value.height ≤ bound) := by
  unfold argument
  refine within_after (accept _) fun isThere => ?_
  split
  · refine within_after (identifier _) fun label => within_after (expect _ _) fun _ => ?_
    exact h.bind fun e he => within_pure he
  · exact h.bind fun e he => within_pure he

/-- Expressions are nested one step deeper, and no higher than what is left there. -/
def Deeper (limit depth : Nat) (inner inner' : Reading Expression) : Prop :=
  depth < limit → Within limit (depth + 1) inner inner' (·.height ≤ limit - (depth + 1))

theorem within_unexpected {expectation : Expectation} :
    Within limit depth (unexpected expectation : Reading α) (unexpected expectation) Q :=
  within_after peek fun _ => within_fail

theorem within_definedQuestion :
    Within limit depth definedQuestion definedQuestion (·.height ≤ limit - depth) := by
  unfold definedQuestion
  refine within_after advance fun start => within_after (expect _ _) fun opened => ?_
  refine within_after (identifier _) fun name => within_after (closing _ _) fun close => ?_
  exact within_pure (Nat.zero_le _)

theorem within_primary (h : Deeper limit depth inner inner') :
    Within limit depth (primary inner) (primary inner') (·.height ≤ limit - depth) := by
  rw [primary_eq, primary_eq]
  refine within_after peek fun token => ?_
  obtain ⟨kind, span⟩ := token
  -- What has no parts is read without going deeper.
  have hleaf {e : Expression} (he : e.height = 0) :
      Within limit depth (advance >>= fun _ => pure e) (advance >>= fun _ => pure e)
        (·.height ≤ limit - depth) :=
    within_after advance fun _ => within_pure (he ▸ Nat.zero_le _)
  cases kind with
  | integer value => exact hleaf rfl
  | float value => exact hleaf rfl
  | string text => exact hleaf rfl
  | name text quoted =>
      cases quoted with
      | true => exact hleaf rfl
      | false =>
          refine within_after (isDefinedQuestion text) fun asks => ?_
          split
          · exact within_definedQuestion
          · exact hleaf rfl
  | symbol sign =>
      cases sign with
      | openParen =>
          refine within_after advance fun _ => (Within.nested h).bind fun e he => ?_
          refine within_after (closing _ _) fun _ => within_pure ?_
          obtain ⟨hdepth, he⟩ := he
          rw [Expression.height]
          omega
      | openBracket =>
          refine within_after advance fun _ => ?_
          refine (Within.nested fun hdepth => within_elements (h hdepth) .square span).bind ?_
          rintro ⟨elements, close⟩ ⟨hdepth, helements⟩
          refine within_pure ?_
          have hlist : Expression.heightList elements ≤ limit - (depth + 1) :=
            Expression.heightList_le.mpr helements
          simp only [Expression.height]
          omega
      | _ => exact within_unexpected
  | _ => exact within_unexpected

theorem within_suffix (h : Deeper limit depth inner inner') {operand : Expression}
    (hoperand : operand.height ≤ limit - depth) :
    Within limit depth (suffix inner operand) (suffix inner' operand)
      (Turn.Holds (·.height ≤ limit - depth)) := by
  unfold suffix
  refine within_after peek fun token => ?_
  split
  · refine within_after advance fun _ => within_after (identifier _) fun member => ?_
    exact within_pure hoperand
  · refine within_after advance fun _ => ?_
    refine (Within.nested fun hdepth =>
      within_elements (within_argument (h hdepth)) .paren token.span).bind ?_
    rintro ⟨arguments, close⟩ ⟨hdepth, harguments⟩
    refine within_pure ?_
    have hlist : Argument.heightList arguments ≤ limit - (depth + 1) :=
      Argument.heightList_le.mpr harguments
    simp only [Turn.Holds, Expression.height]
    omega
  · exact within_pure hoperand

theorem within_suffixed (h : Deeper limit depth inner inner') :
    Within limit depth (suffixed inner) (suffixed inner') (·.height ≤ limit - depth) := by
  unfold suffixed
  exact (within_primary h).bind fun first hfirst =>
    Within.iterate (fun operand hoperand => within_suffix h hoperand) hfirst

theorem within_negated {plain plain' : Reading Expression} (h : Deeper limit depth operand operand')
    (hplain : Within limit depth plain plain' (·.height ≤ limit - depth)) :
    Within limit depth (negated operand plain) (negated operand' plain')
      (·.height ≤ limit - depth) := by
  unfold negated
  refine within_after peek fun token => ?_
  split
  · refine within_after advance fun _ => (Within.nested h).bind fun e he => within_pure ?_
    obtain ⟨hdepth, he⟩ := he
    simp only [Expression.height]
    omega
  · exact hplain

/-- Levels that are not reached below the limit of nesting do not matter. -/
theorem within_operand {level level' : Nat} (h : limit < level + depth)
    (h' : limit < level' + depth) (hdepth : depth ≤ limit) :
    Within limit depth (Reading.operand level) (Reading.operand level')
      (·.height ≤ limit - depth) := by
  -- One level less is one step deeper, so neither of them runs out of levels below the limit.
  induction level generalizing level' depth with
  | zero => omega
  | succ level ih =>
      cases level' with
      | zero => omega
      | succ level' =>
          have hdeeper : Deeper limit depth (Reading.operand level) (Reading.operand level') :=
            fun hless => ih (by omega) (by omega) hless
          exact within_negated hdeeper (within_suffixed fun hless => within_chain (hdeeper hless) _)

end Expressions

end Reading

open Reading in
theorem Expression.within_read {limit depth level level' : Nat} (h : limit < level + depth)
    (h' : limit < level' + depth) (hdepth : depth ≤ limit) (least : Nat) :
    Within limit depth (Expression.read level least) (Expression.read level' least)
      (·.height ≤ limit - depth) :=
  within_chain (within_operand h h' hdepth) least

end ConfLang
