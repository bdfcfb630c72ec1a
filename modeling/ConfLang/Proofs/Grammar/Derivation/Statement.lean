import ConfLang.Proofs.Grammar.Coverage.Statement
import ConfLang.Proofs.Grammar.Derivation.Conditional

/-!
# What is read as a statement is derived

Each kind of statement is derived from the tokens that were taken for it.  As in the other
direction, the induction on the room that is left for nesting ties the kinds together
(`derives_statement`).
-/

namespace ConfLang.Reading

open Grammar

variable {o : Options} {n : Nesting} {c c' : Cursor} {k : Nat} {inBlock : Bool}
  {deeper : Option Deeper}

/-! ## Declarations and assignments -/

section Simple

variable {expression : Reading Expression} [Adds expression] {language : Language Expression}

theorem yields_declaredType (hexpression : Derives o n expression language) (hk : k ≤ 1) :
    Yields o n c k (declaredType expression) 1 fun type c' => type = none ∧ c' = c ∨
      ∃ e colon ts, type = some e ∧ language ts e ∧ c.Scans (⟨.symbol .colon, colon⟩ :: ts) c' := by
  unfold declaredType
  refine (yields_accept (by simp) hk).bind inferInstance ?_
  rintro _ _ (⟨rfl, ⟨colon, hcolon⟩, rfl⟩ | ⟨rfl, -, rfl⟩)
  · rw [if_pos rfl]
    refine (hexpression (Nat.le_refl 1)).bind inferInstance ?_
    rintro e c' ⟨ts, h, hscan⟩
    exact yields_pure (.inr ⟨e, colon, ts, rfl, h, hcolon.scans hscan⟩)
  · rw [if_neg Bool.false_ne_true]
    exact yields_pure (.inl ⟨rfl, rfl⟩)

theorem yields_constant (hexpression : Derives o n expression language)
    (hkind : c.next.token.kind = .keyword .constant) :
    Yields o n c 1 (constant expression) 1
      (Derived (IsStatement o inBlock language deeper) c) := by
  unfold constant
  refine yields_advance inferInstance (by simp [hkind]) fun hstart => ?_
  refine (yields_identifier (Nat.zero_le 1)).bind inferInstance ?_
  rintro name ahead ⟨label, hname, hlabel⟩
  have hhead := (hstart.of_kind hkind).scans hlabel
  refine (yields_declaredType hexpression (Nat.zero_le 1)).bind inferInstance ?_
  rintro type middle htype
  refine (yields_expect (Nat.le_refl 1)).bind inferInstance ?_
  rintro sign _ ⟨hsign, rfl⟩
  refine (hexpression (Nat.zero_le 1)).bind inferInstance ?_
  rintro value c' ⟨ts, hvalue, hscan⟩
  rcases htype with ⟨rfl, rfl⟩ | ⟨e, colon, ts', rfl, he, hscan'⟩
  · exact yields_pure ⟨_, .constant hname hvalue, hhead.append (hsign.scans hscan)⟩
  · exact yields_pure ⟨_, .typedConstant hname he hvalue,
      (hhead.append hscan').append (hsign.scans hscan)⟩

/-- An assignment is derived by its sign.  A text can be assigned inside a conditional
directive block only, and only with the option. -/
theorem yields_assignment (hexpression : Derives o n expression language) (hk : k ≤ 1) :
    Yields o n c k (assignment expression) 1
      (Derived (IsStatement o (decide (0 < n.chains)) language deeper) c) := by
  unfold assignment
  refine (yields_identifier hk).bind (fun _ => adds_bind fun _ => ?_) ?_
  · split <;> infer_instance
  rintro target middle ⟨label, hname, hlabel⟩
  refine yields_peek (Nat.zero_le 1) ?_
  split
  · rename_i hkind
    refine yields_advance inferInstance (by simp [hkind]) fun hsign => ?_
    refine (hexpression (Nat.zero_le 1)).bind inferInstance ?_
    rintro value c' ⟨ts, hvalue, hscan⟩
    exact yields_pure ⟨_, .assign hname hvalue, hlabel.append ((hsign.of_kind hkind).scans hscan)⟩
  · rename_i hkind
    refine yields_advance inferInstance (by simp [hkind]) fun hsign => ?_
    refine (hexpression (Nat.zero_le 1)).bind inferInstance ?_
    rintro value c' ⟨ts, hvalue, hscan⟩
    exact yields_pure ⟨_, .append hname hvalue, hlabel.append ((hsign.of_kind hkind).scans hscan)⟩
  · rename_i hkind
    refine yields_get fun s hoptions hnesting _ => ?_
    rw [hoptions, hnesting]
    split
    · rename_i hallowed
      refine yields_advance inferInstance (by simp [hkind]) fun hsign => ?_
      refine Yields.of_leads (gives_rawText.bind .refl) ?_
      exact (yields_pure ⟨_, .expand (by simpa using hallowed.1) hallowed.2 hname,
        hlabel.append ((hsign.of_kind hkind).scans (.text .nil))⟩).loose
    · exact yields_unexpected
  · exact yields_unexpected

omit [Adds expression] in
theorem yields_message {severity : Severity} (hkind : c.next.token.kind = .message severity) :
    Yields o n c 1 (message severity) 1 (Derived (IsStatement o inBlock language deeper) c) := by
  unfold message
  refine yields_advance (fun _ => inferInstance) (by simp [hkind]) fun hstart => ?_
  have hstart := hstart.of_kind hkind
  refine Yields.of_leads (gives_rawText.bind .refl) ?_
  have hline : c.next.cursor.rawLine.cursor.mode.isDirective = true := hstart.isDirective rfl
  refine (yields_endOfLine hline (Nat.zero_le 1)).bind inferInstance ?_
  intro _ c' hends
  obtain ⟨line, hline⟩ := hends.scans .nil
  exact yields_pure ⟨_, .message, hstart.scans (.text hline)⟩

end Simple

/-! ## Blocks of statements -/

section Blocks

variable {inner : Inner} [Adds inner.statement] {expression : Reading Expression}
  {language : Language Expression}

theorem yields_group (hinner : DerivesBelow o n inner deeper) (hcondition : n.inCondition = false)
    (hkind : c.next.token.kind = .keyword .group) :
    Yields o n c 1 (group inner.statement) 1
      (Derived (IsStatement o (decide (0 < n.chains)) language deeper) c) := by
  unfold group
  refine yields_advance inferInstance (by simp [hkind]) fun hstart => ?_
  refine (yields_identifier (Nat.zero_le 1)).bind inferInstance ?_
  rintro name middle ⟨label, hname, hlabel⟩
  refine (yields_block hinner hcondition (Nat.zero_le 1)).bind inferInstance ?_
  rintro body c' ⟨d, hd, ts, hbody, hscan⟩
  exact (yields_pure ⟨_, .group hd hname hbody,
    ((hstart.of_kind hkind).scans hlabel).append hscan⟩).loose

theorem yields_elseBlock (hinner : DerivesBelow o n inner deeper)
    (hcondition : n.inCondition = false) (hk : k ≤ 1) :
    Yields o n c k (elseBlock inner.statement) 1 fun body c' => body = none ∧ c' = c ∨
      ∃ other word ts, ∃ d ∈ deeper, body = some other ∧
        Block (d.statement (decide (0 < n.chains))) ts other ∧
        c.Scans (⟨.keyword .elseWord, word⟩ :: ts) c' := by
  unfold elseBlock
  refine (yields_accept (by simp) hk).bind inferInstance ?_
  rintro _ _ (⟨rfl, ⟨word, hword⟩, rfl⟩ | ⟨rfl, -, rfl⟩)
  · rw [if_pos rfl]
    refine Yields.loose ?_
    refine (yields_block hinner hcondition (Nat.le_refl 1)).bind inferInstance ?_
    rintro other c' ⟨d, hd, ts, hother, hscan⟩
    exact yields_pure (.inr ⟨other, word, ts, d, hd, rfl, hother, hword.scans hscan⟩)
  · rw [if_neg Bool.false_ne_true]
    exact yields_pure (.inl ⟨rfl, rfl⟩)

theorem yields_choice [Adds expression] (hexpression : Derives o n expression language)
    (hinner : DerivesBelow o n inner deeper) (hcondition : n.inCondition = false)
    (hkind : c.next.token.kind = .keyword .ifWord) :
    Yields o n c 1 (choice expression inner.statement) 1
      (Derived (IsStatement o (decide (0 < n.chains)) language deeper) c) := by
  unfold choice
  refine yields_advance inferInstance (by simp [hkind]) fun hstart => ?_
  have hstart := hstart.of_kind hkind
  refine (yields_expect (Nat.zero_le 1)).bind inferInstance ?_
  rintro opened _ ⟨hopened, rfl⟩
  refine (hexpression (Nat.zero_le 1)).bind inferInstance ?_
  rintro e ahead ⟨ts, he, hscan⟩
  refine (yields_closing (Nat.le_refl 1)).bind inferInstance ?_
  rintro close _ ⟨hclose, rfl⟩
  refine (yields_block hinner hcondition (Nat.zero_le 1)).bind inferInstance ?_
  rintro body middle ⟨d, hd, ts', hbody, hscan'⟩
  have hall := (hstart.scans (hopened.scans hscan)).append (hclose.scans hscan')
  refine (yields_elseBlock hinner hcondition (Nat.zero_le 1)).bind inferInstance ?_
  rintro _ c' (⟨rfl, rfl⟩ | ⟨other, word, ts'', d', hd', rfl, hother, hscan''⟩)
  · exact yields_pure ⟨_, .choice hd he hbody, hall⟩
  · obtain rfl := Option.mem_unique hd hd'
    exact yields_pure ⟨_, .choiceElse hd he hbody hother, hall.append hscan''⟩

end Blocks

/-! ## All statements -/

theorem derives_anyStatement {expression : Reading Expression} [Adds expression]
    {language : Language Expression} {inner : Inner} [Adds inner.expression]
    [Adds inner.statement] (hcondition : n.inCondition = false)
    (hexpression : Derives o n expression language) (hinner : DerivesBelow o n inner deeper) :
    DerivesStatement o n (Reading.statement expression inner)
      (IsStatement o (decide (0 < n.chains)) language deeper) := by
  intro c k hk
  have hsome {f : Reading Statement}
      (h : Yields o n c 1 f 1 (Derived (IsStatement o (decide (0 < n.chains)) language deeper) c)) :
      Yields o n c 1 (some <$> f) 1 fun a c' => ∃ statement, a = some statement ∧
        Derived (IsStatement o (decide (0 < n.chains)) language deeper) c statement c' :=
    h.map fun statement _ h => ⟨statement, rfl, h⟩
  rw [statement_eq]
  refine yields_peek hk ?_
  apply statementAt_cases (motive := fun f => Yields o n c 1 f 1 fun a c' =>
    ∃ statement, a = some statement ∧
      Derived (IsStatement o (decide (0 < n.chains)) language deeper) c statement c')
  case opener =>
    exact fun _ hkind => yields_conditionalFrom hinner hcondition hkind _ _ (Nat.le_refl 1)
  case message => exact fun _ hkind => hsome (yields_message hkind)
  case passage =>
    intro _ hkind
    refine yields_advance inferInstance (by simp [hkind]) fun hshows => ?_
    exact (yields_pure ⟨_, rfl, _, .passage, (hshows.of_kind hkind).scans .nil⟩).loose
  case mark => exact fun _ _ => yields_get fun _ _ _ _ => yields_fail
  case constant => exact fun hkind => hsome (yields_constant hexpression hkind)
  case group => exact fun hkind => hsome (yields_group hinner hcondition hkind)
  case choice => exact fun hkind => hsome (yields_choice hexpression hinner hcondition hkind)
  case assignment => exact fun _ _ _ => hsome (yields_assignment hexpression (Nat.le_refl 1))
  case other => exact yields_unexpected

/-- Statements are read with no more room for nesting than the grammar gives them. -/
theorem derives_statement {room : Nat} (hroom : n.depth + room = o.maxNestingDepth)
    (hcondition : n.inCondition = false) :
    DerivesStatement o n (Statement.read (room + 1))
      (Grammar.statement o room (decide (0 < n.chains))) := by
  have hexpression {room : Nat} {m : Nesting} (hroom : m.depth + room = o.maxNestingDepth)
      {b : Bool} (hb : m.inCondition = b) :
      Derives o m (Expression.read (room + 1) Operator.lowestPrecedence)
        (Grammar.expression b room) :=
    hb ▸ derives_expression hroom
  induction room generalizing n with
  | zero =>
      have hinner : DerivesBelow o n ⟨Expression.read 0 Operator.lowestPrecedence,
          Statement.read 0⟩ none := fun hdepth => absurd hroom (Nat.ne_of_lt hdepth)
      exact derives_anyStatement hcondition (hexpression hroom hcondition) hinner
  | succ room ih =>
      have hdeeper {m : Nesting} (hm : m.depth = n.depth + 1) :
          m.depth + room = o.maxNestingDepth := by omega
      have hinner : DerivesBelow o n ⟨Expression.read (room + 1) Operator.lowestPrecedence,
          Statement.read (room + 1)⟩
          (some ⟨Grammar.expression true room, Grammar.statement o room⟩) := fun _ =>
        ⟨_, rfl, fun _ => opening_program, worded_expression true room,
          fun m hm => ih (hdeeper hm), fun m hm => hexpression (hdeeper hm)⟩
      exact derives_anyStatement hcondition (hexpression hroom hcondition) hinner

end ConfLang.Reading
