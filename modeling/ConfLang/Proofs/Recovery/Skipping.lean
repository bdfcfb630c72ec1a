import ConfLang.Proofs.Grammar.Coverage.Body
import ConfLang.Proofs.Limit.Statements
import ConfLang.Proofs.Recovery.Language
import ConfLang.Proofs.Recovery.Resumption

/-!
# Constructs that cannot be read are skipped whole

Behind a problem tokens are skipped without looking at what they mean.  Only braces and
conditional directive blocks are counted, so skipping goes over any balanced list of tokens as
long as something around it is open (`leads_balanced`).  A construct that cannot be read is
such a list between the token that opens it and the one that closes it.

The statement fails at one token of the construct (`Fails`), and skipping from there on ends
right behind the construct.
-/

namespace ConfLang

namespace Skipping

variable {braces chains : Nat} {kind : TokenKind}

/-- As long as something is open, skipping ends in front of nothing but a closer of what is
around, or a mark of a block around. -/
theorem stopsAt_open (hopen : 0 < braces + chains) (hend : kind ≠ .endOfFile)
    (hbrace : kind = .symbol .closeBrace → 0 < braces)
    (hmark : ∀ which, kind = .mark which → 0 < chains) (previous span : Span) :
    stopsAt ⟨false, braces, chains⟩ previous ⟨kind, span⟩ = false := by
  have hinside : isOutermost ⟨false, braces, chains⟩ = false := by
    simp only [isOutermost, Bool.and_eq_false_iff, beq_eq_false_iff_ne]
    omega
  cases kind with
  | symbol sign =>
      cases sign with
      | closeBrace => simpa [stopsAt] using Nat.pos_iff_ne_zero.mp (hbrace rfl)
      | _ => rfl
  | mark which => simpa [stopsAt] using Nat.pos_iff_ne_zero.mp (hmark which rfl)
  | keyword word => cases word <;> simp [stopsAt, hinside]
  | endOfFile => exact absurd rfl hend
  | _ => simp [stopsAt, hinside]

theorem forced_skip (skipping : Skipping) (kind : TokenKind) :
    (skipping.skip kind).forced = false := by
  unfold skip
  split <;> rfl

theorem skip_quiet (h : kind.isQuiet = true) :
    skip ⟨false, braces, chains⟩ kind = ⟨false, braces, chains⟩ := by
  cases kind with
  | symbol sign => cases sign <;> first | rfl | simp [TokenKind.isQuiet] at h
  | opener _ | mark _ => simp [TokenKind.isQuiet] at h
  | _ => rfl

end Skipping

namespace Cursor

variable {cursor after : Cursor} {token : Token} {ts : List Token}

/-- At the end of a source there are no tokens but the end of a line. -/
theorem AtEnd.of_scans (hend : cursor.AtEnd) (h : cursor.Scans ts after)
    (hscanned : ∀ token ∈ ts, token.kind.isScanned = true) :
    after.next.token.kind = .endOfFile := by
  induction h with
  | nil => exact hend.1
  | token _ hkind => exact absurd hend.1 hkind
  | text => exact absurd (hscanned _ List.mem_cons_self) (by simp [TokenKind.isScanned])
  | lineEnd hline _ _ ih =>
      rw [List.forall_mem_cons] at hscanned
      refine ih ?_ hscanned.2
      rw [AtEnd, hend.next_lineEnded hline]
      exact hend

/-- In front of another token, tokens that are not raw text stand in the source themselves. -/
theorem Scans.shows_scanned (h : cursor.Scans (token :: ts) after)
    (hscanned : ∀ shown ∈ token :: ts, shown.kind.isScanned = true)
    (hend : after.next.token.kind ≠ .endOfFile) :
    cursor.Shows token ∧ cursor.next.cursor.Scans ts after := by
  rw [List.forall_mem_cons] at hscanned
  cases h with
  | token hproblems hkind hrest => exact ⟨⟨rfl, hproblems, hkind⟩, hrest⟩
  | text => exact absurd hscanned.1 (by simp [TokenKind.isScanned])
  | lineEnd hline hatEnd hrest =>
      have hatEnd' : cursor.lineEnded.AtEnd := by
        rw [AtEnd, hatEnd.next_lineEnded hline]
        exact hatEnd
      exact absurd (hatEnd'.of_scans hrest hscanned.2) hend

end Cursor

theorem Grammar.Balanced.isScanned {inBlock : Bool} {ts : List Token}
    (h : Grammar.Balanced inBlock ts) : ∀ token ∈ ts, token.kind.isScanned = true := by
  induction h with
  | nil => simp
  | @quiet _ token _ hquiet _ ih =>
      rw [List.forall_mem_cons]
      refine ⟨?_, ih⟩
      cases hkind : token.kind <;> simp_all [TokenKind.isQuiet, TokenKind.isScanned]
  | mark _ _ ih =>
      rw [List.forall_mem_cons]
      exact ⟨rfl, ih⟩
  | braces _ _ ihinside ihrest | chain _ _ ihinside ihrest =>
      simp only [List.cons_append, List.forall_mem_cons, List.forall_mem_append]
      exact ⟨rfl, ihinside, rfl, ihrest⟩

namespace Reading

open Grammar

variable {α β : Type} {o : Options} {n : Nesting} {c middle c' : Cursor} {k : Nat}
  {token : Token} {ts : List Token}

/-! ## Skipping tokens -/

theorem gives_skipTurn {skipping : Skipping} (h : c.Shows token)
    (hgoes : skipping.forced = true ∨ ∀ previous, skipping.stopsAt previous token = false)
    (hk : k ≤ 1) :
    Gives o n c k (skipTurn skipping) c.next.cursor 0 (.again (skipping.skip token.kind)) := by
  refine (gives_shown h hk).bind (leads_get fun s _ _ _ => ?_)
  have hturn : (!skipping.forced && skipping.stopsAt s.previous token) = false := by
    rcases hgoes with hforced | hgoes
    · simp [hforced]
    · simp [hgoes]
  rw [if_neg (by simp [hturn])]
  refine (gives_advance h).bind ((gives_note _).bind ?_)
  rw [if_neg h.kind]
  exact gives_pure

/-- A token that is skipped. -/
theorem leads_skip {skipping : Skipping} (h : c.Shows token)
    (hgoes : skipping.forced = true ∨ ∀ previous, skipping.stopsAt previous token = false)
    (hk : k ≤ 1) :
    Leads o n c k (iterate skipTurn skipping) c.next.cursor 0
      (iterate skipTurn (skipping.skip token.kind)) :=
  Leads.iterate_again (gives_skipTurn h hgoes hk) h.left_lt

/-- Skipping goes over tokens that are balanced, inside of something that is open. -/
theorem leads_balanced {inBlock : Bool} (h : Balanced inBlock ts) (hscan : c.Scans ts c')
    (hend : c'.next.token.kind ≠ .endOfFile) {braces chains : Nat} (hopen : 0 < braces + chains)
    (hblock : inBlock = true → 0 < chains) (hk : k ≤ 1) :
    Leads o n c k (iterate skipTurn ⟨false, braces, chains⟩) c' 1
      (iterate skipTurn ⟨false, braces, chains⟩) := by
  -- The induction is on the balanced tokens, whatever is open around them: what they open, they
  -- close again.
  induction h generalizing c c' k braces chains with
  | nil =>
      cases hscan
      exact Leads.refl.weaken (Nat.le_refl k) hk
  | @quiet _ token rest hquiet hrest ih =>
      obtain ⟨hshows, hscan⟩ := hscan.shows_scanned (hrest.quiet hquiet).isScanned hend
      refine (leads_skip hshows (.inr fun previous => ?_) hk).trans ?_
      · exact Skipping.stopsAt_open hopen hshows.kind
          (fun hkind => by simp [hkind, TokenKind.isQuiet] at hquiet)
          (fun which hkind => by simp [hkind, TokenKind.isQuiet] at hquiet) _ _
      · rw [Skipping.skip_quiet hquiet]
        exact ih hscan hend hopen hblock (Nat.zero_le 1)
  | @mark which _ _ hwhich _ ih =>
      obtain ⟨hshows, hscan⟩ := hscan.shows rfl (by simp)
      refine (leads_skip hshows (.inr fun previous => ?_) hk).trans ?_
      · exact Skipping.stopsAt_open hopen (by simp) (by simp) (fun _ _ => hblock rfl) _ _
      · have hsame : Skipping.skip ⟨false, braces, chains⟩ (.mark which) =
            ⟨false, braces, chains⟩ := by
          cases which <;> first | rfl | exact absurd rfl hwhich
        rw [hsame]
        exact ih hscan hend hopen hblock (Nat.zero_le 1)
  | braces _ _ ihinside ihrest =>
      obtain ⟨_, hhead, htail⟩ := hscan.split
      obtain ⟨hopened, hinside⟩ := hhead.shows rfl (by simp)
      obtain ⟨hclose, hrest⟩ := htail.shows rfl (by simp)
      refine (leads_skip hopened (.inr fun previous => ?_) hk).trans ?_
      · exact Skipping.stopsAt_open hopen (by simp) (by simp) (by simp) _ _
      refine (ihinside hinside (by simp [hclose.token]) (Nat.add_pos_left (Nat.succ_pos braces) _)
        hblock (Nat.zero_le 1)).trans ?_
      refine (leads_skip hclose (.inr fun previous => ?_) (Nat.le_refl 1)).trans ?_
      · exact Skipping.stopsAt_open (Nat.add_pos_left (Nat.succ_pos braces) _) (by simp)
          (fun _ => Nat.succ_pos braces) (by simp) _ _
      · exact ihrest hrest hend hopen hblock (Nat.zero_le 1)
  | chain _ _ ihinside ihrest =>
      obtain ⟨_, hhead, htail⟩ := hscan.split
      obtain ⟨hopened, hinside⟩ := hhead.shows rfl (by simp)
      obtain ⟨hclose, hrest⟩ := htail.shows rfl (by simp)
      refine (leads_skip hopened (.inr fun previous => ?_) hk).trans ?_
      · exact Skipping.stopsAt_open hopen (by simp) (by simp) (by simp) _ _
      refine (ihinside hinside (by simp [hclose.token]) (Nat.add_pos_right _ (Nat.succ_pos chains))
        (fun _ => Nat.succ_pos chains) (Nat.zero_le 1)).trans ?_
      refine (leads_skip hclose (.inr fun previous => ?_) (Nat.le_refl 1)).trans ?_
      · exact Skipping.stopsAt_open (Nat.add_pos_right _ (Nat.succ_pos chains)) (by simp) (by simp)
          (fun _ _ => Nat.succ_pos chains) _ _
      · exact ihrest hrest hend hopen hblock (Nat.zero_le 1)

/-! ## Where skipping ends -/

theorem previous_scan (s : State) : s.scan.2.previous = s.previous := by
  rw [State.scan_eq, State.foldl_report_frame]
  rfl

theorem previous_peeked (s : State) : s.peeked.2.previous = s.previous := by
  cases h : s.lookahead with
  | nil => rw [State.peeked_of_nil h, previous_scan]
  | cons token rest => rw [State.peeked_of_cons h]

/-- Behind the last token that is skipped, skipping may end because of the line that the token is
on. -/
theorem gives_skipLast {skipping : Skipping} (hlimit : o.maxErrors = none) (h : c.Shows token)
    (hgoes : skipping.forced = true ∨ ∀ previous, skipping.stopsAt previous token = false)
    (hstop : (skipping.skip token.kind).stopsAt token.span c.next.cursor.next.token = true)
    (hk : k ≤ 1) :
    Gives o n c k (iterate skipTurn skipping) c.next.cursor 1 (skipping.skip token.kind) := by
  intro j hj s hs
  obtain ⟨htoken, hpeeked⟩ := hs.peeked fun _ => .inr h.problems
  rw [Nat.max_eq_right (hj.trans hk)] at hpeeked
  have htaken : s.peeked.2.advanced = s.peeked.2.take token := by
    rw [State.advanced, State.peeked_peeked, htoken, h.token, if_neg h.kind]
  have hturn : EStateM.run (skipTurn skipping) s = .ok (.again (skipping.skip token.kind))
      ((s.peeked.2.take token).note (.skipped token)) := by
    rw [run_skipTurn, htoken, h.token, htaken, if_neg h.kind, if_neg]
    rcases hgoes with hforced | hgoes
    · simp [hforced]
    · simp [hgoes]
  have hbehind : ((s.peeked.2.take token).note (.skipped token)).Sees o n 0 c.next.cursor :=
    (h.token ▸ hpeeked.take h.problems).note _
  obtain ⟨hnext, hlast⟩ := hbehind.peeked fun _ => .inl hlimit
  refine ⟨1, Nat.le_refl 1, _, hlast, ?_⟩
  rw [run_iterate, hturn]
  simp only [hbehind.remaining, hs.remaining, if_pos h.left_lt]
  -- the token that was taken last is the one that the next token is compared with
  have hstops : (!(skipping.skip token.kind).forced && (skipping.skip token.kind).stopsAt
      ((s.peeked.2.take token).note (.skipped token)).peeked.2.previous
      ((s.peeked.2.take token).note (.skipped token)).peeked.1) = true := by
    rw [hnext, previous_peeked, Bool.and_eq_true]
    exact ⟨by rw [Skipping.forced_skip]; rfl, hstop⟩
  rw [run_iterate, run_skipTurn, if_pos hstops]
  rfl

/-! ## Constructs are skipped -/

/-- A block in braces is skipped through its closing brace. -/
theorem gives_skipBlock (hlimit : o.maxErrors = none) (forced : Bool) {opened close : Span}
    (h : Balanced false ts) (hscan : c.Scans
      (⟨.symbol .openBrace, opened⟩ :: ts ++ [⟨.symbol .closeBrace, close⟩]) c')
    (hstop : ({ forced := false } : Skipping).stopsAt close c'.next.token = true) (hk : k ≤ 1) :
    Gives o n c k (iterate skipTurn { forced }) c' 1 { forced := false } := by
  obtain ⟨_, hhead, htail⟩ := hscan.split
  obtain ⟨hopened, hinside⟩ := hhead.shows rfl (by simp)
  obtain ⟨hclose, rfl⟩ := htail.shows_last rfl (by simp)
  have hopening : Leads o n c k (iterate skipTurn { forced }) _ 0
      (iterate skipTurn ⟨false, 1, 0⟩) := leads_skip hopened (.inr fun _ => rfl) hk
  refine hopening.trans ((leads_balanced h hinside (by simp [hclose.token]) Nat.one_pos
    (by simp) (Nat.zero_le 1)).trans ?_)
  exact gives_skipLast hlimit hclose (.inr fun _ => rfl) hstop (Nat.le_refl 1)

/-- Skipping ends in front of the end of the source. -/
theorem gives_skipEnd {skipping : Skipping} (hforced : skipping.forced = false) (hend : c.AtEnd)
    (hline : c.mode.isDirective = true) (hk : k ≤ 1) :
    Gives o n c k (iterate skipTurn skipping) c.lineEnded 1 skipping := by
  refine Gives.iterate_done ((gives_peek_end hend hline hk).bind (leads_get fun s _ _ _ => ?_))
  have hstop : skipping.stopsAt s.previous c.next.token = true := by
    simp [Skipping.stopsAt, hend.1]
  rw [if_pos (by simp [hforced, hstop])]
  exact gives_pure

/-- A conditional directive block is skipped through the line of the mark that closes it. -/
theorem gives_skipConditional (hlimit : o.maxErrors = none) {kind : ConditionKind}
    {start close line : Span} (h : Balanced true ts) (hscan : c.Scans
      (⟨.opener kind, start⟩ :: ts ++ [⟨.mark .endif, close⟩, ⟨.endOfLine, line⟩]) c')
    (hstop : ({ forced := false } : Skipping).stopsAt line c'.next.token = true) (hk : k ≤ 1) :
    Gives o n c k (iterate skipTurn { forced := true }) c' 1 { forced := false } := by
  obtain ⟨_, hhead, htail⟩ := hscan.split
  obtain ⟨hopened, hinside⟩ := hhead.shows rfl (by simp)
  obtain ⟨hclose, htail⟩ := htail.shows rfl (by simp)
  have hopening : Leads o n c k (iterate skipTurn { forced := true }) _ 0
      (iterate skipTurn ⟨false, 0, 1⟩) := leads_skip hopened (.inl rfl) hk
  have hclosing : Leads o n _ 1 (iterate skipTurn ⟨false, 0, 1⟩) _ 0
      (iterate skipTurn { forced := false }) :=
    leads_skip hclose (.inr fun _ => rfl) (Nat.le_refl 1)
  refine hopening.trans ((leads_balanced h hinside (by simp [hclose.token]) Nat.one_pos
    (fun _ => Nat.one_pos) (Nat.zero_le 1)).trans (hclosing.trans ?_))
  rcases htail.endOfLine with ⟨hline, hnil⟩ | ⟨hdirective, hend, -, hnil⟩
  · obtain ⟨⟩ := hnil
    exact gives_skipLast hlimit hline (.inr fun _ => rfl) hstop (Nat.zero_le 1)
  · obtain ⟨⟩ := hnil
    exact gives_skipEnd rfl hend hdirective (Nat.zero_le 1)

/-! ## Statements that fail -/

/-- From a cursor a reading comes to another one and fails there.  If that is where it began, it
has taken nothing. -/
def Fails (o : Options) (n : Nesting) (c : Cursor) (k : Nat) (f : Reading α) (c' : Cursor)
    (problem : Problem) : Prop :=
  ∀ j ≤ k, ∀ s : State, s.Sees o n j c → ∃ j' ≤ 1, ∃ s' : State, s'.Sees o n j' c' ∧
    (c' = c → s'.consumed = s.consumed) ∧ f.run s = (.error problem, s')

theorem consumed_peeked (s : State) : s.peeked.2.consumed = s.consumed := by
  cases h : s.lookahead with
  | nil =>
      rw [State.peeked_of_nil h, State.scan_eq, State.foldl_report_frame]
      rfl
  | cons token rest => rw [State.peeked_of_cons h]

variable {f : Reading α} {problem : Problem}

theorem Fails.bind {rest : α → Reading β} (h : Fails o n c k f c' problem) :
    Fails o n c k (f >>= rest) c' problem := by
  intro j hj s hs
  obtain ⟨j', hj', s', hs', hconsumed, hrun⟩ := h j hj s hs
  exact ⟨j', hj', s', hs', hconsumed, by rw [bind_run, hrun]⟩

theorem Fails.map {rest : α → β} (h : Fails o n c k f c' problem) :
    Fails o n c k (rest <$> f) c' problem := by
  rw [← bind_pure_comp]
  exact h.bind

theorem fails_fail (cause : Cause) (span : Span) (hk : k ≤ 1) :
    Fails o n c k (fail cause span : Reading α) c ⟨cause, span⟩ :=
  fun j hj s hs => ⟨j, hj.trans hk, s, hs, fun _ => rfl, rfl⟩

/-- What comes first takes something. -/
theorem Gives.bind_fails {a : α} {rest : α → Reading β} {k' : Nat}
    (hf : Gives o n c k f middle k' a) (hrest : Fails o n middle k' (rest a) c' problem)
    (hless : c'.left < c.left) : Fails o n c k (f >>= rest) c' problem := by
  intro j hj s hs
  obtain ⟨j', hj', s', hs', hrun⟩ := hf j hj s hs
  obtain ⟨j'', hj'', s'', hs'', -, hfails⟩ := hrest j' hj' s' hs'
  refine ⟨j'', hj'', s'', hs'', fun hsame => absurd hless (hsame ▸ Nat.lt_irrefl _), ?_⟩
  rw [bind_run, run_of_ok hrun]
  exact hfails

theorem fails_peek {rest : Token → Reading α} (h : c.Shows token) (hk : k ≤ 1)
    (hrest : Fails o n c 1 (rest token) c' problem) :
    Fails o n c k (peek >>= rest) c' problem := by
  intro j hj s hs
  obtain ⟨htoken, hpeeked⟩ := hs.peeked fun _ => .inr h.problems
  rw [Nat.max_eq_right (hj.trans hk)] at hpeeked
  obtain ⟨j', hj', s', hs', hconsumed, hrun⟩ := hrest 1 (Nat.le_refl 1) _ hpeeked
  refine ⟨j', hj', s', hs', fun hsame => (hconsumed hsame).trans (consumed_peeked s), ?_⟩
  rw [bind_run, run_of_ok (run_peek s), htoken, h.token]
  exact hrun

theorem fails_get {rest : State → Reading α}
    (hrest : ∀ s : State, s.options = o → s.nesting = n → Fails o n c k (rest s) c' problem) :
    Fails o n c k (get >>= rest) c' problem := by
  intro j hj s hs
  exact hrest s hs.options hs.nesting j hj s hs

theorem fails_unexpected (h : c.Shows token) (expectation : Expectation) (hk : k ≤ 1) :
    Fails o n c k (unexpected expectation : Reading α) c
      ⟨.unexpected expectation token.kind, token.span⟩ :=
  fails_peek h hk (fails_fail _ _ (Nat.le_refl 1))

/-- Without room for one more construct nothing can be nested. -/
theorem fails_nested (h : c.Shows token) (hdepth : n.depth = o.maxNestingDepth) (hk : k ≤ 1) :
    Fails o n c k (nested f) c ⟨.nestingTooDeep o.maxNestingDepth, token.span⟩ := by
  refine fails_get fun s hoptions hnesting => ?_
  rw [if_neg (by rw [hoptions, hnesting, hdepth]; exact Nat.lt_irrefl _)]
  refine fails_peek h hk (fails_get fun s hoptions _ => ?_)
  rw [hoptions]
  exact fails_fail _ _ (Nat.le_refl 1)

/-! ## Constructs that cannot be read -/

/-- A construct that cannot be read fails at one of its tokens, and skipping from there ends
behind it if it ends in front of what follows. -/
theorem fails_rejected {room : Nat} (hlimit : o.maxErrors = none)
    (hroom : n.depth + room = o.maxNestingDepth) (h : Rejected o room ts problem)
    (hscan : c.Scans ts c') (hstop : ∀ last ∈ ts.getLast?,
      ({ forced := false } : Skipping).stopsAt last.span c'.next.token = true) (hk : k ≤ 1) :
    ∃ middle token, middle.Shows token ∧
      Fails o n c k (Statement.read (room + 1)) middle problem ∧
      ∀ forced, (middle = c → forced = true) →
        Gives o n middle 1 (iterate skipTurn { forced }) c' 1 { forced := false } := by
  -- The problem is met at a token of the construct, and from there on all of it is skipped.
  cases h with
  | @block inside opened close h =>
      obtain ⟨hopened, -⟩ := hscan.shows rfl (by simp)
      refine ⟨c, _, hopened, fails_peek hopened hk ?_, fun forced _ => ?_⟩
      · exact fails_unexpected hopened .statement (Nat.le_refl 1)
      · have hclose := hstop ⟨_, close⟩ List.getLast?_concat
        exact gives_skipBlock hlimit forced h hscan hclose (Nat.le_refl 1)
  | @group label name inside start opened close hzero hname h =>
      subst hzero
      obtain ⟨middle, hhead, hblock⟩ := hscan.split
      obtain ⟨hstart, hlabel⟩ := hhead.shows rfl (by simp)
      obtain ⟨hopened, -⟩ := hblock.shows rfl (by simp)
      have hless : middle.left < c.left := hlabel.left_le.trans_lt hstart.left_lt
      have hname' : middle.left < c.next.cursor.left := by
        obtain ⟨⟩ := hname
        obtain ⟨hname', rfl⟩ := hlabel.shows_last rfl (by simp)
        exact hname'.left_lt
      refine ⟨middle, _, hopened, fails_peek hstart hk (Fails.map ?_), fun forced _ => ?_⟩
      · refine (gives_advance hstart).bind_fails ?_ hless
        refine (gives_name hname hlabel _ (Nat.zero_le 1)).bind_fails ?_ hname'
        exact (fails_nested hopened hroom (Nat.zero_le 1)).bind.bind
      · have hclose := hstop ⟨.symbol .closeBrace, close⟩ (by simp [List.getLast?_cons])
        exact gives_skipBlock hlimit forced h hblock hclose (Nat.le_refl 1)
  | @conditional kind inside start close line hzero h =>
      subst hzero
      obtain ⟨hstart, -⟩ := hscan.split.choose_spec.1.shows rfl (by simp)
      refine ⟨c, _, hstart, fails_peek hstart hk ?_, fun forced hforced => ?_⟩
      · exact (fails_nested hstart hroom (Nat.le_refl 1)).bind
      · have hline := hstop ⟨.endOfLine, line⟩ (by simp [List.getLast?_cons])
        rw [hforced rfl]
        exact gives_skipConditional hlimit h hscan hline (Nat.le_refl 1)

/-- A construct that cannot be read is reported, and leaves nothing in the body. -/
theorem givesWith_rejected {room : Nat} (hlimit : o.maxErrors = none)
    (hroom : n.depth + room = o.maxNestingDepth) (h : Rejected o room ts problem)
    (hscan : c.Scans ts c') (hstop : ∀ last ∈ ts.getLast?,
      ({ forced := false } : Skipping).stopsAt last.span c'.next.token = true)
    (statements : Array Statement) (hk : k ≤ 1) :
    GivesWith [problem] o n c k (appendStatement (Statement.read (room + 1)) statements) c' 1
      statements := by
  obtain ⟨middle, token, hshows, hfails, hskip⟩ := fails_rejected hlimit hroom h hscan hstop hk
  intro j hj s hs
  obtain ⟨j', hj', s', hs', hconsumed, hrun⟩ := hfails j hj s hs
  obtain ⟨j'', hj'', last, hlast, hskips⟩ := hskip (s'.consumed == s.consumed)
    (fun hsame => beq_iff_eq.mpr (hconsumed hsame)) j' hj' _ (hs'.unreported hshows.problems hj')
  have hrecover : (recover s.consumed >>= fun _ => pure statements).run s'.unreported =
      (.ok statements, last) := by
    have hsame : s'.unreported.consumed = s'.consumed := rfl
    rw [bind_run, recover_run, bind_run, hsame, run_of_ok hskips]
    rfl
  obtain ⟨t, hresumed, hagree⟩ :=
    run_of_resumption (hs'.resumes_report hlimit hshows.problems hj' problem) hrecover
  refine ⟨j'', hj'', last, t, hlast, hagree, ?_⟩
  rw [appendStatement_run, hrun]
  exact hresumed

end Reading

end ConfLang
