import ConfLang.Proofs.Alteration.Standing
import ConfLang.Proofs.LineEndings.Trees

/-!
# Tokens of sources that follow tokens

The rules for the steps that look at tokens and take them, by what stands there.  Most tokens stand
in the text of every source that follows them, and nothing is special about them (`isCommon`).  A
comma of a list may be missing or come several times, and the end of a line may be the end of the
source.

`Setting.Reads` is the form that most rules have: from some tokens to some others, a reading gives a
value with a property.
-/

namespace ConfLang

namespace TokenKind

/-- Whether a token stands in every source, and tells nothing about its line. -/
def isCommon : TokenKind → Bool
  | symbol .comma | endOfLine | restOfLine _ | endOfFile | opener _ | mark _ => false
  | _ => true

theorem isFirm_of_isCommon {kind : TokenKind} (h : kind.isCommon = true) :
    kind.isFirm = true ∧ kind.opensCondition = false ∧ Zone.code.after kind = .code := by
  unfold isCommon at h
  split at h <;> simp_all [isFirm, opensCondition, Zone.after, zone]

end TokenKind

theorem Zone.notices_code (kind : TokenKind) : Zone.code.notices kind = [] := rfl

theorem Zone.notices_endOfLine (zone : Zone) : zone.notices .endOfLine = [] := by
  cases zone <;> rfl

namespace Alteration

variable {token : Token} {ts : List Token} {kind : TokenKind}

theorem Meets.eq_of_isFirm (h : Meets (token :: ts) kind) (hfirm : token.kind.isFirm = true) :
    kind = token.kind := by
  rcases h with h | ⟨h, -⟩ | ⟨h, -⟩
  · exact h
  · simp [h, TokenKind.isFirm] at hfirm
  · simp [h, TokenKind.isFirm] at hfirm

theorem Meets.endOfLine {span : Span} (h : Meets (⟨.endOfLine, span⟩ :: ts) kind) :
    kind = .endOfLine ∨ kind = .endOfFile := by
  rcases h with h | ⟨h, -⟩ | ⟨-, h⟩
  · exact .inl h
  · cases h
  · exact .inr h

end Alteration

namespace Setting

open Reading Alteration

variable {α : Type} {S : Setting} {n m : Nesting} {zone : Zone} {k : Nat} {current token : Token}
  {ts : List Token} {R : α → State → Prop}

/-- From some tokens to some others, a reading gives a value with a property. -/
def Reads (S : Setting) (n : Nesting) (ts : List Token) (k : Nat) (f : Reading α)
    (ts' : List Token) (k' : Nat) (property : α → Prop) : Prop :=
  Brings (S.At n .code ts k) f fun a s => property a ∧ S.At n .code ts' k' s

/-! ## The current token -/

theorem brings_peek (hlooked : Looked ts) (hk : k ≤ 1) :
    Brings (S.At n zone ts k) peek fun current s => S.Ahead n zone ts 0 current s := by
  rintro s ⟨c, j, due, hj, hfollows, hstands⟩
  obtain ⟨htoken, hpeeked⟩ := hstands.peeked (hfollows.next hlooked).1
  rw [Nat.max_eq_right (hj.trans hk)] at hpeeked
  exact ⟨_, _, run_peek s, c, due, htoken.symm, hfollows, hpeeked⟩

theorem brings_looking {rest : Token → Reading α} (hlooked : Looked ts) (hk : k ≤ 1)
    (h : ∀ current : Token, Meets ts current.kind →
      Brings (S.Ahead n zone ts 0 current) (rest current) R) :
    Brings (S.At n zone ts k) (peek >>= rest) R :=
  (brings_peek hlooked hk).bind fun current =>
    .of_fact (fun _ hs => hs.meets hlooked) (h current)

/-- What stands in every source is found. -/
theorem brings_shown {rest : Token → Reading α} (hfirm : token.kind.isFirm = true) (hk : k ≤ 1)
    (h : ∀ current : Token, current.kind = token.kind →
      Brings (S.Ahead n zone (token :: ts) 0 current) (rest current) R) :
    Brings (S.At n zone (token :: ts) k) (peek >>= rest) R :=
  brings_looking (looked_of_isFirm hfirm) hk fun current hmeets =>
    h current (hmeets.eq_of_isFirm hfirm)

theorem Stands.advanced {c : Cursor} {due : List Due} {causes : List Cause} {s : State}
    (h : S.Stands n c (k + 1) due causes s) (hclean : c.next.problems = [])
    (hend : c.next.token.kind ≠ .endOfFile) :
    s.peeked.1 = c.next.token ∧ S.Stands n c.next.cursor k due causes s.advanced := by
  obtain ⟨htoken, hpeeked⟩ := h.peeked hclean
  rw [Nat.max_eq_left (Nat.le_add_left 1 k)] at hpeeked
  refine ⟨htoken, ?_⟩
  rw [State.advanced, htoken, if_neg hend]
  exact hpeeked.take

theorem brings_advance (hfirm : token.kind.isFirm = true)
    (hkept : token.kind.opensCondition = true → S.alteration.gone token.span.start = false)
    (hnotices : zone.notices token.kind = []) :
    Brings (S.Ahead n zone (token :: ts) k current) advance fun taken s =>
      taken = current ∧ S.At n (zone.after token.kind) ts k s := by
  rintro s ⟨c, due, rfl, hfollows, hstands⟩
  obtain ⟨⟨span, hshows⟩, hrest⟩ := hfollows.firm hfirm hkept
  obtain ⟨htoken, hadvanced⟩ :=
    hstands.advanced hshows.problems (hshows.token ▸ hshows.kind)
  rw [noticesOf, hnotices, List.nil_append] at hadvanced
  exact ⟨_, _, run_advance s, htoken, _, k, due, Nat.le_refl k, hrest, hadvanced⟩

/-- A token about which nothing is special is taken. -/
theorem brings_take (hcommon : token.kind.isCommon = true) :
    Brings (S.Ahead n .code (token :: ts) k current) advance fun taken s =>
      taken = current ∧ S.At n .code ts k s := by
  obtain ⟨hfirm, hopens, hafter⟩ := TokenKind.isFirm_of_isCommon hcommon
  have hadvance : Brings (S.Ahead n .code (token :: ts) k current) advance fun taken s =>
      taken = current ∧ S.At n (Zone.code.after token.kind) ts k s :=
    brings_advance hfirm (by simp [hopens]) (Zone.notices_code _)
  rwa [hafter] at hadvance

theorem brings_peekSecond (hfirm : token.kind.isFirm = true)
    (hkept : token.kind.opensCondition = true → S.alteration.gone token.span.start = false)
    (hlooked : Looked ts) : Brings (S.Ahead n zone (token :: ts) 0 current) peekSecond
      fun second s => Meets ts second.kind ∧ S.Ahead n zone (token :: ts) 1 current s := by
  rintro s ⟨c, due, hcurrent, hfollows, hstands⟩
  obtain ⟨-, hrest⟩ := hfollows.firm hfirm hkept
  obtain ⟨hclean, hmeets⟩ := hrest.next hlooked
  obtain ⟨htoken, hscanned⟩ := hstands.scan hclean
  have hlookahead := hstands.isAt.lookahead
  have hrun : EStateM.run peekSecond s = .ok s.scan.1 s.scan.2 := by
    simp only [peekSecond, EStateM.run_bind, run_peek, State.peeked_of_cons hlookahead,
      EStateM.run_get, hlookahead, Cursor.ahead, run_scan]
  refine ⟨_, _, hrun, ?_, c, due, hcurrent, hfollows, hscanned⟩
  rw [htoken]
  exact hmeets

/-! ## Tokens that are asked for -/

theorem reads_accept {kind : TokenKind} {span : Span} (hcommon : kind.isCommon = true)
    (hk : k ≤ 1) : S.Reads n (⟨kind, span⟩ :: ts) k (accept kind) ts 0 (· = true) := by
  have hfirm := (TokenKind.isFirm_of_isCommon hcommon).1
  unfold accept isAt
  rw [Reads, bind_assoc]
  refine brings_shown hfirm hk fun current hkind => ?_
  rw [pure_bind, if_pos (by simp [hkind])]
  exact (brings_take hcommon).bind_pure fun _ s hs => ⟨rfl, hs.2⟩

/-- What is not found is not taken. -/
theorem brings_not_accept {kind : TokenKind} (hlooked : Looked ts) (hne : ¬ Meets ts kind)
    (hk : k ≤ 1) : Brings (S.At n zone ts k) (accept kind) fun taken s =>
      taken = false ∧ S.At n zone ts 1 s := by
  unfold accept isAt
  rw [bind_assoc]
  refine brings_looking hlooked hk fun current hmeets => ?_
  rw [pure_bind, if_neg (by simpa using fun hkind => hne (by rwa [← hkind]))]
  exact brings_pure fun s hs => ⟨rfl, hs.at⟩

theorem reads_expect {sign : Symbol} {span : Span}
    (hcommon : (TokenKind.symbol sign).isCommon = true) (expectation : Expectation) (hk : k ≤ 1) :
    S.Reads n (⟨.symbol sign, span⟩ :: ts) k (expect sign expectation) ts 0 fun _ => True := by
  refine brings_shown (TokenKind.isFirm_of_isCommon hcommon).1 hk fun current hkind => ?_
  rw [if_pos hkind]
  exact (brings_take hcommon).bind_pure fun _ s hs => ⟨trivial, hs.2⟩

theorem reads_closing (bracket : Bracket) {span : Span} (opened : Span) (hk : k ≤ 1) :
    S.Reads n (⟨.symbol bracket.closing, span⟩ :: ts) k (closing bracket opened) ts 0
      fun _ => True := by
  have hcommon : (TokenKind.symbol bracket.closing).isCommon = true := by cases bracket <;> rfl
  refine brings_shown (TokenKind.isFirm_of_isCommon hcommon).1 hk fun current hkind => ?_
  rw [if_pos hkind]
  exact (brings_take hcommon).bind_pure fun _ s hs => ⟨trivial, hs.2⟩

theorem reads_identifier {text : String} {quoted : Bool} {span : Span}
    (expectation : Expectation) (hk : k ≤ 1) :
    S.Reads n (⟨.name text quoted, span⟩ :: ts) k (identifier expectation) ts 0 fun name =>
      name.unplaced id = (⟨text, quoted, span⟩ : Identifier).unplaced id := by
  refine brings_shown rfl hk fun current hkind => ?_
  rw [hkind]
  exact (brings_take rfl).bind_pure fun _ s hs => ⟨rfl, hs.2⟩

/-! ## The end of a line -/

theorem looked_endOfLine {span : Span} : Looked (⟨.endOfLine, span⟩ :: ts) :=
  looked_cons (by simp)

/-- A line feed that ends a line is taken. -/
theorem brings_lineFeed {span : Span} (hkind : current.kind = .endOfLine) :
    Brings (S.Ahead n zone (⟨.endOfLine, span⟩ :: ts) 0 current) advance
      fun _ s => S.At n .code ts 0 s := by
  rintro s ⟨c, due, rfl, hfollows, hstands⟩
  rcases hfollows.line with ⟨⟨place, hshows⟩, hrest⟩ | ⟨-, hend, -⟩
  · obtain ⟨-, hadvanced⟩ := hstands.advanced hshows.problems (hshows.token ▸ hshows.kind)
    rw [noticesOf, Zone.notices_endOfLine, Zone.after_endOfLine, List.nil_append] at hadvanced
    exact ⟨_, _, run_advance s, _, 0, due, Nat.le_refl 0, hrest, hadvanced⟩
  · rw [hend.1] at hkind
    cases hkind

/-- At the end of the source a line has ended once the end is looked at. -/
theorem Ahead.lineEnded {span : Span} {s : State} (hkind : current.kind = .endOfFile)
    (h : S.Ahead n zone (⟨.endOfLine, span⟩ :: ts) 0 current s) : S.At n .code ts 1 s := by
  obtain ⟨c, due, rfl, hfollows, hstands⟩ := h
  rcases hfollows.line with ⟨⟨place, hshows⟩, -⟩ | ⟨hline, hend, hrest⟩
  · rw [hshows.token] at hkind
    cases hkind
  · rw [noticesOf, Zone.notices_endOfLine, Zone.after_endOfLine, List.nil_append] at hstands
    exact ⟨_, 1, due, Nat.le_refl 1, hrest, hstands.lineEnded hend hline⟩

theorem reads_endOfLine {span : Span} (expectation : Expectation) (hk : k ≤ 1) :
    S.Reads n (⟨.endOfLine, span⟩ :: ts) k (endOfLine expectation) ts 1 fun _ => True := by
  refine brings_looking looked_endOfLine hk fun current hmeets => ?_
  obtain hkind | hkind := hmeets.endOfLine
  · rw [hkind]
    exact (brings_lineFeed hkind).map fun _ s hs => ⟨trivial, hs.weaken (Nat.zero_le 1)⟩
  · rw [hkind]
    exact brings_pure fun s hs => ⟨trivial, hs.lineEnded hkind⟩

/-! ## Raw text -/

theorem brings_rawText {text : String} {span : Span}
    (hnotices : zone.notices (.restOfLine text) = []) :
    Brings (S.At n zone (⟨.restOfLine text, span⟩ :: ts) 0) rawText fun raw s =>
      raw.1 = text ∧ S.At n (zone.after (.restOfLine text)) ts 0 s := by
  rintro s ⟨c, j, due, hj, hfollows, hstands⟩
  obtain rfl := Nat.le_zero.mp hj
  obtain ⟨htext, hrest⟩ := hfollows.raw
  have hrun : EStateM.run rawText s = .ok (c.rawLine.text, c.rawLine.span)
      (s.takeRaw c.rawLine) := by
    rw [run_rawText_of_nil hstands.isAt.lookahead, hstands.isAt.cursor]
    rfl
  rw [noticesOf, hnotices, List.nil_append] at hstands
  exact ⟨_, _, hrun, htext, _, 0, due, Nat.le_refl 0, hrest, hstands.takeRaw⟩

/-! ## Commas of lists -/

/-- A state stands behind a comma of a list, and further commas may come in front of the tokens. -/
def Amid (S : Setting) (n : Nesting) (ts : List Token) (spans : List Span) (k : Nat) (s : State) :
    Prop :=
  ∃ c j after due, j ≤ k ∧ c.Commas spans after ∧ S.alteration.Follows .code ts after due ∧
    S.Stands n c j (spans.map .comma ++ due) (noticesOf .code ts) s

theorem Amid.ordered {spans : List Span} {s : State} (h : S.Amid n ts spans k s) : s.Ordered := by
  obtain ⟨_, _, _, _, -, -, -, hstands⟩ := h
  exact hstands.isAt.ordered

/-- A comma is taken if it is there.  Otherwise the list is closed. -/
theorem brings_acceptComma {span : Span} (hk : k ≤ 1) :
    Brings (S.At n .code (⟨.symbol .comma, span⟩ :: ts) k) (accept (.symbol .comma)) fun taken s =>
      (taken = true ∧ ∃ spans, S.Amid n ts spans 0 s) ∨
        (taken = false ∧ (∃ token rest, ts = token :: rest ∧ token.kind.closesList = true) ∧
          S.At n .code ts 1 s) := by
  unfold accept isAt
  rw [bind_assoc]
  refine brings_looking (looked_cons (by simp)) hk fun current _ => ?_
  rw [pure_bind]
  by_cases hcomma : current.kind = .symbol .comma
  · rw [if_pos (by simp [hcomma])]
    refine Brings.bind_pure (R := fun _ s => ∃ spans, S.Amid n ts spans 0 s) ?_
      fun _ s hs => .inl ⟨rfl, hs⟩
    rintro s ⟨c, due, rfl, hfollows, hstands⟩
    obtain ⟨spans, after, due', ⟨place, hshows⟩, hcommas, rfl, hrest⟩ := hfollows.commas hcomma
    obtain ⟨-, hadvanced⟩ := hstands.advanced hshows.problems (by simp [hcomma])
    exact ⟨_, _, run_advance s, spans, _, 0, after, due', Nat.le_refl 0, hcommas, hrest, hadvanced⟩
  · rw [if_neg (by simpa using hcomma)]
    refine brings_pure fun s hs => .inr ⟨rfl, ?_⟩
    obtain ⟨c, due, rfl, hfollows, hstands⟩ := hs
    obtain ⟨hcloses, hrest⟩ := hfollows.closed hcomma
    exact ⟨hcloses, c, 1, due, Nat.le_refl 1, hrest, hstands⟩

/-- Further commas are taken and reported, each at its place. -/
theorem brings_extraCommas (bracket : Bracket) {spans : List Span} (hlooked : Looked ts)
    (hcomma : ¬ Meets ts (.symbol .comma)) (hk : k ≤ 1) :
    Brings (S.Amid n ts spans k) (extraCommas bracket) fun _ s => S.At n .code ts 1 s := by
  induction spans generalizing k with
  | nil =>
      have hnone (s : State) (hs : S.Amid n ts [] k s) : S.At n .code ts k s := by
        obtain ⟨c, j, after, due, hj, hcommas, hfollows, hstands⟩ := hs
        cases hcommas
        exact ⟨c, j, due, hj, hfollows, hstands⟩
      refine Brings.iterate_done (Brings.from ?_ hnone)
      refine brings_looking hlooked hk fun current hmeets => ?_
      have hne : current.kind ≠ .symbol .comma := fun hkind => hcomma (hkind ▸ hmeets)
      rw [if_neg hne]
      exact brings_pure fun s hs => ⟨(), rfl, hs.at⟩
  | cons span spans ih =>
      rw [extraCommas_eq]
      refine Brings.iterate (fun _ => S.Amid n ts spans 0) (progresses_commaTurn bracket)
        (fun s hs => hs.ordered) ?_ fun _ => ih (Nat.zero_le 1)
      rintro s ⟨c, j, after, due, hj, hcommas, hfollows, hstands⟩
      obtain ⟨hshows, hcommas⟩ : c.Shows ⟨.symbol .comma, span⟩ ∧
          c.next.cursor.Commas spans after := by
        cases hcommas with
        | cons hshows hcommas => exact ⟨hshows, hcommas⟩
      obtain ⟨htoken, hpeeked⟩ := hstands.peeked hshows.problems
      rw [Nat.max_eq_right (hj.trans hk)] at hpeeked
      obtain ⟨-, hadvanced⟩ := hpeeked.advanced hshows.problems (hshows.token ▸ hshows.kind)
      refine ⟨.again (), s.peeked.2.advanced.report (.error (.emptyElement bracket) span), ?_,
        c.next.cursor, 0, after, due, Nat.le_refl 0, hcommas, hfollows,
        hadvanced.reportComma bracket⟩
      rw [hshows.token] at htoken
      rw [commaTurn, EStateM.run_bind, run_peek, htoken]
      simp only [if_true, EStateM.run_bind, run_advance, run_report, EStateM.run_pure]

/-! ## Nesting -/

theorem brings_between {opening closing : State → State} {f : Reading α} {zone' : Zone}
    {ts' : List Token} {k' : Nat} {property : α → Prop}
    (hopening : ∀ s : State, s.nesting = n → opening s = { s with nesting := m })
    (hclosing : ∀ s : State, s.nesting = m → closing s = { s with nesting := n })
    (hf : Brings (S.At m zone ts k) f fun a s => property a ∧ S.At m zone' ts' k' s) :
    Brings (S.At n zone ts k) (Reading.between opening closing f) fun a s =>
      property a ∧ S.At n zone' ts' k' s := by
  refine Brings.between (fun s hs => ?_) hf fun a s hs => ⟨hs.1, ?_⟩
  · rw [hopening s hs.nesting]
    exact hs.renest m
  · rw [hclosing s hs.2.nesting]
    exact hs.2.renest n

/-- With room for one more construct a reading can be nested. -/
theorem brings_nested {f : Reading α} {zone' : Zone} {ts' : List Token} {k' : Nat}
    {property : α → Prop} (hdepth : n.depth < S.options.maxNestingDepth)
    (hf : Brings (S.At n.deeper zone ts k) f fun a s =>
      property a ∧ S.At n.deeper zone' ts' k' s) :
    Brings (S.At n zone ts k) (nested f) fun a s => property a ∧ S.At n zone' ts' k' s := by
  refine brings_get fun s hs => ?_
  rw [hs.nesting, hs.options, if_pos hdepth]
  exact brings_between (fun _ => State.enter_eq) (fun _ => State.leave_eq) hf

end Setting

end ConfLang
