import ConfLang.Proofs.Declarations.Warnings
import ConfLang.Proofs.DirectiveLine.Condition

/-!
# Sources that follow the tokens of another one

The tokens of a source without errors stand for its program.  Another source may follow these tokens
though it is not the same: with other spacing, with more commas behind the comma of a list, with no
comma in front of the bracket that closes a list, or with something else on the line of a directive
that opens a branch.  `Alteration.Follows` tells which of these differences there are from a place
of the other source on, and which errors are due for them.

The tokens are those of the first source, and the places are those of the second one.  Nothing is
said about the places of the first source, so a text is compared with it once, and everything else
is about the reading of the second one.

Behind some marks the rest of the line is ignored.  More commas there are no errors, so it is told
in which `Zone` of a line a token stands.
-/

namespace ConfLang

/-! ## Zones -/

/-- What comes next on a line: tokens that count, a path, the tokens behind a mark that nothing
should follow, or more of these. -/
inductive Zone where
  | code
  | path (kind : ConditionKind)
  | mark (which : Mark)
  | ignored
  deriving DecidableEq, Repr

/-- What comes behind a token that counts. -/
def TokenKind.zone : TokenKind → Zone
  | opener .fileExists => .path .fileExists
  | opener .fileMissing => .path .fileMissing
  | mark .otherwise => .mark .otherwise
  | mark .endif => .mark .endif
  | _ => .code

/-- What comes behind a token. -/
def Zone.after (zone : Zone) (kind : TokenKind) : Zone :=
  if kind = .endOfLine then .code
  else
    match zone with
    | code => kind.zone
    | path _ => .code
    | mark _ | ignored => .ignored

@[simp] theorem Zone.after_endOfLine (zone : Zone) : zone.after .endOfLine = .code := rfl

/-- What is warned about at a token: a path that is empty, or the first token that is ignored. -/
def Zone.notices (zone : Zone) (kind : TokenKind) : List Cause :=
  match zone, kind with
  | path kind, .restOfLine text => if text.isEmpty then [.emptyPath kind] else []
  | mark _, .endOfLine => []
  | mark which, _ => [.extraTokens which]
  | _, _ => []

/-- What is warned about on the way through tokens. -/
def noticesOf (zone : Zone) : List Token → List Cause
  | [] => []
  | token :: rest => zone.notices token.kind ++ noticesOf (zone.after token.kind) rest

/-! ## Errors that are due -/

/-- An error that is due: for a comma too many, or for a line whose condition cannot be read and
that ends in front of a place. -/
inductive Due where
  | comma (span : Span)
  | line (behind : Cursor)

/-- The errors that were due, in this order. -/
inductive Reported : List Due → List Diagnostic → Prop where
  | nil : Reported [] []
  | comma {span due errors} (bracket : Bracket) : Reported due errors →
    Reported (.comma span :: due) (.error (.emptyElement bracket) span :: errors)
  | line {behind due errors} {problems : List Problem} : problems ≠ [] →
    (∀ problem ∈ problems, problem.span.Above behind) → Reported due errors →
    Reported (.line behind :: due) (problems.map Problem.diagnostic ++ errors)

theorem Reported.append {due more : List Due} {errors others : List Diagnostic}
    (h : Reported due errors) (hmore : Reported more others) :
    Reported (due ++ more) (errors ++ others) := by
  induction h with
  | nil => exact hmore
  | comma bracket _ ih => exact .comma bracket ih
  | line hsome habove _ ih =>
      rw [List.append_assoc]
      exact .line hsome habove ih

/-! ## Following tokens -/

namespace TokenKind

/-- Whether a token stands in the text of every source that follows it. -/
def isFirm : TokenKind → Bool
  | symbol .comma | endOfLine | restOfLine _ | endOfFile => false
  | _ => true

/-- Whether a condition stands behind a token on its line. -/
def opensCondition : TokenKind → Bool
  | opener _ | mark .elif => true
  | _ => false

/-- Whether a token closes a list. -/
def closesList (kind : TokenKind) : Bool :=
  kind = .symbol .closeParen ∨ kind = .symbol .closeBracket

theorem isFirm_of_closesList {kind : TokenKind} (h : kind.closesList = true) :
    kind.isFirm = true ∧ kind.zone = .code ∧ kind.opensCondition = false := by
  simp only [closesList, decide_eq_true_eq] at h
  rcases h with rfl | rfl <;> exact ⟨rfl, rfl, rfl⟩

end TokenKind

/-- Commas one after the other, at some places. -/
inductive Cursor.Commas : Cursor → List Span → Cursor → Prop where
  | nil {cursor} : Commas cursor [] cursor
  | cons {cursor after span spans} : cursor.Shows ⟨.symbol .comma, span⟩ →
    Commas cursor.next.cursor spans after → Commas cursor (span :: spans) after

/-- On which lines there is something else: those of the directives that begin at some offsets, with
the places behind these directives. -/
structure Alteration where
  gone : Nat → Bool
  place : Cursor → Prop

namespace Alteration

/-- No directive is without its condition. -/
def KeepsLines (alteration : Alteration) : Prop :=
  ∀ offset, alteration.gone offset = false

/-- From a place on, a source follows tokens up to its end, and some errors are due. -/
inductive Follows (alteration : Alteration) : Zone → List Token → Cursor → List Due → Prop where
  | nil {zone cursor} : cursor.AtEnd → Follows alteration zone [] cursor []
  | token {zone token ts cursor span due} : token.kind.isFirm = true →
    (token.kind.opensCondition = true → alteration.gone token.span.start = false) →
    cursor.Shows ⟨token.kind, span⟩ →
    Follows alteration (zone.after token.kind) ts cursor.next.cursor due →
    Follows alteration zone (token :: ts) cursor due
  | comma {zone span ts cursor place spans after due} : cursor.Shows ⟨.symbol .comma, place⟩ →
    cursor.next.cursor.Commas spans after → (spans ≠ [] → zone = .code) →
    Follows alteration (zone.after (.symbol .comma)) ts after due →
    Follows alteration zone (⟨.symbol .comma, span⟩ :: ts) cursor (spans.map .comma ++ due)
  | absent {span token ts cursor due} : token.kind.closesList = true →
    Follows alteration .code (token :: ts) cursor due →
    Follows alteration .code (⟨.symbol .comma, span⟩ :: token :: ts) cursor due
  | text {zone text span ts cursor due} : cursor.rawLine.text = text →
    Follows alteration (zone.after (.restOfLine text)) ts cursor.rawLine.cursor due →
    Follows alteration zone (⟨.restOfLine text, span⟩ :: ts) cursor due
  | endOfLine {zone span place ts cursor due} : cursor.Shows ⟨.endOfLine, place⟩ →
    Follows alteration .code ts cursor.next.cursor due →
    Follows alteration zone (⟨.endOfLine, span⟩ :: ts) cursor due
  | lineEnd {zone span ts cursor due} : cursor.mode.isDirective = true → cursor.AtEnd →
    Follows alteration .code ts cursor.lineEnded due →
    Follows alteration zone (⟨.endOfLine, span⟩ :: ts) cursor due
  | gone {token line span place ts cursor behind due} : token.kind.opensCondition = true →
    alteration.gone token.span.start = true → cursor.Shows ⟨token.kind, place⟩ →
    (∀ other ∈ line, other.kind ≠ .endOfLine) → alteration.place cursor.next.cursor →
    cursor.next.cursor.LineTo behind → Follows alteration .code ts behind due →
    Follows alteration .code (token :: line ++ ⟨.endOfLine, span⟩ :: ts) cursor
      (.line behind :: due)

/-! ## What comes next -/

/-- What may be found where some tokens are to come. -/
def Meets : List Token → TokenKind → Prop
  | [], kind => kind = .endOfFile
  | token :: _, kind => kind = token.kind ∨ token.kind = .symbol .comma ∧ kind.closesList = true ∨
    token.kind = .endOfLine ∧ kind = .endOfFile

/-- The first token of a list is no raw text, so it is looked at. -/
def Looked (ts : List Token) : Prop :=
  ∀ token ∈ ts.head?, ∀ text, token.kind ≠ .restOfLine text

variable {alteration : Alteration} {zone : Zone} {token : Token} {ts : List Token}
  {cursor : Cursor} {due : List Due}

theorem looked_nil : Looked [] := nofun

theorem looked_cons (h : ∀ text, token.kind ≠ .restOfLine text) : Looked (token :: ts) := by
  rintro _ ⟨⟩
  exact h

theorem looked_of_isFirm (h : token.kind.isFirm = true) : Looked (token :: ts) :=
  looked_cons fun text htext => by simp [htext, TokenKind.isFirm] at h

/-- In front of tokens that are looked at nothing wrong stands. -/
theorem Follows.next (h : alteration.Follows zone ts cursor due) (hlooked : Looked ts) :
    cursor.next.problems = [] ∧ Meets ts cursor.next.token.kind := by
  cases h with
  | nil hend => exact ⟨hend.2, hend.1⟩
  | token _ _ hshows => exact ⟨hshows.problems, .inl (by rw [hshows.token])⟩
  | comma hshows => exact ⟨hshows.problems, .inl (by rw [hshows.token])⟩
  | absent hcloses h =>
      obtain ⟨hfirm, -, hopens⟩ := TokenKind.isFirm_of_closesList hcloses
      cases h with
      | token _ _ hshows =>
          exact ⟨hshows.problems, .inr (.inl ⟨rfl, by rw [hshows.token]; exact hcloses⟩)⟩
      | gone hopens' => exact absurd hopens' (by simp [hopens])
      | _ => simp [TokenKind.isFirm] at hfirm
  | text => exact absurd rfl (hlooked _ rfl _)
  | endOfLine hshows => exact ⟨hshows.problems, .inl (by rw [hshows.token])⟩
  | lineEnd _ hend => exact ⟨hend.2, .inr (.inr ⟨rfl, hend.1⟩)⟩
  | gone _ _ hshows => exact ⟨hshows.problems, .inl (by rw [hshows.token])⟩

/-- A token that stands in the text of every source comes next. -/
theorem Follows.firm (h : alteration.Follows zone (token :: ts) cursor due)
    (hfirm : token.kind.isFirm = true)
    (hkept : token.kind.opensCondition = true → alteration.gone token.span.start = false) :
    (∃ span, cursor.Shows ⟨token.kind, span⟩) ∧
      alteration.Follows (zone.after token.kind) ts cursor.next.cursor due := by
  cases h with
  | token _ _ hshows hrest => exact ⟨⟨_, hshows⟩, hrest⟩
  | gone hopens hgone => exact absurd (hkept hopens) (by simp [hgone])
  | _ => simp [TokenKind.isFirm] at hfirm

/-- Where a comma of a list is found, more of them may follow. -/
theorem Follows.commas {span : Span}
    (h : alteration.Follows .code (⟨.symbol .comma, span⟩ :: ts) cursor due)
    (hnext : cursor.next.token.kind = .symbol .comma) :
    ∃ spans after due', (∃ place, cursor.Shows ⟨.symbol .comma, place⟩) ∧
      cursor.next.cursor.Commas spans after ∧ due = spans.map .comma ++ due' ∧
      alteration.Follows .code ts after due' := by
  cases h with
  | token hfirm => simp [TokenKind.isFirm] at hfirm
  | comma hshows hcommas _ hrest => exact ⟨_, _, _, ⟨_, hshows⟩, hcommas, rfl, hrest⟩
  | absent hcloses h =>
      obtain ⟨-, hmeets⟩ := h.next (looked_of_isFirm (TokenKind.isFirm_of_closesList hcloses).1)
      rw [hnext] at hmeets
      rcases hmeets with hkind | ⟨hkind, hcloses'⟩ | ⟨-, hkind⟩
      · rw [← hkind] at hcloses
        simp [TokenKind.closesList] at hcloses
      · simp [TokenKind.closesList] at hcloses'
      · cases hkind
  | gone hopens => simp [TokenKind.opensCondition] at hopens

/-- Where no comma of a list is found, the list is closed. -/
theorem Follows.closed {span : Span}
    (h : alteration.Follows .code (⟨.symbol .comma, span⟩ :: ts) cursor due)
    (hnext : cursor.next.token.kind ≠ .symbol .comma) :
    (∃ token rest, ts = token :: rest ∧ token.kind.closesList = true) ∧
      alteration.Follows .code ts cursor due := by
  cases h with
  | token hfirm => simp [TokenKind.isFirm] at hfirm
  | comma hshows => exact absurd (by rw [hshows.token]) hnext
  | absent hcloses h => exact ⟨⟨_, _, rfl, hcloses⟩, h⟩
  | gone hopens => simp [TokenKind.opensCondition] at hopens

theorem Follows.raw {text : String} {span : Span}
    (h : alteration.Follows zone (⟨.restOfLine text, span⟩ :: ts) cursor due) :
    cursor.rawLine.text = text ∧
      alteration.Follows (zone.after (.restOfLine text)) ts cursor.rawLine.cursor due := by
  cases h with
  | token hfirm => simp [TokenKind.isFirm] at hfirm
  | text htext hrest => exact ⟨htext, hrest⟩
  | gone hopens => simp [TokenKind.opensCondition] at hopens

theorem Follows.line {span : Span}
    (h : alteration.Follows zone (⟨.endOfLine, span⟩ :: ts) cursor due) :
    (∃ place, cursor.Shows ⟨.endOfLine, place⟩) ∧
        alteration.Follows .code ts cursor.next.cursor due ∨
      cursor.mode.isDirective = true ∧ cursor.AtEnd ∧
        alteration.Follows .code ts cursor.lineEnded due := by
  cases h with
  | token hfirm => simp [TokenKind.isFirm] at hfirm
  | endOfLine hshows hrest => exact .inl ⟨⟨_, hshows⟩, hrest⟩
  | lineEnd hline hend hrest => exact .inr ⟨hline, hend, hrest⟩
  | gone hopens => simp [TokenKind.opensCondition] at hopens

/-- Lists of tokens up to the first end of a line. -/
theorem append_endOfLine_inj {first first' rest rest' : List Token} {span span' : Span}
    (hfirst : ∀ token ∈ first, token.kind ≠ .endOfLine)
    (hfirst' : ∀ token ∈ first', token.kind ≠ .endOfLine)
    (h : first ++ ⟨.endOfLine, span⟩ :: rest = first' ++ ⟨.endOfLine, span'⟩ :: rest') :
    first = first' ∧ rest = rest' := by
  induction first generalizing first' with
  | nil =>
      cases first' with
      | nil => exact ⟨rfl, (List.cons.inj h).2⟩
      | cons token first' =>
          obtain ⟨rfl, -⟩ := List.cons.inj h
          exact absurd rfl (hfirst' _ List.mem_cons_self)
  | cons token first ih =>
      rw [List.forall_mem_cons] at hfirst
      cases first' with
      | nil =>
          obtain ⟨rfl, -⟩ := List.cons.inj h
          exact absurd rfl hfirst.1
      | cons token' first' =>
          rw [List.forall_mem_cons] at hfirst'
          obtain ⟨rfl, hrest⟩ := List.cons.inj h
          obtain ⟨rfl, rfl⟩ := ih hfirst.2 hfirst'.2 hrest
          exact ⟨rfl, rfl⟩

/-- Where a directive is without its condition, the source goes on behind the line. -/
theorem Follows.withoutLine {line : List Token} {span : Span}
    (h : alteration.Follows .code (token :: line ++ ⟨.endOfLine, span⟩ :: ts) cursor due)
    (hopens : token.kind.opensCondition = true) (hgone : alteration.gone token.span.start = true)
    (hline : ∀ other ∈ line, other.kind ≠ .endOfLine) :
    ∃ behind due', (∃ place, cursor.Shows ⟨token.kind, place⟩) ∧
      alteration.place cursor.next.cursor ∧ cursor.next.cursor.LineTo behind ∧
      due = .line behind :: due' ∧ alteration.Follows .code ts behind due' := by
  generalize hts : token :: line ++ ⟨.endOfLine, span⟩ :: ts = all at h
  cases h with
  | nil => cases hts
  | token hfirm hkept =>
      obtain ⟨rfl, -⟩ := List.cons.inj hts
      exact absurd (hkept hopens) (by simp [hgone])
  | gone _ _ hshows hline' hplace hbehind hrest =>
      simp only [List.cons_append, List.cons.injEq] at hts
      obtain ⟨rfl, hts⟩ := hts
      obtain ⟨-, rfl⟩ := append_endOfLine_inj hline hline' hts
      exact ⟨_, _, ⟨_, hshows⟩, hplace, hbehind, rfl, hrest⟩
  | _ =>
      obtain ⟨rfl, -⟩ := List.cons.inj hts
      simp [TokenKind.opensCondition] at hopens

end Alteration

end ConfLang
