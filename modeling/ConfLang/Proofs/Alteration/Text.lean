import ConfLang.Proofs.Alteration.Cursor
import ConfLang.Proofs.Alteration.Follows
import ConfLang.Proofs.Excerpt.Scan
import ConfLang.Proofs.Spans.Lays

/-!
# Following tokens along a text

Where two texts are the same, the second one follows the tokens of the first one
(`Cursor.Walks.follows`).  So a text that differs from another one in some places follows its tokens
if it does so at these places, and it is enough to look at them.  Behind the last one the same text
is left (`Cursor.Scans.follows`).

Which of the directives are without their condition is told by the offsets at which they begin, so
offsets are needed as well: tokens begin behind each other.
-/

namespace ConfLang

/-! ## Zones along tokens -/

/-- What comes behind some tokens. -/
def Zone.behind (zone : Zone) (ts : List Token) : Zone :=
  ts.foldl (fun zone token => zone.after token.kind) zone

namespace Zone

variable {zone : Zone} {kind : TokenKind} {token : Token} {first rest : List Token}

@[simp] theorem behind_nil : zone.behind [] = zone := rfl

@[simp] theorem behind_cons :
    zone.behind (token :: rest) = (zone.after token.kind).behind rest := rfl

theorem behind_append : zone.behind (first ++ rest) = (zone.behind first).behind rest :=
  List.foldl_append

/-- Only where tokens are ignored, or behind the first token of a directive, tokens do not count. -/
theorem after_eq_code (hzone : zone = .code ∨ ∃ kind, zone = .path kind)
    (hstarts : kind.startsDirectiveLine = false) : zone.after kind = .code := by
  unfold after
  split
  · rfl
  · rcases hzone with rfl | ⟨_, rfl⟩
    · cases kind <;> first | rfl | cases hstarts
    · rfl

end Zone

namespace Cursor

variable {cursor after last other : Cursor} {token : Token} {ts : List Token}
  {source tail tail' : List Char} {zone : Zone}

/-! ## Offsets -/

theorem Shows.offset_le (h : cursor.Shows token) : cursor.position.offset ≤ token.span.start :=
  h.token ▸ cursor.offset_le_start_next

/-- A token has bytes. -/
theorem Shows.start_lt (h : cursor.Shows token) :
    token.span.start < cursor.next.cursor.position.offset := by
  obtain ⟨onset, piece, -, hpiece, htoken, hfaults⟩ := h.exists_onset
  obtain ⟨honset, hcursor⟩ := shows_of_piece? hpiece htoken hfaults
  have hleft := honset.left_lt
  have hoffset := onset.offset_next.1
  have hstart : token.span.start = onset.position.offset := by
    rw [Piece.span_of_token? htoken]
    exact congrArg Span.start (origin_of_piece? hpiece)
  rw [hstart, ← hcursor]
  omega

theorem Scans.offset_le_start (h : cursor.Scans ts after) :
    ∀ token ∈ ts, cursor.position.offset ≤ token.span.start := by
  induction h with
  | nil => exact nofun
  | @token cursor _ _ _ _ _ ih =>
      rw [List.forall_mem_cons]
      exact ⟨cursor.offset_le_start_next,
        fun token hmem => cursor.offset_le_next.trans (ih token hmem)⟩
  | @text cursor _ _ _ ih =>
      rw [List.forall_mem_cons]
      refine ⟨?_, fun token hmem => cursor.offset_le_rawLine.trans (ih token hmem)⟩
      exact offset_le_of_suffix (rest_advance _ _) (offset_advance _ _)
  | @lineEnd cursor _ _ _ _ _ ih =>
      rw [List.forall_mem_cons]
      exact ⟨cursor.offset_le_next, ih⟩

/-- The tokens between two cursors that have bytes begin in front of the second one. -/
theorem Walks.start_lt (h : cursor.Walks ts after) :
    ∀ token ∈ ts, (∀ text, token.kind ≠ .restOfLine text) →
      token.span.start < after.position.offset := by
  induction h with
  | nil => exact nofun
  | token hproblems hkind hrest ih =>
      rw [List.forall_mem_cons]
      have hshows : Cursor.Shows _ _ := ⟨rfl, hproblems, hkind⟩
      exact ⟨fun _ => hshows.start_lt.trans_le hrest.offset_le, ih⟩
  | text _ ih =>
      rw [List.forall_mem_cons]
      exact ⟨fun htext => absurd rfl (htext _), ih⟩

/-! ## Zones and lines -/

/-- The first token of a directive is found on no line of another directive. -/
theorem Shows.isDirective_eq_false (h : cursor.Shows token)
    (hstarts : token.kind.startsDirectiveLine = true) : cursor.mode.isDirective = false := by
  obtain ⟨onset, piece, hreaches, hpiece, htoken, -⟩ := h.exists_onset
  obtain ⟨first, rest, -, hkind, -⟩ := eq_of_piece? hpiece
  rw [kind_of_token? htoken] at hkind
  rw [← hreaches.isDirective]
  exact (Lexeme.directive_of_starts hkind.symm hstarts).2.2.1

/-- Tokens that do not count stand on the line of a directive. -/
theorem Walks.isDirective_of_zone (h : cursor.Walks ts after)
    (hzone : zone ≠ .code → cursor.mode.isDirective = true) :
    zone.behind ts ≠ .code → after.mode.isDirective = true := by
  induction h generalizing zone with
  | nil => exact hzone
  | @token cursor _ _ _ hkind _ ih =>
      refine ih fun hafter : zone.after cursor.next.token.kind ≠ .code => ?_
      have hline : cursor.next.token.kind ≠ .endOfLine := by
        intro hline
        rw [hline] at hafter
        exact hafter rfl
      rw [isDirective_next hkind hline, Bool.or_eq_true]
      by_cases hcode : zone = .code
      · right
        by_contra hstarts
        exact hafter (Zone.after_eq_code (.inl hcode) (by simpa using hstarts))
      · exact .inl (hzone hcode)
  | @text cursor _ _ _ ih =>
      refine ih fun hafter : zone.after (.restOfLine cursor.rawLine.text) ≠ .code => ?_
      exact hzone fun hcode => hafter (by rw [hcode]; rfl)

/-- The first token of a directive counts. -/
theorem Walks.zone_of_starts (h : cursor.Walks ts after)
    (hzone : zone ≠ .code → cursor.mode.isDirective = true) (hshows : after.Shows token)
    (hstarts : token.kind.startsDirectiveLine = true) : zone.behind ts = .code := by
  by_contra hcode
  have hline := h.isDirective_of_zone hzone hcode
  rw [hshows.isDirective_eq_false hstarts] at hline
  cases hline

/-! ## Tokens in front of others -/

theorem Walks.shows (h : cursor.Walks (token :: ts) after)
    (htext : ∀ text, token.kind ≠ .restOfLine text) :
    cursor.Shows token ∧ cursor.next.cursor.Walks ts after := by
  cases h with
  | token hproblems hkind hrest => exact ⟨⟨rfl, hproblems, hkind⟩, hrest⟩
  | text => exact absurd rfl (htext _)

/-- There is one place behind tokens that stand in the source. -/
theorem Walks.eq_of_scans (h : cursor.Walks ts after) (hscan : cursor.Scans ts last) :
    last = after := by
  induction h with
  | nil =>
      cases hscan
      rfl
  | @token cursor _ _ _ hkind _ ih =>
      generalize htoken : cursor.next.token = token at hscan
      cases hscan with
      | token _ _ hrest => exact ih hrest
      | text => exact absurd (congrArg Token.kind htoken) (next_ne_restOfLine _)
      | lineEnd _ hend => exact absurd hend.1 hkind
  | text _ ih => exact ih hscan.rawLine.2.2

/-- In whole lines, only the last token may be missing in the source. -/
theorem Scans.walks_dropLast (h : cursor.Scans ts last) (hlines : Grammar.WholeLines ts) :
    ∃ place, cursor.Walks ts.dropLast place := by
  rcases h.walks hlines with hwalk | ⟨inside, lineEnd, place, rfl, hwalk⟩
  · cases ts using List.reverseRecOn with
    | nil => exact ⟨cursor, .nil⟩
    | append_singleton ts token =>
        obtain ⟨place, hfirst, -⟩ := hwalk.split
        exact ⟨place, by rwa [List.dropLast_concat]⟩
  · exact ⟨place, by rwa [List.dropLast_concat]⟩

/-- The tokens in front of another one all stand in the source, if only the last one may be
missing. -/
theorem Scans.walks_before {first rest : List Token}
    (h : cursor.Scans (first ++ token :: rest) last)
    (hwalk : ∃ place, cursor.Walks (first ++ token :: rest).dropLast place) :
    ∃ middle, cursor.Walks first middle ∧ middle.Scans (token :: rest) last ∧
      ∃ place, middle.Walks (token :: rest).dropLast place := by
  obtain ⟨place, hwalk⟩ := hwalk
  rw [List.dropLast_append_of_ne_nil (List.cons_ne_nil _ _)] at hwalk
  obtain ⟨middle, hfirst, hrest⟩ := hwalk.split
  obtain ⟨middle', hscan, hscan'⟩ := h.split
  obtain rfl := hfirst.eq_of_scans hscan
  exact ⟨middle', hfirst, hscan', place, hrest⟩

/-- In whole lines, the tokens in front of another one all stand in the source. -/
theorem Scans.walks_first {first rest : List Token} (h : cursor.Scans (first ++ token :: rest) last)
    (hlines : Grammar.WholeLines (first ++ token :: rest)) :
    ∃ middle, cursor.Walks first middle ∧ middle.Scans (token :: rest) last := by
  obtain ⟨middle, hfirst, hrest, -⟩ := h.walks_before (h.walks_dropLast hlines)
  exact ⟨middle, hfirst, hrest⟩

/-! ## Following the tokens of the same text -/

variable {alteration : Alteration}

/-- A token in front of the place where the texts begin to differ is followed. -/
theorem Beside.follows_next (h : Beside source tail tail' cursor other)
    (halike : Text.Alike tail tail') (hshows : cursor.Shows token)
    (htail : tail <:+ cursor.next.cursor.rest)
    (hkept : token.kind.opensCondition = true → alteration.gone token.span.start = false) :
    Beside source tail tail' cursor.next.cursor other.next.cursor ∧
      ∀ {rest due}, alteration.Follows (zone.after token.kind) rest other.next.cursor due →
        alteration.Follows zone (token :: rest) other due := by
  obtain ⟨⟨span, hother⟩, hbeside⟩ := h.next halike hshows htail
  refine ⟨hbeside, fun {rest due} hrest => ?_⟩
  by_cases hfirm : token.kind.isFirm = true
  · exact .token hfirm hkept hother hrest
  obtain ⟨kind, place⟩ := token
  cases kind with
  | endOfLine => exact .endOfLine hother hrest
  | restOfLine text => exact absurd (congrArg Token.kind hshows.token) (next_ne_restOfLine text)
  | endOfFile => exact absurd rfl hshows.kind
  | symbol sign =>
      cases sign with
      | comma => exact .comma hother .nil (fun hsome => absurd rfl hsome) hrest
      | _ => exact absurd rfl hfirm
  | _ => exact absurd rfl hfirm

theorem Beside.follows_rawLine (h : Beside source tail tail' cursor other)
    (halike : Text.Alike tail tail') (htail : tail <:+ cursor.rawLine.cursor.rest) :
    Beside source tail tail' cursor.rawLine.cursor other.rawLine.cursor ∧
      ∀ {span rest due}, alteration.Follows (zone.after (.restOfLine cursor.rawLine.text)) rest
          other.rawLine.cursor due →
        alteration.Follows zone (⟨.restOfLine cursor.rawLine.text, span⟩ :: rest) other due := by
  obtain ⟨htext, hbeside⟩ := h.rawLine halike htail
  exact ⟨hbeside, fun hrest => .text htext hrest⟩

/-- The tokens in front of the place where the texts begin to differ are followed. -/
theorem Walks.follows (h : cursor.Walks ts after) (halike : Text.Alike tail tail')
    (hbeside : Beside source tail tail' cursor other) (htail : tail <:+ after.rest)
    (hkept : ∀ token ∈ ts, token.kind.opensCondition = true →
      alteration.gone token.span.start = false) :
    ∃ other', Beside source tail tail' after other' ∧
      ∀ {rest due}, alteration.Follows (zone.behind ts) rest other' due →
        alteration.Follows zone (ts ++ rest) other due := by
  induction h generalizing other zone with
  | nil => exact ⟨other, hbeside, fun hrest => hrest⟩
  | token hproblems hkind hrest ih =>
      rw [List.forall_mem_cons] at hkept
      obtain ⟨hnext, htoken⟩ := hbeside.follows_next halike ⟨rfl, hproblems, hkind⟩
        (htail.trans hrest.scans.rest) hkept.1
      obtain ⟨other', hother, hfollows⟩ := ih hnext htail hkept.2
      exact ⟨other', hother, fun hrest => htoken (hfollows hrest)⟩
  | text hrest ih =>
      rw [List.forall_mem_cons] at hkept
      obtain ⟨hnext, htoken⟩ := hbeside.follows_rawLine halike (htail.trans hrest.scans.rest)
      obtain ⟨other', hother, hfollows⟩ := ih hnext htail hkept.2
      exact ⟨other', hother, fun hrest => htoken (hfollows hrest)⟩

/-- Where the same text is left, all its tokens are followed. -/
theorem Scans.follows (h : cursor.Scans ts last) (hend : last.AtEnd)
    (hbeside : Beside source [] [] cursor other)
    (hkept : ∀ token ∈ ts, token.kind.opensCondition = true →
      alteration.gone token.span.start = false) : alteration.Follows zone ts other [] := by
  have halike := Text.alike_refl []
  induction h generalizing other zone with
  | nil => exact .nil (hend.beside hbeside)
  | token hproblems hkind _ ih =>
      rw [List.forall_mem_cons] at hkept
      obtain ⟨hnext, htoken⟩ :=
        hbeside.follows_next halike ⟨rfl, hproblems, hkind⟩ List.nil_suffix hkept.1
      exact htoken (ih hend hnext hkept.2)
  | text _ ih =>
      rw [List.forall_mem_cons] at hkept
      obtain ⟨hnext, htoken⟩ := hbeside.follows_rawLine halike List.nil_suffix
      exact htoken (ih hend hnext hkept.2)
  | lineEnd hline hcursor _ ih =>
      rw [List.forall_mem_cons] at hkept
      refine .lineEnd (hbeside.mode ▸ hline) (hcursor.beside hbeside) (ih hend ?_ hkept.2)
      refine ⟨hbeside.text, ?_, hbeside.stands⟩
      rw [lineEnded, lineEnded, hbeside.mode]

end Cursor

end ConfLang
