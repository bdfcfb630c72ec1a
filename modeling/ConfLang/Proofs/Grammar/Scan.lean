import ConfLang.Proofs.Placement.Scan

/-!
# The tokens of a source

Which tokens a source has depends on where raw text is asked for.  `Cursor.Scans` therefore
tells all lists of tokens that stand between two cursors, with raw text at any places; a
derivation of the grammar then allows it in exactly those places where the grammar has
raw text.  Nothing wrong may stand between the tokens, and the end of the source is none
of them, but it ends the line of a directive if there is no line feed.
-/

namespace ConfLang

namespace Cursor

/-- Nothing is left of a source, and nothing wrong stands in front of its end. -/
def AtEnd (cursor : Cursor) : Prop :=
  cursor.next.token.kind = .endOfFile ∧ cursor.next.problems = []

/-- The end of a directive line at the end of the source, at the place that a line feed there
would have. -/
def lineEnd (cursor : Cursor) : Token :=
  ⟨.endOfLine, Span.between cursor.next.cursor.position (cursor.next.cursor.position.next '\n')⟩

/-- The same place behind the end of a directive line. -/
def lineEnded (cursor : Cursor) : Cursor :=
  { cursor with mode := { cursor.mode with isDirective := false } }

/-- The tokens between two cursors. -/
inductive Scans : Cursor → List Token → Cursor → Prop where
  | nil {cursor} : Scans cursor [] cursor
  | token {cursor after ts} : cursor.next.problems = [] → cursor.next.token.kind ≠ .endOfFile →
    Scans cursor.next.cursor ts after → Scans cursor (cursor.next.token :: ts) after
  | text {cursor after ts} : Scans cursor.rawLine.cursor ts after →
    Scans cursor (⟨.restOfLine cursor.rawLine.text, cursor.rawLine.span⟩ :: ts) after
  | lineEnd {cursor after ts} : cursor.mode.isDirective = true → cursor.AtEnd →
    Scans cursor.lineEnded ts after → Scans cursor (cursor.lineEnd :: ts) after

/-! ## What is left of a source -/

theorem rest_advance (cursor : Cursor) (count : Nat) :
    (cursor.advance count).rest <:+ cursor.rest :=
  List.drop_suffix _ _

theorem rest_piece? {cursor after : Cursor} {piece : Piece}
    (h : cursor.piece? = some (piece, after)) : after.rest <:+ cursor.rest := by
  unfold piece? at h
  split at h
  · simp at h
  · simp only [Option.some.injEq, Prod.mk.injEq] at h
    obtain ⟨-, rfl⟩ := h
    exact cursor.rest_advance _

theorem rest_next (cursor : Cursor) : cursor.next.cursor.rest <:+ cursor.rest := by
  fun_induction next cursor with
  | case1 => exact List.suffix_rfl
  | case2 cursor piece after h => exact rest_piece? h
  | case3 cursor piece after h _ scan ih => exact ih.trans (rest_piece? h)

theorem rest_rawLine (cursor : Cursor) : cursor.rawLine.cursor.rest <:+ cursor.rest :=
  (rest_advance _ _).trans (rest_advance _ _)

theorem Scans.rest {cursor after : Cursor} {ts : List Token} (h : cursor.Scans ts after) :
    after.rest <:+ cursor.rest := by
  induction h with
  | nil => exact List.suffix_rfl
  | token _ _ _ ih => exact ih.trans (rest_next _)
  | text _ ih => exact ih.trans (rest_rawLine _)
  | lineEnd _ _ _ ih => exact ih

/-! ## Taking lists of tokens apart -/

theorem Scans.append {cursor middle after : Cursor} {first rest : List Token}
    (hfirst : cursor.Scans first middle) (hrest : middle.Scans rest after) :
    cursor.Scans (first ++ rest) after := by
  induction hfirst with
  | nil => exact hrest
  | token hproblems hkind _ ih => exact .token hproblems hkind (ih hrest)
  | text _ ih => exact .text (ih hrest)
  | lineEnd hline hend _ ih => exact .lineEnd hline hend (ih hrest)

theorem Scans.split {cursor after : Cursor} {first rest : List Token}
    (h : cursor.Scans (first ++ rest) after) :
    ∃ middle, cursor.Scans first middle ∧ middle.Scans rest after := by
  induction first generalizing cursor with
  | nil => exact ⟨cursor, .nil, h⟩
  | cons token ts ih =>
      cases h with
      | token hproblems hkind h =>
          obtain ⟨middle, hfirst, hrest⟩ := ih h
          exact ⟨middle, .token hproblems hkind hfirst, hrest⟩
      | text h =>
          obtain ⟨middle, hfirst, hrest⟩ := ih h
          exact ⟨middle, .text hfirst, hrest⟩
      | lineEnd hline hend h =>
          obtain ⟨middle, hfirst, hrest⟩ := ih h
          exact ⟨middle, .lineEnd hline hend hfirst, hrest⟩

end Cursor

/-! ## Kinds of tokens -/

/-- Whether a token can be found without asking for raw text. -/
def TokenKind.isScanned : TokenKind → Bool
  | .restOfLine _ | .endOfFile => false
  | _ => true

namespace Lexeme

/-- The word of a directive begins the line of a directive. -/
theorem startsDirectiveLine_of_ofDirective? {word : String} {kind : TokenKind}
    (h : TokenKind.ofDirective? word = some kind) : kind.startsDirectiveLine = true := by
  obtain ⟨before, after, hlist, -⟩ := List.lookup_eq_some_iff.mp h
  have hmem := List.mem_append_right before (List.mem_cons_self (a := (word, kind)) (l := after))
  rw [← hlist] at hmem
  simp only [List.mem_append, List.mem_map, Prod.mk.injEq] at hmem
  rcases hmem with (⟨_, _, _, rfl⟩ | ⟨_, _, _, rfl⟩) | ⟨_, _, _, rfl⟩ <;> rfl

theorem isScanned_of_ofDirective? {word : String} {kind : TokenKind}
    (h : TokenKind.ofDirective? word = some kind) : kind.isScanned = true := by
  have hstarts := startsDirectiveLine_of_ofDirective? h
  cases kind <;> first | rfl | cases hstarts

/-- A lexeme that is a token is no raw text and not the end of the source. -/
theorem isScanned_of_read {mode : LineMode} {first : Char} {rest : List Char} {kind : TokenKind}
    (h : (read mode first rest).kind = .token kind) : kind.isScanned = true := by
  revert h
  refine read_cases (P := fun lexeme => lexeme.kind = .token kind → _) ?spacing ?lineFeed ?comment
    ?quoted ?number ?word ?percent ?symbol
  case spacing | comment => exact fun _ => nofun
  case lineFeed =>
    intro _
    split
    · rintro ⟨⟩
      rfl
    · exact nofun
  case quoted =>
    intro quote _
    cases quote <;> (rintro ⟨⟩; rfl)
  case number =>
    intro _
    rcases kind_readNumber first rest with ⟨_, hkind⟩ | ⟨_, hkind⟩ <;>
      (rw [hkind]; rintro ⟨⟩; rfl)
  case word =>
    intro _
    rcases readWord_cases first rest with ⟨_, _, hword⟩ | ⟨_, _, hword⟩ <;>
      (rw [hword]; rintro ⟨⟩; rfl)
  case percent =>
    intro _
    split
    · rcases readDirective_cases rest with ⟨_, _, _, hdirective, hword⟩ | ⟨_, _, hword⟩
      · rw [hword]
        rintro ⟨⟩
        exact isScanned_of_ofDirective? hdirective
      · rw [hword]
        rintro ⟨⟩
        rfl
    · exact nofun
  case symbol =>
    rcases readSymbol_cases first rest with ⟨_, _, hsign⟩ | ⟨_, hlone⟩ | ⟨_, hother⟩
    · rw [hsign]
      rintro ⟨⟩
      rfl
    · rw [hlone]
      exact nofun
    · rw [hother]
      exact nofun

/-- What is neither trivia nor the end of a line is a token or has a fault. -/
theorem token_or_fault (mode : LineMode) (first : Char) (rest : List Char) :
    (∃ kind, (readToken mode first rest).kind = .token kind) ∨
      (readToken mode first rest).faults ≠ [] := by
  unfold readToken
  split
  · exact .inl ⟨_, rfl⟩
  split
  · exact .inl ⟨_, rfl⟩
  split
  · rcases readWord_cases first rest with ⟨_, _, hword⟩ | ⟨_, _, hword⟩ <;>
      exact .inl ⟨_, congrArg kind hword⟩
  split
  · split
    · rcases readDirective_cases rest with ⟨_, _, _, -, hword⟩ | ⟨_, _, hword⟩ <;>
        exact .inl ⟨_, congrArg kind hword⟩
    · exact .inr (List.cons_ne_nil _ _)
  · rcases readSymbol_cases first rest with ⟨_, _, hsign⟩ | ⟨_, hlone⟩ | ⟨_, hother⟩
    · exact .inl ⟨_, congrArg kind hsign⟩
    · exact .inr (hlone ▸ List.cons_ne_nil _ _)
    · exact .inr (hother ▸ List.cons_ne_nil _ _)

/-- On the line of a directive, trivia is read in the same way as on another line. -/
theorem read_of_trivia {mode : LineMode} {first : Char} {rest : List Char}
    (hline : mode.isDirective = true) (hkind : ∀ kind, (read mode first rest).kind ≠ .token kind)
    (hfaults : (read mode first rest).faults = []) :
    read { mode with isDirective := false } first rest = read mode first rest := by
  unfold read at hkind hfaults ⊢
  split
  · rfl
  split
  · rename_i hspacing hnewline
    rw [if_neg hspacing, if_pos hnewline, if_pos hline] at hkind
    exact absurd rfl (hkind _)
  split
  · rfl
  · rename_i hspacing hnewline hcomment
    rw [if_neg hspacing, if_neg hnewline, if_neg hcomment] at hkind hfaults
    rcases token_or_fault mode first rest with ⟨kind, h⟩ | h
    · exact absurd h (hkind kind)
    · exact absurd hfaults h

end Lexeme

/-! ## The next token -/

namespace Cursor

variable {cursor after : Cursor} {token : Token} {ts : List Token}

theorem kind_of_token? {piece : Piece} (h : piece.token? = some token) :
    piece.kind = .token token.kind := by
  unfold Piece.token? at h
  split at h
  · rename_i hkind
    rw [hkind, ← Option.some.inj h]
  · simp at h

theorem isDirective_modeAfter {mode mode' : LineMode} (h : mode.isDirective = mode'.isDirective)
    (kind : LexemeKind) :
    (modeAfter mode kind).isDirective = (modeAfter mode' kind).isDirective := by
  unfold modeAfter
  split <;> simp [h]

theorem modeAfter_of_passed {kind : LexemeKind} (h : ∀ token, kind ≠ .token token)
    (mode : LineMode) : modeAfter mode kind = mode := by
  cases kind with
  | token token => exact absurd rfl (h token)
  | _ => rfl

theorem kind_of_passed {piece : Piece} (h : piece.token? = none) (kind : TokenKind) :
    piece.kind ≠ .token kind := by
  intro hkind
  simp [Piece.token?, hkind] at h

/-- In front of a character, the lexeme that begins with it comes next. -/
theorem piece?_of_rest {first : Char} {rest : List Char} (hrest : cursor.rest = first :: rest) :
    cursor.piece? =
      let lexeme := Lexeme.read cursor.mode first rest
      let after := cursor.advance lexeme.width
      some (⟨lexeme.kind, .between cursor.position after.position, lexeme.faults⟩,
        { after with mode := modeAfter after.mode lexeme.kind }) := by
  unfold piece?
  rw [hrest]

/-- In front of a line feed, the line feed comes next. -/
theorem piece?_lineFeed {tail : List Char} (h : cursor.rest = '\n' :: tail) : cursor.piece? =
    some (⟨if cursor.mode.isDirective then .token .endOfLine else .trivia .newline,
      .between cursor.position (cursor.position.next '\n'), []⟩,
      ⟨tail, cursor.position.next '\n', {}⟩) := by
  obtain ⟨rest, position, atStart, isDirective⟩ := cursor
  obtain rfl : rest = _ := h
  cases isDirective <;> rfl

/-- A piece is a lexeme at its place. -/
theorem eq_of_piece? {piece : Piece} (h : cursor.piece? = some (piece, after)) :
    ∃ first rest, cursor.rest = first :: rest ∧
      piece.kind = (Lexeme.read cursor.mode first rest).kind ∧
      piece.faults = (Lexeme.read cursor.mode first rest).faults ∧
      after.mode.isDirective = (modeAfter cursor.mode piece.kind).isDirective := by
  unfold piece? at h
  split at h
  · simp at h
  · rename_i first rest hrest
    simp only [Option.some.injEq, Prod.mk.injEq] at h
    obtain ⟨rfl, rfl⟩ := h
    exact ⟨first, rest, hrest, rfl, rfl, isDirective_modeAfter (by rfl) _⟩

/-- A piece begins where its cursor stands. -/
theorem origin_of_piece? {piece : Piece} (h : cursor.piece? = some (piece, after)) :
    piece.span.origin = Span.emptyAt cursor.position := by
  unfold piece? at h
  split at h
  · cases h
  · simp only [Option.some.injEq, Prod.mk.injEq] at h
    obtain ⟨rfl, -⟩ := h
    rfl

/-- Only where nothing is left there is no piece. -/
theorem rest_of_piece?_none (h : cursor.piece? = none) : cursor.rest = [] := by
  unfold piece? at h
  split at h
  · assumption
  · cases h

/-- A piece that is a token is no raw text and not the end of the source. -/
theorem isScanned_of_piece? {piece : Piece} (hpiece : cursor.piece? = some (piece, after))
    (htoken : piece.token? = some token) : token.kind.isScanned = true := by
  obtain ⟨first, rest, -, hkind, -⟩ := eq_of_piece? hpiece
  exact Lexeme.isScanned_of_read (hkind ▸ kind_of_token? htoken)

theorem next_of_none (h : cursor.piece? = none) :
    cursor.next = ⟨[], cursor.endOfFile, [], cursor.lineEnded⟩ := by
  rw [next]
  split
  · rfl
  · rename_i h'
    simp [h] at h'

theorem next_of_token {piece : Piece} (h : cursor.piece? = some (piece, after))
    (htoken : piece.token? = some token) : cursor.next = ⟨[], token, piece.problems, after⟩ := by
  rw [next]
  split
  · rename_i h'
    simp [h] at h'
  · rename_i h'
    obtain ⟨rfl, rfl⟩ := Prod.mk.inj (Option.some.inj (h'.symm.trans h))
    simp only [htoken]

theorem next_of_passed {piece : Piece} (h : cursor.piece? = some (piece, after))
    (htoken : piece.token? = none) :
    cursor.next = { after.next with passed := piece :: after.next.passed } := by
  rw [next]
  split
  · rename_i h'
    simp [h] at h'
  · rename_i h'
    obtain ⟨rfl, rfl⟩ := Prod.mk.inj (Option.some.inj (h'.symm.trans h))
    simp only [htoken]

theorem isScanned_next (h : cursor.next.token.kind ≠ .endOfFile) :
    cursor.next.token.kind.isScanned = true := by
  revert h
  fun_induction next cursor with
  | case1 => simp [endOfFile]
  | case2 cursor piece after hpiece token htoken =>
      exact fun _ => isScanned_of_piece? hpiece htoken
  | case3 cursor piece after hpiece htoken scan ih => exact ih

/-- The end of the file is found where nothing is left, and has no bytes. -/
theorem next_of_endOfFile (h : cursor.next.token.kind = .endOfFile) :
    cursor.next.cursor.rest = [] ∧
      cursor.next.token.span = .emptyAt cursor.next.cursor.position := by
  revert h
  fun_induction next cursor with
  | case1 cursor hnone =>
      have hrest : cursor.rest = [] := rest_of_piece?_none hnone
      exact fun _ => ⟨hrest, rfl⟩
  | case2 cursor piece after hpiece token htoken =>
      intro hkind
      have hscanned := isScanned_of_piece? hpiece htoken
      simp only at hkind
      simp [hkind, TokenKind.isScanned] at hscanned
  | case3 cursor piece after hpiece htoken scan ih => exact ih

/-- Raw text is no token that is found by itself. -/
theorem next_ne_restOfLine (text : String) : cursor.next.token.kind ≠ .restOfLine text := by
  intro h
  have hscanned := cursor.isScanned_next (by simp [h])
  simp [h, TokenKind.isScanned] at hscanned

/-- The line of a directive goes on until its end. -/
theorem isDirective_next (hend : cursor.next.token.kind ≠ .endOfFile)
    (hline : cursor.next.token.kind ≠ .endOfLine) : cursor.next.cursor.mode.isDirective =
      (cursor.mode.isDirective || cursor.next.token.kind.startsDirectiveLine) := by
  revert hend hline
  fun_induction next cursor with
  | case1 => simp [endOfFile]
  | case2 cursor piece after hpiece token htoken =>
      intro _ hline
      obtain ⟨first, rest, -, -, -, hmode⟩ := eq_of_piece? hpiece
      rw [kind_of_token? htoken] at hmode
      simp only at hline ⊢
      rw [hmode]
      cases hkind : token.kind <;> first | rfl | exact absurd hkind hline
  | case3 cursor piece after hpiece htoken scan ih =>
      intro hend hline
      obtain ⟨first, rest, -, -, -, hmode⟩ := eq_of_piece? hpiece
      rw [modeAfter_of_passed (kind_of_passed htoken)] at hmode
      exact (ih hend hline).trans (by rw [hmode])

theorem isDirective_endOfLine (h : cursor.next.token.kind = .endOfLine) :
    cursor.next.cursor.mode.isDirective = false := by
  revert h
  fun_induction next cursor with
  | case1 => simp [endOfFile]
  | case2 cursor piece after hpiece token htoken =>
      intro hline
      obtain ⟨first, rest, -, -, -, hmode⟩ := eq_of_piece? hpiece
      rw [kind_of_token? htoken, hline] at hmode
      exact hmode
  | case3 cursor piece after hpiece htoken scan ih => exact ih

/-- Nothing is left but what stands between tokens. -/
inductive IsBlank : Cursor → Prop where
  | stop {cursor : Cursor} : cursor.rest = [] → IsBlank cursor
  | pass {cursor after : Cursor} {piece : Piece} : cursor.piece? = some (piece, after) → piece.token? = none →
    piece.faults = [] → IsBlank after → IsBlank cursor

theorem AtEnd.isBlank (hend : cursor.AtEnd) : cursor.IsBlank := by
  obtain ⟨hkind, hproblems⟩ := hend
  revert hkind hproblems
  fun_induction next cursor with
  | case1 cursor hnone =>
      exact fun _ _ => .stop (rest_of_piece?_none hnone)
  | case2 cursor piece after hpiece token htoken =>
      intro hkind
      have hscanned := isScanned_of_piece? hpiece htoken
      simp only at hkind
      simp [hkind, TokenKind.isScanned] at hscanned
  | case3 cursor piece after hpiece htoken scan ih =>
      intro hkind hproblems
      rw [Scan.problems_pass, List.append_eq_nil_iff, Piece.problems, List.map_eq_nil_iff]
        at hproblems
      exact .pass hpiece htoken hproblems.1 (ih hkind hproblems.2)

theorem next_of_rest_nil (h : cursor.rest = []) :
    cursor.next = ⟨[], cursor.endOfFile, [], cursor.lineEnded⟩ :=
  next_of_none (by simp [piece?, h])

/-- Where nothing is left a source is at its end. -/
theorem atEnd_of_rest_nil (h : cursor.rest = []) : cursor.AtEnd := by
  rw [AtEnd, next_of_rest_nil h]
  exact ⟨rfl, rfl⟩

theorem isDirective_of_passed {piece : Piece} (hpiece : cursor.piece? = some (piece, after))
    (htoken : piece.token? = none) : after.mode.isDirective = cursor.mode.isDirective := by
  obtain ⟨first, rest, -, -, -, hmode⟩ := eq_of_piece? hpiece
  rwa [modeAfter_of_passed (kind_of_passed htoken)] at hmode

/-- At the end of a source it does not count whether the line is that of a directive. -/
theorem AtEnd.next_lineEnded (hend : cursor.AtEnd) (hline : cursor.mode.isDirective = true) :
    cursor.lineEnded.next = cursor.next := by
  have hblank := hend.isBlank
  clear hend
  revert hline
  induction hblank with
  | @stop cursor hrest =>
      intro _
      rw [next_of_rest_nil hrest]
      exact next_of_rest_nil hrest
  | @pass cursor after piece hpiece htoken hfaults _ ih =>
      intro hline
      have hafter := isDirective_of_passed hpiece htoken
      obtain ⟨first, rest, hrest, hread, hfaults', -⟩ := eq_of_piece? hpiece
      -- The piece is trivia, so it is read in the same way on another line.
      have hsame := Lexeme.read_of_trivia hline (fun kind => hread ▸ kind_of_passed htoken kind)
        (hfaults' ▸ hfaults)
      have hnext : cursor.lineEnded.piece? = some (piece, after.lineEnded) := by
        obtain ⟨_, position, mode⟩ := cursor
        obtain rfl := hrest
        simp only [piece?, Option.some.injEq, Prod.mk.injEq] at hpiece
        obtain ⟨rfl, rfl⟩ := hpiece
        simp only [piece?, lineEnded, hsame, modeAfter_of_passed (kind_of_passed htoken)]
        rfl
      rw [next_of_passed hnext htoken, ih (hafter.trans hline), ← next_of_passed hpiece htoken]

/-! ## The tokens of a list -/

/-- The next token of a source, with nothing wrong in front of it. -/
structure Shows (cursor : Cursor) (shown : Token) : Prop where
  token : cursor.next.token = shown
  problems : cursor.next.problems = []
  kind : shown.kind ≠ .endOfFile

/-- Where the line of a directive ends, and what is behind its end. -/
def EndsLine (cursor after : Cursor) : Prop :=
  (∃ token, cursor.Shows token ∧ token.kind = .endOfLine ∧ after = cursor.next.cursor) ∨
    (cursor.mode.isDirective = true ∧ cursor.AtEnd ∧ after = cursor.lineEnded)

theorem Shows.of_kind (h : cursor.Shows token) {kind : TokenKind} (hkind : token.kind = kind) :
    cursor.Shows ⟨kind, token.span⟩ := hkind ▸ h

theorem Shows.scans (h : cursor.Shows token) (hrest : cursor.next.cursor.Scans ts after) :
    cursor.Scans (token :: ts) after := by
  obtain ⟨rfl, hproblems, hkind⟩ := h
  exact .token hproblems hkind hrest

theorem EndsLine.scans {middle : Cursor} (h : cursor.EndsLine middle)
    (hrest : middle.Scans ts after) : ∃ span, cursor.Scans (⟨.endOfLine, span⟩ :: ts) after := by
  rcases h with ⟨⟨kind, span⟩, hshows, rfl, rfl⟩ | ⟨hline, hend, rfl⟩
  · exact ⟨span, hshows.scans hrest⟩
  · exact ⟨_, .lineEnd hline hend hrest⟩

/-- Behind the first token of a directive the line is that of a directive. -/
theorem Shows.isDirective (h : cursor.Shows token)
    (hstarts : token.kind.startsDirectiveLine = true) :
    cursor.next.cursor.mode.isDirective = true := by
  rw [isDirective_next, h.token, hstarts, Bool.or_true]
  · exact h.token ▸ h.kind
  · rw [h.token]
    intro hline
    simp [hline, TokenKind.startsDirectiveLine] at hstarts

theorem EndsLine.isDirective (h : cursor.EndsLine after) : after.mode.isDirective = false := by
  rcases h with ⟨token, hshows, hkind, rfl⟩ | ⟨-, -, rfl⟩
  · exact isDirective_endOfLine (hshows.token ▸ hkind)
  · rfl

/-- A token that is neither raw text nor the end of a line stands in the source itself. -/
theorem Scans.shows_of_ne (h : cursor.Scans (token :: ts) after)
    (htext : ∀ text, token.kind ≠ .restOfLine text) (hline : token.kind ≠ .endOfLine) :
    cursor.Shows token ∧ cursor.next.cursor.Scans ts after := by
  cases h with
  | token hproblems hkind hrest => exact ⟨⟨rfl, hproblems, hkind⟩, hrest⟩
  | text => exact absurd rfl (htext _)
  | lineEnd => exact absurd rfl hline

theorem Scans.shows {kind : TokenKind} {span : Span} (h : cursor.Scans (⟨kind, span⟩ :: ts) after)
    (hscanned : kind.isScanned = true) (hline : kind ≠ .endOfLine) :
    cursor.Shows ⟨kind, span⟩ ∧ cursor.next.cursor.Scans ts after := by
  refine h.shows_of_ne ?_ hline
  rintro text rfl
  simp [TokenKind.isScanned] at hscanned

theorem Scans.shows_last {kind : TokenKind} {span : Span} (h : cursor.Scans [⟨kind, span⟩] after)
    (hscanned : kind.isScanned = true) (hline : kind ≠ .endOfLine) :
    cursor.Shows ⟨kind, span⟩ ∧ after = cursor.next.cursor := by
  obtain ⟨hshows, hrest⟩ := h.shows hscanned hline
  cases hrest
  exact ⟨hshows, rfl⟩

/-- The end of a line stands in the source, or it is the end of the source. -/
theorem Scans.endOfLine {span : Span} (h : cursor.Scans (⟨.endOfLine, span⟩ :: ts) after) :
    cursor.Shows ⟨.endOfLine, span⟩ ∧ cursor.next.cursor.Scans ts after ∨
      cursor.mode.isDirective = true ∧ cursor.AtEnd ∧ cursor.lineEnd = ⟨.endOfLine, span⟩ ∧
        cursor.lineEnded.Scans ts after := by
  generalize htoken : (⟨.endOfLine, span⟩ : Token) = token at h
  cases h with
  | token hproblems hkind hrest => exact .inl ⟨⟨rfl, hproblems, hkind⟩, hrest⟩
  | text => simp at htoken
  | lineEnd hline hend hrest => exact .inr ⟨hline, hend, rfl, hrest⟩

theorem Scans.endsLine {span : Span} (h : cursor.Scans (⟨.endOfLine, span⟩ :: ts) after) :
    ∃ middle, cursor.EndsLine middle ∧ middle.Scans ts after := by
  rcases h.endOfLine with ⟨hshows, hrest⟩ | ⟨hline, hend, -, hrest⟩
  · exact ⟨_, .inl ⟨_, hshows, rfl, rfl⟩, hrest⟩
  · exact ⟨_, .inr ⟨hline, hend, rfl⟩, hrest⟩

theorem Scans.rawLine {text : String} {span : Span}
    (h : cursor.Scans (⟨.restOfLine text, span⟩ :: ts) after) :
    cursor.rawLine.text = text ∧ cursor.rawLine.span = span ∧
      cursor.rawLine.cursor.Scans ts after := by
  generalize htoken : (⟨.restOfLine text, span⟩ : Token) = token at h
  cases h with
  | token => exact absurd (congrArg Token.kind htoken).symm (next_ne_restOfLine text)
  | text hrest =>
      obtain ⟨hkind, hspan⟩ := Token.mk.inj htoken
      exact ⟨(TokenKind.restOfLine.inj hkind).symm, hspan.symm, hrest⟩
  | lineEnd => simp [Cursor.lineEnd] at htoken

/-! ## Progress -/

/-- The number of bytes behind a cursor. -/
def left (cursor : Cursor) : Nat :=
  Position.bytes cursor.rest

theorem left_le_of_suffix (h : after.rest <:+ cursor.rest) : after.left ≤ cursor.left := by
  obtain ⟨before, hrest⟩ := h
  rw [left, left, ← hrest, Position.bytes_append]
  exact Nat.le_add_left _ _

/-- Unless it is the end of the source, a token has bytes. -/
theorem left_next_lt (h : cursor.next.token.kind ≠ .endOfFile) :
    cursor.next.cursor.left < cursor.left := by
  obtain ⟨before, hrest⟩ := rest_next cursor
  have hlength := rest_length_next_lt h
  rw [left, left, ← hrest, Position.bytes_append]
  cases before with
  | nil =>
      rw [List.nil_append] at hrest
      exact absurd hlength (by rw [hrest]; exact Nat.lt_irrefl _)
  | cons character rest =>
      rw [Position.bytes_cons]
      have := character.utf8Size_pos
      omega

theorem Shows.left_lt (h : cursor.Shows token) : cursor.next.cursor.left < cursor.left :=
  left_next_lt (h.token ▸ h.kind)

theorem Scans.left_le (h : cursor.Scans ts after) : after.left ≤ cursor.left :=
  left_le_of_suffix h.rest

theorem EndsLine.left_le (h : cursor.EndsLine after) : after.left ≤ cursor.left := by
  rcases h with ⟨_, -, -, rfl⟩ | ⟨-, -, rfl⟩
  · exact left_le_of_suffix (rest_next cursor)
  · exact Nat.le_refl _

/-- The word of a directive, what is left of its line, and what stands behind the line. -/
theorem Scans.directiveLine {kind : TokenKind} {words rest : List Token} {start line : Span}
    (h : cursor.Scans (⟨kind, start⟩ :: words ++ ⟨.endOfLine, line⟩ :: rest) after)
    (hstarts : kind.startsDirectiveLine = true) :
    ∃ middle behind, cursor.Shows ⟨kind, start⟩ ∧ cursor.next.cursor.Scans words middle ∧
      middle.EndsLine behind ∧ behind.Scans rest after ∧ behind.left < cursor.left := by
  obtain ⟨middle, hhead, hrest⟩ := h.split
  obtain ⟨hshows, hwords⟩ := hhead.shows (by cases kind <;> first | rfl | cases hstarts)
    (by rintro rfl; cases hstarts)
  obtain ⟨behind, hline, hrest⟩ := hrest.endsLine
  exact ⟨middle, behind, hshows, hwords, hline, hrest,
    (hline.left_le.trans hwords.left_le).trans_lt hshows.left_lt⟩

end Cursor

end ConfLang
