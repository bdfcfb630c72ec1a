import ConfLang.Proofs.Scanning.Pieces

/-!
# The lexeme of a token

A token that a scanner gives was read at a place of the source, and what the scanner has recorded
about the bytes of the token is what is wrong about its lexeme: no more, no less and in this
order (`Scanner.exists_lexeme`).  So whether a token is faultless can be seen from the problems
that begin in its span.
-/

namespace ConfLang

/-! ## What a lexeme can be -/

/-- Whether a token is a number, a word or a symbol. -/
def TokenKind.isSimple : TokenKind → Bool
  | .integer _ | .float _ | .name _ false | .keyword _ | .symbol _ => true
  | _ => false

namespace Lexeme

variable {first : Char} {rest : List Char} {kind : TokenKind}

theorem isSimple_readNumber (h : (readNumber first rest).kind = .token kind) :
    kind.isSimple = true := by
  rcases kind_readNumber first rest with ⟨_, hkind⟩ | ⟨_, hkind⟩ <;>
  · rw [hkind] at h
    cases h
    rfl

theorem isSimple_readWord (h : (readWord first rest).kind = .token kind) : kind.isSimple = true := by
  rcases readWord_cases first rest with ⟨_, _, hword⟩ | ⟨_, _, hword⟩ <;>
  · rw [hword] at h
    cases h
    rfl

theorem isSimple_readSymbol (h : (readSymbol first rest).kind = .token kind) :
    kind.isSimple = true := by
  rcases readSymbol_cases first rest with ⟨_, _, hsign⟩ | ⟨_, hlone⟩ | ⟨_, hother⟩
  · rw [hsign] at h
    cases h
    rfl
  · rw [hlone] at h
    cases h
  · rw [hother] at h
    cases h

end Lexeme

/-! ## Problems in a span -/

/-- The problems that begin in a span, among those that a scanner has recorded. -/
def Scanner.problemsIn (scanner : Scanner) (span : Span) : List Problem :=
  scanner.problems.toList.filter fun problem =>
    span.start ≤ problem.span.start ∧ problem.span.start < span.stop

variable {source before after : List Char} {piece : Piece} {pieces : List Piece}

namespace Piece

/-- A lexeme is not empty. -/
theorem IsReadIn.start_lt_stop (h : piece.IsReadIn source) : piece.span.start < piece.span.stop := by
  obtain ⟨before, mode, first, rest, -, rfl⟩ := h
  have hfirst : 0 < first.utf8Size := first.utf8Size_pos
  simp only [Span.between, Position.start_after, Position.bytes_append, Position.bytes_cons]
  omega

/-- Only about a lexeme something can be wrong. -/
theorem ComesFrom.isReadIn_of_mem {problem : Problem} (h : piece.ComesFrom source)
    (hmem : problem ∈ piece.problems) : piece.IsReadIn source := by
  rcases h with h | ⟨hnone, -⟩
  · exact h
  · rw [problems, hnone] at hmem
    cases hmem

end Piece

/-- The problems that begin in the span of a lexeme are those of the lexeme. -/
theorem Shared.filter_problems (h : Shared before pieces after)
    (hfrom : ∀ piece ∈ pieces, piece.ComesFrom source) (hmem : piece ∈ pieces)
    (hread : piece.IsReadIn source) :
    ((pieces.flatMap Piece.problems).filter fun problem =>
      piece.span.start ≤ problem.span.start ∧ problem.span.start < piece.span.stop) =
        piece.problems := by
  obtain ⟨front, back, rfl⟩ := List.append_of_mem hmem
  obtain ⟨-, hrest, hfront⟩ := List.pairwise_append.mp h.pairwise
  have hback := (List.pairwise_cons.mp hrest).1
  rw [List.flatMap_append, List.flatMap_cons, List.filter_append, List.filter_append]
  have hbefore : (front.flatMap Piece.problems).filter (fun problem =>
      piece.span.start ≤ problem.span.start ∧ problem.span.start < piece.span.stop) = [] := by
    rw [List.filter_eq_nil_iff]
    intro problem hproblem
    obtain ⟨other, hother, hproblem⟩ := List.mem_flatMap.mp hproblem
    -- A piece in front that has a problem is a lexeme, so it begins in front of its end.
    have hlt : other.span.start < other.span.stop :=
      ((hfrom other (List.mem_append_left _ hother)).isReadIn_of_mem hproblem).start_lt_stop
    have hle : other.span.stop ≤ piece.span.start := hfront other hother piece List.mem_cons_self
    rw [Piece.start_of_mem_problems hproblem, decide_eq_true_eq]
    omega
  have hinside : piece.problems.filter (fun problem =>
      piece.span.start ≤ problem.span.start ∧ problem.span.start < piece.span.stop) =
        piece.problems := by
    rw [List.filter_eq_self]
    intro problem hproblem
    rw [Piece.start_of_mem_problems hproblem, decide_eq_true_eq]
    exact ⟨Nat.le_refl _, hread.start_lt_stop⟩
  have hbehind : (back.flatMap Piece.problems).filter (fun problem =>
      piece.span.start ≤ problem.span.start ∧ problem.span.start < piece.span.stop) = [] := by
    rw [List.filter_eq_nil_iff]
    intro problem hproblem
    obtain ⟨other, hother, hproblem⟩ := List.mem_flatMap.mp hproblem
    have hle : piece.span.stop ≤ other.span.start := hback other hother
    rw [Piece.start_of_mem_problems hproblem, decide_eq_true_eq]
    omega
  rw [hbefore, hinside, hbehind, List.nil_append, List.append_nil]

/-- A token that a scanner gives is a lexeme, and the problems that the scanner has recorded in
the span of the token are those of the lexeme. -/
theorem Scanner.exists_lexeme {source : String} {requests : List Request} {token : Token}
    (hmem : token ∈ ((ofSource source).answers requests).1)
    (hkind : token.kind.isScanned = true) :
    ∃ mode first rest, (Lexeme.read mode first rest).kind = .token token.kind ∧
      token.span.textIn source =
        String.ofList (first :: rest.take (Lexeme.read mode first rest).further) ∧
      ((ofSource source).answers requests).2.problemsIn token.span =
        Piece.problems ⟨.token token.kind, token.span, (Lexeme.read mode first rest).faults⟩ := by
  have hbegin : (ofSource source).cursor.StandsBehind source.toList [] := .ofSource source
  obtain ⟨pieces, after, hshared, hfrom, -, htokens, -, hproblems⟩ := answers_pieces hbegin requests
  rw [← htokens] at hmem
  obtain ⟨piece, hpiece, htoken⟩ := List.mem_filterMap.mp hmem
  have htaken := Cursor.kind_of_token? htoken
  have hspan := Piece.span_of_token? htoken
  rcases hfrom piece hpiece with hread | ⟨-, hraw⟩
  · have hfiltered := hshared.filter_problems hfrom hpiece hread
    obtain ⟨before, mode, first, rest, hsource, rfl⟩ := hread
    simp only at htaken hspan hfiltered
    refine ⟨mode, first, rest, htaken, ?_, ?_⟩
    · have htext := Span.textIn_between before
        (first :: rest.take (Lexeme.read mode first rest).further)
        (rest.drop (Lexeme.read mode first rest).further)
      rw [List.append_assoc, List.cons_append, List.take_append_drop, ← hsource,
        String.ofList_toList] at htext
      rw [hspan, htext]
    · rw [problemsIn, hproblems, hspan, ← htaken]
      exact hfiltered
  · rw [hraw _ htaken] at hkind
    cases hkind

end ConfLang
