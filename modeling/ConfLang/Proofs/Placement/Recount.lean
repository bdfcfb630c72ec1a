import ConfLang.Outcome
import ConfLang.Proofs.Scanning.Directives
import Mathlib.Data.List.Infix

/-!
# Places are counted in two ways

A scanner counts lines and columns while it moves over characters, whatever it is asked for.  Where
a token, trivia or a problem begins, the count is what counting the text in front of it gives
(`Span.PointsInto`).  The end of a text that is cut off in front of a byte that is not valid is
counted from the whole text instead (`Span.endOf`), and that is where the scanner finds the end of
the file (`places_recounted`).

## Strategy

Tokens and trivia are pieces, and pieces share out a beginning of the source, so they lie between
ends of such beginnings (`Shared.liesIn_of_mem`).  Problems lie there as well, but the one about a
quote that is not closed is no whole piece, so these are followed along the requests
(`Scanner.problems_answers`).  Decoding the encoding of a text gives the text back as long as no
further character is encoded behind it (`Text.decodeFrom_encoded`).
-/

namespace ConfLang

/-! ## The end of the file -/

/-- The end of a text, counted from the whole text, is where a position is behind all of its
characters. -/
theorem Span.endOf_eq (text : String) :
    Span.endOf text = .emptyAt (Position.start.after text.toList) := by
  rw [endOf, emptyAt, between, Position.start_after, Position.bytes, String.ofList_toList,
    Nat.add_comm 1, Nat.add_comm 1]

namespace Cursor

variable {source : String} {before : List Char} {cursor : Cursor}

/-- The end of the file is found at the end of the source. -/
theorem StandsBehind.endOf (h : cursor.StandsBehind source.toList before)
    (hkind : cursor.next.token.kind = .endOfFile) : cursor.next.token.span = .endOf source := by
  obtain ⟨-, after, -, -, -, hafter⟩ := h.next
  obtain ⟨hrest, hspan⟩ := next_of_endOfFile hkind
  rw [hspan, hafter.position, Span.endOf_eq, hafter.source, hrest, List.append_nil]

end Cursor

/-! ## The answers of a scanner -/

namespace Scanner

variable {source : String} {before : List Char} {scanner : Scanner}

/-- Whatever a scanner is asked for, the problems it records lie in the source. -/
theorem problems_answers (hcursor : scanner.cursor.StandsIn source.toList)
    (hproblems : ∀ problem ∈ scanner.problems.toList, problem.span.LiesIn source.toList)
    (requests : List Request) :
    ∀ problem ∈ (scanner.answers requests).2.problems.toList, problem.span.LiesIn source.toList := by
  induction requests generalizing scanner with
  | nil => exact hproblems
  | cons request rest ih =>
      cases request with
      | next =>
          obtain ⟨hafter, -, hnew⟩ := hcursor.next
          refine @ih scanner.next.2 hafter fun problem hmem => ?_
          have hrecord : scanner.next.2.problems.toList =
              scanner.problems.toList ++ scanner.cursor.next.problems := by simp [next, record]
          rw [hrecord] at hmem
          rcases List.mem_append.mp hmem with hmem | hmem
          · exact hproblems problem hmem
          · exact hnew problem hmem
      | restOfLine =>
          refine @ih scanner.restOfLine.2 hcursor.rawLine.1 fun problem hmem => hproblems problem ?_
          have hpassed : scanner.cursor.rawLine.passed.flatMap Piece.problems = [] := by
            unfold Cursor.rawLine
            simp only
            split <;> rfl
          have hrecord : scanner.restOfLine.2.problems.toList = scanner.problems.toList := by
            simp [restOfLine, record, Scan.problems, Cursor.restOfLine, hpassed]
          rwa [hrecord] at hmem

/-- Whatever a scanner is asked for, it finds the end of the file at the end of the source. -/
theorem endOf_answers (h : scanner.cursor.StandsBehind source.toList before)
    (requests : List Request) : ∀ token ∈ (scanner.answers requests).1,
      token.kind = .endOfFile → token.span = .endOf source := by
  induction requests generalizing scanner before with
  | nil => exact fun token hmem => absurd hmem List.not_mem_nil
  | cons request rest ih =>
      obtain ⟨-, after, -, -, hafter, -⟩ := answer_pieces h request
      intro token hmem hkind
      rcases List.mem_cons.mp hmem with rfl | hmem
      · cases request with
        | next => exact h.endOf hkind
        | restOfLine => cases hkind
      · exact ih hafter token hmem hkind

end Scanner

/-! ## Encoded texts -/

namespace Text

/-- What is decoded behind some bytes is decoded of the bytes that follow. -/
theorem utf8DecodeChar?_append (front bytes : ByteArray) :
    (front ++ bytes).utf8DecodeChar? front.size = bytes.utf8DecodeChar? 0 := by
  rw [ByteArray.utf8DecodeChar?_eq_utf8DecodeChar?_extract, ByteArray.size_append,
    ByteArray.extract_append_eq_right rfl rfl]

/-- The encoding of a text is decoded up to its end, if bytes follow there that encode no
character. -/
theorem decodeFrom_encoded (front : ByteArray) (characters : List Char) {tail : ByteArray}
    (hsome : tail ≠ .empty) (hinvalid : tail.utf8DecodeChar? 0 = none) :
    decodeFrom (front ++ (characters.utf8Encode ++ tail)) front.size =
      ⟨characters, some (front.size + Position.bytes characters)⟩ := by
  have hpos : 0 < tail.size :=
    Nat.pos_of_ne_zero fun hzero => hsome (ByteArray.size_eq_zero_iff.mp hzero)
  have hinside (characters : List Char) :
      front.size < (front ++ (characters.utf8Encode ++ tail)).size := by
    simp only [ByteArray.size_append]
    omega
  induction characters generalizing front with
  | nil =>
      rw [decodeFrom, if_pos (hinside []), utf8DecodeChar?_append, List.utf8Encode_nil,
        ByteArray.empty_append, hinvalid]
      rfl
  | cons character rest ih =>
      have hsize : ([character].utf8Encode).size = character.utf8Size := by
        rw [← Position.bytes_singleton, Position.bytes, String.utf8ByteSize,
          String.toByteArray_ofList]
      have hwhole : front ++ ((character :: rest).utf8Encode ++ tail) =
          front ++ [character].utf8Encode ++ (rest.utf8Encode ++ tail) := by
        rw [List.utf8Encode_cons, ByteArray.append_assoc, ByteArray.append_assoc]
      have hfirst : (front ++ ((character :: rest).utf8Encode ++ tail)).utf8DecodeChar? front.size =
          some character := by
        rw [utf8DecodeChar?_append, List.utf8Encode_cons, ByteArray.append_assoc,
          List.utf8DecodeChar?_utf8Encode_singleton_append]
      have hrest := ih (front ++ [character].utf8Encode) fun characters => by
        simp only [ByteArray.size_append]
        omega
      rw [ByteArray.size_append, hsize, ← hwhole] at hrest
      rw [decodeFrom, if_pos (hinside _), hfirst]
      simp only [hrest, Position.bytes_cons, Nat.add_assoc]

/-- Bytes that begin with the encoding of no character are not decoded. -/
theorem utf8DecodeChar?_eq_none {tail : ByteArray}
    (h : ∀ character rest, tail ≠ [character].utf8Encode ++ rest) :
    tail.utf8DecodeChar? 0 = none := by
  cases hdecoded : tail.utf8DecodeChar? 0 with
  | none => rfl
  | some character =>
      obtain ⟨rest, hrest⟩ := ByteArray.exists_of_utf8DecodeChar?_eq_some hdecoded
      exact absurd (List.utf8Encode_singleton ▸ hrest) (h character rest)

end Text

/-! ## The main result -/

/-- **Places are counted in two ways that agree.**  Whatever a scanner of a source is asked for, the
tokens it gives and the trivia and problems it records have the line and the column that counting the
text in front of them gives, and the end of the file is where counting the whole source ends.  When
bytes follow a text that begin with the encoding of no character, what comes of reading them is what
comes of reading the text, with one more lexical error at the end; and that has the span of the end of
the file, the last token of the text. -/
theorem places_recounted (source : String) :
    (∀ requests, let answers := (Scanner.ofSource source).answers requests
      (∀ token ∈ answers.1, token.span.PointsInto source ∧
        (token.kind = .endOfFile → token.span = .endOf source)) ∧
      (∀ trivia ∈ answers.2.trivia, trivia.span.PointsInto source) ∧
      ∀ problem ∈ answers.2.problems, problem.span.PointsInto source) ∧
    ∀ tail : ByteArray, source ≠ "" → tail ≠ .empty →
      (∀ character rest, tail ≠ [character].utf8Encode ++ rest) →
      ∃ diagnostic tokens, parseEncoded (source.toUTF8 ++ tail) = .ok { parse source with
          diagnostics := (parse source).diagnostics ++ [diagnostic] } ∧
        diagnostic = .error (.invalidEncoding source.utf8ByteSize) (.endOf source) ∧
        diagnostic.kind = .lexical ∧
        (Scanner.ofSource source).tokens.1 = tokens ++ [⟨.endOfFile, diagnostic.span⟩] := by
  constructor
  · intro requests answers
    have hbegin : (Scanner.ofSource source).cursor.StandsBehind source.toList [] := .ofSource source
    obtain ⟨pieces, after, hshared, hcursor, htokens, htrivia, -⟩ :=
      Scanner.answers_shared hbegin requests
    have hafter : after <+: source.toList := ⟨_, hcursor.source.symm⟩
    refine ⟨fun token hmem => ⟨?_, Scanner.endOf_answers hbegin requests token hmem⟩,
      fun trivia hmem => ?_, fun problem hmem => ?_⟩
    · rw [← htokens] at hmem
      obtain ⟨piece, hpiece, htoken⟩ := List.mem_filterMap.mp hmem
      rw [Piece.span_of_token? htoken]
      exact (hshared.liesIn_of_mem hafter hpiece).pointsInto
    · have htrivia : answers.2.trivia.toList = pieces.filterMap Piece.trivia? :=
        htrivia.trans (List.nil_append _)
      rw [← Array.mem_toList_iff, htrivia] at hmem
      obtain ⟨piece, hpiece, htrivia⟩ := List.mem_filterMap.mp hmem
      rw [← (Piece.of_trivia? htrivia).2]
      exact (hshared.liesIn_of_mem hafter hpiece).pointsInto
    · exact (Scanner.problems_answers (.ofSource source)
        (fun problem hmem => absurd hmem List.not_mem_nil) requests problem
        (Array.mem_toList_iff.mpr hmem)).pointsInto
  · intro tail hsource hsome hinvalid
    -- The bytes of the source are decoded again, up to the first one behind it.
    have hdecoded : Text.decode (source.toUTF8 ++ tail) =
        ⟨source.toList, some source.utf8ByteSize⟩ := by
      have hencoded := Text.decodeFrom_encoded .empty source.toList hsome
        (Text.utf8DecodeChar?_eq_none hinvalid)
      rwa [ByteArray.empty_append, String.utf8Encode_toList, ByteArray.size_empty, Nat.zero_add,
        Position.bytes, String.ofList_toList] at hencoded
    obtain ⟨pieces, last, hrow, hlast⟩ := Cursor.Pieces.exists_of_cursor (.ofSource source)
    obtain ⟨htokens, -, -⟩ := Scanner.tokens_of_pieces hrow hlast
    rw [Cursor.endOfFile, (hrow.at_end hlast).1, ← Span.endOf_eq] at htokens
    obtain ⟨size, hsize⟩ : ∃ size, source.utf8ByteSize = size + 1 :=
      Nat.exists_eq_succ_of_ne_zero fun hzero => hsource (String.utf8ByteSize_eq_zero_iff.mp hzero)
    refine ⟨_, _, ?_, rfl, rfl, htokens⟩
    rw [parseEncoded, hdecoded, hsize, String.ofList_toList]
    rfl

/-- Behind a line feed, the byte `0xFF` is reported at the beginning of the second line. -/
theorem exists_cut_off_encoding :
    let bytes := "a\n".toUTF8 ++ ⟨#[0xFF]⟩
    ∃ diagnostic, parseEncoded bytes = .ok { parse "a\n" with
        diagnostics := (parse "a\n").diagnostics ++ [diagnostic] } ∧
      diagnostic.span = ⟨2, 2, 2, 1⟩ := by
  have hinvalid (character : Char) (rest : ByteArray) :
      (⟨#[0xFF]⟩ : ByteArray) ≠ [character].utf8Encode ++ rest := by
    intro hencoded
    have hdecoded : (⟨#[0xFF]⟩ : ByteArray).utf8DecodeChar? 0 = some character := by
      rw [hencoded, List.utf8DecodeChar?_utf8Encode_singleton_append]
    have hnone : (⟨#[0xFF]⟩ : ByteArray).utf8DecodeChar? 0 = none := by decide
    rw [hnone] at hdecoded
    cases hdecoded
  obtain ⟨diagnostic, -, hparse, rfl, -⟩ :=
    (places_recounted "a\n").2 ⟨#[0xFF]⟩ (by decide) (by decide) hinvalid
  exact ⟨_, hparse, by decide +kernel⟩

end ConfLang
