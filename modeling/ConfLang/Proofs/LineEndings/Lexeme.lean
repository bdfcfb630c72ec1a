import ConfLang.Proofs.Excerpt.Lexeme

/-!
# Lexemes in front of a carriage return

With a carriage return in front of every line feed, a line ends with one more character.  Spacing
and comments take it in, an opaque directive line does not, as it is trimmed at its end, and every
other token is over in front of it.  Only a quote that is not closed takes it for text: it has no
other end than the end of its line.
-/

namespace ConfLang

namespace Text

/-- A text with a carriage return in front of every line feed. -/
def withReturns (characters : List Char) : List Char :=
  characters.flatMap fun character => if character = '\n' then ['\r', '\n'] else [character]

@[simp] theorem withReturns_nil : withReturns [] = [] := rfl

@[simp] theorem withReturns_lineFeed (rest : List Char) :
    withReturns ('\n' :: rest) = '\r' :: '\n' :: withReturns rest := rfl

theorem withReturns_cons {first : Char} (h : first ≠ '\n') (rest : List Char) :
    withReturns (first :: rest) = first :: withReturns rest := by
  rw [withReturns, List.flatMap_cons, if_neg h]
  rfl

theorem withReturns_append {text : List Char} (h : '\n' ∉ text) (rest : List Char) :
    withReturns (text ++ rest) = text ++ withReturns rest := by
  induction text with
  | nil => rfl
  | cons first text ih =>
      rw [List.mem_cons, not_or] at h
      rw [List.cons_append, withReturns_cons (Ne.symm h.1), ih h.2, List.cons_append]

theorem withReturns_of_not_mem {text : List Char} (h : '\n' ∉ text) : withReturns text = text := by
  simpa using withReturns_append h []

theorem line_of_not_mem {text : List Char} (h : '\n' ∉ text) : line text = text := by
  have happend : line (text ++ []) = text ++ line [] := line_append h
  simpa [line] using happend

theorem trimEnd_return (characters : List Char) :
    trimEnd (characters ++ ['\r']) = trimEnd characters := by
  rw [trimEnd_append, if_pos (by decide)]

/-- What is left of a line is the same text. -/
theorem trimEnd_line_withReturns (rest : List Char) :
    trimEnd (line (withReturns rest)) = trimEnd (line rest) := by
  rcases line_or_lineFeed rest with hline | ⟨tail, hline⟩
  · rw [withReturns_of_not_mem (hline ▸ not_mem_line rest)]
  · have hreturn : line ('\r' :: '\n' :: withReturns tail) = ['\r'] := rfl
    have hfeed := not_mem_line rest
    conv_lhs =>
      rw [hline, withReturns_append hfeed, withReturns_lineFeed, line_append hfeed, hreturn]
    rw [trimEnd_return]

/-- Spacing is the same, unless it goes to the end of the line and takes in the carriage return. -/
theorem spacing_withReturns (rest : List Char) :
    (withReturns rest).takeWhile isSpacing = rest.takeWhile isSpacing ∨
      (∃ tail, rest = rest.takeWhile isSpacing ++ '\n' :: tail) ∧
        (withReturns rest).takeWhile isSpacing = rest.takeWhile isSpacing ++ ['\r'] := by
  have hfeed : '\n' ∉ rest.takeWhile isSpacing := fun hmem =>
    absurd (List.mem_takeWhile_imp hmem) (by decide)
  have hbehind : withReturns rest =
      rest.takeWhile isSpacing ++ withReturns (rest.dropWhile isSpacing) := by
    rw [← withReturns_append hfeed, List.takeWhile_append_dropWhile]
  have hspacing : (withReturns rest).takeWhile isSpacing =
      rest.takeWhile isSpacing ++ (withReturns (rest.dropWhile isSpacing)).takeWhile isSpacing := by
    rw [hbehind, List.takeWhile_append_of_pos fun _ hmem => List.mem_takeWhile_imp hmem]
  rw [hspacing]
  cases hrest : rest.dropWhile isSpacing with
  | nil => exact .inl (List.append_nil _)
  | cons first tail =>
      by_cases hfirst : first = '\n'
      · refine .inr ⟨⟨tail, ?_⟩, by rw [hfirst]; rfl⟩
        rw [← hfirst, ← hrest, List.takeWhile_append_dropWhile]
      · have hstop : isSpacing first = false := by
          have hhead := List.head?_dropWhile_not isSpacing rest
          simpa [hrest] using hhead
        rw [withReturns_cons hfirst, List.takeWhile_cons_of_neg (by simp [hstop]), List.append_nil]
        exact .inl rfl

end Text

/-! ## Quoted text -/

/-- A quote that is closed does not see what comes behind it.  For any other one a carriage return
at the end of the line is text. -/
theorem Quote.scan_return (quote : Quote) {rest : List Char} (hfeed : '\n' ∉ rest) :
    quote.scan (rest ++ ['\r']) = if (quote.scan rest).closed then quote.scan rest
      else ⟨(quote.scan rest).text ++ ['\r'], (quote.scan rest).width + 1, false⟩ := by
  have hreturn : '\r' ≠ quote.delimiter := by cases quote <;> decide
  fun_induction Quote.scan quote rest with
  | case1 => cases quote <;> rfl
  | case2 rest ih =>
      simp only [List.mem_cons, not_or] at hfeed
      rw [List.cons_append, List.cons_append, scan, if_pos rfl, ih hfeed.2.2]
      split <;> simp [Content.prepend, *, Nat.add_assoc]
  | case3 character rest hquote ih =>
      rw [List.mem_cons, not_or] at hfeed
      rw [List.cons_append, List.cons_append, scan, if_neg hquote, ← List.cons_append, ih hfeed.2]
      split <;> simp [Content.prepend, *, Nat.add_assoc]
  | case4 rest hescape => exact absurd List.mem_cons_self hfeed
  | case5 rest hline hescape =>
      -- the delimiter: here it is closed on both sides
      have hbackslash : quote.delimiter ≠ '\\' := by cases quote <;> decide
      rw [List.cons_append, scan_of_ne hbackslash, if_pos rfl]
      rw [if_neg (by cases quote <;> decide)]
      rfl
  | case6 character rest hescape hline hquote ih =>
      rw [List.mem_cons, not_or] at hfeed
      -- Only a backslash asks for the character behind it, and a carriage return is no delimiter.
      by_cases hbackslash : character = '\\'
      · subst hbackslash
        cases rest with
        | nil => cases quote <;> rfl
        | cons next rest => exact (hescape next rest rfl rfl).elim
      · rw [List.cons_append, scan_of_ne hbackslash, if_neg hline, if_neg hquote, ih hfeed.2]
        split <;> simp [Content.prepend, *, Nat.add_assoc]

/-- A quote that is not closed takes the whole line. -/
theorem Quote.width_of_open (quote : Quote) {rest : List Char} (hfeed : '\n' ∉ rest)
    (hopen : (quote.scan rest).closed = false) : (quote.scan rest).width = rest.length := by
  fun_induction Quote.scan quote rest with
  | case1 => rfl
  | case2 rest ih =>
      simp only [List.mem_cons, not_or] at hfeed
      have hrest := ih hfeed.2.2 hopen
      simp only [Content.prepend, List.length_cons]
      omega
  | case3 character rest hquote ih =>
      rw [List.mem_cons, not_or] at hfeed
      have hrest := ih hfeed.2 hopen
      simp only [Content.prepend, List.length_cons] at hrest ⊢
      omega
  | case4 rest hescape => exact absurd List.mem_cons_self hfeed
  | case5 rest hline hescape => cases hopen
  | case6 character rest hescape hline hquote ih =>
      rw [List.mem_cons, not_or] at hfeed
      have hrest := ih hfeed.2 hopen
      simp only [Content.prepend, List.length_cons]
      omega

/-! ## Lexemes -/

namespace Lexeme

/-- How a lexeme is related to what it is with a carriage return at the end of its line: the same,
or one more character of a lexeme that took all of the line, namely trivia or a quote that is not
closed. -/
inductive Returned (length : Nat) : Lexeme → Lexeme → Prop
  | same (lexeme : Lexeme) : Returned length lexeme lexeme
  | trivia (kind : TriviaKind) :
    Returned length ⟨.trivia kind, length, []⟩ ⟨.trivia kind, length + 1, []⟩
  | quoted (quote : Quote) (text : List Char) :
    Returned length ⟨.token (quotedToken quote (String.ofList text)), length, [.unterminated quote]⟩
      ⟨.token (quotedToken quote (String.ofList (text ++ ['\r']))), length + 1,
        [.unterminated quote]⟩

variable {rest : List Char}

theorem readDirective_return (hfeed : '\n' ∉ rest) :
    readDirective (rest ++ ['\r']) = readDirective rest := by
  have hletters : (rest ++ ['\r']).takeWhile Text.isWordPart = _ := letters_line [] rfl
  have hdrop : '\n' ∉ rest.drop (rest.takeWhile Text.isWordPart).length :=
    fun hmem => hfeed (List.mem_of_mem_drop hmem)
  simp only [readDirective, hletters, drop_takeWhile_line [] rest, Text.line_append hdrop]
  have hreturn : Text.line ['\r'] = ['\r'] := rfl
  rw [hreturn, Text.line_of_not_mem hdrop, Text.trimEnd_return]

theorem readQuoted_return (quote : Quote) (hfeed : '\n' ∉ rest) :
    Returned rest.length (readQuoted quote rest) (readQuoted quote (rest ++ ['\r'])) := by
  rw [readQuoted, readQuoted, quote.scan_return hfeed]
  cases hclosed : (quote.scan rest).closed with
  | true =>
      simp only [hclosed, if_true]
      exact .same _
  | false =>
      simp only [Bool.false_eq_true, if_false, quote.width_of_open hfeed hclosed]
      exact .quoted quote _

/-- A lexeme in front of a carriage return at the end of its line. -/
theorem read_return (mode : LineMode) (first : Char) (hfeed : '\n' ∉ rest) :
    Returned rest.length (read mode first rest) (read mode first (rest ++ ['\r'])) := by
  unfold read
  split
  · -- spacing takes in the carriage return if nothing else is left of the line
    by_cases hspacing : rest.takeWhile Text.isSpacing = rest
    · have hreturn : ['\r'].takeWhile Text.isSpacing = ['\r'] := rfl
      rw [List.takeWhile_append, if_pos (by rw [hspacing]), hspacing, hreturn,
        List.length_append]
      exact .trivia .spacing
    · rw [List.takeWhile_append, if_neg fun hlength =>
        hspacing ((List.takeWhile_prefix _).eq_of_length hlength)]
      exact .same _
  split
  · exact .same _
  split
  · -- a comment always does
    have hreturn : Text.line ['\r'] = ['\r'] := rfl
    rw [Text.line_append hfeed, Text.line_of_not_mem hfeed, hreturn, List.length_append]
    exact .trivia .comment
  · -- and of the tokens, only a quote that is not closed
    unfold readToken
    split
    · exact readQuoted_return _ hfeed
    · rw [readNumber, readNumber, Numeral.read_line [] rfl, readWord, readWord,
        letters_line [] rfl, readDirective_return hfeed, readSymbol_line [] rfl]
      exact .same _

/-- A lexeme of a text with carriage returns. -/
theorem read_withReturns (mode : LineMode) (first : Char) (rest : List Char) :
    read mode first (Text.withReturns rest) = read mode first rest ∨
      (∃ tail, rest = Text.line rest ++ '\n' :: tail) ∧ Returned (Text.line rest).length
        (read mode first rest) (read mode first (Text.withReturns rest)) := by
  rcases Text.line_or_lineFeed rest with hline | ⟨tail, hline⟩
  · rw [Text.withReturns_of_not_mem (hline ▸ Text.not_mem_line rest)]
    exact .inl rfl
  · refine .inr ⟨⟨tail, hline⟩, ?_⟩
    have hreturns : Text.withReturns rest =
        (Text.line rest ++ ['\r']) ++ '\n' :: Text.withReturns tail := by
      conv_lhs => rw [hline, Text.withReturns_append (Text.not_mem_line rest)]
      simp
    have hread := read_return mode first (Text.not_mem_line rest)
    have hsame : read mode first rest = read mode first (Text.line rest) := by
      conv_lhs => rw [hline, read_line]
    rw [hreturns, read_line, hsame]
    exact hread

end Lexeme

end ConfLang
