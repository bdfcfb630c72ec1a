import ConfLang.Token.Cursor

/-!
# Reading a source as tokens

A scanner is a cursor that keeps what it came across besides tokens: the trivia
and the problems.  Both can be looked at or taken out at any time.
-/

namespace ConfLang

/-- A cursor with the trivia and the problems recorded since they were last taken
out. -/
structure Scanner where
  cursor : Cursor
  trivia : Array Trivia := #[]
  problems : Array Problem := #[]
  deriving DecidableEq, Repr

namespace Scanner

/-- A scanner at the beginning of a source. -/
def ofSource (source : String) : Scanner :=
  { cursor := .ofSource source }

/-- Goes to the end of a scan and records what it passed over. -/
def record (scanner : Scanner) (scan : Scan) : Scanner :=
  { cursor := scan.cursor
    trivia := scanner.trivia ++ scan.trivia
    problems := scanner.problems ++ scan.problems }

/-- Reads the next token. -/
def next (scanner : Scanner) : Token × Scanner :=
  let scan := scanner.cursor.next
  (scan.token, scanner.record scan)

/-- Reads what is left of the line as raw text. -/
def restOfLine (scanner : Scanner) : Token × Scanner :=
  let scan := scanner.cursor.restOfLine
  (scan.token, scanner.record scan)

/-- Reads all tokens that are left, through the end of the file. -/
def tokens (scanner : Scanner) : List Token × Scanner :=
  let scans := scanner.cursor.scans
  (scans.map Scan.token, scans.foldl record scanner)

/-- Takes out the trivia recorded so far. -/
def takeTrivia (scanner : Scanner) : Array Trivia × Scanner :=
  (scanner.trivia, { scanner with trivia := #[] })

/-- Takes out the problems recorded so far. -/
def takeProblems (scanner : Scanner) : Array Problem × Scanner :=
  (scanner.problems, { scanner with problems := #[] })

end Scanner

end ConfLang
