import ConfLang.Proofs.Writing.RoundTrip

/-!
# Operators in a row

Names with an operator between each two of them are read without any nesting, however many they
are.  They are written with as many layers of parentheses as there are operators.  So no limit of
nesting is high enough for whatever can be read under it to be read again from its source.
-/

namespace ConfLang

open Grammar Text Cursor

/-- The same name again and again, with some operators in between. -/
def row : Nat → List Char
  | 0 => ['a']
  | count + 1 => row count ++ " || a".toList

/-- The name in a row. -/
def rowName : Identifier :=
  { name := "a" }

variable {room least : Nat} {tail : List Char} {cursor : Cursor}

theorem rereads_rowName (h : cursor.Faces ('a' :: tail))
    (htail : ∀ character ∈ tail.head?, isWordPart character = false) :
    cursor.Rereads (Grammar.operand false room) tail
      (fun e => e.IsWritable false ∧ e.writtenHeight = 0) := by
  have hfaces : cursor.Faces (rowName.text.toList ++ tail) := h
  refine (hfaces.name ⟨by decide, by decide⟩ htail).imp Expression.name
    fun ts name hlanguage hlike => ⟨?_, ?_, rfl⟩
  · exact operand_of_suffixed (.primary (.name hlanguage))
  · have hsame : name.name = "a" := congrArg Identifier.name hlike
    rw [Expression.IsWritable, hsame]
    exact ⟨by decide, by decide⟩

/-- The operators associate to the left, so a row is an operation of a shorter one and a name. -/
theorem rereads_row (room count : Nat) (hleast : least ≤ Operator.either.precedence)
    (h : cursor.Faces (row count ++ tail)) (htail : Stops tail) :
    cursor.Rereads (Binary (Grammar.operand false room) least) tail
      (fun e => e.IsWritable false ∧ e.writtenHeight = count) := by
  induction count generalizing least tail with
  | zero => exact (rereads_rowName h htail.word).imp id fun _ _ ha hlike => ⟨.operand ha, hlike⟩
  | succ count ih =>
      rw [row, List.append_assoc] at h
      obtain ⟨ts, middle, left, hfirst, hlanguage, hwritable, hheight⟩ :=
        ih (Nat.le_refl _) h (stops_cons _ (by decide) (by decide))
      obtain ⟨sign, hsign⟩ := Faces.symbol Operator.either.symbol (faces_of_space hfirst.rest)
        (by simp [Operator.symbol])
      obtain ⟨ts', after, right, hsecond, hlanguage', hwritable', hheight'⟩ :=
        rereads_rowName (faces_of_space hsign.rest) htail.word
      -- The row stays on its level, while its tree and its source get one layer more.
      refine ⟨_, _, _, hfirst.append (hsign.append hsecond),
        .operation hleast hlanguage (.operand hlanguage'), ⟨hwritable, hwritable'⟩, ?_⟩
      rw [Expression.writtenHeight, hheight, hheight', Nat.max_zero]

/-- A row of operators needs no nesting, but its source as much as it has operators. -/
theorem reads_row (options : Options) (count : Nat) :
    ∃ source program, Reads options source program ∧
      Statement.IsWritableList options.expandingAssign false program.statements ∧
      program.writtenHeight = count := by
  have hline : (ofSource (String.ofList ("a = ".toList ++ row count ++ ['\n']))).AtLine
      ('a' :: ' ' :: '=' :: ' ' :: (row count ++ ['\n'])) :=
    ⟨rfl, [], by simp [ofSource], nofun, rfl⟩
  have hfaces : (ofSource _).Faces
      (rowName.text.toList ++ ' ' :: '=' :: ' ' :: (row count ++ ['\n'])) := hline.toFaces
  obtain ⟨ts, middle, target, hlabel, hname, hlike⟩ :=
    hfaces.name ⟨by decide, by decide⟩ (by simp [isWordPart])
  obtain ⟨sign, hsign⟩ := Faces.symbol .assign (faces_of_space hlabel.rest) (by simp)
  obtain ⟨ts', after, value, hvalue, hlanguage, hwritable, hheight⟩ :=
    rereads_row options.maxNestingDepth count (Nat.zero_le _)
      (faces_of_space hsign.rest) (stops_cons _ (by decide) (by decide))
  have hall := hlabel.append (hsign.append hvalue)
  have hend : after.AtEnd := (atLine_of_newline (hall.line.trans hline.line) hvalue.rest).atEnd
  have hstatement : Grammar.statement options options.maxNestingDepth false
      (ts ++ ⟨.symbol .assign, sign⟩ :: ts')
      (.assign target value (target.span.through value.span)) :=
    statement_of_isStatement (.assign hname hlanguage)
  refine ⟨_, ⟨[_]⟩, ⟨_, after, hall.scans.append .nil, hend, .cons hstatement .nil⟩, ?_, ?_⟩
  · have hsame : target.name = "a" := congrArg Identifier.name hlike
    rw [Statement.IsWritableList, Statement.IsWritable, hsame]
    exact ⟨⟨⟨by decide, by decide⟩, hwritable⟩, trivial⟩
  · change max value.writtenHeight 0 = count
    rw [hheight, Nat.max_zero]

/-- Whatever the limit of nesting is, some source is read under it without an error, but is written
too deep for it. -/
theorem exists_tooDeep_source (options : Options) : ∃ source,
    (parseWith options source).hasErrors = false ∧
      let program := (parseWith options source).program
      let again := parseWith { options with maxErrors := none } program.source
      again.TellsTooDeep options.maxNestingDepth := by
  obtain ⟨source, program, hreads, hwritable, hheight⟩ :=
    reads_row options (options.maxNestingDepth + 1)
  obtain ⟨hfine, hprogram⟩ := hreads.parseWith_eq
  refine ⟨source, hfine, ?_⟩
  intro program' again
  rw [show again = _ from congrArg (fun p => parseWith _ (Program.source p)) hprogram]
  exact tellsTooDeep_of_isWritable { options with maxErrors := none } rfl hwritable
    (by rw [hheight]; exact Nat.lt_succ_self _)

end ConfLang
