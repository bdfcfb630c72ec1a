import ConfLang.Reading.Body
import Mathlib.Data.List.Basic
import Mathlib.Data.List.Induction

/-!
# Names that are declared again

Two passes look at the names that the statements of a body declare.  `duplicateWarnings` goes
forward and remembers where each name was declared first; `declarations` lets every declaration
take the place of the earlier ones.  Here both are compared with the statements themselves: which
of them declare a name that an earlier one declares (`repetitions`), and which is the last one with
a name.

Names are compared as they are read, so a quoted name and a bare one may be the same.
-/

namespace ConfLang

/-- Whether a statement declares a name. -/
def Statement.declares (statement : Statement) (name : String) : Bool :=
  statement.declaredName?.any (·.name == name)

/-- Where a name is declared first. -/
def firstDeclaration? (statements : List Statement) (name : String) : Option Identifier :=
  (statements.filterMap Statement.declaredName?).find? (·.name == name)

/-- What is to be said about one of the statements of a body if its name was declared by an earlier
one: at the later name, with the place of the first one. -/
def repetition? (statements : List Statement) (index : Nat) : Option Diagnostic := do
  let later ← statements[index]?.bind Statement.declaredName?
  let first ← firstDeclaration? (statements.take index) later.name
  return .warning (.duplicateDeclaration later.name first.span) later.span

/-- What is to be said about the statements of a body, in their order. -/
def repetitions (statements : List Statement) : List Diagnostic :=
  (List.range statements.length).filterMap (repetition? statements)

/-- An index of the declarations among some statements: its keys are the names that are declared,
and each has the last statement that declares it.  Every further declaration of a name is one that
is warned about. -/
structure Indexes (index : Std.TreeMap String Statement) (statements : List Statement) : Prop where
  keys : ∀ name, name ∈ index ↔ ∃ statement ∈ statements, statement.declares name = true
  last : ∀ name : String, index[name]? = (statements.filter (·.declares name)).getLast?
  count : index.size + (repetitions statements).length =
    statements.countP (·.declaredName?.isSome)

variable {statements : List Statement} {statement : Statement} {identifier : Identifier}
  {name : String}

/-! ## First declarations -/

theorem firstDeclaration?_concat : firstDeclaration? (statements ++ [statement]) name =
    (firstDeclaration? statements name).or
      (statement.declaredName?.filter (·.name == name)) := by
  unfold firstDeclaration?
  rw [List.filterMap_append, List.find?_append]
  cases hname : statement.declaredName? <;> simp [hname, List.find?_cons, Option.filter]
  split <;> simp_all

/-- What is said about a statement depends on those in front of it. -/
theorem repetition?_length (rest : List Statement) :
    repetition? (statements ++ statement :: rest) statements.length =
      statement.declaredName?.bind fun later =>
        (firstDeclaration? statements later.name).map fun first =>
          .warning (.duplicateDeclaration later.name first.span) later.span := by
  have hget : (statements ++ statement :: rest)[statements.length]? = some statement := by simp
  have htake : (statements ++ statement :: rest).take statements.length = statements := by simp
  simp only [repetition?, hget, htake, Option.bind_some, Option.map_eq_bind]
  rfl

/-- A name was declared if one of the statements declares it. -/
theorem isSome_firstDeclaration? : (firstDeclaration? statements name).isSome = true ↔
    ∃ statement ∈ statements, statement.declares name = true := by
  simp only [firstDeclaration?, List.find?_isSome, List.mem_filterMap, Statement.declares,
    Option.any_eq_true]
  constructor
  · rintro ⟨identifier, ⟨statement, hmem, hname⟩, hsame⟩
    exact ⟨statement, hmem, identifier, hname, hsame⟩
  · rintro ⟨statement, hmem, identifier, hname, hsame⟩
    exact ⟨identifier, ⟨statement, hmem, hname⟩, hsame⟩

/-! ## The forward pass -/

/-- The first declarations among some statements are remembered. -/
def Remembers (seen : FirstDeclarations) (statements : List Statement) : Prop :=
  ∀ name, seen.lookup name = (firstDeclaration? statements name).map (·.span)

variable {seen : FirstDeclarations}

/-- One more statement is remembered if its name was not declared before, and is warned about
otherwise. -/
theorem Remembers.noteDeclaration (h : Remembers seen statements) (statement : Statement)
    (rest : List Statement) :
    Remembers (noteDeclaration seen statement).1 (statements ++ [statement]) ∧
      (noteDeclaration seen statement).2 =
        repetition? (statements ++ statement :: rest) statements.length := by
  have hfirsts (name : String) := h name
  rw [repetition?_length]
  unfold ConfLang.noteDeclaration
  cases hname : statement.declaredName? with
  | none =>
      refine ⟨fun name => ?_, rfl⟩
      rw [firstDeclaration?_concat, hname, hfirsts]
      simp
  | some identifier =>
      simp only [Option.bind_some]
      cases hfirst : firstDeclaration? statements identifier.name with
      | some first =>
          have hseen : seen.lookup identifier.name = some first.span := by
            rw [hfirsts, hfirst, Option.map_some]
          simp only [hseen]
          refine ⟨fun name => ?_, rfl⟩
          rw [firstDeclaration?_concat, hname, hfirsts]
          by_cases hsame : identifier.name = name
          · rw [← hsame, hfirst, Option.some_or]
          · simp [Option.filter, hsame]
      | none =>
          have hseen : seen.lookup identifier.name = none := by
            rw [hfirsts, hfirst, Option.map_none]
          simp only [hseen]
          refine ⟨fun name => ?_, rfl⟩
          rw [firstDeclaration?_concat, hname, List.lookup_cons]
          by_cases hsame : identifier.name = name
          · subst hsame
            simp [hfirst, Option.filter]
          · have hother : (name == identifier.name) = false := by simpa using Ne.symm hsame
            simp [hother, hfirsts, Option.filter, hsame]

theorem Remembers.duplicateWarnings (rest : List Statement) (h : Remembers seen statements) :
    duplicateWarnings seen rest = (List.range rest.length).filterMap fun index =>
      repetition? (statements ++ rest) (statements.length + index) := by
  induction rest generalizing seen statements with
  | nil => rfl
  | cons statement rest ih =>
      obtain ⟨hseen, hwarning⟩ := h.noteDeclaration statement rest
      have hrest := ih hseen
      simp only [List.append_assoc, List.singleton_append, List.length_append, List.length_singleton]
        at hrest
      simp only [ConfLang.duplicateWarnings]
      rw [hwarning, hrest, List.length_cons, List.range_succ_eq_map, List.filterMap_cons, List.filterMap_map]
      simp only [Nat.add_zero, Function.comp_def, Nat.succ_eq_add_one]
      cases repetition? (statements ++ statement :: rest) statements.length <;>
        simp [Nat.add_right_comm, Nat.add_assoc]

/-- The forward pass warns about those declarations that repeat an earlier one, and about no
others. -/
theorem duplicateWarnings_eq (statements : List Statement) :
    duplicateWarnings [] statements = repetitions statements := by
  have hnone : Remembers [] [] := fun _ => rfl
  have hall := hnone.duplicateWarnings statements
  simpa [repetitions] using hall

/-! ## The index -/

theorem declarations_concat : declarations (statements ++ [statement]) =
    match statement.declaredName? with
    | some identifier => (declarations statements).insert identifier.name statement
    | none => declarations statements := by
  rw [declarations, List.foldl_append]
  rfl

theorem filter_declares_concat : (statements ++ [statement]).filter (·.declares name) =
    statements.filter (·.declares name) ++ if statement.declares name then [statement] else [] := by
  rw [List.filter_append, List.filter_cons, List.filter_nil]

/-- The last declaration of each name is in the index. -/
theorem getElem?_declarations (statements : List Statement) (name : String) :
    (declarations statements)[name]? = (statements.filter (·.declares name)).getLast? := by
  induction statements using List.reverseRecOn with
  | nil => exact Std.TreeMap.getElem?_emptyc
  | append_singleton statements statement ih =>
      rw [declarations_concat, filter_declares_concat]
      cases hname : statement.declaredName? with
      | none => simp [Statement.declares, hname, ih]
      | some identifier =>
          have hdeclares : statement.declares name = (identifier.name == name) := by
            rw [Statement.declares, hname, Option.any_some]
          rw [Std.TreeMap.getElem?_insert, ih, hdeclares]
          by_cases hsame : identifier.name = name <;> simp [hsame]

theorem mem_declarations (statements : List Statement) (name : String) :
    name ∈ declarations statements ↔
      ∃ statement ∈ statements, statement.declares name = true := by
  rw [Std.TreeMap.mem_iff_isSome_getElem?, getElem?_declarations, List.getLast?_isSome, ne_eq,
    List.filter_eq_nil_iff]
  simp

theorem repetitions_concat : repetitions (statements ++ [statement]) =
    repetitions statements ++ (repetition? (statements ++ [statement]) statements.length).toList := by
  have hbefore : ∀ index ∈ List.range statements.length,
      repetition? (statements ++ [statement]) index = repetition? statements index := by
    intro index hmem
    have hless := List.mem_range.mp hmem
    rw [repetition?, repetition?, List.getElem?_append_left hless,
      List.take_append_of_le_length (Nat.le_of_lt hless)]
  unfold repetitions
  rw [List.length_append, List.length_singleton, List.range_succ, List.filterMap_append,
    List.filterMap_congr hbefore, List.filterMap_cons, List.filterMap_nil]
  cases repetition? (statements ++ [statement]) statements.length <;> rfl

/-- A declaration either gets a key of its own or is warned about. -/
theorem size_declarations (statements : List Statement) :
    (declarations statements).size + (repetitions statements).length =
      statements.countP (·.declaredName?.isSome) := by
  induction statements using List.reverseRecOn with
  | nil => rfl
  | append_singleton statements statement ih =>
      rw [declarations_concat, repetitions_concat, List.countP_append, List.length_append, repetition?_length, ← ih]
      cases hname : statement.declaredName? with
      | none => simp [hname]
      | some identifier =>
          have hkey : (declarations statements).contains identifier.name =
              (firstDeclaration? statements identifier.name).isSome := by
            rw [Bool.eq_iff_iff, Std.TreeMap.contains_iff_mem, mem_declarations,
              isSome_firstDeclaration?]
          cases hfirst : firstDeclaration? statements identifier.name <;>
            simp [hname, hfirst, hkey, Std.TreeMap.size_insert] <;> omega

/-- The index of the declarations among some statements is what it should be. -/
theorem indexes_declarations (statements : List Statement) :
    Indexes (declarations statements) statements :=
  ⟨mem_declarations statements, getElem?_declarations statements, size_declarations statements⟩

end ConfLang
