import ConfLang.Proofs.Alteration.Program
import ConfLang.Proofs.Alteration.Text
import ConfLang.Proofs.Declarations.Warnings

/-!
# Diagnostics of sources that follow tokens

If no errors are due, all diagnostics are warnings.  Those about names that are declared again are
told by the program alone, without its places (`Program.repetitions_unplaced`), and the others by
its tokens (`noticesOf`).  So two sources that follow the same tokens have the same diagnostics, up
to their spans and their order.
-/

namespace ConfLang

/-- A diagnostic without its spans. -/
def Diagnostic.unplaced (diagnostic : Diagnostic) : Diagnostic :=
  diagnostic.mapSpans fun _ => {}

/-- Two outcomes are the same up to their spans and the order of their diagnostics. -/
structure Outcome.Resembles (outcome other : Outcome) : Prop where
  program : outcome.program.unplaced id = other.program.unplaced id
  diagnostics : (outcome.diagnostics.map Diagnostic.unplaced).Perm
    (other.diagnostics.map Diagnostic.unplaced)

/-! ## Names that are declared again -/

theorem Identifier.name_unplaced (name : Identifier) : (name.unplaced id).name = name.name := by
  rw [Identifier.unplaced]
  split <;> rfl

theorem Statement.declaredName?_unplaced (statement : Statement) :
    (statement.unplaced id).declaredName? = statement.declaredName?.map (Identifier.unplaced id) := by
  cases statement <;> rfl

theorem Statement.unplacedList_eq_map (statements : List Statement) :
    unplacedList id statements = statements.map (unplaced id) := by
  induction statements with
  | nil => rfl
  | cons first rest ih => rw [unplacedList, ih, List.map_cons]

theorem firstDeclaration?_unplaced (statements : List Statement) (name : String) :
    firstDeclaration? (statements.map (Statement.unplaced id)) name =
      (firstDeclaration? statements name).map (Identifier.unplaced id) := by
  unfold firstDeclaration?
  rw [List.filterMap_map]
  have hnames : Statement.declaredName? ∘ Statement.unplaced id =
      fun statement => statement.declaredName?.map (Identifier.unplaced id) :=
    funext Statement.declaredName?_unplaced
  rw [hnames, ← List.map_filterMap, List.find?_map]
  congr 2
  funext identifier
  rw [Function.comp_apply, Identifier.name_unplaced]

/-- Where names are declared again is told by the names, up to spans. -/
theorem repetitions_unplaced (statements : List Statement) :
    (repetitions (Statement.unplacedList id statements)).map Diagnostic.unplaced =
      (repetitions statements).map Diagnostic.unplaced := by
  rw [Statement.unplacedList_eq_map, repetitions, repetitions, List.length_map, List.map_filterMap,
    List.map_filterMap]
  congr 1
  funext index
  unfold repetition?
  rw [List.getElem?_map, ← List.map_take]
  cases hstatement : statements[index]? with
  | none => rfl
  | some statement =>
      simp only [Option.map_some, Option.bind_some, Statement.declaredName?_unplaced]
      cases hname : statement.declaredName? with
      | none => rfl
      | some later =>
          simp only [Option.map_some, Option.bind_eq_bind, Option.bind_some, Identifier.name_unplaced,
            firstDeclaration?_unplaced]
          cases firstDeclaration? (statements.take index) later.name <;> rfl

mutual

theorem Statement.bodies_unplaced :
    ∀ statement : Statement, (statement.unplaced id).bodies = statement.bodies.map (Body.unplaced id)
  | .group _ body _ => Body.bodies_unplaced body
  | .choice _ thenBody elseBody _ => by
    rw [Statement.unplaced, Statement.bodies, Statement.bodies, List.map_append,
      Body.bodies_unplaced thenBody, Body.bodiesOption_unplaced elseBody]
  | .conditional _ thenBody branches elseBody _ => by
    rw [Statement.unplaced, Statement.bodies, Statement.bodies, List.map_append, List.map_append,
      Body.bodies_unplaced thenBody, Branch.bodiesList_unplaced branches,
      Body.bodiesOption_unplaced elseBody]
  | .constant .. | .assign .. | .append .. | .expand .. | .message .. | .passage .. => rfl

theorem Body.bodies_unplaced :
    ∀ body : Body, (body.unplaced id).bodies = body.bodies.map (Body.unplaced id)
  | .mk statements span => by
    rw [Body.unplaced, Body.bodies, Body.bodies, List.map_append,
      Statement.bodiesList_unplaced statements]
    rfl

theorem Body.bodiesOption_unplaced : ∀ body : Option Body,
    Body.bodiesOption (Body.unplacedOption id body) = (Body.bodiesOption body).map (Body.unplaced id)
  | none => rfl
  | some body => Body.bodies_unplaced body

theorem Branch.bodiesList_unplaced : ∀ branches : List Branch,
    Branch.bodiesList (Branch.unplacedList id branches) =
      (Branch.bodiesList branches).map (Body.unplaced id)
  | [] => rfl
  | .mk _ body _ :: rest => by
    rw [Branch.unplacedList, Branch.bodiesList, Branch.bodiesList, List.map_append,
      Body.bodies_unplaced body, Branch.bodiesList_unplaced rest]

theorem Statement.bodiesList_unplaced : ∀ statements : List Statement,
    Statement.bodiesList (Statement.unplacedList id statements) =
      (Statement.bodiesList statements).map (Body.unplaced id)
  | [] => rfl
  | first :: rest => by
    rw [Statement.unplacedList, Statement.bodiesList, Statement.bodiesList, List.map_append,
      Statement.bodies_unplaced first, Statement.bodiesList_unplaced rest]

end

/-- Where names are declared again in a program is told by the program without its spans. -/
theorem Program.repetitions_unplaced (program : Program) :
    (program.unplaced id).repetitions.map Diagnostic.unplaced =
      program.repetitions.map Diagnostic.unplaced := by
  have hbody (body : Body) : (ConfLang.repetitions (body.unplaced id).statements).map
      Diagnostic.unplaced = (ConfLang.repetitions body.statements).map Diagnostic.unplaced := by
    obtain ⟨statements, span⟩ := body
    exact ConfLang.repetitions_unplaced statements
  rw [Program.repetitions, Program.repetitions, List.map_append, List.map_append, Program.bodies,
    Program.bodies, Program.unplaced, Statement.bodiesList_unplaced, ConfLang.repetitions_unplaced]
  congr 1
  rw [Body.repetitionsList, Body.repetitionsList, List.flatMap_map, List.map_flatMap, List.map_flatMap]
  congr 1
  funext body
  exact hbody body

/-! ## Outcomes -/

/-- Everything is read. -/
def Alteration.whole : Alteration :=
  ⟨fun _ => false, fun _ => True⟩

theorem mapSpans_of_notices {zone : Zone} {kind : TokenKind} {cause : Cause} (f : Span → Span)
    (h : cause ∈ zone.notices kind) : cause.mapSpans f = cause := by
  unfold Zone.notices at h
  split at h
  · split at h
    · rw [List.mem_singleton] at h
      rw [h]
      rfl
    · cases h
  · cases h
  · rw [List.mem_singleton] at h
    rw [h]
    rfl
  · cases h

theorem mapSpans_of_noticesOf {zone : Zone} {ts : List Token} {cause : Cause} (f : Span → Span)
    (h : cause ∈ noticesOf zone ts) : cause.mapSpans f = cause := by
  induction ts generalizing zone with
  | nil => cases h
  | cons token rest ih =>
      rcases List.mem_append.mp h with h | h
      · exact mapSpans_of_notices f h
      · exact ih h

theorem noticesOf_append (zone : Zone) (first rest : List Token) :
    noticesOf zone (first ++ rest) = noticesOf zone first ++ noticesOf (zone.behind first) rest := by
  induction first generalizing zone with
  | nil => rfl
  | cons token first ih => rw [List.cons_append, noticesOf, ih, noticesOf, List.append_assoc, Zone.behind_cons]

open Grammar in
/-- A source that follows the tokens of a program, with nothing more and nothing less, is read
without errors, and all about it but its spans is told by the program and by these tokens. -/
theorem fine_of_follows {options : Options} {source : String} {ts : List Token} {program : Program}
    (hlimit : options.maxErrors = none) (h : IsProgram options ts program)
    (hfollows : Alteration.whole.Follows .code ts (.ofSource source) []) :
    (parseWith options source).hasErrors = false ∧
      (parseWith options source).program.unplaced id = program.unplaced id ∧
      ((parseWith options source).diagnostics.map Diagnostic.unplaced).Perm
        (program.repetitions.map Diagnostic.unplaced ++
          (noticesOf .code ts).map fun cause => .warning cause {}) := by
  obtain ⟨hprogram, hreported, hcauses⟩ :=
    parseWith_of_follows hlimit h hfollows fun _ _ hgone => by cases hgone
  have hkeeps : Alteration.whole.KeepsLines := fun _ => rfl
  rw [Program.without_of_keeps hkeeps] at hprogram
  have hnone : (parseWith options source).errors = [] := by
    generalize (parseWith options source).errors = errors at hreported
    cases hreported
    rfl
  have hwarning : ∀ diagnostic ∈ (parseWith options source).diagnostics,
      diagnostic.isError = false := by
    simpa [Outcome.errors] using hnone
  have hfine : (parseWith options source).hasErrors = false := by
    rw [Outcome.hasErrors, List.any_eq_false]
    simpa using hwarning
  -- so the warnings are all that there is
  have hwarnings : (parseWith options source).warnings = (parseWith options source).diagnostics := by
    rw [Outcome.warnings, List.filter_eq_self]
    simpa using hwarning
  replace hcauses := hcauses hkeeps
  rw [hwarnings] at hcauses
  refine ⟨hfine, hprogram, ?_⟩
  refine ((List.filter_append_perm (·.isRepetition) _).symm.map _).trans ?_
  rw [List.map_append]
  refine List.Perm.append (.of_eq ?_) (.of_eq ?_)
  · rw [filter_isRepetition_parseWith hfine, ← Program.repetitions_unplaced, hprogram,
      Program.repetitions_unplaced]
  · rw [← hcauses, List.map_map]
    refine List.map_congr_left fun diagnostic hmem => ?_
    have hcause : diagnostic.cause ∈ noticesOf .code ts := hcauses ▸ List.mem_map_of_mem hmem
    have hsame := mapSpans_of_noticesOf (fun _ => {}) hcause
    have hseverity := hwarning diagnostic (List.mem_of_mem_filter hmem)
    obtain ⟨⟨cause, span⟩, severity⟩ := diagnostic
    cases severity with
    | error => cases hseverity
    | warning => exact congrArg (fun cause => Diagnostic.warning cause {}) hsame

end ConfLang
