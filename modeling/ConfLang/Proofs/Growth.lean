import ConfLang.Outcome
import Mathlib.Data.List.Forall2

/-!
# What a reading never takes back

Whatever a step of a parser does, it keeps the options, it takes no token back, and
it only adds to the diagnostics, to which nothing is added any more once the reading
has stopped.  `State.Grows` says so for two states, and the operations on states
satisfy it.

A fact about a state that is kept by all states that grow out of it is `Lasting`.
Such facts can be stated once and used at any later time of a reading.
-/

namespace ConfLang

/-- What a later state keeps of an earlier one. -/
structure State.Grows (before after : State) : Prop where
  options : after.options = before.options
  size : after.size = before.size
  consumed : before.consumed ≤ after.consumed
  diagnostics : before.diagnostics.toList <+: after.diagnostics.toList
  stopped : before.stopped = true →
    after.stopped = true ∧ after.diagnostics = before.diagnostics
  unlimited : before.options.maxErrors = none → after.stopped = before.stopped

namespace State.Grows

variable {before middle after state : State}

@[refl] theorem refl (state : State) : state.Grows state :=
  ⟨rfl, rfl, Nat.le_refl _, List.prefix_rfl, fun h => ⟨h, rfl⟩, fun _ => rfl⟩

@[trans] theorem trans (first : before.Grows middle) (second : middle.Grows after) :
    before.Grows after where
  options := second.options.trans first.options
  size := second.size.trans first.size
  consumed := Nat.le_trans first.consumed second.consumed
  diagnostics := first.diagnostics.trans second.diagnostics
  stopped h := by
    obtain ⟨hmiddle, hsame⟩ := first.stopped h
    obtain ⟨hafter, hsame'⟩ := second.stopped hmiddle
    exact ⟨hafter, hsame'.trans hsame⟩
  unlimited h := (second.unlimited (by rw [first.options, h])).trans (first.unlimited h)

end State.Grows

/-! ## The operations on states -/

namespace State

/-- A change that touches nothing but the nesting, the log and the tokens looked at. -/
theorem grows_of_same {before after : State} (options : after.options = before.options)
    (size : after.size = before.size) (consumed : before.consumed ≤ after.consumed)
    (diagnostics : after.diagnostics = before.diagnostics)
    (stopped : after.stopped = before.stopped) : before.Grows after :=
  ⟨options, size, consumed, diagnostics ▸ List.prefix_rfl,
    fun h => ⟨stopped.trans h, diagnostics⟩, fun _ => stopped⟩

theorem grows_note (state : State) (event : Event) : state.Grows (state.note event) :=
  grows_of_same rfl rfl (Nat.le_refl _) rfl rfl

theorem grows_renest (state : State) (nesting : Nesting) :
    state.Grows { state with nesting } :=
  grows_of_same rfl rfl (Nat.le_refl _) rfl rfl

theorem grows_take (state : State) (token : Token) : state.Grows (state.take token) :=
  grows_of_same rfl rfl (Nat.le_succ _) rfl rfl

theorem grows_takeRaw (state : State) (raw : RawLine) : state.Grows (state.takeRaw raw) :=
  grows_of_same rfl rfl (Nat.le_succ _) rfl rfl

theorem grows_stop {state : State} (h : state.stopped = false) {limit : Nat}
    (hlimit : state.options.maxErrors = some limit) : state.Grows (state.stop limit) where
  options := rfl
  size := rfl
  consumed := Nat.le_refl _
  diagnostics := by simp [stop]
  stopped h' := by simp [h] at h'
  unlimited h' := by simp [hlimit] at h'

theorem grows_countError {state : State} (h : state.stopped = false) :
    state.Grows state.countError := by
  have hcounted : state.Grows { state with errorCount := state.errorCount + 1 } :=
    grows_of_same rfl rfl (Nat.le_refl _) rfl rfl
  unfold countError
  simp only
  split
  · rename_i hlimit
    split
    · exact hcounted.trans (grows_stop (by exact h) hlimit)
    · exact hcounted
  · exact hcounted

theorem grows_report (state : State) (diagnostic : Diagnostic) :
    state.Grows (state.report diagnostic) := by
  unfold report
  split
  · exact .refl state
  · rename_i hstopped
    have hpushed : state.Grows { state with diagnostics := state.diagnostics.push diagnostic } :=
      ⟨rfl, rfl, Nat.le_refl _, by simp, fun h => absurd h hstopped, fun _ => rfl⟩
    simp only
    split
    · exact hpushed.trans (grows_countError (by simpa using hstopped))
    · exact hpushed

/-- A report adds its diagnostic, and at the limit the notice that there were too many
errors. -/
theorem mem_diagnostics_report {state : State} {diagnostic other : Diagnostic}
    (h : other ∈ (state.report diagnostic).diagnostics) :
    other ∈ state.diagnostics ∨ other = diagnostic ∨ ∃ limit,
      state.options.maxErrors = some limit ∧
        other = .error (.tooManyErrors limit) state.previous := by
  unfold report at h
  split at h
  · exact .inl h
  simp only at h
  split at h
  · unfold countError at h
    simp only at h
    split at h
    · rename_i limit hlimit
      split at h
      · simp only [stop, note, Array.mem_push] at h
        rcases h with (h | h) | h
        · exact .inl h
        · exact .inr (.inl h)
        · exact .inr (.inr ⟨limit, hlimit, h⟩)
      · simpa [or_assoc] using Or.inl (Array.mem_push.mp h)
    · simpa [or_assoc] using Or.inl (Array.mem_push.mp h)
  · simpa [or_assoc] using Or.inl (Array.mem_push.mp h)

theorem grows_foldl_report (diagnostics : List Diagnostic) (state : State) :
    state.Grows (diagnostics.foldl report state) := by
  induction diagnostics generalizing state with
  | nil => exact .refl _
  | cons diagnostic rest ih => exact (grows_report _ _).trans (ih _)

theorem reportAll_eq (state : State) (problems : List Problem) :
    state.reportAll problems = (problems.map Problem.diagnostic).foldl report state := by
  rw [reportAll, List.foldl_map]

theorem grows_reportAll (state : State) (problems : List Problem) :
    state.Grows (state.reportAll problems) := by
  rw [reportAll_eq]
  exact grows_foldl_report _ _

theorem grows_scan (state : State) : state.Grows state.scan.2 := by
  unfold scan
  refine .trans ?_ (grows_reportAll _ _)
  exact grows_of_same rfl rfl (Nat.le_refl _) rfl rfl

end State

/-! ## Lasting facts -/

/-- A fact about a state that every later state keeps. -/
structure Lasting where
  holds : State → Prop
  lasts : ∀ {before after : State}, before.Grows after → holds before → holds after

namespace Lasting

instance : CoeFun Lasting fun _ => State → Prop := ⟨holds⟩

variable {α β : Type}

/-- A fact that is not about the state. -/
def sure (fact : Prop) : Lasting := ⟨fun _ => fact, fun _ h => h⟩

/-- The fact that a state grew out of a given one. -/
def since (start : State) : Lasting := ⟨fun state => start.Grows state, fun h h' => h'.trans h⟩

/-- The fact that a token was taken. -/
def begun : Lasting := ⟨fun state => 0 < state.consumed, fun h h' => Nat.lt_of_lt_of_le h' h.consumed⟩

/-- A fact that is known only if another one is. -/
def given (condition : Prop) (fact : Lasting) : Lasting :=
  ⟨fun state => condition → fact state, fun h h' hcondition => fact.lasts h (h' hcondition)⟩

/-- Two facts together. -/
def and (first second : Lasting) : Lasting :=
  ⟨fun state => first state ∧ second state, fun h => And.imp (first.lasts h) (second.lasts h)⟩

/-- A fact about each two elements at the same place of two lists. -/
def all (related : α → β → Lasting) (firsts : List α) (seconds : List β) : Lasting :=
  ⟨fun state => List.Forall₂ (fun first second => related first second state) firsts seconds,
    fun h h' => h'.imp fun _ _ => (related _ _).lasts h⟩

/-- A fact about two optional values, both of which are there or not. -/
def option (related : α → β → Lasting) : Option α → Option β → Lasting
  | none, none => sure True
  | some first, some second => related first second
  | _, _ => sure False

@[simp] theorem sure_holds (fact : Prop) (state : State) : sure fact state ↔ fact := .rfl

@[simp] theorem since_holds (start state : State) : since start state ↔ start.Grows state := .rfl

@[simp] theorem begun_holds (state : State) : begun state ↔ 0 < state.consumed := .rfl

@[simp] theorem given_holds (condition : Prop) (fact : Lasting) (state : State) :
    given condition fact state ↔ (condition → fact state) := .rfl

@[simp] theorem and_holds (first second : Lasting) (state : State) :
    first.and second state ↔ first state ∧ second state := .rfl

@[simp] theorem all_holds (related : α → β → Lasting) (firsts : List α) (seconds : List β)
    (state : State) : all related firsts seconds state ↔
      List.Forall₂ (fun first second => related first second state) firsts seconds := .rfl

@[simp] theorem option_some (related : α → β → Lasting) (first : α) (second : β) :
    option related (some first) (some second) = related first second := rfl

@[simp] theorem option_none (related : α → β → Lasting) :
    option related none none = sure True := rfl

theorem all_getLast {related : α → β → Lasting} {firsts : List α} {seconds : List β}
    {state : State} (h : all related firsts seconds state) (hfirsts : firsts ≠ [])
    (hseconds : seconds ≠ []) :
    related (firsts.getLast hfirsts) (seconds.getLast hseconds) state := by
  rw [all_holds] at h
  induction h with
  | nil => exact absurd rfl hfirsts
  | @cons first second rest rest' hfirst hrest ih =>
      cases hrest with
      | nil => exact hfirst
      | cons hnext hrest => exact ih (List.cons_ne_nil _ _) (List.cons_ne_nil _ _)

theorem all_toList {related : α → β → Lasting} {first : Option α} {second : Option β}
    {state : State} (h : option related first second state) :
    all related first.toList second.toList state := by
  cases first <;> cases second
  · exact .nil
  · exact h.elim
  · exact h.elim
  · exact .cons h .nil

end Lasting

end ConfLang
