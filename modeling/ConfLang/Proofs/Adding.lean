import ConfLang.Proofs.Course

/-!
# Readings only add

Every reading keeps what `State.Grows` says, whether it gives a value or fails.  This holds
along all runs of readings that ask anything or tell anything.
-/

namespace ConfLang

/-- What is there before a reading is kept. -/
def growth : FreeCourse where
  holds := State.Grows
  fails _ := True
  refl := .refl
  trans := .trans
  plain _ _ := trivial
  calm _ _ := trivial
  note := State.grows_note
  report s diagnostic _ := s.grows_report diagnostic
  renest _ _ _ h := ((State.grows_renest _ _).trans h).trans (State.grows_renest _ _)
  looked _ := State.grows_of_same rfl rfl (Nat.le_refl _) rfl rfl
  take _ := State.grows_take _ _
  takeRaw _ := State.grows_takeRaw _ _

namespace Reading

variable {α β : Type}

/-- A reading only adds to what is there. -/
abbrev Adds (f : Reading α) : Prop := Obeys growth.Kept f

instance : TellsStray growth.Kept := Course.tellsStray fun _ => trivial

theorem Adds.of_ok {f : Reading α} [Adds f] {s s' : State} {a : α}
    (h : EStateM.run f s = .ok a s') : s.Grows s' := by
  have hgrows : s.Grows (f.run s).2 := (Obeys.obeys (P := growth.Kept) (f := f) s).1
  rwa [run_of_ok h] at hgrows

theorem Adds.of_error {f : Reading α} [Adds f] {s s' : State} {problem : Problem}
    (h : EStateM.run f s = .error problem s') : s.Grows s' := by
  have hgrows : s.Grows (f.run s).2 := (Obeys.obeys (P := growth.Kept) (f := f) s).1
  rwa [run_of_error h] at hgrows

/-! ## Steps -/

instance : Adds (get : Reading State) := ⟨Course.kept_get⟩

instance {diagnostic : Diagnostic} : Adds (report diagnostic) := ⟨Course.kept_report trivial⟩

instance {cause : Cause} {span : Span} : Adds (fail cause span : Reading α) :=
  ⟨Course.kept_fail trivial⟩

instance {f : Reading α} [Adds f] : Adds (attempt f) where
  obeys s := by
    rw [attempt_run]
    exact ⟨(Obeys.obeys (P := growth.Kept) (f := f) s).1, fun _ h => nomatch h⟩

theorem adds_between {opening closing : State → State} {f : Reading α} [Adds f]
    (hopening : ∀ s : State, s.Grows (opening s)) (hclosing : ∀ s : State, s.Grows (closing s)) :
    Adds (between opening closing f) where
  obeys s := by
    rw [between_run]
    have hgrows := (Obeys.obeys (P := growth.Kept) (f := f) (opening s)).1
    exact ⟨((hopening s).trans hgrows).trans (hclosing _), fun _ _ => trivial⟩

theorem adds_bind {f : Reading α} {rest : α → Reading β} [Adds f] (hrest : ∀ a, Adds (rest a)) :
    Adds (f >>= rest) :=
  obeys_bind hrest

end Reading

end ConfLang
