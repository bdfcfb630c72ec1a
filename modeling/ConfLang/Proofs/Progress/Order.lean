import ConfLang.Proofs.Grammar.Exact
import ConfLang.Proofs.Progress.Carried
import ConfLang.Proofs.Progress.Forward

/-!
# Reachable states

`State.Reachable` are the states that steps of readings lead to, whatever is reported on the way
and however the nesting changes.  All states in which calls are made are among them
(`Reached.reachable`), and what is shown of them is that they are in order.
-/

namespace ConfLang

open Reading

/-- The states that the steps of readings lead to from the beginning of a source. -/
inductive State.Reachable (options : Options) (source : String) : State → Prop
  | start : Reachable options source (.ofSource source options)
  | note {s : State} (event : Event) : Reachable options source s → Reachable options source (s.note event)
  | report {s : State} (diagnostic : Diagnostic) : Reachable options source s →
    Reachable options source (s.report diagnostic)
  | renest {s : State} (change : Nesting → Nesting) : Reachable options source s →
    Reachable options source (s.renest change)
  | looked {s : State} : Reachable options source s → Reachable options source s.looked
  | take {s : State} {token : Token} {rest : List Token} : Reachable options source s →
    s.lookahead = token :: rest → Reachable options source (s.take token)
  | takeRaw {s : State} : Reachable options source s → s.lookahead = [] →
    Reachable options source (s.takeRaw s.cursor.rawLine)

variable {options : Options} {source : String} {s : State}

/-- No reading leads out of the reachable states. -/
def reaching (options : Options) (source : String) : FreeCourse where
  holds s s' := s.Reachable options source → s'.Reachable options source
  fails _ := True
  refl _ := id
  trans h h' hs := h' (h hs)
  plain _ _ := trivial
  calm _ _ := trivial
  note _ event := .note event
  report _ diagnostic _ := .report diagnostic
  renest opening closing _ h hs := (h (hs.renest opening)).renest closing
  looked _ := .looked
  take hfirst hs := hs.take hfirst
  takeRaw hnone hs := hs.takeRaw hnone

instance : TellsStray (reaching options source).Kept := Course.tellsStray fun _ => trivial

theorem carries_reachable :
    (reaching options source).Carries (State.Reachable options source) :=
  ⟨fun h => h, fun change hs => hs.renest change⟩

theorem Reached.reachable {call : Call} (h : Reached options source call s) :
    s.Reachable options source :=
  carries_reachable.reached .start h

theorem State.ordered_ofSource (options : Options) (source : String) :
    (State.ofSource source options).Ordered :=
  ⟨(State.sees_ofSource options source).size, Nat.le_refl _⟩

theorem State.Reachable.ordered (h : s.Reachable options source) : s.Ordered := by
  induction h with
  | start => exact State.ordered_ofSource options source
  | note _ _ ih | renest _ _ ih => exact ⟨ih.size, ih.tokens⟩
  | report diagnostic _ ih => exact ih.report diagnostic
  | looked _ ih => exact ih.looked
  | take _ hfirst ih => exact ih.take hfirst
  | takeRaw _ hnone ih => exact ih.takeRaw hnone

end ConfLang
