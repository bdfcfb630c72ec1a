import ConfLang.Proofs.Growth

/-!
# Texts that are taken with a reservation

A quote that is not closed ends with its line, so its text is what happens to stand there.  Such a
text is not used in good faith: the quote is reported, unless the reading has stopped before and
reports nothing any more.  Either way the reading is tainted from then on (`State.Tainted`), and
what is said about texts is said of readings that are not.
-/

namespace ConfLang

/-- Whether a diagnostic is an error about a quote that is not closed. -/
def Diagnostic.isUnterminated (diagnostic : Diagnostic) : Bool :=
  diagnostic.isError && match diagnostic.cause with
    | .unterminated _ => true
    | _ => false

theorem Diagnostic.kind_of_isUnterminated {diagnostic : Diagnostic}
    (h : diagnostic.isUnterminated = true) : diagnostic.kind = .lexical := by
  unfold isUnterminated at h
  rw [Bool.and_eq_true] at h
  obtain ⟨-, hcause⟩ := h
  split at hcause
  · rename_i quote hquote
    rw [Problem.kind, hquote]
    rfl
  · cases hcause

namespace State

variable {s t : State}

/-- The reading has stopped, or a quote that is not closed was reported. -/
def Tainted (s : State) : Prop :=
  s.stopped = true ∨ ∃ diagnostic ∈ s.diagnostics, diagnostic.isUnterminated = true

theorem Tainted.of_grows (h : s.Tainted) (hgrows : s.Grows t) : t.Tainted := by
  rcases h with hstopped | ⟨diagnostic, hmem, hquote⟩
  · exact .inl (hgrows.stopped hstopped).1
  · refine .inr ⟨diagnostic, ?_, hquote⟩
    exact Array.mem_toList_iff.mp (hgrows.diagnostics.subset (Array.mem_toList_iff.mpr hmem))

theorem tainted_report {diagnostic : Diagnostic} (h : diagnostic.isUnterminated = true) :
    (s.report diagnostic).Tainted := by
  by_cases hstopped : s.stopped = true
  · exact .inl ((s.grows_report diagnostic).stopped hstopped).1
  · refine .inr ⟨diagnostic, ?_, h⟩
    unfold report
    rw [if_neg hstopped]
    have hpushed : diagnostic ∈ s.diagnostics.push diagnostic := Array.mem_push_self
    simp only
    split
    · exact Array.mem_toList_iff.mp ((grows_countError (by simpa using hstopped)).diagnostics.subset
        (Array.mem_toList_iff.mpr hpushed))
    · exact hpushed

theorem tainted_foldl_report {diagnostics : List Diagnostic}
    (h : ∃ diagnostic ∈ diagnostics, diagnostic.isUnterminated = true) :
    (diagnostics.foldl report s).Tainted := by
  induction diagnostics generalizing s with
  | nil =>
      obtain ⟨_, hmem, -⟩ := h
      cases hmem
  | cons first rest ih =>
      obtain ⟨diagnostic, hmem, hquote⟩ := h
      rcases List.mem_cons.mp hmem with rfl | hrest
      · exact (tainted_report hquote).of_grows (grows_foldl_report _ _)
      · exact ih ⟨diagnostic, hrest, hquote⟩

end State

/-- A fact that holds with the reservation. -/
def Lasting.untainted (fact : Prop) : Lasting where
  holds s := ¬ s.Tainted → fact
  lasts hgrows h hafter := h fun hbefore => hafter (hbefore.of_grows hgrows)

@[simp] theorem Lasting.untainted_holds (fact : Prop) (s : State) :
    Lasting.untainted fact s ↔ (¬ s.Tainted → fact) := .rfl

end ConfLang
