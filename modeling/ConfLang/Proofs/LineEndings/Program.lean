import ConfLang.Proofs.LineEndings.Reading
import ConfLang.Proofs.Limit.Truncation
import ConfLang.Proofs.Progress.Ends

/-!
# Line ends do not count

With a carriage return in front of every line feed, a source means the same.  If nothing is wrong
with its characters, the same is reported on the same lines, and the program is the same but for
its spans (`parseWith_returned`).

There is one reservation.  A quote that is not closed goes on to the end of its line, and takes in
the carriage return; this is always reported, but not once the reading has stopped at the limit of
errors.  It still goes on to the end of the statement then, and what it reads is part of the
program (`quote_behind_limit`).

## Strategy

Both sources are read step by step.  The two states stay alongside each other, as every operation
on states keeps that (`lineEndings`), so all that is read is alike (`alongside_wholeProgram`).  What
is known at the end depends on whether the reading is tainted.  It is not if no quote that is not
closed was reported and the reading has not stopped, and a reading that has stopped has told so
(`notice_of_stopped`).
-/

namespace ConfLang

/-- A source with a carriage return in front of every line feed. -/
def Text.returned (source : String) : String :=
  String.ofList (withReturns source.toList)

/-- A text without the carriage returns at its end. -/
def Text.withoutReturns (text : String) : String :=
  String.ofList (text.toList.reverse.dropWhile (· == '\r')).reverse

theorem Text.withoutReturns_return (text : String) :
    withoutReturns (text ++ "\r") = withoutReturns text := by
  simp [withoutReturns]

/-- What a diagnostic tells, apart from the columns and bytes of its place. -/
def Diagnostic.told (diagnostic : Diagnostic) : Severity × ProblemKind × String × Nat :=
  (diagnostic.severity, diagnostic.kind, diagnostic.message, diagnostic.span.line)

theorem Diagnostic.Alongside.told {diagnostic other : Diagnostic}
    (h : diagnostic.Alongside other) : other.told = diagnostic.told := by
  obtain ⟨hkind, hmessage⟩ := h.cause.told
  rw [Diagnostic.told, Diagnostic.told, h.severity, h.line]
  exact congrArg₂ (fun kind message => (diagnostic.severity, kind, message, diagnostic.span.line))
    hkind hmessage

theorem Diagnostic.map_told {diagnostics others : List Diagnostic}
    (h : List.Forall₂ Diagnostic.Alongside diagnostics others) :
    others.map Diagnostic.told = diagnostics.map Diagnostic.told := by
  induction h with
  | nil => rfl
  | cons hfirst _ ih => rw [List.map_cons, List.map_cons, hfirst.told, ih]

/-! ## Two readings of a source -/

theorem State.alongside_ofSource (options : Options) (source : String) :
    (State.ofSource source options).Alongside (.ofSource (Text.returned source) options) where
  options := rfl
  cursor := .inl ⟨String.toList_ofList, rfl, rfl, rfl⟩
  previous := rfl
  consumed := rfl
  diagnostics := .inr .nil
  errorCount := rfl
  stopped := rfl
  lookahead := .nil
  ordered := ordered_ofSource options source
  ordered' := ordered_ofSource options (Text.returned source)

open Reading in
/-- Reading all that is left of a source does not fail. -/
theorem exists_wholeProgram (options : Options) (source : String) :
    ∃ program after, EStateM.run wholeProgram (.ofSource source options) = .ok program after ∧
      parseWith options source = after.finish program := by
  obtain ⟨program, after, -, -, hrun, -⟩ :=
    program_ends_at (options.maxNestingDepth + 1) (State.ordered_ofSource options source)
  have hwhole : EStateM.run wholeProgram (.ofSource source options) = .ok program after :=
    ok_of_run hrun
  exact ⟨program, after, hwhole, by rw [parseWith, run_of_ok hwhole]⟩

/-- The readings of a source without and with carriage returns end alongside each other. -/
theorem alongside_wholeProgram {options : Options} {source : String} {program other : Program}
    {s t : State}
    (hs : EStateM.run Reading.wholeProgram (.ofSource source options) = .ok program s)
    (ht : EStateM.run Reading.wholeProgram (.ofSource (Text.returned source) options) =
      .ok other t) :
    s.Alongside t ∧ ∀ view, s.Overlooks view → other.unplaced view = program.unplaced view := by
  have hstart : lineEndings.state {} (.ofSource source options)
      (.ofSource (Text.returned source) options) :=
    ⟨State.alongside_ofSource options source, rfl, rfl⟩
  have hends := Likeness.alike_wholeProgram (L := lineEndings) (K := .sure True) (b := false) rfl
    (fun hchain => absurd hchain (Nat.lt_irrefl 0)) _ _ ⟨hstart, trivial⟩
  rw [hs, ht] at hends
  obtain ⟨⟨halongside, -⟩, -, hstatements⟩ := hends
  exact ⟨halongside, fun view hview =>
    congrArg Program.mk (Lasting.unplaced_statements hview hstatements)⟩

/-! ## Main result -/

/-- **Line ends do not count.**  If nothing is wrong with the characters of a source, the same is
told with a carriage return in front of every line feed, and the program is the same but for its
spans, and for the carriage returns at the ends of quoted texts.  Unless the reading has stopped at
the limit of errors, the quoted texts are the same as well. -/
theorem parseWith_returned (options : Options) (source : String)
    (hlexical : ∀ diagnostic ∈ (parseWith options source).diagnostics,
      diagnostic.kind ≠ .lexical) :
    (parseWith options (Text.returned source)).diagnostics.map Diagnostic.told =
        (parseWith options source).diagnostics.map Diagnostic.told ∧
      (parseWith options (Text.returned source)).program.unplaced Text.withoutReturns =
        (parseWith options source).program.unplaced Text.withoutReturns ∧
      ((∀ limit span, .error (.tooManyErrors limit) span ∉ (parseWith options source).diagnostics) →
        (parseWith options (Text.returned source)).program.unplaced id =
          (parseWith options source).program.unplaced id) := by
  obtain ⟨program, s, hs, hsource⟩ := exists_wholeProgram options source
  obtain ⟨other, t, ht, hreturned⟩ := exists_wholeProgram options (Text.returned source)
  obtain ⟨halongside, hsame⟩ := alongside_wholeProgram hs ht
  rw [hsource] at hlexical ⊢
  rw [hreturned]
  -- An open quote that was reported is among the lexical diagnostics.
  have hclosed : ¬∃ diagnostic ∈ s.diagnostics, diagnostic.isUnterminated = true := by
    rintro ⟨diagnostic, hmem, hquote⟩
    exact hlexical diagnostic (Array.mem_toList_iff.mpr hmem)
      (Diagnostic.kind_of_isUnterminated hquote)
  refine ⟨?_, hsame _ fun _ => Text.withoutReturns_return, fun hlimit => hsame id ?_⟩
  · exact Diagnostic.map_told (halongside.diagnostics.resolve_left hclosed)
  · rintro (hstopped | hcut)
    · obtain ⟨limit, span, hnotice⟩ := notice_of_stopped hs hstopped
      exact absurd hnotice (hlimit limit span)
    · exact absurd hcut hclosed

/-- An empty element and an open bracket are told on the same lines, with the same words. -/
theorem told_returned :
    (parseWith {} (Text.returned "a = [1,,2]\nb = (3\nc += 1")).diagnostics.map Diagnostic.told =
        [(.error, .structural, "Unexpected ',' in '[' list: empty element", 1),
          (.error, .grammar,
            "Expected ')' to close '(' opened at line 2, column 5, found identifier 'c'", 2)] ∧
      (parseWith {} (Text.returned "a = [1,,2]\nb = (3\nc += 1")).program.unplaced id =
        (parseWith {} "a = [1,,2]\nb = (3\nc += 1").program.unplaced id := by
  have hdiagnostics : (parseWith {} "a = [1,,2]\nb = (3\nc += 1").diagnostics =
      [.error (.emptyElement .square) ⟨7, 8, 1, 8⟩,
        .error (.unclosed .paren ⟨15, 16, 2, 5⟩ (.name "c" false)) ⟨15, 16, 2, 5⟩] := by
    decide +kernel
  obtain ⟨htold, -, hsame⟩ :=
    parseWith_returned {} "a = [1,,2]\nb = (3\nc += 1" (by decide +kernel)
  refine ⟨?_, hsame ?_⟩
  · rw [htold, hdiagnostics]
    decide +kernel
  · simp [hdiagnostics, Diagnostic.error]

/-- Behind the limit of errors a quote that is not closed is not reported, and its name gets the
carriage return. -/
theorem quote_behind_limit : ¬∀ (options : Options) (source : String), '\r' ∉ source.toList →
    (∀ diagnostic ∈ (parseWith options source).diagnostics, diagnostic.kind ≠ .lexical) →
    (parseWith options (Text.returned source)).program.unplaced id =
        (parseWith options source).program.unplaced id ∧
      (parseWith options (Text.returned source)).diagnostics.map Diagnostic.told =
        (parseWith options source).diagnostics.map Diagnostic.told := by
  intro hsame
  have hprogram := (hsame { maxErrors := some 1 } "a = [1,,'abc\n]" (by decide +kernel)
    (by decide +kernel)).1
  have hsource : ((parseWith { maxErrors := some 1 }
      (Text.returned "a = [1,,'abc\n]")).program.unplaced id).source =
        ((parseWith { maxErrors := some 1 } "a = [1,,'abc\n]").program.unplaced id).source :=
    congrArg Program.source hprogram
  exact absurd hsource (by decide +kernel)

end ConfLang
