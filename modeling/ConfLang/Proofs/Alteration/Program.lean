import ConfLang.Proofs.Alteration.Statement
import ConfLang.Proofs.LineEndings.Program

/-!
# Outcomes of sources that follow tokens

What comes of reading a source that follows the tokens of a program: the program without the
branches whose conditions are gone, the errors that were due, and, if all lines were kept, the
warnings that the tokens of the program give rise to.
-/

namespace ConfLang

open Grammar

variable {options : Options} {source : String} {ts : List Token} {program : Program}
  {alteration : Alteration} {due : List Due}

theorem parseWith_of_follows (hlimit : options.maxErrors = none) (h : IsProgram options ts program)
    (hfollows : alteration.Follows .code ts (.ofSource source) due)
    (hmisses : ∀ line ∈ program.conditionLines, alteration.gone line.start = true →
      line.IsText ∧ ∀ place, alteration.place place → line.Fails options place) :
    (parseWith options source).program.unplaced id =
        (program.without alteration.gone).unplaced id ∧
      Reported due (parseWith options source).errors ∧
      (alteration.KeepsLines → ((parseWith options source).warnings.filter
        (!·.isRepetition)).map (·.cause) = noticesOf .code ts) := by
  let S : Setting := ⟨options, hlimit, alteration, due, noticesOf .code ts⟩
  obtain ⟨found, after, hrun, houtcome⟩ := exists_wholeProgram options source
  have hstart : S.At {} .code ts 0 (.ofSource source options) :=
    ⟨.ofSource source, 0, due, Nat.le_refl 0, hfollows,
      (State.sees_ofSource options source).isAt, ⟨[], rfl, .nil⟩, fun _ => rfl⟩
  obtain ⟨_, _, hwhole, hsame, c, j, rest, -, hrest, hstands⟩ :=
    Setting.brings_wholeProgram (S := S) h hmisses _ hstart
  rw [hrun] at hwhole
  cases hwhole
  cases hrest
  obtain ⟨reported, hdue, hreported⟩ := hstands.errors
  rw [houtcome]
  refine ⟨hsame, ?_, fun hkeeps => ?_⟩
  · rw [show due = reported by simpa [S] using hdue]
    exact hreported
  · have hremarks := hstands.remarks hkeeps
    rwa [noticesOf, List.append_nil] at hremarks

end ConfLang
