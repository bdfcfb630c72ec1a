import ConfLang.Proofs.Placement.Scan
import Mathlib.Data.String.Basic

/-!
# The text of a span

A span that points into a source covers a text of it.  Between two places behind beginnings of
the source this is what the longer beginning has more than the shorter one.
-/

namespace ConfLang

namespace Span

/-- The text that a span covers. -/
def textIn (source : String) (span : Span) : String :=
  String.Pos.Raw.extract source ⟨span.start⟩ ⟨span.stop⟩

theorem textIn_between (before text rest : List Char) :
    (between (Position.start.after before) (Position.start.after (before ++ text))).textIn
      (String.ofList (before ++ text ++ rest)) = String.ofList text := by
  have hbytes (characters : List Char) : Position.bytes characters = String.utf8Len characters :=
    String.utf8ByteSize_ofList characters
  rw [textIn, between, Position.start_after, Position.start_after, Position.bytes_append, hbytes,
    hbytes]
  exact String.extract_of_valid before text rest

/-- A span from the first byte through the last one covers the whole source. -/
theorem textIn_whole (source : String) :
    textIn source { start := 0, stop := source.utf8ByteSize } = source := by
  have h := textIn_between [] source.toList []
  rw [List.nil_append, List.append_nil, String.ofList_toList, between,
    Position.start_after source.toList, Position.bytes, String.ofList_toList] at h
  exact h

namespace PointsInto

variable {source : String} {span other : Span}

theorem through (h : span.PointsInto source) (hother : other.PointsInto source) :
    (span.through other).PointsInto source where
  start_le_stop := h.start_le_stop.trans (Nat.le_max_right _ _)
  stop_le_size := Nat.max_le.mpr ⟨hother.stop_le_size, h.stop_le_size⟩
  start_isValid := h.start_isValid
  stop_isValid := by
    rcases Nat.le_total other.stop span.stop with hle | hle
    · rw [Span.through, Nat.max_eq_right hle]
      exact h.stop_isValid
    · rw [Span.through, Nat.max_eq_left hle]
      exact hother.stop_isValid
  place := h.place

theorem origin (h : span.PointsInto source) : span.origin.PointsInto source where
  start_le_stop := Nat.le_refl _
  stop_le_size := h.start_le_stop.trans h.stop_le_size
  start_isValid := h.start_isValid
  stop_isValid := h.start_isValid
  place := h.place

end PointsInto

end Span

end ConfLang
