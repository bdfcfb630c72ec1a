import ConfLang.Proofs.Grammar.Scan
import ConfLang.Proofs.Steps

/-!
# What a parser sees

A parser that has looked at some tokens without taking them is at two places of its source:
its cursor is behind the tokens it looked at, but what it reads next begins in front of them.
`State.Sees` says that a state is at a cursor in the second sense.  It forgets how many tokens
were taken before, and all warnings; the errors are those that stand between the tokens that
were looked at, and no others.

Each operation on states that the steps of readings make is described by the cursor it goes
to.
-/

namespace ConfLang

namespace Cursor

variable {cursor after : Cursor}

/-- The next tokens. -/
def ahead (cursor : Cursor) : Nat → List Token
  | 0 => []
  | count + 1 => cursor.next.token :: cursor.next.cursor.ahead count

/-- The place behind the next tokens. -/
def behind (cursor : Cursor) : Nat → Cursor
  | 0 => cursor
  | count + 1 => cursor.next.cursor.behind count

/-- What is wrong on the way through the next tokens. -/
def pending (cursor : Cursor) : Nat → List Problem
  | 0 => []
  | count + 1 => cursor.next.problems ++ cursor.next.cursor.pending count

theorem ahead_succ (cursor : Cursor) (count : Nat) :
    cursor.ahead (count + 1) = cursor.ahead count ++ [(cursor.behind count).next.token] := by
  induction count generalizing cursor with
  | zero => rfl
  | succ count ih =>
      rw [ahead, ih]
      rfl

theorem behind_succ (cursor : Cursor) (count : Nat) :
    cursor.behind (count + 1) = (cursor.behind count).next.cursor := by
  induction count generalizing cursor with
  | zero => rfl
  | succ count ih =>
      rw [behind, ih]
      rfl

theorem pending_succ (cursor : Cursor) (count : Nat) : cursor.pending (count + 1) =
    cursor.pending count ++ (cursor.behind count).next.problems := by
  induction count generalizing cursor with
  | zero => simp [pending, behind]
  | succ count ih =>
      rw [pending, ih, ← List.append_assoc]
      rfl

/-- Nothing wrong stands in front of the next token, or any number of errors is reported. -/
def Clear (cursor : Cursor) (options : Options) : Prop :=
  options.maxErrors = none ∨ cursor.next.problems = []

theorem Shows.clear {token : Token} {options : Options} (h : cursor.Shows token) :
    cursor.Clear options := .inr h.problems

theorem EndsLine.clear {after : Cursor} {options : Options} (h : cursor.EndsLine after) :
    cursor.Clear options := by
  rcases h with ⟨_, hshows, -⟩ | ⟨-, hend, -⟩
  · exact hshows.clear
  · exact .inr hend.2

/-! ## Bytes -/

theorem offset_advance (cursor : Cursor) (count : Nat) :
    (cursor.advance count).position.offset + (cursor.advance count).left =
      cursor.position.offset + cursor.left := by
  rw [advance, left, Position.offset_after, Nat.add_assoc, ← Position.bytes_append,
    List.take_append_drop, left]

theorem offset_piece? {after : Cursor} {piece : Piece} (h : cursor.piece? = some (piece, after)) :
    after.position.offset + after.left = cursor.position.offset + cursor.left ∧
      piece.span.stop = after.position.offset := by
  unfold piece? at h
  split at h
  · simp at h
  · simp only [Option.some.injEq, Prod.mk.injEq] at h
    obtain ⟨rfl, rfl⟩ := h
    exact ⟨cursor.offset_advance _, rfl⟩

/-- A token ends where the cursor behind it is. -/
theorem offset_next (cursor : Cursor) :
    cursor.next.cursor.position.offset + cursor.next.cursor.left =
        cursor.position.offset + cursor.left ∧
      cursor.next.token.span.stop = cursor.next.cursor.position.offset := by
  fun_induction next cursor with
  | case1 => exact ⟨rfl, rfl⟩
  | case2 cursor piece after hpiece token htoken =>
      obtain ⟨hbytes, hstop⟩ := offset_piece? hpiece
      rw [← Piece.span_of_token? htoken] at hstop
      exact ⟨hbytes, hstop⟩
  | case3 cursor piece after hpiece htoken scan ih =>
      exact ⟨ih.1.trans (offset_piece? hpiece).1, ih.2⟩

theorem offset_le_of_suffix (hrest : after.rest <:+ cursor.rest)
    (hbytes : after.position.offset + after.left = cursor.position.offset + cursor.left) :
    cursor.position.offset ≤ after.position.offset := by
  have hleft := left_le_of_suffix hrest
  omega

theorem offset_le_next (cursor : Cursor) :
    cursor.position.offset ≤ cursor.next.cursor.position.offset :=
  offset_le_of_suffix (rest_next cursor) cursor.offset_next.1

theorem offset_le_rawLine (cursor : Cursor) :
    cursor.position.offset ≤ cursor.rawLine.cursor.position.offset :=
  offset_le_of_suffix (rest_rawLine cursor) ((offset_advance _ _).trans (offset_advance _ _))

end Cursor

namespace State

variable {s : State} {o : Options} {n : Nesting} {k : Nat} {c : Cursor}

/-- The errors among the diagnostics. -/
def errors (state : State) : List Diagnostic :=
  state.diagnostics.toList.filter (·.isError)

/-- A state is at a cursor, and has looked at some tokens behind it. -/
structure Sees (state : State) (o : Options) (n : Nesting) (count : Nat) (place : Cursor) :
    Prop where
  options : state.options = o
  nesting : state.nesting = n
  stopped : state.stopped = false
  size : state.size = place.position.offset + place.left
  previous : state.previous.stop = place.position.offset
  lookahead : state.lookahead = place.ahead count
  cursor : state.cursor = place.behind count
  errors : state.errors = (place.pending count).map Problem.diagnostic

/-- The measure that ends repetitions is the number of bytes behind the cursor. -/
theorem Sees.remaining (h : s.Sees o n k c) : s.remaining = c.left := by
  rw [State.remaining, h.size, h.previous, Nat.add_sub_cancel_left]

/-! ## Reports -/

/-- Without a limit of errors a report is just added, and so is a warning in any case. -/
theorem report_open (diagnostic : Diagnostic) (hstopped : s.stopped = false)
    (hopen : s.options.maxErrors = none ∨ diagnostic.isError = false) :
    (s.report diagnostic).stopped = false ∧
      (s.report diagnostic).errors = s.errors ++ [diagnostic].filter (·.isError) := by
  unfold report
  rw [if_neg (by simp [hstopped])]
  simp only
  split
  · rename_i hserious
    have hlimit : s.options.maxErrors = none := hopen.resolve_right (by simp [hserious])
    simp only [countError, hlimit]
    exact ⟨hstopped, by simp [errors]⟩
  · exact ⟨hstopped, by simp [errors]⟩

theorem foldl_report_open {diagnostics : List Diagnostic} (hstopped : s.stopped = false)
    (hopen : s.options.maxErrors = none ∨ ∀ diagnostic ∈ diagnostics, diagnostic.isError = false) :
    (diagnostics.foldl report s).stopped = false ∧
      (diagnostics.foldl report s).errors = s.errors ++ diagnostics.filter (·.isError) := by
  induction diagnostics generalizing s with
  | nil => exact ⟨hstopped, by simp⟩
  | cons diagnostic rest ih =>
      rw [List.forall_mem_cons] at hopen
      obtain ⟨hfirst, herrors⟩ := report_open diagnostic hstopped (hopen.imp_right And.left)
      have hoptions : (s.report diagnostic).options = s.options := by rw [report_frame]
      obtain ⟨hrest, hafter⟩ := ih hfirst (by rw [hoptions]; exact hopen.imp_right And.right)
      refine ⟨hrest, hafter.trans ?_⟩
      rw [herrors, List.append_assoc, ← List.filter_append, List.singleton_append]

/-- Warnings change nothing that is seen. -/
theorem Sees.foldl_report {diagnostics : List Diagnostic} (h : s.Sees o n k c)
    (hwarnings : ∀ diagnostic ∈ diagnostics, diagnostic.isError = false) :
    (diagnostics.foldl report s).Sees o n k c := by
  obtain ⟨hstopped, herrors⟩ := foldl_report_open h.stopped (.inr hwarnings)
  rw [List.filter_eq_nil_iff.mpr fun d hd => by simp [hwarnings d hd], List.append_nil,
    h.errors] at herrors
  rw [foldl_report_frame] at hstopped herrors ⊢
  exact ⟨h.options, h.nesting, hstopped, h.size, h.previous, h.lookahead, h.cursor, herrors⟩

theorem Sees.note (h : s.Sees o n k c) (event : Event) : (s.note event).Sees o n k c :=
  ⟨h.options, h.nesting, h.stopped, h.size, h.previous, h.lookahead, h.cursor, h.errors⟩

theorem Sees.renest (h : s.Sees o n k c) (nesting : Nesting) :
    { s with nesting }.Sees o nesting k c :=
  ⟨h.options, rfl, h.stopped, h.size, h.previous, h.lookahead, h.cursor, h.errors⟩

/-! ## Looking at tokens and taking them -/

theorem Sees.scan (h : s.Sees o n k c) (hclear : (c.behind k).Clear o) :
    s.scan.1 = (c.behind k).next.token ∧ s.scan.2.Sees o n (k + 1) c := by
  rw [scan_eq, h.cursor]
  refine ⟨rfl, ?_⟩
  have hopen : s.looked.options.maxErrors = none ∨
      ∀ diagnostic ∈ (c.behind k).next.problems.map Problem.diagnostic,
        diagnostic.isError = false :=
    hclear.imp (fun hlimit => by rw [← h.options] at hlimit; exact hlimit)
      fun hnone => by simp [hnone]
  obtain ⟨hstopped, herrors⟩ := foldl_report_open (s := s.looked) h.stopped hopen
  have hserious : ((c.behind k).next.problems.map Problem.diagnostic).filter (·.isError) =
      (c.behind k).next.problems.map Problem.diagnostic := by
    rw [List.filter_eq_self]
    intro diagnostic hdiagnostic
    obtain ⟨problem, -, rfl⟩ := List.mem_map.mp hdiagnostic
    rfl
  rw [hserious, show s.looked.errors = s.errors from rfl, h.errors, ← List.map_append,
    ← c.pending_succ] at herrors
  rw [foldl_report_frame] at hstopped herrors ⊢
  refine ⟨h.options, h.nesting, hstopped, h.size, h.previous, ?_, ?_, herrors⟩
  · rw [c.ahead_succ, ← h.lookahead, ← h.cursor]
    rfl
  · rw [c.behind_succ, ← h.cursor]
    rfl

theorem Sees.peeked (h : s.Sees o n k c) (hclear : k = 0 → c.Clear o) :
    s.peeked.1 = c.next.token ∧ s.peeked.2.Sees o n (max k 1) c := by
  cases k with
  | zero =>
      rw [peeked_of_nil h.lookahead]
      exact h.scan (hclear rfl)
  | succ k =>
      rw [peeked_of_cons h.lookahead, Nat.max_eq_left (Nat.le_add_left 1 k)]
      exact ⟨rfl, h⟩

theorem Sees.take (h : s.Sees o n (k + 1) c) (hproblems : c.next.problems = []) :
    (s.take c.next.token).Sees o n k c.next.cursor := by
  have hoffset := c.offset_next
  have herrors := h.errors
  rw [Cursor.pending, hproblems, List.nil_append] at herrors
  refine ⟨h.options, h.nesting, h.stopped, h.size.trans hoffset.1.symm, hoffset.2, ?_, h.cursor,
    herrors⟩
  rw [State.take, h.lookahead]
  rfl

theorem Sees.takeRaw (h : s.Sees o n 0 c) :
    (s.takeRaw c.rawLine).Sees o n 0 c.rawLine.cursor := by
  refine ⟨h.options, h.nesting, h.stopped, ?_, rfl, h.lookahead, rfl, h.errors⟩
  rw [State.takeRaw, h.size, Cursor.rawLine, Cursor.offset_advance, Cursor.offset_advance]

/-- At the end of the source the end of a directive line takes nothing. -/
theorem Sees.lineEnded (h : s.Sees o n (k + 1) c) (hend : c.AtEnd)
    (hline : c.mode.isDirective = true) : s.Sees o n (k + 1) c.lineEnded := by
  have hnext := hend.next_lineEnded hline
  refine ⟨h.options, h.nesting, h.stopped, h.size, h.previous, ?_, ?_, ?_⟩
  · rw [Cursor.ahead, hnext]
    exact h.lookahead
  · rw [Cursor.behind, hnext]
    exact h.cursor
  · rw [Cursor.pending, hnext]
    exact h.errors

end State

end ConfLang
