import Mathlib.Data.List.DropRight
import WasmText.Proofs.Reported
import WasmText.Proofs.Spacing

/-!
# A diagnostic shows the line it is about

A problem says twice where it is: by the line and the column that lexing counts as it goes, and by
the byte that the snippet is cut around. Both come from the text before the span
(`Span.StartsAfter`), so the snippet is always taken, it is part of the line that is named, and the
character at the column named is in it, if the line has one there (`Diagnostic.ShowsLine`).
-/

namespace WasmText

/-- The lines of a source, without the newlines between them. -/
def Source.lines (src : Source) : List (List Char) := src.chars.splitOn '\n'

/-! ## Spans and the text before them -/

/-- A span starts after the text `front`, which its line and column are counted from. -/
structure Span.StartsAfter (front : List Char) (s : Span) : Prop where
  start : s.start = Slice.byteSize front
  line : s.line = 1 + front.count '\n'
  column : s.column = 1 + (front.rtakeWhile (· != '\n')).length

/-- A span starts between two characters of a source, or at its end. -/
def Span.StartsIn (src : Source) (s : Span) : Prop :=
  ∃ front back, src.chars = front ++ back ∧ s.StartsAfter front

theorem Span.StartsIn.line_pos {src : Source} {s : Span} (h : s.StartsIn src) : 1 ≤ s.line := by
  obtain ⟨front, -, -, hfront⟩ := h
  rw [hfront.line]
  exact Nat.le_add_right ..

theorem Span.StartsIn.column_pos {src : Source} {s : Span} (h : s.StartsIn src) :
    1 ≤ s.column := by
  obtain ⟨front, -, -, hfront⟩ := h
  rw [hfront.column]
  exact Nat.le_add_right ..

namespace Source

/-- Every span that is reported starts between two characters of its source. -/
theorem grounds_startsIn (src : Source) : src.Grounds (Span.StartsIn src) where
  items i hi := by
    obtain ⟨front, body, h⟩ := standsAt_of_mem_tokens (List.mem_append_left _ hi)
    obtain ⟨back, hback⟩ := h.chars
    exact ⟨front, body ++ back, by rw [← hback, List.append_assoc], h.start, h.line, h.column⟩
  finish := by
    refine ⟨src.chars, [], (List.append_nil _).symm, ?_, ?_, Pos.column_after_start src.chars⟩
    · exact (Pos.start.offset_after src.chars).trans (Nat.zero_add _)
    · exact Pos.start.line_after src.chars
  join s t := by
    rintro ⟨front, back, hchars, h⟩
    exact ⟨front, back, hchars, h.start, h.line, h.column⟩

end Source

/-! ## The line of an offset -/

/-- The first line goes up to the first newline. -/
theorem getElem?_splitOn_newline_zero (cs : List Char) :
    (cs.splitOn '\n')[0]? = some (cs.takeWhile (· != '\n')) := by
  induction cs with
  | nil => rfl
  | cons c cs ih =>
    rw [List.splitOn_cons_eq_if_modifyHead]
    by_cases hc : c = '\n'
    · simp [hc]
    · simp [hc, ih]

/-- There is one line more than there are newlines. -/
theorem length_splitOn_newline (cs : List Char) :
    (cs.splitOn '\n').length = cs.count '\n' + 1 := by
  induction cs with
  | nil => rfl
  | cons c cs ih =>
    rw [List.splitOn_cons_eq_if_modifyHead]
    by_cases hc : c = '\n'
    · simp [hc, ih]
    · simp [hc, ih]

/-- The line of a point goes on from the text before it to the text after it. -/
theorem getElem?_splitOn_newline (front back : List Char) :
    ((front ++ back).splitOn '\n')[front.count '\n']? =
      some (front.rtakeWhile (· != '\n') ++ back.takeWhile (· != '\n')) := by
  induction front using List.reverseRecOn generalizing back with
  | nil => exact getElem?_splitOn_newline_zero back
  | append_singleton front c ih =>
    rw [List.append_assoc, List.singleton_append, List.rtakeWhile_concat]
    by_cases hc : c = '\n'
    · -- the newline ends the lines of `front`, and the first line of `back` comes next
      have hlength : (front ++ [c]).count '\n' = (front.splitOn '\n').length := by
        rw [length_splitOn_newline, List.count_append]
        simp [hc]
      rw [hlength, hc, List.splitOn_append_cons_self, List.getElem?_append_right le_rfl,
        Nat.sub_self, getElem?_splitOn_newline_zero]
      simp
    · have hcount : (front ++ [c]).count '\n' = front.count '\n' := by
        simp [List.count_append, hc]
      rw [hcount, ih]
      simp [hc]

namespace Source

/-- As many lines as there are newlines before a point come before its line. -/
theorem line_of_append {src : Source} {front back : List Char}
    (hchars : src.chars = front ++ back) :
    src.lines[front.count '\n']? =
      some (front.rtakeWhile (· != '\n') ++ back.takeWhile (· != '\n')) := by
  rw [lines, hchars, getElem?_splitOn_newline]

end Source

namespace Snippet

/-- The line around an offset is the one that the text before the offset leads to. -/
theorem lineAt?_of_append {src : Source} {front back : List Char}
    (hchars : src.chars = front ++ back) :
    lineAt? src (Slice.byteSize front) =
      some ((front.rtakeWhile (· != '\n') ++ back.takeWhile (· != '\n')).rdropWhile
        (· == '\r')) := by
  have hle : Slice.byteSize front ≤ src.size := by
    rw [Source.size, hchars, Slice.byteSize_append]
    exact Nat.le_add_right ..
  have hcut : Slice.cut? src.chars (Slice.byteSize front) = some (front.reverse, back) := by
    rw [hchars, Slice.cut?, Slice.walk?_byteSize, List.append_nil]
  rw [lineAt?, Nat.min_eq_left hle, hcut]
  rfl

/-- The line of a span is the one that its line number names. -/
theorem exists_line_of_startsIn {src : Source} {span : Span} (h : span.StartsIn src) :
    ∃ line, src.lines[span.line - 1]? = some line ∧
      lineAt? src span.start = some (line.rdropWhile (· == '\r')) := by
  obtain ⟨front, back, hchars, hfront⟩ := h
  refine ⟨front.rtakeWhile (· != '\n') ++ back.takeWhile (· != '\n'), ?_, ?_⟩
  · rw [hfront.line, Nat.add_sub_cancel_left]
    exact Source.line_of_append hchars
  · rw [hfront.start]
    exact lineAt?_of_append hchars

/-! ## Windows -/

/-- A window on a line: a part of it, all of it if it is no longer than `max`, with the character of
the column in it. -/
structure IsWindow (row : List Char) (column max : Nat) (s : Snippet) : Prop where
  part : ∃ front back, row = front ++ (s.text ++ back) ∧ front.length = s.cut
  length : s.text.length = min row.length max
  cut_le : s.cut ≤ column - 1
  shows : ∀ c, row[column - 1]? = some c → s.text[column - 1 - s.cut]? = some c

theorem isWindow_ofLine (line : List Char) (column : Nat) {max : Nat} (hmax : 1 ≤ max) :
    (ofLine line column max).IsWindow line column max := by
  unfold ofLine
  split
  · next hle =>
    exact ⟨⟨[], [], by simp, rfl⟩, (Nat.min_eq_left hle).symm, Nat.zero_le _, fun c hc => hc⟩
  · next hlt =>
    dsimp only
    have hfirst : min (column - 1 - max / 2) (line.length - max) + max ≤ line.length := by omega
    have hcut : min (column - 1 - max / 2) (line.length - max) ≤ column - 1 := by omega
    -- a column on the line is less than `max` after the first character of the window
    have hinside : column - 1 < line.length →
        column - 1 - min (column - 1 - max / 2) (line.length - max) < max := by omega
    generalize min (column - 1 - max / 2) (line.length - max) = first at hfirst hcut hinside
    refine ⟨⟨line.take first, (line.drop first).drop max, ?_, ?_⟩, ?_, hcut, fun c hc => ?_⟩
    · rw [List.take_append_drop, List.take_append_drop]
    · rw [List.length_take, Nat.min_eq_left (by omega)]
    · rw [List.length_take, List.length_drop]
      omega
    · obtain ⟨hlength, -⟩ := List.getElem?_eq_some_iff.mp hc
      rw [List.getElem?_take_of_lt (hinside hlength), List.getElem?_drop,
        Nat.add_sub_cancel' hcut, hc]

end Snippet

/-! ## Diagnostics -/

/-- A diagnostic shows its line, which ends before the carriage returns in front of the newline. -/
structure Diagnostic.ShowsLine (src : Source) (max : Nat) (d : Diagnostic) (line : List Char) :
    Prop where
  line_pos : 1 ≤ d.location.line
  first_pos : 1 ≤ d.location.first
  isLine : src.lines[d.location.line - 1]?.map (List.rdropWhile (· == '\r')) = some line
  window : d.snippet.IsWindow line d.location.first max

theorem Diagnostic.exists_ofProblem? {src : Source} {max : Nat} {p : Problem} (hmax : 1 ≤ max)
    (h : p.span.StartsIn src) :
    ∃ d line, ofProblem? src max p = some d ∧ d.ShowsLine src max line := by
  obtain ⟨line, hline, hat⟩ := Snippet.exists_line_of_startsIn h
  have hwindow := Snippet.isWindow_ofLine (line.rdropWhile (· == '\r')) p.span.column hmax
  refine ⟨⟨p.kind, Location.ofSpan src p.span, p.message, _⟩, _, ?_,
    h.line_pos, h.column_pos, congrArg (Option.map _) hline, hwindow⟩
  rw [ofProblem?, Snippet.at?, hat]
  rfl

/-- Problems that start in a source are shown, each with its line. -/
theorem Diagnostic.exists_ofProblems? {src : Source} {max : Nat} {ps : List Problem}
    (hmax : 1 ≤ max) (h : ∀ p ∈ ps, p.span.StartsIn src) :
    ∃ ds, ofProblems? src max ps = some ds ∧ ∀ d ∈ ds, ∃ line, d.ShowsLine src max line := by
  induction ps with
  | nil => exact ⟨[], rfl, by simp⟩
  | cons p ps ih =>
    rw [List.forall_mem_cons] at h
    obtain ⟨d, line, hd, hline⟩ := exists_ofProblem? hmax h.1
    obtain ⟨ds, hds, hlines⟩ := ih h.2
    refine ⟨d :: ds, ?_, List.forall_mem_cons.mpr ⟨⟨line, hline⟩, hlines⟩⟩
    rw [ofProblems?] at hds
    rw [ofProblems?, List.mapM_cons, hd, hds]
    rfl

/-- Whatever is reported of a source, as a module or as a script and also where the script is
abandoned, is shown with the line that it is about: the snippet is a part of that line, as long as
it can be, and has in it the character that the diagnostic points at. -/
theorem diagnostics_show_line (src : Source) {max : Nat} (hmax : 1 ≤ max) :
    (∃ ds, (Module.parse src).diagnostics? max = some ds ∧
      ∀ d ∈ ds, ∃ line, d.ShowsLine src max line) ∧
    (∃ ds, (Script.parse src).diagnostics? max = some ds ∧
      ∀ d ∈ ds, ∃ line, d.ShowsLine src max line) ∧
    ∃ ds, Diagnostic.ofProblems? src max (Script.found src) = some ds ∧
      ∀ d ∈ ds, ∃ line, d.ShowsLine src max line := by
  have hfound := Script.found_stand src.grounds_startsIn
  refine ⟨?_, ?_, Diagnostic.exists_ofProblems? hmax hfound⟩
  · rw [Parsed.diagnostics?, Module.parse_source]
    exact Diagnostic.exists_ofProblems? hmax (Module.problems_stand src.grounds_startsIn)
  · rw [Parsed.diagnostics?, Script.parse_source]
    exact Diagnostic.exists_ofProblems? hmax fun p hp =>
      hfound p (Script.problems_eq_found src ▸ hp)

/-- On a line after the first with a character of two bytes, the window is in the middle, with the
branch in it, and the carriage returns at the end are no part of the line. -/
theorem diagnostics_show_line_window :
    let src : Source := ⟨"t", "\n(func (;é;) nop nop nop br 9 nop nop)\r\r\n"⟩
    let d : Diagnostic := ⟨.resolution, ⟨"t", 2, 28, 29⟩, "label variable out of range (max 1)",
      ⟨" br 9 nop".toList, 23⟩⟩
    1 ≤ 9 ∧ (Module.parse src).diagnostics? 9 = some [d] ∧ ∃ line, d.ShowsLine src 9 line := by
  intro src d
  have hmax : 1 ≤ 9 := by decide
  have htold : (Module.parse src).diagnostics? 9 = some [d] := by decide +kernel
  obtain ⟨⟨ds, hds, hshown⟩, -, -⟩ := diagnostics_show_line src hmax
  obtain rfl : [d] = ds := Option.some.inj (htold.symm.trans hds)
  exact ⟨hmax, htold, hshown d List.mem_cons_self⟩

end WasmText
