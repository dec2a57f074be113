import WasmText.Problem
import WasmText.Source

/-!
# Diagnostics

A diagnostic shows a problem in its source: the file, the line, the columns it covers there, and the
line itself. A line longer than the reporter wants is cut down to a window around the first column,
moved as little as needed to stay inside the line.

No snippet can be taken at a byte inside a character; there is no diagnostic then.
-/

namespace WasmText

/-- Where in a file a span starts, and the columns it covers on its first line. -/
structure Location where
  file : String
  line : Nat
  first : Nat
  last : Nat
deriving DecidableEq, Repr

namespace Location

/-- The columns a text covers: its characters, but one if it runs over a line end or is empty. -/
def width (text : List Char) : Nat := if text.contains '\n' then 1 else max text.length 1

/-- The location of a span. A span that is no part of the source covers one column. -/
def ofSpan (src : Source) (span : Span) : Location :=
  ⟨src.file, span.line, span.column, span.column + width ((src.slice? span).getD [])⟩

/-- `file:line:column`. -/
def text (l : Location) : String :=
  l.file ++ ":" ++ toString l.line ++ ":" ++ toString l.first

end Location

/-! ## Snippets -/

/-- Part of a line, and how many characters of the line are missing in front of it. -/
structure Snippet where
  text : List Char
  cut : Nat
deriving DecidableEq, Repr

namespace Snippet

/-- The line without the carriage returns at its end. -/
def trimReturns (line : List Char) : List Char := (line.reverse.dropWhile (· == '\r')).reverse

/-- The line around the byte `offset`, or around the end if the offset is past it. -/
def lineAt? (src : Source) (offset : Nat) : Option (List Char) := do
  let (before, rest) ← Slice.cut? src.chars (min offset src.size)
  return trimReturns ((before.takeWhile (· != '\n')).reverse ++ rest.takeWhile (· != '\n'))

/-- The window of `max` characters of a line around a column, the whole line if it is no longer. -/
def ofLine (line : List Char) (column max : Nat) : Snippet :=
  if line.length ≤ max then ⟨line, 0⟩
  else
    let first := min (column - 1 - max / 2) (line.length - max)
    ⟨(line.drop first).take max, first⟩

/-- The part of the line of a byte to show for a column. -/
def at? (src : Source) (offset column max : Nat) : Option Snippet :=
  (lineAt? src offset).map (ofLine · column max)

end Snippet

/-! ## Diagnostics -/

/-- A problem as it is shown. -/
structure Diagnostic where
  kind : ProblemKind
  location : Location
  message : String
  snippet : Snippet
deriving DecidableEq, Repr

namespace Diagnostic

/-- The greatest length of a snippet unless a reporter asks for another. -/
def defaultWidth : Nat := 80

/-- The diagnostic of a problem, with a snippet of at most `max` characters. -/
def ofProblem? (src : Source) (max : Nat) (p : Problem) : Option Diagnostic := do
  let location := Location.ofSpan src p.span
  let snippet ← Snippet.at? src p.span.start location.first max
  return ⟨p.kind, location, p.message, snippet⟩

/-- The diagnostics of problems, in order. -/
def ofProblems? (src : Source) (max : Nat) (ps : List Problem) : Option (List Diagnostic) :=
  ps.mapM (ofProblem? src max)

/-- `file:line:column: error: message`. -/
def text (d : Diagnostic) : String := d.location.text ++ ": error: " ++ d.message

end Diagnostic

end WasmText
