import WasmText.Source.Slice
import WasmText.Source.Span

/-!
# Sources

A named text, which spans point into.
-/

namespace WasmText

/-- A text and the name of its file. -/
structure Source where
  file : String
  text : String
deriving DecidableEq, Repr

namespace Source

def chars (src : Source) : List Char := src.text.toList

/-- The number of bytes of the text. -/
def size (src : Source) : Nat := Slice.byteSize src.chars

/-- The point after the last character. -/
def finish (src : Source) : Pos := Pos.start.after src.chars

/-- The text of a span; `none` if it does not lie in the source or cuts a character. -/
def slice? (src : Source) (span : Span) : Option (List Char) :=
  Slice.between? src.chars span.start span.stop

end Source

end WasmText
