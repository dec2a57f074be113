/-!
# Points and spans of a source

A point counts the bytes before it and carries its line and column, both from one; columns count
characters, and a newline starts the next line. A span is the text between two points, shown by
where it starts.

Lines and columns are counted here without a bound. Neither is more than one past the number of
bytes of the source (`Span.StartsIn.le_size`), so counters of 32 bits count the same in any source
of less than 4 GiB.

`Pos.after_append` says that passing over two stretches of text is passing over them in turn, so a
point never depends on how the text before it was cut into lexemes.
-/

namespace WasmText

/-- A stretch of the source: its first byte, the byte past its last, and where it starts. -/
structure Span where
  start : Nat
  stop : Nat
  line : Nat
  column : Nat
deriving DecidableEq, Repr, Inhabited

namespace Span

/-- The empty span at the start of a source. -/
def origin : Span := ⟨0, 0, 1, 1⟩

/-- The number of bytes covered. -/
def size (s : Span) : Nat := s.stop - s.start

/-- Whether no byte is covered. -/
def isEmpty (s : Span) : Bool := s.start == s.stop

/-- From where `s` starts to where `t` stops. -/
def join (s t : Span) : Span := { s with stop := t.stop }

/-- `line:column`. -/
def text (s : Span) : String := toString s.line ++ ":" ++ toString s.column

end Span

/-- A point of the source. -/
structure Pos where
  offset : Nat
  line : Nat
  column : Nat
deriving DecidableEq, Repr, Inhabited

namespace Pos

/-- The point before the first character. -/
def start : Pos := ⟨0, 1, 1⟩

/-- The point just past the character `c`. -/
def next (p : Pos) (c : Char) : Pos :=
  if c = '\n' then ⟨p.offset + c.utf8Size, p.line + 1, 1⟩
  else ⟨p.offset + c.utf8Size, p.line, p.column + 1⟩

/-- The point just past the text `cs`. -/
def after (p : Pos) (cs : List Char) : Pos := cs.foldl next p

/-- The span between two points. -/
def spanTo (p q : Pos) : Span := ⟨p.offset, q.offset, p.line, p.column⟩

/-- The empty span at a point. -/
def point (p : Pos) : Span := p.spanTo p

@[simp] theorem after_nil (p : Pos) : p.after [] = p := rfl

@[simp] theorem after_cons (p : Pos) (c : Char) (cs : List Char) :
    p.after (c :: cs) = (p.next c).after cs := rfl

theorem after_append (p : Pos) (cs ds : List Char) :
    p.after (cs ++ ds) = (p.after cs).after ds := List.foldl_append

end Pos

end WasmText
