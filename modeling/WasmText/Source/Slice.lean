/-!
# Cutting a text at byte offsets

Offsets count the bytes of the text's UTF-8 form. A cut is possible only between characters: an
offset inside a character, or past the end, has none.
-/

namespace WasmText.Slice

/-- The number of bytes of a text. -/
def byteSize (cs : List Char) : Nat := cs.foldl (fun n c => n + c.utf8Size) 0

/-- Walks `n` bytes on from a cut, given the characters before it, nearest first. -/
def walk? (before : List Char) : Nat → List Char → Option (List Char × List Char)
  | 0, cs => some (before, cs)
  | _ + 1, [] => none
  | n + 1, c :: cs =>
    if c.utf8Size ≤ n + 1 then walk? (c :: before) (n + 1 - c.utf8Size) cs else none

/-- The text cut at byte `n`: what stands before it, nearest character first, and what follows. -/
def cut? (cs : List Char) (n : Nat) : Option (List Char × List Char) := walk? [] n cs

/-- The text from byte `start` up to byte `stop`. -/
def between? (cs : List Char) (start stop : Nat) : Option (List Char) :=
  if start ≤ stop then do
    let (_, rest) ← cut? cs start
    let (before, _) ← cut? rest (stop - start)
    return before.reverse
  else none

theorem foldl_utf8Size (cs : List Char) (n : Nat) :
    cs.foldl (fun n c => n + c.utf8Size) n = n + byteSize cs := by
  induction cs generalizing n with
  | nil => rfl
  | cons c cs ih => rw [byteSize, List.foldl_cons, List.foldl_cons, ih, ih (0 + _)]; omega

@[simp] theorem byteSize_nil : byteSize [] = 0 := rfl

@[simp] theorem byteSize_cons (c : Char) (cs : List Char) :
    byteSize (c :: cs) = c.utf8Size + byteSize cs := by
  rw [byteSize, List.foldl_cons, foldl_utf8Size, Nat.zero_add]

@[simp] theorem byteSize_append (cs ds : List Char) :
    byteSize (cs ++ ds) = byteSize cs + byteSize ds := by
  induction cs with
  | nil => simp
  | cons c cs ih => simp [ih, Nat.add_assoc]

/-- Every character takes a byte at least. -/
theorem length_le_byteSize (cs : List Char) : cs.length ≤ byteSize cs := by
  induction cs with
  | nil => exact Nat.le_refl _
  | cons c cs ih =>
    have := c.utf8Size_pos
    simp only [List.length_cons, byteSize_cons]
    omega

/-- A cut loses no character and moves none. -/
theorem walk?_append {before : List Char} {n : Nat} {cs b r : List Char}
    (h : walk? before n cs = some (b, r)) : b.reverse ++ r = before.reverse ++ cs := by
  fun_induction walk? before n cs with
  | case1 => simp_all
  | case2 => simp at h
  | case3 before n c cs hc ih => simpa using ih h
  | case4 => simp at h

/-- Walking over a whole text reaches its end. -/
theorem walk?_byteSize (before cs rest : List Char) :
    walk? before (byteSize cs) (cs ++ rest) = some (cs.reverse ++ before, rest) := by
  induction cs generalizing before with
  | nil => simp [walk?]
  | cons c cs ih =>
    have hpos := c.utf8Size_pos
    obtain ⟨n, hn⟩ : ∃ n, c.utf8Size + byteSize cs = n + 1 :=
      ⟨c.utf8Size + byteSize cs - 1, by omega⟩
    rw [byteSize_cons, hn, List.cons_append, walk?, if_pos (by omega)]
    rw [show n + 1 - c.utf8Size = byteSize cs by omega, ih]
    simp

end WasmText.Slice
