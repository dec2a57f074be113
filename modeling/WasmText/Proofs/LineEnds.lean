import WasmText.Proofs.Located

/-!
# Lexing starts afresh on each line

A newline ends every lexeme and every fault of one, and nothing is carried over it. The items of a
text, a newline and a second text are those of the two texts, the second moved by what stands
before it, unless a block comment is still open at the newline (`Source.tokens_newline`).
-/

namespace WasmText

/-! ## Moving items -/

/-- The span some bytes and lines further on. -/
def Span.shift (bytes lines : Nat) (s : Span) : Span :=
  { s with start := s.start + bytes, stop := s.stop + bytes, line := s.line + lines }

/-- A problem some bytes and lines further on. -/
def Problem.shift (bytes lines : Nat) (p : Problem) : Problem :=
  { p with span := p.span.shift bytes lines }

/-- A token some bytes and lines further on. -/
def Token.shift (bytes lines : Nat) (t : Token) : Token :=
  { t with
    source := { t.source with offset := t.source.offset + bytes }
    span := t.span.shift bytes lines }

/-- The item some bytes and lines further on: its columns, kind, text and cause stay. -/
def Item.shift (bytes lines : Nat) : Item → Item
  | .error p => .error (p.shift bytes lines)
  | .ok t => .ok (t.shift bytes lines)

namespace Pos

/-- A position some bytes and lines further on. -/
def shift (bytes lines : Nat) (p : Pos) : Pos :=
  { p with offset := p.offset + bytes, line := p.line + lines }

variable (bytes lines : Nat)

theorem next_shift (p : Pos) (c : Char) :
    (p.shift bytes lines).next c = (p.next c).shift bytes lines := by
  unfold next shift
  split <;> simp only [mk.injEq, and_true] <;> omega

theorem after_shift (p : Pos) (cs : List Char) :
    (p.shift bytes lines).after cs = (p.after cs).shift bytes lines := by
  induction cs generalizing p with
  | nil => rfl
  | cons c cs ih => rw [after_cons, after_cons, next_shift, ih]

theorem spanTo_shift (p q : Pos) :
    (p.shift bytes lines).spanTo (q.shift bytes lines) = (p.spanTo q).shift bytes lines := rfl

end Pos

namespace Item

/-- A lexeme further on is the lexeme, shifted. -/
theorem ofLexeme_shift (bytes lines : Nat) (p : Pos) (taken : List Char)
    (result : Except Refusal TokenKind) :
    ofLexeme (p.shift bytes lines) taken result =
      (ofLexeme p taken result).map (shift bytes lines) := by
  unfold ofLexeme
  simp only [Pos.after_shift, Pos.spanTo_shift]
  split <;> rfl

/-- Where a text starts only moves its items. -/
theorem ofChars_shift (bytes lines : Nat) (p : Pos) (cs : List Char) :
    ofChars (p.shift bytes lines) cs = (ofChars p cs).map (shift bytes lines) := by
  induction p, cs using ofChars_induction with
  | nil p =>
    rw [ofChars, ofChars]
    rfl
  | blank p c cs hc ih => rw [ofChars_blank _ hc, ofChars_blank _ hc, Pos.next_shift, ih]
  | comment p c cs n hc hgap ih =>
    rw [ofChars_comment _ hgap, ofChars_comment _ hgap, Pos.after_shift, ih]
  | unterminated p c cs hgap =>
    rw [ofChars_unterminated _ hgap, ofChars_unterminated _ hgap, Pos.after_shift]
    rfl
  | lexeme p c cs hc hgap ih =>
    rw [ofChars_lexeme _ hgap, ofChars_lexeme _ hgap, Pos.after_shift, ih, ofLexeme_shift,
      List.map_append]

/-! ## The seam -/

/-- Whether some items report a block comment that does not end. -/
def leavesCommentOpen (items : List Item) : Bool :=
  items.any fun i => match i with
    | .error p => p.cause == .lexical .unterminatedComment
    | .ok _ => false

/-- A comment is left open in one of two lists. -/
theorem leavesCommentOpen_append (is js : List Item) :
    leavesCommentOpen (is ++ js) = (leavesCommentOpen is || leavesCommentOpen js) :=
  List.any_append

/-- A text up to a newline and the text after it are lexed apart. -/
theorem ofChars_append_newline (p : Pos) (cs ds : List Char)
    (h : leavesCommentOpen (ofChars p cs) = false) :
    ofChars p (cs ++ '\n' :: ds) = ofChars p cs ++ ofChars ((p.after cs).next '\n') ds := by
  -- no gap and no lexeme goes past the newline, so both texts start with the same piece
  induction p, cs using ofChars_induction with
  | nil p =>
    rw [List.nil_append, ofChars_blank p (by decide), ofChars]
    rfl
  | blank p c cs hc ih =>
    rw [ofChars_blank p hc] at h ⊢
    rw [List.cons_append, ofChars_blank p hc]
    exact ih h
  | comment p c cs n hc hgap ih =>
    have hgap' : Lexeme.gap (c :: (cs ++ '\n' :: ds)) = .skip n := by
      rw [Lexeme.gap_append_newline hc (by rw [hgap]; simp), hgap]
    have hn : n - 1 ≤ cs.length := by
      have := Lexeme.gap_skip_bounds hgap
      omega
    rw [ofChars_comment p hgap] at h ⊢
    rw [List.cons_append, ofChars_comment p hgap', List.take_append_of_le_length hn,
      List.drop_append_of_le_length hn, ih h, ← Pos.after_append]
    simp
  | unterminated p c cs hgap =>
    rw [ofChars_unterminated p hgap] at h
    cases h
  | lexeme p c cs hc hgap ih =>
    have hgap' : Lexeme.gap (c :: (cs ++ '\n' :: ds)) = .done := by
      rw [Lexeme.gap_append_newline hc (by rw [hgap]; simp), hgap]
    have hn : (Lexeme.read c cs).size - 1 ≤ cs.length := by
      have := Lexeme.size_read_le c cs
      omega
    rw [ofChars_lexeme p hgap] at h ⊢
    rw [leavesCommentOpen_append, Bool.or_eq_false_iff] at h
    rw [List.cons_append, ofChars_lexeme p hgap', Lexeme.read_append_newline,
      List.take_append_of_le_length hn, List.drop_append_of_le_length hn, ih h.2,
      ← Pos.after_append]
    simp

end Item

namespace Source

/-- Lexing starts afresh after each newline that no open block comment reaches: the items of a text,
a newline and another text are those of the first but its end, and then those of the second, moved
by the bytes and lines before it. -/
theorem tokens_newline (src : Source) (next : String)
    (h : Item.leavesCommentOpen src.tokens = false) :
    ({ src with text := src.text ++ "\n" ++ next } : Source).tokens =
      src.tokens.dropLast ++ ({ src with text := next } : Source).tokens.map
        (Item.shift (src.size + 1) (src.chars.count '\n' + 1)) := by
  have hitems : Item.leavesCommentOpen (Item.ofChars .start src.chars) = false := by
    rw [tokens, Item.leavesCommentOpen_append, Bool.or_eq_false_iff] at h
    exact h.1
  have hchars : ({ src with text := src.text ++ "\n" ++ next } : Source).chars =
      src.chars ++ '\n' :: next.toList := by
    simp [chars]
  -- behind the newline stands the start of the second text, moved
  have hstart : (Pos.start.after src.chars).next '\n' =
      Pos.start.shift (src.size + 1) (src.chars.count '\n' + 1) := by
    have hoffset := Pos.start.offset_after src.chars
    have hline := Pos.start.line_after src.chars
    rw [Pos.next, if_pos rfl, hoffset, hline, Pos.shift, Pos.mk.injEq]
    refine ⟨?_, ?_, rfl⟩
    · exact Nat.add_assoc ..
    · exact Nat.add_assoc ..
  have hmoved : ({ src with text := src.text ++ "\n" ++ next } : Source).items =
      src.items ++ ({ src with text := next } : Source).items.map
        (Item.shift (src.size + 1) (src.chars.count '\n' + 1)) := by
    rw [items, hchars, Item.ofChars_append_newline _ _ _ hitems, hstart, Item.ofChars_shift]
    rfl
  have hfinish : ({ src with text := src.text ++ "\n" ++ next } : Source).finish =
      ({ src with text := next } : Source).finish.shift (src.size + 1)
        (src.chars.count '\n' + 1) := by
    rw [finish, hchars, Pos.after_append, Pos.after_cons, hstart, Pos.after_shift]
    rfl
  rw [tokens, hmoved, hfinish, tokens, List.dropLast_concat, tokens, List.map_append,
    List.append_assoc]
  rfl

/-- A string that is not closed, after a bad escape, leaves the next line alone. -/
theorem tokens_newline_brokenString :
    Item.leavesCommentOpen (⟨"t", "(nop ] \"\\q"⟩ : Source).tokens = false ∧
      (⟨"t", "(nop ] \"\\q" ++ "\n" ++ "1x)"⟩ : Source).tokens =
        (⟨"t", "(nop ] \"\\q"⟩ : Source).tokens.dropLast ++
          (⟨"t", "1x)"⟩ : Source).tokens.map (Item.shift 11 1) := by
  have hclosed : Item.leavesCommentOpen (⟨"t", "(nop ] \"\\q"⟩ : Source).tokens = false := by
    decide +kernel
  exact ⟨hclosed, tokens_newline ⟨"t", "(nop ] \"\\q"⟩ "1x)" hclosed⟩

end Source

end WasmText
