import Mathlib.Data.List.DropRight
import WasmText.Proofs.Extent
import WasmText.Proofs.Places

/-!
# Where items are cut from the source

Lexing carries a point along and never looks back, so a place is right only if every lexeme, every
gap and every fault moves the point by what it takes. Here the point is tied to the text: it counts
the bytes, the newlines and the characters of the last line before it, and the span of an item
covers a stretch of whole characters, which is the text of a token. Items start in order, and a
token ends before the next one starts.
-/

namespace WasmText

/-! ## Points and the text before them -/

namespace Pos

/-- A character is as many bytes further on as it is encoded in. -/
theorem offset_next (p : Pos) (c : Char) : (p.next c).offset = p.offset + c.utf8Size := by
  unfold next
  split <;> rfl

/-- A line ends behind its newline. -/
theorem line_next (p : Pos) (c : Char) :
    (p.next c).line = p.line + if c = '\n' then 1 else 0 := by
  unfold next
  split <;> rfl

/-- Characters are as many bytes further on as they are encoded in. -/
theorem offset_after (p : Pos) (cs : List Char) :
    (p.after cs).offset = p.offset + Slice.byteSize cs := by
  induction cs generalizing p with
  | nil => rfl
  | cons c cs ih =>
    have htail := ih (p.next c)
    have hhead := p.offset_next c
    rw [after_cons, Slice.byteSize_cons]
    omega

/-- A newline starts the next line. -/
theorem line_after (p : Pos) (cs : List Char) :
    (p.after cs).line = p.line + cs.count '\n' := by
  induction cs generalizing p with
  | nil => rfl
  | cons c cs ih =>
    have htail := ih (p.next c)
    have hhead := p.line_next c
    have hcount : (c :: cs).count '\n' = cs.count '\n' + if c = '\n' then 1 else 0 := by
      simp [List.count_cons]
    rw [after_cons]
    omega

/-- Columns count the characters since the last newline. -/
theorem column_after_start (cs : List Char) :
    (start.after cs).column = 1 + (cs.rtakeWhile (· != '\n')).length := by
  induction cs using List.reverseRecOn with
  | nil => rfl
  | append_singleton cs c ih =>
    rw [after_append, after_cons, after_nil, List.rtakeWhile_concat]
    unfold next
    by_cases hc : c = '\n'
    · simp [hc]
    · simp [hc, ih]
      omega

end Pos

/-! ## Stretches of a text -/

namespace Item

/-- An item is cut from the text that starts at the point `p`: its span covers whole characters of
it, and these are what a token is made of. -/
def CutFrom (p : Pos) (cs : List Char) (i : Item) : Prop :=
  ∃ front body back, cs = front ++ (body ++ back) ∧
    i.span = (p.after front).spanTo (p.after (front ++ body)) ∧
    ∀ t, i = .ok t → t.source = ⟨String.ofList body, (p.after front).offset⟩

variable {p : Pos} {cs : List Char} {i : Item}

/-- What is cut from the text after a front is cut from the whole text. -/
theorem CutFrom.prepend (before : List Char) (h : CutFrom (p.after before) cs i) :
    CutFrom p (before ++ cs) i := by
  obtain ⟨front, body, back, rfl, hspan, htoken⟩ := h
  refine ⟨before ++ front, body, back, by simp, ?_, ?_⟩
  · rw [hspan, ← Pos.after_append, ← Pos.after_append, List.append_assoc]
  · rw [Pos.after_append]
    exact htoken

/-- What is cut from a text is cut from it however it goes on. -/
theorem CutFrom.append (h : CutFrom p cs i) (after : List Char) : CutFrom p (cs ++ after) i := by
  obtain ⟨front, body, back, rfl, hspan, htoken⟩ := h
  exact ⟨front, body, back ++ after, by simp, hspan, htoken⟩

/-- What is made of a lexeme is cut from its characters. -/
theorem cutFrom_ofLexeme {taken : List Char} {result : Except Refusal TokenKind}
    (hresult : ∀ refusal, result = .error refusal → refusal.first ≤ refusal.last)
    (hi : i ∈ ofLexeme p taken result) : CutFrom p taken i := by
  have hwhole (i : Item) (hspan : i.span = p.spanTo (p.after taken))
      (htoken : ∀ t, i = .ok t → t.source = ⟨String.ofList taken, p.offset⟩) :
      CutFrom p taken i :=
    ⟨[], taken, [], by simp, hspan, htoken⟩
  unfold ofLexeme at hi
  dsimp only at hi
  split at hi
  · obtain rfl | hi := List.mem_cons.mp hi
    · exact hwhole _ rfl (by rintro t ⟨⟩)
    · rw [List.mem_singleton.mp hi]
      exact hwhole _ rfl (by rintro t ⟨⟩; rfl)
  · rw [List.mem_singleton.mp hi]
    exact hwhole _ rfl (by rintro t ⟨⟩; rfl)
  · next refusal =>
    have hle := hresult refusal rfl
    rw [List.mem_singleton.mp hi]
    -- the fault is at the characters `first` to `last` of the lexeme
    have htake : (taken.take refusal.last).take refusal.first = taken.take refusal.first := by
      rw [List.take_take, Nat.min_eq_left hle]
    refine ⟨taken.take refusal.first, (taken.take refusal.last).drop refusal.first,
      taken.drop refusal.last, ?_, ?_, by rintro t ⟨⟩⟩
    · rw [← List.append_assoc, ← htake, List.take_append_drop, List.take_append_drop]
    · rw [← htake, List.take_append_drop]
      rfl

/-- Every item is cut from the text that it is lexed from. -/
theorem cutFrom_ofChars (p : Pos) (cs : List Char) : ∀ i ∈ ofChars p cs, CutFrom p cs i := by
  induction p, cs using ofChars_induction with
  | nil p =>
    rw [ofChars]
    intro i hi
    cases hi
  | blank p c cs hc ih =>
    rw [ofChars_blank p hc]
    intro i hi
    exact (ih i hi).prepend [c]
  | comment p c cs n hc hgap ih =>
    rw [ofChars_comment p hgap]
    intro i hi
    have hcut := (ih i hi).prepend
    rwa [List.cons_append, List.take_append_drop] at hcut
  | unterminated p c cs hgap =>
    rw [ofChars_unterminated p hgap]
    intro i hi
    rw [List.mem_singleton.mp hi]
    exact ⟨[], c :: cs, [], by simp, rfl, by rintro t ⟨⟩⟩
  | lexeme p c cs hc hgap ih =>
    rw [ofChars_lexeme p hgap]
    intro i hi
    obtain hi | hi := List.mem_append.mp hi
    · have hcut := (cutFrom_ofLexeme (fun _ => Lexeme.first_le_last_of_read) hi).append
        (cs.drop ((Lexeme.read c cs).size - 1))
      rwa [List.cons_append, List.take_append_drop] at hcut
    · have hcut := (ih i hi).prepend
      rwa [List.cons_append, List.take_append_drop] at hcut

/-- What is cut from a source stands in it. -/
theorem CutFrom.bounds (h : CutFrom p cs i) :
    p.offset ≤ i.span.start ∧ i.span.start ≤ i.span.stop ∧
      i.span.stop ≤ (p.after cs).offset := by
  obtain ⟨front, body, back, rfl, hspan, -⟩ := h
  have hfront := p.offset_after front
  have hbody := p.offset_after (front ++ body)
  have hwhole := p.offset_after (front ++ (body ++ back))
  simp only [Slice.byteSize_append] at hfront hbody hwhole
  simp only [hspan, Pos.spanTo]
  omega

/-! ## One after the other -/

/-- An item starts where another does or later and, if both are tokens, where that one ends or
later. -/
def Follows (i j : Item) : Prop :=
  i.span.start ≤ j.span.start ∧ ∀ t u, i = .ok t → j = .ok u → t.span.stop ≤ u.span.start

/-- What is made of a lexeme follows one another. -/
theorem pairwise_ofLexeme (p : Pos) (taken : List Char) (result : Except Refusal TokenKind) :
    (ofLexeme p taken result).Pairwise Follows := by
  unfold ofLexeme
  dsimp only
  split
  · -- the problem and the reserved token start together
    refine .cons ?_ (List.pairwise_singleton _ _)
    intro j hj
    rw [List.mem_singleton.mp hj]
    exact ⟨le_rfl, by rintro t u ⟨⟩⟩
  · exact List.pairwise_singleton _ _
  · exact List.pairwise_singleton _ _

/-- The items of a source follow one another. -/
theorem pairwise_ofChars (p : Pos) (cs : List Char) : (ofChars p cs).Pairwise Follows := by
  induction p, cs using ofChars_induction with
  | nil p =>
    rw [ofChars]
    exact .nil
  | blank p c cs hc ih =>
    rw [ofChars_blank p hc]
    exact ih
  | comment p c cs n hc hgap ih =>
    rw [ofChars_comment p hgap]
    exact ih
  | unterminated p c cs hgap =>
    rw [ofChars_unterminated p hgap]
    exact List.pairwise_singleton _ _
  | lexeme p c cs hc hgap ih =>
    rw [ofChars_lexeme p hgap]
    refine List.pairwise_append.mpr ⟨pairwise_ofLexeme _ _ _, ih, fun i hi j hj => ?_⟩
    have hbefore := (cutFrom_ofLexeme (fun _ => Lexeme.first_le_last_of_read) hi).bounds
    have hafter := (cutFrom_ofChars _ _ j hj).bounds
    refine ⟨by omega, ?_⟩
    rintro t u rfl rfl
    exact hbefore.2.2.trans hafter.1

end Item

/-! ## Sources -/

namespace Source

variable {src : Source} {i : Item}

/-- Every token is cut from its source. -/
theorem cutFrom_of_mem_tokens (hi : i ∈ src.tokens) : i.CutFrom .start src.chars := by
  obtain hi | hi := List.mem_append.mp hi
  · exact Item.cutFrom_ofChars _ _ i hi
  · rw [List.mem_singleton.mp hi]
    refine ⟨src.chars, [], [], by simp, ?_, ?_⟩
    · rw [List.append_nil]
      rfl
    · rintro t ⟨⟩
      rfl

theorem pairwise_tokens (src : Source) : src.tokens.Pairwise Item.Follows := by
  refine List.pairwise_append.mpr
    ⟨Item.pairwise_ofChars _ _, List.pairwise_singleton _ _, fun i hi j hj => ?_⟩
  have hbounds := (Item.cutFrom_ofChars _ _ i hi).bounds
  rw [List.mem_singleton.mp hj]
  refine ⟨hbounds.2.1.trans hbounds.2.2, ?_⟩
  rintro t u rfl ⟨⟩
  exact hbounds.2.2

/-- The text of a span is found again at its offsets. -/
theorem slice?_of_append {front body back : List Char} {span : Span}
    (hchars : src.chars = front ++ (body ++ back)) (hstart : span.start = Slice.byteSize front)
    (hstop : span.stop = Slice.byteSize (front ++ body)) : src.slice? span = some body := by
  have hle : span.start ≤ span.stop := by
    rw [hstart, hstop, Slice.byteSize_append]
    exact Nat.le_add_right ..
  have hsize : span.stop - span.start = Slice.byteSize body := by
    rw [hstart, hstop, Slice.byteSize_append]
    omega
  rw [slice?, Slice.between?, if_pos hle, hsize, hstart, hchars]
  simp [Slice.cut?, Slice.walk?_byteSize]

end Source

end WasmText
