import Mathlib.Data.Prod.Lex
import WasmText.Token.Stream

/-!
# Items stand in the order of the source

Places are ordered by line and then by column. Lexing goes through the source once and each item is
placed in the lexeme that it is made from, so the items come in this order; the two items of an
unknown word stand at the same place, and a fault in a string at a place inside the string.
-/

namespace WasmText

/-- A line and a column, the line first. -/
abbrev Place := Nat ×ₗ Nat

/-- Where a span starts. -/
def Span.place (s : Span) : Place := toLex (s.line, s.column)

/-- The line and the first column under which a problem is shown. -/
def Problem.place (p : Problem) : Place := p.span.place

namespace Pos

def place (p : Pos) : Place := toLex (p.line, p.column)

/-- A character is passed forwards. -/
theorem place_le_next (p : Pos) (c : Char) : p.place ≤ (p.next c).place := by
  unfold place next
  split
  · exact Prod.Lex.toLex_le_toLex.mpr (.inl (Nat.lt_succ_self p.line))
  · exact Prod.Lex.toLex_le_toLex.mpr (.inr ⟨rfl, Nat.le_succ p.column⟩)

/-- Characters are passed forwards. -/
theorem place_le_after (p : Pos) (cs : List Char) : p.place ≤ (p.after cs).place := by
  induction cs generalizing p with
  | nil => exact le_rfl
  | cons c cs ih => exact (place_le_next p c).trans (ih (p.next c))

theorem place_after_take_le (p : Pos) (n : Nat) (cs : List Char) :
    (p.after (cs.take n)).place ≤ (p.after cs).place := by
  have hle := (p.after (cs.take n)).place_le_after (cs.drop n)
  rwa [← after_append, List.take_append_drop] at hle

/-- A text is passed over by passing over its front and then over what is left. -/
theorem after_take_drop (p : Pos) (c : Char) (n : Nat) (cs : List Char) :
    (p.after (c :: cs.take n)).after (cs.drop n) = p.after (c :: cs) := by
  rw [← after_append, List.cons_append, List.take_append_drop]

end Pos

namespace Item

def span : Item → Span
  | .error p => p.span
  | .ok t => t.span

def place (i : Item) : Place := i.span.place

/-- Some items come in order, and all of them at `p`, at `q` or between. -/
structure Between (p q : Place) (items : List Item) : Prop where
  sorted : items.Pairwise fun i j => i.place ≤ j.place
  ge : ∀ i ∈ items, p ≤ i.place
  le : ∀ i ∈ items, i.place ≤ q

namespace Between

variable {p q r : Place} {is js : List Item} {i : Item}

theorem nil (p q : Place) : Between p q [] := ⟨.nil, by simp, by simp⟩

theorem singleton (hp : p ≤ i.place) (hq : i.place ≤ q) : Between p q [i] :=
  ⟨List.pairwise_singleton _ i, List.forall_mem_singleton.mpr hp, List.forall_mem_singleton.mpr hq⟩

/-- Items between places one after the other are between the first and the last. -/
theorem append (his : Between p q is) (hjs : Between q r js) (hpq : p ≤ q) (hqr : q ≤ r) :
    Between p r (is ++ js) where
  sorted := List.pairwise_append.mpr
    ⟨his.sorted, hjs.sorted, fun i hi j hj => (his.le i hi).trans (hjs.ge j hj)⟩
  ge := List.forall_mem_append.mpr ⟨his.ge, fun j hj => hpq.trans (hjs.ge j hj)⟩
  le := List.forall_mem_append.mpr ⟨fun i hi => (his.le i hi).trans hqr, hjs.le⟩

end Between

/-- A lexeme stands where its characters do. -/
theorem between_ofLexeme (p : Pos) (taken : List Char) (result : Except Refusal TokenKind) :
    Between p.place (p.after taken).place (ofLexeme p taken result) := by
  have hle := p.place_le_after taken
  unfold ofLexeme
  dsimp only
  split
  · -- the problem and the reserved token stand at the start of the word
    have hproblem : Between p.place p.place
        [.error (.lexical (.unknownWord (String.ofList taken)) (p.spanTo (p.after taken)))] :=
      .singleton le_rfl le_rfl
    exact hproblem.append (.singleton le_rfl hle) le_rfl hle
  · exact .singleton le_rfl hle
  · next refusal => exact .singleton (p.place_le_after _) (p.place_after_take_le _ taken)

/-- The items of a source stand where its characters do, one after the other. -/
theorem between_ofChars (p : Pos) (cs : List Char) :
    Between p.place (p.after cs).place (ofChars p cs) := by
  induction p, cs using ofChars.induct with
  | case1 p =>
    rw [ofChars]
    exact .nil _ _
  | case2 p c cs n hgap ih =>
    rw [ofChars, hgap]
    dsimp only
    rw [Pos.after_take_drop] at ih
    exact ⟨ih.sorted, fun i hi => (p.place_le_after _).trans (ih.ge i hi), ih.le⟩
  | case3 p c cs hgap =>
    rw [ofChars, hgap]
    exact .singleton le_rfl (p.place_le_after _)
  | case4 p c cs hgap lexeme taken ih =>
    rw [ofChars, hgap]
    have hend : (p.after taken).after (cs.drop (lexeme.size - 1)) = p.after (c :: cs) :=
      p.after_take_drop c _ cs
    have hle := (p.after taken).place_le_after (cs.drop (lexeme.size - 1))
    rw [hend] at ih hle
    exact (between_ofLexeme p taken lexeme.result).append ih (p.place_le_after taken) hle

end Item

/-- The items of a source come in its order and up to its end. -/
theorem Source.between_items (src : Source) :
    Item.Between Pos.start.place src.finish.place src.items :=
  Item.between_ofChars .start src.chars

end WasmText
