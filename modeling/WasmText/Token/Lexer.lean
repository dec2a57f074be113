import WasmText.Token.Stream

/-!
# Lexing item by item

`Source.tokens` are the items of a source all at once. A lexer yields them one a call: it stands at
a point of the source, and a call passes over the gap there and takes one lexeme. An unknown word
makes two items, so its token is held back for the next call. The end of the source is an item too,
and after it a lexer yields nothing.

A lexer can be taken back to where it stood at a checkpoint.
-/

namespace WasmText

/-- A lexer at a point of a source, with the text from there on. -/
structure Lexer where
  source : Source
  pos : Pos
  rest : List Char
  /-- The token of an unknown word whose problem was yielded. -/
  deferred : Option Token
  /-- Whether the end of the source was yielded. -/
  done : Bool
deriving DecidableEq, Repr

namespace Lexer

/-- What calls of a lexer change. -/
structure Checkpoint where
  pos : Pos
  rest : List Char
  deferred : Option Token
  done : Bool

def ofSource (src : Source) : Lexer := ⟨src, .start, src.chars, none, false⟩

def checkpoint (l : Lexer) : Checkpoint := ⟨l.pos, l.rest, l.deferred, l.done⟩

/-- The lexer taken back to a checkpoint. -/
def restore (l : Lexer) (c : Checkpoint) : Lexer :=
  { l with pos := c.pos, rest := c.rest, deferred := c.deferred, done := c.done }

/-! ## One item -/

/-- The text from the next lexeme on, or the problem of a comment that takes all of it. -/
structure GapEnd where
  problem? : Option Problem
  pos : Pos
  rest : List Char

/-- Passes over blanks and comments. -/
def skipGaps (p : Pos) : List Char → GapEnd
  | [] => ⟨none, p, []⟩
  | c :: cs =>
    match Lexeme.gap (c :: cs) with
    | .skip n => skipGaps (p.after (c :: cs.take (n - 1))) (cs.drop (n - 1))
    | .unterminated =>
      let last := p.after (c :: cs)
      ⟨some (.lexical .unterminatedComment (p.spanTo last)), last, []⟩
    | .done => ⟨none, p, c :: cs⟩
termination_by cs => cs.length
decreasing_by simp only [List.length_cons, List.length_drop]; omega

/-- The next item, if there is one. -/
def next (l : Lexer) : Option Item × Lexer :=
  match l.deferred with
  | some t => (some (.ok t), { l with deferred := none })
  | none =>
    if l.done then (none, l)
    else
      match skipGaps l.pos l.rest with
      | ⟨some p, pos, rest⟩ => (some (.error p), { l with pos, rest })
      | ⟨none, pos, []⟩ => (some (.ok (.eof pos)), { l with pos, rest := [], done := true })
      | ⟨none, pos, c :: cs⟩ =>
        let lexeme := Lexeme.read c cs
        let taken := c :: cs.take (lexeme.size - 1)
        let items := Item.ofLexeme pos taken lexeme.result
        (items.head?, { l with
          pos := pos.after taken
          rest := cs.drop (lexeme.size - 1)
          deferred := items.tail.head?.bind Except.toOption })

/-! ## How many items come -/

/-- No more items than this come: two for a character, one for a token that is held back, and the
end of the source. -/
def bound (l : Lexer) : Nat :=
  2 * l.rest.length + (if l.deferred.isSome then 1 else 0) + if l.done then 0 else 1

theorem skipGaps_length (p : Pos) (cs : List Char) :
    (skipGaps p cs).rest.length ≤ cs.length ∧
      ((skipGaps p cs).problem?.isSome → (skipGaps p cs).rest.length < cs.length) := by
  fun_induction skipGaps p cs with
  | case1 => simp
  | case2 p c cs n hgap ih =>
    simp only [List.length_drop, List.length_cons] at ih ⊢
    exact ⟨by omega, fun h => by have := ih.2 h; omega⟩
  | case3 => simp
  | case4 => simp

/-- A call that is not after the end leaves fewer items. -/
theorem next_eq_or_bound_lt (l : Lexer) : l.next = (none, l) ∨ l.next.2.bound < l.bound := by
  obtain ⟨src, pos, rest, deferred, done⟩ := l
  have hskip := skipGaps_length pos rest
  cases deferred with
  | some t => exact .inr (by cases done <;> simp [next, bound])
  | none =>
    cases done with
    | true => exact .inl rfl
    | false =>
      refine .inr ?_
      simp only [next, bound, Option.isSome_none, Bool.false_eq_true, if_false]
      split
      · next p pos' rest' hend =>
        rw [hend] at hskip
        have hlt : rest'.length < rest.length := hskip.2 rfl
        simp only [Option.isSome_none, Bool.false_eq_true, if_false]
        omega
      · simp
      · next pos' c cs hend =>
        -- the lexeme takes a character at least, and a token at most is held back
        rw [hend] at hskip
        have hle : cs.length + 1 ≤ rest.length := hskip.1
        simp only [List.length_drop, Bool.false_eq_true, if_false]
        split <;> omega

/-- A call that yields an item leaves fewer of them. -/
theorem bound_next_lt (l : Lexer) (h : l.next.1.isSome) : l.next.2.bound < l.bound := by
  refine l.next_eq_or_bound_lt.resolve_left fun hnone => ?_
  rw [hnone] at h
  cases h

theorem bound_next_le (l : Lexer) : l.next.2.bound ≤ l.bound := by
  obtain h | h := l.next_eq_or_bound_lt
  · exact Nat.le_of_eq (by rw [h])
  · exact Nat.le_of_lt h

/-! ## The next token -/

/-- The next token; lexical problems are passed over. -/
def nextToken (l : Lexer) : Option Token × Lexer :=
  match _h : l.next with
  | (some (.ok t), l') => (some t, l')
  | (some (.error _), l') => l'.nextToken
  | (none, l') => (none, l')
termination_by l.bound
decreasing_by
  have := l.bound_next_lt (by rw [_h]; rfl)
  rwa [_h] at this

/-- The keyword at the head of the next form, if what comes next is a list with one. The lexer runs
on to find it, and goes back to where it stood. -/
def peekKeyword (l : Lexer) : Option Keyword × Lexer :=
  let saved := l.checkpoint
  match l.nextToken with
  | (some ⟨.leftParen, _, _⟩, l') =>
    match l'.nextToken with
    | (some ⟨.keyword word, _, _⟩, l'') => (some word, l''.restore saved)
    | (_, l'') => (none, l''.restore saved)
  | (_, l') => (none, l'.restore saved)

end Lexer

end WasmText
