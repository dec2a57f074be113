import WasmText.Proofs.Relexing
import WasmText.Proofs.Located
import WasmText.Token.Lexer

/-!
# Lexing comes to an end

A lexer stands for the items it has still to yield (`Lexer.items`): the token held back, then what
the text from its point on is lexed to, then the end of the source. A call yields the first of them
and leaves the others, so the calls of a new lexer yield the items of its source one by one and
nothing after them (`Lexer.call_ofSource`).

That each call makes progress is `Lexer.bound_next_lt`. It bounds the number of items by twice the
number of characters and one, since only an unknown word makes two items of a character.
-/

namespace WasmText

/-! ## Items of a text -/

namespace Lexeme

/-- No word means the end of the source. -/
theorem word_ne_eof (cs : List Char) : word cs ≠ .ok .eof := by
  unfold word
  dsimp only
  split
  · split <;> exact nofun
  · repeat' split
    all_goals exact nofun

/-- No lexeme is the end of the source. -/
theorem read_ne_eof (c : Char) (cs : List Char) : (read c cs).result ≠ .ok .eof := by
  intro h
  unfold read at h
  split at h
  · cases h
  split at h
  · cases h
  split at h
  · split at h <;> cases result_of_bounded h
  split at h
  · dsimp only at h
    split at h <;> cases result_of_bounded h
  split at h
  · dsimp only at h
    split at h
    · next hword =>
      cases result_of_bounded h
      exact word_ne_eof _ hword
    · cases result_of_bounded h
  · cases result_of_bounded h

end Lexeme

namespace Item

/-- Only the end of a source is its end. -/
theorem kind_ne_eof_of_mem (p : Pos) (cs : List Char) :
    ∀ t, .ok t ∈ ofChars p cs → t.kind ≠ .eof := by
  intro t ht heof
  have hspelled := spelledBy_of_mem_ofChars p cs t ht
  rw [heof] at hspelled
  generalize t.text.toList = text at hspelled
  obtain _ | ⟨c, cs⟩ := text
  · exact hspelled.elim
  · exact Lexeme.read_ne_eof c cs (congrArg Lexeme.result hspelled.read_eq)

/-- Right before a reserved token stands the problem of the word it is. -/
def AnnounceReserved (items : List Item) : Prop :=
  ∀ i t, items[i]? = some (.ok t) → t.kind = .reserved →
    ∃ j, i = j + 1 ∧ items[j]? = some (.error (.lexical (.unknownWord t.text) t.span))

theorem announceReserved_nil : AnnounceReserved [] := by
  intro i t hi
  simp at hi

/-- A token that is not reserved needs no problem before it. -/
theorem announceReserved_singleton {item : Item} (h : ∀ t, item = .ok t → t.kind ≠ .reserved) :
    AnnounceReserved [item] := by
  intro i t hi hkind
  obtain _ | i := i
  · exact absurd hkind (h t (by simpa using hi))
  · simp at hi

theorem announceReserved_error (p : Problem) : AnnounceReserved [.error p] := by
  apply announceReserved_singleton
  rintro t ⟨⟩

/-- Reserved words are announced in each of two lists, as none is split between them. -/
theorem AnnounceReserved.append {xs ys : List Item} (hxs : AnnounceReserved xs)
    (hys : AnnounceReserved ys) : AnnounceReserved (xs ++ ys) := by
  intro i t hi hkind
  by_cases hlt : i < xs.length
  · rw [List.getElem?_append_left hlt] at hi
    obtain ⟨j, rfl, hj⟩ := hxs i t hi hkind
    exact ⟨j, rfl, by rwa [List.getElem?_append_left (by omega)]⟩
  · rw [List.getElem?_append_right (by omega)] at hi
    obtain ⟨j, hij, hj⟩ := hys _ t hi hkind
    refine ⟨xs.length + j, by omega, ?_⟩
    rwa [List.getElem?_append_right (by omega), Nat.add_sub_cancel_left]

/-- A reserved word is announced by the problem before it. -/
theorem announceReserved_ofLexeme (p : Pos) (taken : List Char)
    (result : Except Refusal TokenKind) : AnnounceReserved (ofLexeme p taken result) := by
  unfold ofLexeme
  dsimp only
  split
  · intro i t hi hkind
    match i with
    | 0 => simp at hi
    | 1 =>
      obtain rfl : _ = t := by simpa using hi
      exact ⟨0, rfl, rfl⟩
    | i + 2 => simp at hi
  · next kind hkind =>
    refine announceReserved_singleton ?_
    rintro t ⟨⟩
    exact hkind
  · exact announceReserved_error _

/-- Every reserved word of a source is announced. -/
theorem announceReserved_ofChars (p : Pos) (cs : List Char) : AnnounceReserved (ofChars p cs) := by
  induction p, cs using ofChars_induction with
  | nil p =>
    rw [ofChars]
    exact announceReserved_nil
  | blank p c cs hc ih =>
    rw [ofChars_blank p hc]
    exact ih
  | comment p c cs n _ hgap ih =>
    rw [ofChars_comment p hgap]
    exact ih
  | unterminated p c cs hgap =>
    rw [ofChars_unterminated p hgap]
    exact announceReserved_error _
  | lexeme p c cs _ hgap ih =>
    rw [ofChars_lexeme p hgap]
    exact (announceReserved_ofLexeme _ _ _).append ih

/-- The end of a source is no reserved token. -/
theorem announceReserved_tokens (src : Source) : AnnounceReserved src.tokens :=
  (announceReserved_ofChars _ _).append (announceReserved_singleton (by rintro t ⟨⟩; nofun))

end Item

namespace Lexer

/-! ## Over gaps -/

/-- Passing over gaps changes nothing that is still to come: only the problem of a comment that does
not end is taken out. -/
theorem ofChars_skipGaps (p : Pos) (cs : List Char) :
    Item.ofChars p cs = ((skipGaps p cs).problem?.map Except.error).toList ++
      Item.ofChars (skipGaps p cs).pos (skipGaps p cs).rest := by
  fun_induction skipGaps p cs with
  | case1 => rfl
  | case2 p c cs n hgap ih => rw [Item.ofChars_comment p hgap, ih]
  | case3 p c cs hgap =>
    rw [Item.ofChars_unterminated p hgap, Item.ofChars]
    rfl
  | case4 => rfl

/-- Skipping does not lose the place. -/
theorem after_skipGaps (p : Pos) (cs : List Char) :
    (skipGaps p cs).pos.after (skipGaps p cs).rest = p.after cs := by
  fun_induction skipGaps p cs with
  | case1 => rfl
  | case2 p c cs n hgap ih =>
    rw [ih, ← Pos.after_append, List.cons_append, List.take_append_drop]
  | case3 => rfl
  | case4 => rfl

/-- After the gaps stands a lexeme or nothing. -/
theorem gap_of_skipGaps {p : Pos} {cs : List Char} {c : Char} {rest : List Char}
    (h : (skipGaps p cs).rest = c :: rest) : Lexeme.gap (c :: rest) = .done := by
  fun_induction skipGaps p cs with
  | case1 => cases h
  | case2 p c' cs n hgap ih => exact ih h
  | case3 => cases h
  | case4 p c' cs hgap =>
    cases h
    exact hgap

/-! ## One call -/

/-- The items that a lexer has still to yield. -/
def items (l : Lexer) : List Item :=
  (l.deferred.map Except.ok).toList ++
    if l.done then [] else Item.ofChars l.pos l.rest ++ [.ok (.eof (l.pos.after l.rest))]

/-- A lexer starts with all tokens of its source. -/
theorem items_ofSource (src : Source) : (ofSource src).items = src.tokens := rfl

/-- A lexeme makes one item, or two of which the second is a token. -/
theorem exists_ofLexeme_eq (p : Pos) (taken : List Char) (result : Except Refusal TokenKind) :
    ∃ i held, Item.ofLexeme p taken result = i :: (held.map Except.ok).toList ∧
      (Item.ofLexeme p taken result).tail.head?.bind Except.toOption = held := by
  unfold Item.ofLexeme
  dsimp only
  split
  · exact ⟨_, some _, rfl, rfl⟩
  · exact ⟨_, none, rfl, rfl⟩
  · exact ⟨_, none, rfl, rfl⟩

/-- A call yields the first item that is still to come and leaves the others. -/
theorem next_eq (l : Lexer) : l.next.1 = l.items.head? ∧ l.next.2.items = l.items.tail := by
  obtain ⟨src, pos, rest, deferred, done⟩ := l
  cases deferred with
  | some t => exact ⟨rfl, rfl⟩
  | none =>
    cases done with
    | true => exact ⟨rfl, rfl⟩
    | false =>
      have hgap : ∀ c cs, (skipGaps pos rest).rest = c :: cs → Lexeme.gap (c :: cs) = .done :=
        fun _ _ => gap_of_skipGaps
      -- with nothing held back, the gap is skipped first, and a lexeme follows or the end
      simp only [items, next, Bool.false_eq_true, if_false, Option.map_none, Option.toList_none,
        List.nil_append]
      rw [ofChars_skipGaps pos rest, ← after_skipGaps pos rest]
      generalize skipGaps pos rest = gapEnd at hgap ⊢
      obtain ⟨_ | problem, pos', _ | ⟨c, cs⟩⟩ := gapEnd
      · simp [Item.ofChars]
      · rw [Item.ofChars_lexeme pos' (hgap c cs rfl)]
        obtain ⟨i, held, hi, hheld⟩ := exists_ofLexeme_eq pos'
          (c :: cs.take ((Lexeme.read c cs).size - 1)) (Lexeme.read c cs).result
        have hpos : (pos'.after (c :: cs.take ((Lexeme.read c cs).size - 1))).after
            (cs.drop ((Lexeme.read c cs).size - 1)) = pos'.after (c :: cs) := by
          rw [← Pos.after_append, List.cons_append, List.take_append_drop]
        dsimp only
        rw [hheld, hpos, hi]
        simp
      · exact ⟨rfl, rfl⟩
      · exact ⟨rfl, rfl⟩

/-- What a lexer has still to yield is what the next call yields and what comes after it. -/
theorem items_eq (l : Lexer) : l.items = l.next.1.toList ++ l.next.2.items := by
  obtain ⟨hhead, htail⟩ := l.next_eq
  rw [hhead, htail]
  cases l.items <;> rfl

/-- No more items come than the bound says, because every call that yields one lowers it. -/
theorem length_items_le_bound (l : Lexer) : l.items.length ≤ l.bound := by
  induction hbound : l.bound using Nat.strong_induction_on generalizing l with
  | _ b ih =>
    subst hbound
    obtain ⟨hhead, htail⟩ := l.next_eq
    rcases hitems : l.items with _ | ⟨i, items⟩
    · exact Nat.zero_le _
    · rw [hitems] at hhead htail
      have hlt := l.bound_next_lt (by rw [hhead]; rfl)
      have hle := ih _ hlt l.next.2 rfl
      rw [htail, List.tail_cons] at hle
      exact Nat.succ_le_of_lt (Nat.lt_of_le_of_lt hle hlt)

/-! ## Call after call -/

/-- A lexer after `n` calls. -/
def after (l : Lexer) : Nat → Lexer
  | 0 => l
  | n + 1 => l.next.2.after n

/-- What call number `n` of a lexer yields, counted from zero. -/
def call (l : Lexer) (n : Nat) : Option Item := (l.after n).next.1

/-- After some calls as many items are gone. -/
theorem items_after (l : Lexer) (n : Nat) : (l.after n).items = l.items.drop n := by
  induction n generalizing l with
  | zero => rfl
  | succ n ih => rw [after, ih, l.next_eq.2, ← List.drop_one, List.drop_drop, Nat.add_comm]

/-- A call answers with the item that is next. -/
theorem call_eq (l : Lexer) (n : Nat) : l.call n = l.items[n]? := by
  rw [call, (l.after n).next_eq.1, items_after, List.head?_drop]

/-- The calls of a new lexer yield the items of its source. -/
theorem call_ofSource (src : Source) (n : Nat) : (ofSource src).call n = src.tokens[n]? := by
  rw [call_eq, items_ofSource]

/-- The tokens of a source are at most two for each of its bytes, and its end. -/
theorem length_tokens_le (src : Source) : src.tokens.length ≤ 2 * src.size + 1 := by
  have hbound := (ofSource src).length_items_le_bound
  have hchars : src.chars.length ≤ src.size := Slice.length_le_byteSize src.chars
  rw [items_ofSource] at hbound
  simp only [bound, ofSource, Option.isSome_none, Bool.false_eq_true, if_false] at hbound
  omega

/-- Lexing comes to an end: there is a last call that yields an item, no later than what the size of
the source allows. It alone yields the end of the source, with an empty span there. Every reserved
token follows the problem of its word, with the same span. -/
theorem exists_last_call (src : Source) :
    ∃ last, last + 1 ≤ 2 * src.size + 1 ∧
      (∀ n, ((ofSource src).call n).isSome ↔ n ≤ last) ∧
      (ofSource src).call last = some (.ok (.eof src.finish)) ∧
      (Token.eof src.finish).span.start = src.size ∧
      (Token.eof src.finish).span.stop = src.size ∧
      (∀ n t, (ofSource src).call n = some (.ok t) → (t.kind = .eof ↔ n = last)) ∧
      ∀ n t, (ofSource src).call n = some (.ok t) → t.kind = .reserved →
        ∃ m, n = m + 1 ∧ (ofSource src).call m =
          some (.error (.lexical (.unknownWord t.text) t.span)) := by
  have hlength : src.tokens.length = src.items.length + 1 := by simp [Source.tokens]
  have hlast : src.tokens[src.items.length]? = some (.ok (.eof src.finish)) :=
    List.getElem?_concat_length
  have hfinish : src.finish.offset = src.size := by
    rw [Source.finish, Pos.offset_after]
    exact Nat.zero_add _
  simp only [call_ofSource]
  refine ⟨src.items.length, hlength ▸ length_tokens_le src, fun n => ?_, hlast, hfinish, hfinish,
    fun n t hn => ⟨fun heof => ?_, ?_⟩, Item.announceReserved_tokens src⟩
  · rw [isSome_getElem?, hlength]
    exact Nat.lt_succ_iff
  · -- an end before the last item would be lexed from the text
    by_contra hne
    have hlt : n < src.items.length := by
      have := (List.getElem?_eq_some_iff.mp hn).1
      omega
    rw [Source.tokens, List.getElem?_append_left hlt] at hn
    exact Item.kind_ne_eof_of_mem _ _ t (List.mem_of_getElem? hn) heof
  · rintro rfl
    rw [hlast] at hn
    cases hn
    rfl

/-! ## Looking ahead -/

theorem source_next (l : Lexer) : l.next.2.source = l.source := by
  unfold next
  split
  · rfl
  split
  · rfl
  split <;> rfl

theorem source_nextToken (l : Lexer) : l.nextToken.2.source = l.source := by
  fun_induction nextToken l with
  | case1 l t l' h | case3 l l' h =>
    have := l.source_next
    rwa [h] at this
  | case2 l p l' h ih =>
    have := l.source_next
    rw [h] at this
    exact ih.trans this

/-- A lexer that ran on from a checkpoint is taken back to where it stood. -/
theorem restore_checkpoint {l l' : Lexer} (h : l'.source = l.source) :
    l'.restore l.checkpoint = l := by
  rw [restore, h]
  rfl

/-- Peeking leaves a lexer as it was. -/
theorem peekKeyword_snd (l : Lexer) : l.peekKeyword.2 = l := by
  have hfirst := l.source_nextToken
  unfold peekKeyword
  rcases hnext : l.nextToken with ⟨_ | ⟨kind, text, span⟩, l'⟩
  · rw [hnext] at hfirst
    exact restore_checkpoint hfirst
  rw [hnext] at hfirst
  have hsecond := l'.source_nextToken.trans hfirst
  cases kind with
  | leftParen =>
    dsimp only
    rcases hnext' : l'.nextToken with ⟨_ | ⟨kind, text, span⟩, l''⟩
    · rw [hnext'] at hsecond
      exact restore_checkpoint hsecond
    · rw [hnext'] at hsecond
      cases kind <;> exact restore_checkpoint hsecond
  | _ => exact restore_checkpoint hfirst

/-- The next token that a lexer yields is `t`, after the problems that `n` calls yield. -/
def Comes (l : Lexer) (n : Nat) (t : Token) : Prop :=
  (∀ m < n, ∃ p, l.call m = some (.error p)) ∧ l.call n = some (.ok t)

theorem comes_zero {l : Lexer} {t : Token} : l.Comes 0 t ↔ l.next.1 = some (.ok t) :=
  ⟨fun h => h.2, fun h => ⟨nofun, h⟩⟩

/-- A token comes after one problem more when the next call answers with a problem. -/
theorem comes_succ {l : Lexer} {n : Nat} {t : Token} :
    l.Comes (n + 1) t ↔ (∃ p, l.next.1 = some (.error p)) ∧ l.next.2.Comes n t := by
  refine ⟨fun h => ⟨h.1 0 n.succ_pos, fun m hm => h.1 (m + 1) (Nat.succ_lt_succ hm), h.2⟩,
    fun h => ⟨fun m hm => ?_, h.2.2⟩⟩
  obtain _ | m := m
  · exact h.1
  · exact h.2.1 m (Nat.lt_of_succ_lt_succ hm)

/-- Running on to the next token is calling until one comes. -/
theorem nextToken_eq_some_iff {l l' : Lexer} {t : Token} :
    l.nextToken = (some t, l') ↔ ∃ n, l.Comes n t ∧ l.after (n + 1) = l' := by
  -- every problem that is skipped is one more call
  fun_induction nextToken l with
  | case1 l u lexer h =>
    constructor
    · rintro ⟨⟩
      exact ⟨0, comes_zero.mpr (by rw [h]), by rw [after, after, h]⟩
    · rintro ⟨_ | n, hcomes, rfl⟩
      · have hfirst := comes_zero.mp hcomes
        rw [h] at hfirst
        cases hfirst
        rw [after, after, h]
      · obtain ⟨⟨p, hp⟩, -⟩ := comes_succ.mp hcomes
        rw [h] at hp
        cases hp
  | case2 l p lexer h ih =>
    rw [ih]
    constructor
    · rintro ⟨n, hcomes, hafter⟩
      exact ⟨n + 1, comes_succ.mpr ⟨⟨p, by rw [h]⟩, by rwa [h]⟩, by rw [after, h, hafter]⟩
    · rintro ⟨_ | n, hcomes, hafter⟩
      · have hfirst := comes_zero.mp hcomes
        rw [h] at hfirst
        cases hfirst
      · obtain ⟨-, hcomes⟩ := comes_succ.mp hcomes
        rw [h] at hcomes
        rw [after, h] at hafter
        exact ⟨n, hcomes, hafter⟩
  | case3 l lexer h =>
    refine ⟨nofun, ?_⟩
    rintro ⟨_ | n, hcomes, -⟩
    · have hfirst := comes_zero.mp hcomes
      rw [h] at hfirst
      cases hfirst
    · obtain ⟨⟨p, hp⟩, -⟩ := comes_succ.mp hcomes
      rw [h] at hp
      cases hp

/-- A keyword is seen ahead exactly if the next two tokens are a left parenthesis and the
keyword. -/
theorem peekKeyword_eq_some_iff {l : Lexer} {word : Keyword} :
    l.peekKeyword.1 = some word ↔ ∃ n t m u, l.Comes n t ∧ t.kind = .leftParen ∧
      (l.after (n + 1)).Comes m u ∧ u.kind = .keyword word := by
  constructor
  · intro h
    unfold peekKeyword at h
    dsimp only at h
    split at h
    · next text span l' hfirst =>
      split at h
      · next word' text' span' l'' hsecond =>
        cases h
        obtain ⟨n, hleft, rfl⟩ := nextToken_eq_some_iff.mp hfirst
        obtain ⟨m, hword, -⟩ := nextToken_eq_some_iff.mp hsecond
        exact ⟨n, _, m, _, hleft, rfl, hword, rfl⟩
      · cases h
    · cases h
  · rintro ⟨n, ⟨kind, text, span⟩, m, ⟨kind', text', span'⟩, hleft, rfl, hword, rfl⟩
    have hfirst := nextToken_eq_some_iff.mpr ⟨n, hleft, rfl⟩
    have hsecond := nextToken_eq_some_iff.mpr ⟨m, hword, rfl⟩
    simp only [peekKeyword, hfirst, hsecond]

end Lexer

end WasmText
