import WasmText.Proofs.StringGrammar

/-!
# Lexing the text of a token again

What makes a token of a lexeme is in its own characters: a string ends at its closing quote, and an
identifier or a word where a boundary comes. So the text of a token is lexed as the same token
wherever a boundary or nothing follows (`Item.ofChars_text`), and a parenthesis wherever it starts
no comment. Every token of a source has such a text (`Source.spelledBy_of_mem`).
-/

namespace WasmText

/-- A token of this kind is not changed by the text after it. -/
def TokenKind.MayPrecede : TokenKind → List Char → Prop
  | .leftParen, rest => rest.head? ≠ some ';'
  | .rightParen, _ => True
  | _, rest => ∀ c ∈ rest.head?, Lexeme.isBoundary c = true

/-- Other tokens than parentheses end at a boundary. -/
theorem TokenKind.MayPrecede.boundary {kind : TokenKind} {rest : List Char}
    (h : kind.MayPrecede rest) (hleft : kind ≠ .leftParen) (hright : kind ≠ .rightParen) :
    ∀ c ∈ rest.head?, Lexeme.isBoundary c = true := by
  cases kind with
  | leftParen => exact absurd rfl hleft
  | rightParen => exact absurd rfl hright
  | _ => exact h

/-- Any token may stand in front of a boundary that starts no comment. -/
theorem TokenKind.mayPrecede_of_boundary (kind : TokenKind) {rest : List Char}
    (h : ∀ c ∈ rest.head?, Lexeme.isBoundary c = true ∧ c ≠ ';') : kind.MayPrecede rest := by
  cases kind with
  | leftParen => exact fun hhead => (h _ hhead).2 rfl
  | rightParen => trivial
  | _ => exact fun c hc => (h c hc).1

/-- A text is lexed as one token of this kind, in front of whatever may follow. -/
def TokenKind.SpelledBy (kind : TokenKind) : List Char → Prop
  | [] => False
  | c :: cs => ∀ rest, kind.MayPrecede rest → Lexeme.read c (cs ++ rest) = ⟨.ok kind, cs.length + 1⟩

namespace Lexeme

/-! ## Lexemes -/

theorem isBoundary_of_isBlank {c : Char} (h : isBlank c = true) : isBoundary c = true := by
  simp [isBoundary, h]

/-- No character of a name is a boundary. -/
theorem not_isIdChar_of_isBoundary {c : Char} (h : isBoundary c = true) : isIdChar c = false := by
  simp only [isBoundary, isBlank, Bool.or_eq_true, beq_iff_eq] at h
  rcases h with ((((((rfl | rfl) | rfl) | rfl) | rfl) | rfl) | rfl) | rfl <;> decide

theorem spelledBy_leftParen : TokenKind.leftParen.SpelledBy ['('] := fun rest _ => by
  rw [read, if_pos rfl]
  rfl

theorem spelledBy_rightParen : TokenKind.rightParen.SpelledBy [')'] := fun rest _ => by
  rw [read, if_neg (by decide), if_pos rfl]
  rfl

/-- A string literal is spelled by its characters, its quotes included. -/
theorem spelledBy_string {text : List Char} {bytes : List UInt8} (h : StringLiteral text bytes) :
    (TokenKind.string bytes).SpelledBy text := by
  obtain ⟨hbody⟩ := h
  exact fun rest hrest => read_of_literal (.mk hbody) (endsToken_iff.mpr hrest)

/-- An identifier is spelled by its name behind a dollar sign. -/
theorem spelledBy_id {name : List Char} (hne : name ≠ []) (h : ∀ c ∈ name, isIdChar c = true) :
    (TokenKind.id (String.ofList name)).SpelledBy ('$' :: name) := by
  intro rest hrest
  have htake : (name ++ rest).takeWhile isIdChar = name :=
    takeWhile_stretch h fun c hc => not_isIdChar_of_isBoundary (hrest c hc)
  rw [read, if_neg (by decide), if_neg (by decide), if_neg (by decide), if_pos rfl]
  simp only [htake, List.isEmpty_iff, if_neg hne]
  exact bounded_of_boundary ('$' :: name) _ hrest

theorem not_paren_of_word {cs : List Char} {kind : TokenKind} (h : word cs = .ok kind) :
    kind ≠ .leftParen ∧ kind ≠ .rightParen := by
  unfold word at h
  dsimp only at h
  split at h
  · split at h
    · cases h
      exact ⟨nofun, nofun⟩
    · cases h
  · repeat' split at h
    all_goals
      cases h
      exact ⟨nofun, nofun⟩

/-- A word is spelled by its characters, whatever it means. -/
theorem spelledBy_word {c : Char} {cs : List Char} {kind : TokenKind} (hc : c ≠ '$')
    (hid : ∀ d ∈ c :: cs, isIdChar d = true) (h : word (c :: cs) = .ok kind) :
    kind.SpelledBy (c :: cs) := by
  intro rest hrest
  have hboundary := hrest.boundary (not_paren_of_word h).1 (not_paren_of_word h).2
  have htake : (c :: (cs ++ rest)).takeWhile isIdChar = c :: cs :=
    takeWhile_stretch hid fun d hd => not_isIdChar_of_isBoundary (hboundary d hd)
  have hchar : isIdChar c = true := hid c List.mem_cons_self
  have hnot (d : Char) (hd : isIdChar d = false) : c ≠ d := by
    rintro rfl
    rw [hchar] at hd
    cases hd
  rw [read, if_neg (hnot _ (by decide)), if_neg (hnot _ (by decide)), if_neg (hnot _ (by decide)),
    if_neg hc, if_pos hchar]
  simp only [htake, h]
  exact bounded_of_boundary (c :: cs) _ hboundary

/-- Of the characters that end a token only parentheses start one. -/
theorem not_ok_of_isBoundary {c : Char} {cs : List Char} {kind : TokenKind}
    (hc : isBoundary c = true) (hleft : c ≠ '(') (hright : c ≠ ')') :
    (read c cs).result ≠ .ok kind := by
  have hnot (d : Char) (hd : isBoundary d = false) : c ≠ d := by
    rintro rfl
    rw [hc] at hd
    cases hd
  rw [read, if_neg hleft, if_neg hright, if_neg (hnot _ (by decide)), if_neg (hnot _ (by decide)),
    if_neg (by simp [not_isIdChar_of_isBoundary hc])]
  intro h
  cases result_of_bounded h

/-- The characters of a token spell it wherever they stand. -/
theorem exists_text_of_read {c : Char} {cs : List Char} {kind : TokenKind}
    (h : (read c cs).result = .ok kind) :
    ∃ text rest, cs = text ++ rest ∧ (read c cs).size = text.length + 1 ∧
      kind.SpelledBy (c :: text) := by
  by_cases hquote : c = '\x22'
  · subst hquote
    obtain ⟨text, rest, bytes, rfl, hliteral, -, rfl, hsize⟩ := exists_of_read_quote h
    exact ⟨text, rest, rfl, hsize, spelledBy_string hliteral⟩
  -- one case for each lexeme that is read, with the characters that it takes
  unfold read at h ⊢
  split at h
  · next hc =>
    cases h
    exact ⟨[], cs, rfl, by rw [if_pos hc]; rfl, hc ▸ spelledBy_leftParen⟩
  split at h
  · next hleft hc =>
    cases h
    exact ⟨[], cs, rfl, by rw [if_neg hleft, if_pos hc]; rfl, hc ▸ spelledBy_rightParen⟩
  split at h
  · next hleft hright hc =>
    rw [if_neg hleft, if_neg hright, if_neg hquote, if_pos hc]
    dsimp only at h ⊢
    split at h
    · cases result_of_bounded h
    · next hne =>
      cases result_of_bounded h
      rw [if_neg hne]
      refine ⟨cs.takeWhile isIdChar, cs.dropWhile isIdChar, List.takeWhile_append_dropWhile.symm,
        (boundary_of_bounded h).1, hc ▸ spelledBy_id ?_ fun d hd => List.mem_takeWhile_imp hd⟩
      simpa using hne
  split at h
  · next hleft hright hdollar hc =>
    rw [if_neg hleft, if_neg hright, if_neg hquote, if_neg hdollar, if_pos hc]
    have htake : (c :: cs).takeWhile isIdChar = c :: cs.takeWhile isIdChar :=
      List.takeWhile_cons_of_pos hc
    dsimp only at h ⊢
    rw [htake] at h ⊢
    split at h
    · next kind' hword =>
      cases result_of_bounded h
      refine ⟨cs.takeWhile isIdChar, cs.dropWhile isIdChar, List.takeWhile_append_dropWhile.symm,
        (boundary_of_bounded h).1, spelledBy_word hdollar ?_ hword⟩
      rw [← htake]
      exact fun d hd => List.mem_takeWhile_imp hd
    · cases result_of_bounded h
  · cases result_of_bounded h

end Lexeme

/-! ## The texts of tokens -/

namespace TokenKind.SpelledBy

open Lexeme

variable {kind : TokenKind} {c : Char} {cs rest : List Char}

/-- A token is read from what spells it. -/
theorem read_eq (h : kind.SpelledBy (c :: cs)) : Lexeme.read c cs = ⟨.ok kind, cs.length + 1⟩ := by
  simpa using h [] (kind.mayPrecede_of_boundary (by simp))

/-- No token starts with a semicolon. -/
theorem ne_semicolon (h : kind.SpelledBy (c :: cs)) : c ≠ ';' := by
  rintro rfl
  exact not_ok_of_isBoundary (by decide) (by decide) (by decide) (congrArg Lexeme.result h.read_eq)

/-- No token starts with a blank. -/
theorem isBlank_eq_false (h : kind.SpelledBy (c :: cs)) : isBlank c = false := by
  refine Bool.eq_false_iff.mpr fun hc => ?_
  have hparen (d : Char) (hd : isBlank d = false) : c ≠ d := by
    rintro rfl
    rw [hc] at hd
    cases hd
  exact not_ok_of_isBoundary (isBoundary_of_isBlank hc) (hparen _ (by decide))
    (hparen _ (by decide)) (congrArg Lexeme.result h.read_eq)

/-- Nothing is skipped before a token. -/
theorem gap_eq (h : kind.SpelledBy (c :: cs)) (hrest : kind.MayPrecede rest) :
    gap (c :: (cs ++ rest)) = .done := by
  rw [gap_of_no_comment, if_neg (by simp [h.isBlank_eq_false])]
  intro tail htail
  refine ⟨h.ne_semicolon, ?_⟩
  rintro rfl
  have hread := h.read_eq
  rw [Lexeme.read, if_pos rfl] at hread
  injection hread with hkind hsize
  injection hkind with hkind
  obtain rfl : cs = [] := List.length_eq_zero_iff.mp (by omega)
  subst hkind
  exact hrest (by rw [← List.nil_append rest, htail]; rfl)

end TokenKind.SpelledBy

/-- A text that spells a token is lexed as that token. -/
theorem Item.ofChars_text {kind : TokenKind} {text rest : List Char} (p : Pos)
    (h : kind.SpelledBy text) (hrest : kind.MayPrecede rest) :
    ofChars p (text ++ rest) = ofLexeme p text (.ok kind) ++ ofChars (p.after text) rest := by
  obtain _ | ⟨c, cs⟩ := text
  · exact h.elim
  rw [List.cons_append, ofChars_lexeme p (h.gap_eq hrest), h rest hrest]
  simp

/-- A parenthesis that opens is a token, unless a comment starts with it. -/
theorem Item.ofChars_leftParen (p : Pos) {rest : List Char} (h : rest.head? ≠ some ';') :
    ofChars p ('(' :: rest) =
      .ok ⟨.leftParen, ⟨"(", p.offset⟩, p.spanTo (p.next '(')⟩ :: ofChars (p.next '(') rest :=
  ofChars_text p Lexeme.spelledBy_leftParen h

theorem Item.ofChars_rightParen (p : Pos) (rest : List Char) :
    ofChars p (')' :: rest) =
      .ok ⟨.rightParen, ⟨")", p.offset⟩, p.spanTo (p.next ')')⟩ :: ofChars (p.next ')') rest :=
  ofChars_text p Lexeme.spelledBy_rightParen trivial

/-- A lexeme with a meaning gives its token. -/
theorem Item.ofLexeme_ok {kind : TokenKind} (hkind : kind ≠ .reserved) (p : Pos)
    (taken : List Char) : ofLexeme p taken (.ok kind) =
      [.ok ⟨kind, ⟨String.ofList taken, p.offset⟩, p.spanTo (p.after taken)⟩] := by
  unfold ofLexeme
  split
  · next heq => exact absurd (Except.ok.inj heq) hkind
  · next heq => rw [← Except.ok.inj heq]
  · next heq => cases heq

/-- A token has the kind that its text is read as. -/
theorem Item.exists_of_mem_ofLexeme {p : Pos} {taken : List Char}
    {result : Except Refusal TokenKind} {t : Token} (h : .ok t ∈ ofLexeme p taken result) :
    result = .ok t.kind ∧ t.text = String.ofList taken := by
  unfold ofLexeme at h
  split at h <;> simp_all [Token.text]

/-- The tokens of a text are spelled by their own texts. -/
theorem Item.spelledBy_of_mem_ofChars (p : Pos) (cs : List Char) :
    ∀ t, .ok t ∈ ofChars p cs → t.kind.SpelledBy t.text.toList := by
  refine ofChars_induction (motive := fun p cs => ∀ t, .ok t ∈ ofChars p cs →
    t.kind.SpelledBy t.text.toList) ?_ ?_ ?_ ?_ ?_ p cs
  · intro p t ht
    rw [ofChars] at ht
    cases ht
  · intro p c cs hc ih
    rwa [ofChars_blank p hc]
  · intro p c cs n _ hgap ih
    rwa [ofChars_comment p hgap]
  · intro p c cs hgap t ht
    rw [ofChars_unterminated p hgap] at ht
    simp at ht
  · intro p c cs _ hgap ih t ht
    rw [ofChars_lexeme p hgap, List.mem_append] at ht
    obtain ht | ht := ht
    · obtain ⟨hread, htext⟩ := exists_of_mem_ofLexeme ht
      obtain ⟨text, rest, rfl, hsize, hspelled⟩ := Lexeme.exists_text_of_read hread
      rw [htext, hsize]
      simpa using hspelled
    · exact ih t ht

/-- Every token of a source is spelled by its text. -/
theorem Source.spelledBy_of_mem {src : Source} {t : Token} (h : .ok t ∈ src.items) :
    t.kind.SpelledBy t.text.toList :=
  Item.spelledBy_of_mem_ofChars .start src.chars t h

end WasmText
