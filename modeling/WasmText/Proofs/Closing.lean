import WasmText.Proofs.Replacing

/-!
# A parenthesis behind a text

What a text becomes if a closing parenthesis is put behind it. Where the text ends in a comment that
is not over, the comment takes the parenthesis (`Lexeme.endsInComment`). Otherwise the parenthesis
is one more token, and the tokens of the text stay as they are (`Item.ofChars_append_rightParen`):
of the tokens only a closing parenthesis ends in one, and each may stand in front of one.
-/

namespace WasmText

open Lexeme

/-! ## A parenthesis behind a text -/

/-- Whether a text ends in a comment that goes on with what is put behind it. -/
def Lexeme.endsInComment : List Char → Bool
  | [] => false
  | c :: cs =>
    match gap (c :: cs) with
    | .skip n => c == ';' && (cs.drop (n - 1)).isEmpty || endsInComment (cs.drop (n - 1))
    | .unterminated => true
    | .done => endsInComment (cs.drop ((read c cs).size - 1))
termination_by cs => cs.length
decreasing_by all_goals (simp only [List.length_cons, List.length_drop]; omega)

namespace Lexeme

variable {c : Char} {cs ds : List Char} {n : Nat}

theorem beq_semicolon_of_isBlank (hc : isBlank c = true) : (c == ';') = false := by
  refine beq_eq_false_iff_ne.mpr ?_
  rintro rfl
  cases hc

theorem endsInComment_skip (h : gap (c :: cs) = .skip n) :
    endsInComment (c :: cs) =
      (c == ';' && (cs.drop (n - 1)).isEmpty || endsInComment (cs.drop (n - 1))) := by
  rw [endsInComment, h]

theorem endsInComment_blank (hc : isBlank c = true) (cs : List Char) :
    endsInComment (c :: cs) = endsInComment cs := by
  rw [endsInComment_skip (gap_blank hc cs), beq_semicolon_of_isBlank hc, Bool.false_and,
    Bool.false_or]
  obtain _ | ⟨d, ds⟩ := cs
  · rfl
  by_cases hd : isBlank d = true
  · -- the rest of a run of blanks is a run of blanks
    rw [endsInComment_skip (gap_blank hd ds), beq_semicolon_of_isBlank hd, List.takeWhile_cons,
      if_pos hd]
    simp
  · simp [hd]

theorem endsInComment_unterminated (h : gap (c :: cs) = .unterminated) :
    endsInComment (c :: cs) = true := by
  rw [endsInComment, h]

/-- A comment is the last of a text and takes what is put behind it, or it is over. -/
theorem endsInComment_cases (h : gap (c :: cs) = .skip n) :
    (c = ';' ∧ cs.drop (n - 1) = [] ∧ endsInComment (c :: cs) = true) ∨
      ((c = ';' → cs.drop (n - 1) ≠ []) ∧
        endsInComment (c :: cs) = endsInComment (cs.drop (n - 1))) := by
  rw [endsInComment_skip h]
  by_cases hopen : c = ';' ∧ cs.drop (n - 1) = []
  · exact .inl ⟨hopen.1, hopen.2, by simp [hopen.1, hopen.2]⟩
  · refine .inr ⟨fun hc hdrop => hopen ⟨hc, hdrop⟩, ?_⟩
    rw [Bool.or_eq_right_iff_imp]
    intro hlast
    rw [Bool.and_eq_true, beq_iff_eq, List.isEmpty_iff] at hlast
    exact absurd hlast hopen

/-- A token does not end in a comment. -/
theorem endsInComment_text {kind : TokenKind} {text rest : List Char}
    (h : kind.SpelledBy (c :: text)) (hrest : kind.MayPrecede rest) :
    endsInComment (c :: (text ++ rest)) = endsInComment rest := by
  rw [endsInComment, h.gap_eq hrest, h rest hrest]
  simp

/-! ### Gaps in front of more text -/

/-- A comment that is over is not changed by what comes later. -/
theorem gap_skip_append (hc : isBlank c = false) (h : gap (c :: cs) = .skip n)
    (hover : c = ';' → cs.drop (n - 1) ≠ []) (ds : List Char) :
    gap (c :: (cs ++ ds)) = .skip n := by
  obtain ⟨rest, rfl, rfl, -⟩ | ⟨rest, rfl, rfl, hn⟩ | ⟨hblank, -⟩ := gap_skip_cases h
  · obtain ⟨text, after, rfl, -, htext, hend⟩ := split_line rest
    rw [gap_line htext hend] at h
    cases h
    have hafter : after ≠ [] := by simpa using hover rfl
    rw [List.cons_append, List.append_assoc]
    refine gap_line htext ?_
    rwa [List.head?_append_of_ne_nil _ hafter]
  · rw [List.cons_append, gap, blockComment?_append hn]
  · rw [hc] at hblank
    cases hblank

/-- A line comment that is not over goes on. -/
theorem gap_line_append (h : gap (';' :: cs) = .skip n) (hopen : cs.drop (n - 1) = [])
    (hds : '\n' ∉ ds) : gap (';' :: (cs ++ ds)) = .skip (n + ds.length) := by
  obtain ⟨rest, -, rfl, -⟩ | ⟨rest, hc, -⟩ | ⟨hblank, -⟩ := gap_skip_cases h
  · obtain ⟨text, after, rfl, -, htext, hend⟩ := split_line rest
    rw [gap_line htext hend] at h
    cases h
    obtain rfl : after = [] := by simpa using hopen
    have hline : gap (';' :: ';' :: (text ++ ds ++ [])) = .skip ((text ++ ds).length + 2) :=
      gap_line (by simp [htext, hds]) (by simp)
    rw [List.append_nil, List.length_append, Nat.add_right_comm] at hline
    rw [List.append_nil]
    exact hline
  · cases hc
  · cases hblank

/-- No comment starts where a parenthesis is put behind a text. -/
theorem gap_done_append (hc : isBlank c = false) (h : gap (c :: cs) = .done) :
    gap (c :: (cs ++ [')'])) = .done := by
  rw [gap_of_no_comment, if_neg (by simp [hc])]
  intro rest hrest
  obtain _ | ⟨d, cs⟩ := cs
  · cases hrest
  · cases hrest
    exact ne_of_gap_done h

/-! ### Tokens in front of more text -/

/-- A token is a parenthesis, a string literal or a row of word characters. -/
theorem shape_of_spelledBy {kind : TokenKind} {text : List Char} (h : kind.SpelledBy text) :
    text = ['('] ∨ text = [')'] ∨ (∃ bytes, StringLiteral text bytes) ∨
      ∀ c ∈ text, isIdChar c = true := by
  obtain _ | ⟨c, cs⟩ := text
  · exact h.elim
  have hresult := congrArg Lexeme.result h.read_eq
  have hsize := congrArg Lexeme.size h.read_eq
  have hall (hlength : (cs.takeWhile isIdChar).length = cs.length) :
      ∀ d ∈ cs, isIdChar d = true := by
    rw [← (List.takeWhile_prefix isIdChar).eq_of_length hlength]
    exact fun d hd => List.mem_takeWhile_imp hd
  -- a string is all of the text, as it ends at its second quote
  by_cases hquote : c = '\x22'
  · subst hquote
    obtain ⟨text, rest, bytes, htext, hliteral, -, -, hsize'⟩ := exists_of_read_quote hresult
    obtain rfl : rest = [] := by
      rw [hsize'] at hsize
      dsimp only at hsize
      rw [htext, List.length_append] at hsize
      exact List.length_eq_zero_iff.mp (by omega)
    rw [List.append_nil] at htext
    exact .inr (.inr (.inl ⟨bytes, htext ▸ hliteral⟩))
  -- otherwise a parenthesis, a name or a word, in the order they are looked for
  unfold read at hresult hsize
  split at hresult
  · next hc =>
    rw [if_pos hc] at hsize
    rw [hc, List.length_eq_zero_iff.mp (Nat.succ.inj hsize).symm]
    exact .inl rfl
  split at hresult
  · next hleft hc =>
    rw [if_neg hleft, if_pos hc] at hsize
    rw [hc, List.length_eq_zero_iff.mp (Nat.succ.inj hsize).symm]
    exact .inr (.inl rfl)
  split at hresult
  · next hleft hright hc =>
    rw [if_neg hleft, if_neg hright, if_neg hquote, if_pos hc] at hsize
    dsimp only at hresult hsize
    split at hresult
    · cases result_of_bounded hresult
    · next hne =>
      rw [if_neg hne, (boundary_of_bounded hresult).1] at hsize
      subst hc
      exact .inr (.inr (.inr (List.forall_mem_cons.mpr ⟨by decide, hall (Nat.succ.inj hsize)⟩)))
  split at hresult
  · next hleft hright hdollar hc =>
    rw [if_neg hleft, if_neg hright, if_neg hquote, if_neg hdollar, if_pos hc] at hsize
    dsimp only at hresult hsize
    split at hresult
    · next hword =>
      rw [hword] at hsize
      dsimp only at hsize
      rw [(boundary_of_bounded hresult).1, List.takeWhile_cons_of_pos hc] at hsize
      exact .inr (.inr (.inr (List.forall_mem_cons.mpr ⟨hc, hall (Nat.succ.inj hsize)⟩)))
    · cases result_of_bounded hresult
  · cases result_of_bounded hresult

/-- A closing parenthesis ends no token but itself. -/
theorem not_spelledBy_append_rightParen (kind : TokenKind) :
    ¬ kind.SpelledBy (c :: (cs ++ [')'])) := by
  intro h
  obtain hall | hall | ⟨bytes, hliteral⟩ | hid := shape_of_spelledBy h
  · simp at hall
  · simp at hall
  · generalize hall : c :: (cs ++ [')']) = all at hliteral
    obtain ⟨hbody⟩ := hliteral
    obtain ⟨-, hlast⟩ := List.append_inj' (List.cons.inj hall).2 rfl
    cases hlast
  · exact absurd (hid ')' (by simp)) (by decide)

/-- A closing parenthesis may be put behind what follows a token. -/
theorem mayPrecede_append_rightParen {kind : TokenKind} {rest : List Char} :
    kind.MayPrecede (rest ++ [')']) ↔ kind.MayPrecede rest := by
  obtain _ | ⟨d, rest⟩ := rest
  · exact iff_of_true (kind.mayPrecede_of_boundary (by simp [isBoundary]))
      (kind.mayPrecede_of_boundary (by simp))
  · cases kind <;> exact Iff.rfl

/-- A text of blanks, comments and tokens. -/
inductive IsLexed : List Char → Prop
  | nil : IsLexed []
  | blank {c : Char} {cs : List Char} (hc : isBlank c = true) (h : IsLexed cs) : IsLexed (c :: cs)
  | comment {c : Char} {cs : List Char} {n : Nat} (hc : isBlank c = false)
    (hgap : gap (c :: cs) = .skip n) (h : IsLexed (cs.drop (n - 1))) : IsLexed (c :: cs)
  | token {kind : TokenKind} {c : Char} {text rest : List Char} (hkind : kind ≠ .reserved)
    (hspelled : kind.SpelledBy (c :: text)) (hrest : kind.MayPrecede rest) (h : IsLexed rest) :
    IsLexed (c :: (text ++ rest))

/-- A parenthesis is not missed where it is taken away, unless it ends a comment. -/
theorem IsLexed.of_append_rightParen {all : List Char} (h : IsLexed all) (hall : all = cs ++ [')'])
    (hclosed : endsInComment cs = false) : IsLexed cs := by
  -- on what the longer text is made of: only the piece that holds its end may change
  induction h generalizing cs with
  | nil => simp at hall
  | @blank c rest hc _ ih =>
    obtain _ | ⟨c', cs⟩ := cs
    · exact .nil
    obtain ⟨rfl, rfl⟩ := List.cons.inj hall
    rw [endsInComment_blank hc] at hclosed
    exact .blank hc (ih rfl hclosed)
  | @comment c rest n hc hgap _ ih =>
    obtain _ | ⟨c', cs⟩ := cs
    · exact .nil
    obtain ⟨rfl, rfl⟩ := List.cons.inj hall
    rcases hgap' : gap (c :: cs) with m | _ | _
    · obtain ⟨-, -, hends⟩ | ⟨hover, hends⟩ := endsInComment_cases hgap'
      · rw [hends] at hclosed
        cases hclosed
      · obtain rfl : m = n := Gap.skip.inj ((gap_skip_append hc hgap' hover _).symm.trans hgap)
        have hm : m - 1 ≤ cs.length := Nat.sub_le_of_le_add (gap_skip_bounds hgap').2
        rw [hends] at hclosed
        exact .comment hc hgap' (ih (List.drop_append_of_le_length hm) hclosed)
    · rw [endsInComment_unterminated hgap'] at hclosed
      cases hclosed
    · cases (gap_done_append hc hgap').symm.trans hgap
  | @token kind c text rest hkind hspelled hrest _ ih =>
    obtain _ | ⟨c', cs⟩ := cs
    · exact .nil
    obtain ⟨rfl, htail⟩ := List.cons.inj hall
    -- no token of more than one character ends in a parenthesis, so it is in the rest
    rcases List.eq_nil_or_concat rest with rfl | ⟨rest, d, rfl⟩
    · rw [List.append_nil] at htail
      rw [htail] at hspelled
      exact absurd hspelled (not_spelledBy_append_rightParen kind)
    · rw [List.concat_eq_append] at htail hrest ih
      rw [← List.append_assoc] at htail
      obtain ⟨rfl, hd⟩ := List.append_inj' htail rfl
      cases hd
      rw [mayPrecede_append_rightParen] at hrest
      rw [endsInComment_text hspelled hrest] at hclosed
      exact .token hkind hspelled hrest (ih rfl hclosed)

end Lexeme

namespace Item

variable {p : Pos} {c : Char} {cs : List Char}

/-- A text is lexed without problems if it is made of blanks, comments and tokens. -/
theorem problems_ofChars_iff (p : Pos) (cs : List Char) :
    problems (ofChars p cs) = [] ↔ IsLexed cs := by
  constructor
  · intro hok
    induction p, cs using ofChars_induction with
    | nil p => exact .nil
    | blank p c cs hc ih =>
      rw [ofChars_blank p hc] at hok
      exact .blank hc (ih hok)
    | comment p c cs n hc hgap ih =>
      rw [ofChars_comment p hgap] at hok
      exact .comment hc hgap (ih hok)
    | unterminated p c cs hgap =>
      rw [ofChars_unterminated p hgap] at hok
      cases hok
    | lexeme p c cs hc hgap ih =>
      rw [ofChars_lexeme p hgap, problems_append, List.append_eq_nil_iff] at hok
      -- a lexeme without a problem is a token, and lexing goes on where its text ends
      obtain ⟨kind, hread, hone⟩ := ofLexeme_of_problems hok.1
      obtain ⟨text, rest, rfl, hsize, hspelled⟩ := exists_text_of_read hread
      have hrest := TokenKind.mayPrecede_of_read hread hgap
      have ih := ih hok.2
      rw [hsize, Nat.add_sub_cancel, List.drop_left] at hrest ih
      refine .token ?_ hspelled hrest ih
      rintro rfl
      rw [hread] at hone
      cases hone
  · intro h
    induction h generalizing p with
    | nil => rw [ofChars]; rfl
    | blank hc _ ih =>
      rw [ofChars_blank p hc]
      exact ih _
    | comment hc hgap _ ih =>
      rw [ofChars_comment p hgap]
      exact ih _
    | @token kind c text rest hkind hspelled hrest _ ih =>
      rw [← List.cons_append, ofChars_text p hspelled hrest, ofLexeme_ok hkind, problems_append,
        ih, problems_ok]
      rfl

/-- A closing parenthesis behind a text is one more token, or it is taken by a comment. -/
theorem ofChars_append_rightParen (h : IsLexed cs) (p : Pos) :
    ∃ right : Token, right.kind = .rightParen ∧ ofChars p (cs ++ [')']) =
      ofChars p cs ++ if endsInComment cs then [] else [.ok right] := by
  induction h generalizing p with
  | nil =>
    refine ⟨⟨.rightParen, ⟨")", p.offset⟩, p.spanTo (p.next ')')⟩, rfl, ?_⟩
    rw [List.nil_append, ofChars_rightParen, ofChars, endsInComment, ofChars]
    rfl
  | blank hc _ ih =>
    rw [List.cons_append, ofChars_blank p hc, ofChars_blank p hc, endsInComment_blank hc]
    exact ih _
  | @comment c cs n hc hgap _ ih =>
    rw [List.cons_append]
    obtain ⟨rfl, hdrop, hends⟩ | ⟨hover, hends⟩ := endsInComment_cases hgap
    · -- the line comment takes the parenthesis, and nothing is left either way
      have hline := gap_line_append hgap hdrop (show '\n' ∉ [')'] by decide)
      have hdrop' : (cs ++ [')']).drop (n + [')'].length - 1) = [] := by
        have hpos := (gap_skip_bounds hgap).1
        have hle := List.drop_eq_nil_iff.mp hdrop
        rw [List.drop_eq_nil_iff, List.length_append, List.length_singleton]
        omega
      refine ⟨⟨.rightParen, ⟨")", 0⟩, .origin⟩, rfl, ?_⟩
      rw [ofChars_comment p hline, ofChars_comment p hgap, hends, hdrop, hdrop', ofChars, ofChars]
      rfl
    · have hn : n - 1 ≤ cs.length := Nat.sub_le_of_le_add (gap_skip_bounds hgap).2
      rw [ofChars_comment p (gap_skip_append hc hgap hover _), ofChars_comment p hgap, hends,
        List.take_append_of_le_length hn, List.drop_append_of_le_length hn]
      exact ih _
  | @token kind c text rest hkind hspelled hrest _ ih =>
    obtain ⟨right, hright, ih⟩ := ih (p.after (c :: text))
    refine ⟨right, hright, ?_⟩
    have hrest' := mayPrecede_append_rightParen.mpr hrest
    rw [endsInComment_text hspelled hrest, ← List.cons_append, List.append_assoc,
      ofChars_text p hspelled hrest', ofChars_text p hspelled hrest, ih, List.append_assoc]

end Item

end WasmText
