import WasmText.Proofs.Located

/-!
# Nothing of a source is lost

A source without lexical problems is its tokens with gaps between them. What a gap may hold is said
here without counting levels or characters: blanks, line comments up to the end of their line, and
block comments, whose text is cut at each `(;` and `;)` into comments inside it and its own end
(`CommentText`). `Spaced` then goes through a source token by token, and `Source.tokens_lossless`
says that lexing gives the tokens that stand in the source, with their places.
-/

namespace WasmText

open Lexeme

/-! ## Gaps -/

/-- The text of a block comment after its opening, with its end. -/
inductive CommentText : List Char → Prop
  | close : CommentText [';', ')']
  | char {c : Char} {cs : List Char} (hopen : ¬ ['(', ';'] <+: c :: cs)
    (hclose : ¬ [';', ')'] <+: c :: cs) (h : CommentText cs) : CommentText (c :: cs)
  | comment {inner cs : List Char} (hinner : CommentText inner) (h : CommentText cs) :
    CommentText ('(' :: ';' :: (inner ++ cs))

/-- Blanks and comments in front of the text `rest`. -/
inductive Spacing (rest : List Char) : List Char → Prop
  | nil : Spacing rest []
  | blank {c : Char} {cs : List Char} (hc : isBlank c = true) (h : Spacing rest cs) :
    Spacing rest (c :: cs)
  /-- A line comment, which goes on to a newline or to the end of the source. -/
  | line {text cs : List Char} (htext : '\n' ∉ text) (hend : ∀ c ∈ (cs ++ rest).head?, c = '\n')
    (h : Spacing rest cs) : Spacing rest (';' :: ';' :: (text ++ cs))
  | block {text cs : List Char} (htext : CommentText text) (h : Spacing rest cs) :
    Spacing rest ('(' :: ';' :: (text ++ cs))

/-- The text from byte `n` of a source on is made of some tokens, each after a gap. A token other
than a parenthesis is followed by a boundary or by nothing. -/
inductive Spaced : Nat → List Char → List Token → Prop
  | nil (n : Nat) : Spaced n [] []
  | token {n : Nat} {gap text rest : List Char} {t : Token} {ts : List Token}
    (hgap : Spacing (text ++ rest) gap) (htext : t.text = String.ofList text)
    (hstart : t.span.start = n + Slice.byteSize gap)
    (hstop : t.span.stop = t.span.start + Slice.byteSize text)
    (hboundary : t.kind ≠ .leftParen → t.kind ≠ .rightParen →
      ∀ c ∈ rest.head?, isBlank c = true ∨ c = '(' ∨ c = ')' ∨ c = ';')
    (h : Spaced t.span.stop rest ts) : Spaced n (gap ++ (text ++ rest)) (t :: ts)

/-- A block comment of which some levels are open holds the rest of as many comments. -/
theorem commentTexts_of_blockComment? {d n m : Nat} {cs : List Char}
    (h : blockComment? d n cs = some m) :
    ∃ (texts : List (List Char)) (rest : List Char), texts.length = d ∧
      (∀ text ∈ texts, CommentText text) ∧ cs = texts.flatten ++ rest ∧
      m = n + texts.flatten.length := by
  fun_induction blockComment? d n cs with
  | case1 cs n =>
    cases h
    exact ⟨[], cs, rfl, by simp, rfl, rfl⟩
  | case2 => cases h
  | case3 d n cs ih =>
    -- the comment inside is the first of the rests, and the one around it goes on with the second
    obtain ⟨texts, rest, hlength, htexts, rfl, rfl⟩ := ih h
    obtain _ | ⟨inner, _ | ⟨outer, texts⟩⟩ := texts
    · cases hlength
    · cases hlength
    obtain ⟨hinner, houter, htexts⟩ : CommentText inner ∧ CommentText outer ∧
        ∀ text ∈ texts, CommentText text := by simpa using htexts
    refine ⟨('(' :: ';' :: (inner ++ outer)) :: texts, rest, by simpa using hlength, ?_, ?_, ?_⟩
    · exact List.forall_mem_cons.mpr ⟨.comment hinner houter, htexts⟩
    · simp
    · simp
      omega
  | case4 d n cs ih =>
    obtain ⟨texts, rest, hlength, htexts, rfl, rfl⟩ := ih h
    refine ⟨[';', ')'] :: texts, rest, by rw [List.length_cons, hlength], ?_, rfl, ?_⟩
    · exact List.forall_mem_cons.mpr ⟨.close, htexts⟩
    · simp
      omega
  | case5 d n c cs hopen hclose ih =>
    obtain ⟨texts, rest, hlength, htexts, rfl, rfl⟩ := ih h
    obtain _ | ⟨text, texts⟩ := texts
    · cases hlength
    obtain ⟨htext, htexts⟩ := List.forall_mem_cons.mp htexts
    refine ⟨(c :: text) :: texts, rest, hlength, ?_, rfl, ?_⟩
    · refine List.forall_mem_cons.mpr ⟨.char ?_ ?_ htext, htexts⟩
      · rintro ⟨tail, heq⟩
        cases heq
        exact hopen _ rfl rfl
      · rintro ⟨tail, heq⟩
        cases heq
        exact hclose _ rfl rfl
    · simp
      omega

/-- A line comment takes the text up to the next newline or to the end. -/
theorem split_line (cs : List Char) :
    ∃ text after, cs = text ++ after ∧ cs.takeWhile (· != '\n') = text ∧ '\n' ∉ text ∧
      ∀ c ∈ after.head?, c = '\n' := by
  refine ⟨_, cs.dropWhile (· != '\n'), List.takeWhile_append_dropWhile.symm, rfl, ?_, ?_⟩
  · intro hmem
    exact absurd (List.mem_takeWhile_imp hmem) (by decide)
  · intro c hc
    have hhead := List.head?_dropWhile_not (· != '\n') cs
    rw [Option.mem_def.mp hc] at hhead
    simpa using hhead

/-- What is passed over in front of a text is a gap, together with any gap that stands there. -/
theorem Spacing.of_gap {c : Char} {cs : List Char} {n : Nat} (hc : isBlank c = false)
    (h : gap (c :: cs) = .skip n) {rest more : List Char} (hdrop : cs.drop (n - 1) = more ++ rest)
    (hmore : Spacing rest more) : Spacing rest (c :: (cs.take (n - 1) ++ more)) := by
  obtain ⟨cs, rfl, rfl, rfl⟩ | ⟨cs, rfl, rfl, hn⟩ | ⟨hblank, -⟩ := gap_skip_cases h
  · obtain ⟨text, after, rfl, htake, htext, hend⟩ := split_line cs
    rw [htake, show 2 + text.length - 1 = text.length + 1 by omega, List.drop_succ_cons,
      List.drop_left] at hdrop
    rw [htake, show 2 + text.length - 1 = text.length + 1 by omega, List.take_succ_cons,
      List.take_left]
    rw [hdrop] at hend
    exact .line htext hend hmore
  · obtain ⟨texts, after, hlength, htexts, rfl, rfl⟩ := commentTexts_of_blockComment? hn
    obtain ⟨text, rfl⟩ := List.length_eq_one_iff.mp hlength
    rw [List.flatten_singleton] at hdrop ⊢
    rw [show 2 + text.length - 1 = text.length + 1 by omega, List.drop_succ_cons,
      List.drop_left] at hdrop
    rw [show 2 + text.length - 1 = text.length + 1 by omega, List.take_succ_cons, List.take_left]
    exact .block (htexts text (List.mem_singleton_self text)) hmore
  · rw [hc] at hblank
    cases hblank

/-! ## Sources without lexical problems -/

/-- A stretch that makes any gap behind it longer may stand in front of the first token. -/
theorem Spaced.prepend {n : Nat} (before : List Char) {cs : List Char} {ts : List Token}
    (h : Spaced (n + Slice.byteSize before) cs ts) (hts : ts ≠ [])
    (hbefore : ∀ gap rest, cs = gap ++ rest → Spacing rest gap → Spacing rest (before ++ gap)) :
    Spaced n (before ++ cs) ts := by
  cases h with
  | nil => exact absurd rfl hts
  | @token _ gap text rest t ts hgap htext hstart hstop hboundary h =>
    rw [← List.append_assoc]
    refine .token (hbefore gap _ rfl hgap) htext ?_ hstop hboundary h
    rw [hstart, Slice.byteSize_append, Nat.add_assoc]

/-- A token without a gap before it. -/
theorem Spaced.token_now {p : Pos} {text rest : List Char} {kind : TokenKind} {ts : List Token}
    (hboundary : kind ≠ .leftParen → kind ≠ .rightParen →
      ∀ c ∈ rest.head?, isBoundary c = true)
    (h : Spaced (p.after text).offset rest ts) :
    Spaced p.offset (text ++ rest)
      (⟨kind, ⟨String.ofList text, p.offset⟩, p.spanTo (p.after text)⟩ :: ts) := by
  rw [← List.nil_append (text ++ rest)]
  refine .token .nil rfl rfl (p.offset_after text) (fun hleft hright c hc => ?_) h
  simpa [isBoundary, or_assoc] using hboundary hleft hright c hc

namespace Item

/-- The only item of a lexeme that gives no problem is its token. -/
theorem ofLexeme_of_no_problem {p : Pos} {taken : List Char} {result : Except Refusal TokenKind}
    {items : List Item} {ts : List Token} (h : ofLexeme p taken result ++ items = ts.map .ok) :
    ∃ kind ts', result = .ok kind ∧ items = ts'.map .ok ∧
      ts = ⟨kind, ⟨String.ofList taken, p.offset⟩, p.spanTo (p.after taken)⟩ :: ts' := by
  unfold ofLexeme at h
  dsimp only at h
  obtain _ | ⟨t, ts⟩ := ts
  · split at h <;> cases h
  split at h
  · cases h
  · next kind hkind =>
    obtain ⟨hhead, htail⟩ := List.cons.inj h
    cases hhead
    exact ⟨kind, ts, rfl, htail, rfl⟩
  · cases h

/-- The tokens of a text without lexical problems are what it is made of, up to its end. -/
theorem spaced_ofChars (p : Pos) (cs : List Char) (ts : List Token)
    (h : ofChars p cs ++ [.ok (.eof (p.after cs))] = ts.map .ok) : Spaced p.offset cs ts := by
  have hts : ts ≠ [] := by
    rintro rfl
    simp at h
  -- blanks and comments go to the gap in front of the next token, which may be the end
  induction p, cs using ofChars_induction generalizing ts with
  | nil p =>
    rw [ofChars] at h
    obtain _ | ⟨t, _ | ⟨u, ts⟩⟩ := ts
    · exact absurd rfl hts
    · cases h
      have hend : Spaced p.offset ([] ++ []) [.eof p] := .token_now (by simp) (.nil _)
      exact hend
    · cases h
  | blank p c cs hc ih =>
    rw [ofChars_blank p hc] at h
    have htail : Spaced (p.offset + Slice.byteSize [c]) cs ts := by
      simpa [Pos.offset_next] using ih ts h hts
    refine htail.prepend [c] hts ?_
    rintro gap rest rfl hgap
    exact .blank hc hgap
  | comment p c cs n hc hgap ih =>
    rw [ofChars_comment p hgap] at h
    have htail := ih ts (by rwa [p.after_take_drop]) hts
    rw [p.offset_after] at htail
    have hwhole := htail.prepend _ hts fun more rest => Spacing.of_gap hc hgap
    rwa [List.cons_append, List.take_append_drop] at hwhole
  | unterminated p c cs hgap =>
    rw [ofChars_unterminated p hgap] at h
    obtain _ | ⟨t, ts⟩ := ts
    · cases h
    · cases h
  | lexeme p c cs hc hgap ih =>
    rw [ofChars_lexeme p hgap, List.append_assoc] at h
    obtain ⟨kind, ts, hread, hrest, rfl⟩ := ofLexeme_of_no_problem h
    have hts' : ts ≠ [] := by
      rintro rfl
      simp at hrest
    have htail := ih ts (by rwa [p.after_take_drop]) hts'
    have hwhole := Spaced.token_now (boundary_of_read hread) htail
    rwa [List.cons_append, List.take_append_drop] at hwhole

end Item

/-! ## Where items stand -/

/-- An item stands in a source: its span covers the text `body` after the text `front`. -/
structure Item.StandsAt (src : Source) (i : Item) (front body : List Char) : Prop where
  chars : front ++ body <+: src.chars
  start : i.span.start = Slice.byteSize front
  stop : i.span.stop = Slice.byteSize (front ++ body)
  line : i.span.line = 1 + front.count '\n'
  column : i.span.column = 1 + (front.rtakeWhile (· != '\n')).length
  /-- A token is made of the text that its span covers, and knows where it starts. -/
  token : ∀ t, i = .ok t →
    t.text.toList = body ∧ src.slice? t.span = some body ∧ t.source.offset = t.span.start

namespace Source

theorem standsAt_of_mem_tokens {src : Source} {i : Item} (hi : i ∈ src.tokens) :
    ∃ front body, i.StandsAt src front body := by
  obtain ⟨front, body, back, hchars, hspan, htoken⟩ := cutFrom_of_mem_tokens hi
  have hstart : i.span.start = Slice.byteSize front := by
    rw [hspan]
    exact (Pos.start.offset_after front).trans (Nat.zero_add _)
  have hstop : i.span.stop = Slice.byteSize (front ++ body) := by
    rw [hspan]
    exact (Pos.start.offset_after (front ++ body)).trans (Nat.zero_add _)
  refine ⟨front, body, ⟨⟨back, by rw [hchars, List.append_assoc]⟩, hstart, hstop, ?_, ?_, ?_⟩⟩
  · rw [hspan, Pos.spanTo, Pos.line_after]
    rfl
  · rw [hspan, Pos.spanTo, Pos.column_after_start]
  · rintro t rfl
    refine ⟨?_, slice?_of_append hchars hstart hstop, ?_⟩
    · rw [Token.text, htoken t rfl, String.toList_ofList]
    · rw [htoken t rfl]
      exact congrArg Span.start hspan.symm

/-- Lexing loses nothing and places everything: every item covers a stretch of whole characters
whose line and column are counted from the text before it, items start in order and tokens do not
overlap, and a source without lexical problems is made of the texts of its tokens with gaps between
them. No line or column is greater than the number of bytes by more than one. -/
theorem tokens_lossless (src : Source) :
    (∀ i ∈ src.tokens, i.span.start ≤ i.span.stop ∧ i.span.stop ≤ src.size ∧
      i.span.line ≤ src.size + 1 ∧ i.span.column ≤ src.size + 1 ∧
      ∃ front body, i.StandsAt src front body) ∧
    (src.tokens.Pairwise fun i j => i.span.start ≤ j.span.start ∧
      ∀ t u, i = .ok t → j = .ok u → t.span.stop ≤ u.span.start) ∧
    ∀ ts, src.tokens = ts.map .ok → Spaced 0 src.chars ts := by
  refine ⟨fun i hi => ?_, pairwise_tokens src, fun ts => Item.spaced_ofChars .start src.chars ts⟩
  obtain ⟨front, body, h⟩ := standsAt_of_mem_tokens hi
  obtain ⟨back, hback⟩ := h.chars
  have hsize : Slice.byteSize front + Slice.byteSize body ≤ src.size := by
    rw [size, ← hback, Slice.byteSize_append, Slice.byteSize_append]
    exact Nat.le_add_right ..
  have hfront := Slice.length_le_byteSize front
  have hlines : front.count '\n' ≤ front.length := List.count_le_length
  have hcolumns : (front.rtakeWhile (· != '\n')).length ≤ front.length :=
    (List.rtakeWhile_suffix _ _).length_le
  have hstop := h.stop
  rw [Slice.byteSize_append] at hstop
  rw [h.line, h.column, h.start, hstop]
  exact ⟨by omega, by omega, by omega, by omega, front, body, h⟩

/-- A comment around a comment, and one up to the end of its line, stand between the tokens. -/
theorem tokens_lossless_comments :
    let src : Source := ⟨"t", "(nop(;(;;);)) ;;"⟩
    let ts : List Token :=
      [⟨.leftParen, ⟨"(", 0⟩, ⟨0, 1, 1, 1⟩⟩, ⟨.opcode .nop, ⟨"nop", 1⟩, ⟨1, 4, 1, 2⟩⟩,
        ⟨.rightParen, ⟨")", 12⟩, ⟨12, 13, 1, 13⟩⟩, .eof ⟨16, 1, 17⟩]
    src.tokens = ts.map .ok ∧ Spaced 0 src.chars ts := by
  intro src ts
  have htokens : src.tokens = ts.map .ok := by decide +kernel
  exact ⟨htokens, (tokens_lossless src).2.2 ts htokens⟩

end Source

end WasmText
