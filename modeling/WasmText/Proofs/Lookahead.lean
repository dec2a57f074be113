import WasmText.Proofs.LiveReading

/-!
# Looking ahead is exact

To see the keyword of the next form a live reader runs its lexer on and takes it back
(`LiveReader.peekKeyword`). The reader is then what it was, so no operation after it can tell. What
was seen is what the next reading finds, although that goes another way: it logs the problems that
were passed over, and puts the tokens in lists.
-/

namespace WasmText

namespace LiveReader

variable {r : LiveReader} {q : Reader} {f : Form}

/-! ## Reading on from a left parenthesis -/

/-- A reading that meets a left parenthesis first reads the list that it opens. -/
theorem readContinuation_of_leftParen (hfinished : r.finished = false)
    (hleft : r.nextToken.1.kind = .leftParen) :
    r.readContinuation = r.nextToken.2.readList ⟨r.nextToken.1.span, []⟩ [] := by
  rw [readContinuation, read, hfinished, readTopLevel]
  simp only [hleft, reduceCtorEq, dite_false, start, Bool.false_eq_true, if_false, Bool.not_false,
    Bool.or_true, if_true]
  rcases r.nextToken.2.readList ⟨r.nextToken.1.span, []⟩ [] with ⟨_ | f, r'⟩ <;> rfl

/-- The next token is the next of the pending ones, and the end of the source if there is none. -/
theorem StandsFor.nextToken (h : r.StandsFor q) (hfinished : q.finished = false) :
    (∃ items log, Reader.nextToken? q.pending = some (r.nextToken.1, items) ∧
        r.nextToken.2.StandsFor { q with pending := items, log }) ∨
      (Reader.nextToken? q.pending = none ∧ r.nextToken.1.kind = .eof) := by
  obtain ⟨src, items, log, finished⟩ := q
  obtain rfl : finished = false := hfinished
  induction items generalizing r log with
  | nil => exact .inr ⟨rfl, by rw [(h.nextToken_nil rfl rfl).1]; rfl⟩
  | cons i items ih =>
    obtain p | t := i
    · obtain ⟨r', hnext, hr'⟩ := h.nextToken_error rfl
      rw [hnext]
      exact ih _ hr'
    · obtain ⟨rfl, hr'⟩ := h.nextToken_ok rfl
      exact .inl ⟨items, log, rfl, hr'⟩

/-- A keyword is seen ahead only behind a left parenthesis. -/
theorem StandsFor.leftParen_of_peek (h : r.StandsFor q) (hfinished : q.finished = false)
    {word : Keyword} (hpeek : r.peekKeyword.1 = some word) : r.nextToken.1.kind = .leftParen := by
  rw [h.peekKeyword, Reader.peekKeyword?_eq, Reader.peekIn] at hpeek
  split at hpeek
  · next hnext =>
    obtain ⟨items, log, hfirst, -⟩ | ⟨hnone, -⟩ := h.nextToken hfinished
    · rw [hfirst] at hnext
      rw [(Prod.mk.inj (Option.some.inj hnext)).1]
    · rw [hnone] at hnext
      cases hnext
  · cases hpeek

/-- Where a left parenthesis comes next, the form that is read has the head that is seen ahead. -/
theorem StandsFor.headKeyword?_eq (h : r.StandsFor q) (hfinished : q.finished = false)
    (hleft : r.nextToken.1.kind = .leftParen) (hread : r.readContinuation.1 = some f) :
    f.headKeyword? = r.peekKeyword.1 := by
  obtain ⟨items, log, hnext, hstate⟩ | ⟨-, heof⟩ := h.nextToken hfinished
  · rw [readContinuation_of_leftParen (h.finished_eq.trans hfinished) hleft,
      (readList_standsFor hstate hfinished _ _).1] at hread
    -- the list is an entry, and its left parenthesis the first of its items
    have hend : (Reader.readList q.source log ⟨r.nextToken.1.span, []⟩ [] items).listEnd =
        .form f := by
      revert hread
      cases (Reader.readList q.source log ⟨r.nextToken.1.span, []⟩ [] items).listEnd with
      | form g =>
        rintro ⟨⟩
        rfl
      | _ => exact nofun
    obtain ⟨e, rfl, hitems⟩ := Reader.exists_entry_of_readList q.source log hleft hend
    have hbody : items = e.body ++ .ok e.right ::
        (Reader.readList q.source log ⟨r.nextToken.1.span, []⟩ [] items).rest := by
      obtain ⟨_ | ⟨p, before⟩, left, body, right, inner, _⟩ := e
      · simpa [Reader.Entry.items] using (List.cons.inj hitems).2
      · cases hitems
    rw [h.peekKeyword, Reader.peekKeyword?_of_left hnext hleft, hbody,
      Reader.keywordOf?_nextToken? e.spells e.right_kind (e.left.span.join e.right.span)]
    rfl
  · rw [hleft] at heof
    cases heof

/-! ## What is seen and what is read -/

theorem step_peek (r : LiveReader) : r.step .peek = (.keyword r.peekKeyword.1, r) := by
  show (Reader.Answer.keyword r.peekKeyword.1, r.peekKeyword.2) = _
  rw [peekKeyword_snd]

/-- In every state a reader comes to, looking ahead leaves it as it is, and so changes nothing that
any operations after it answer, log or count. A keyword is seen exactly if the lexer's next tokens
are a left parenthesis and that keyword. If one is seen, the next reading starts at once with the
list that opens there, and a form that it finds has this keyword as its head. If none is seen and
the next reading starts at a left parenthesis, a form that it finds has no keyword as its head. -/
theorem peekKeyword_exact (src : Source) (before : List Reader.Op) :
    let r := ((ofSource src).run before).2
    r.peekKeyword.2 = r ∧
      (∀ ops, r.run (.peek :: ops) =
        (.keyword r.peekKeyword.1 :: (r.run ops).1, (r.run ops).2)) ∧
      (∀ word, r.peekKeyword.1 = some word ↔
        ∃ n t m u, r.lexer.Comes n t ∧ t.kind = .leftParen ∧
          (r.lexer.after (n + 1)).Comes m u ∧ u.kind = .keyword word) ∧
      (∀ word, r.peekKeyword.1 = some word → r.finished = false →
        r.nextToken.1.kind = .leftParen ∧
        r.readContinuation = r.nextToken.2.readList ⟨r.nextToken.1.span, []⟩ [] ∧
        ∀ f, r.readContinuation.1 = some f → f.headKeyword? = some word) ∧
      (r.peekKeyword.1 = none → r.nextToken.1.kind = .leftParen →
        ∀ f, r.readContinuation.1 = some f → f.headKeyword? = none) := by
  intro r
  have hstands := ((StandsFor.ofSource src).run before).2
  refine ⟨r.peekKeyword_snd, fun ops => ?_, fun word => Lexer.peekKeyword_eq_some_iff,
    fun word hpeek hfinished => ?_, fun hpeek hleft f hread => ?_⟩
  · rw [run, step_peek]
  · have hunfinished := hstands.finished_eq.symm.trans hfinished
    have hleft := hstands.leftParen_of_peek hunfinished hpeek
    exact ⟨hleft, readContinuation_of_leftParen hfinished hleft,
      fun f hread => (hstands.headKeyword?_eq hunfinished hleft hread).trans hpeek⟩
  · obtain hfinished | hfinished := Bool.eq_false_or_eq_true r.finished
    · rw [readContinuation, read, if_pos hfinished] at hread
      cases hread
    · exact (hstands.headKeyword?_eq (hstands.finished_eq.symm.trans hfinished) hleft hread).trans
        hpeek

end LiveReader

end WasmText
