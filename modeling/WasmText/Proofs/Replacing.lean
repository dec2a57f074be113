import WasmText.Proofs.OneModule
import WasmText.Proofs.Printing
import WasmText.Proofs.SameTokens
import WasmText.Proofs.Spacing

/-!
# Sources with one word replaced

One word of a source gives way to another. What stands in front of it is lexed as before, as no gap
and no token but a parenthesis can end where a word starts, and behind it only places change. So the
forms of the source are the same forms with one token replaced, but for the places, and a source
that is accepted stays so if these forms are a module (`Module.parse_replaced`).
-/

namespace WasmText

open Lexeme

/-! ## Gaps -/

theorem CommentText.ne_nil {text : List Char} (h : CommentText text) : text ≠ [] := by
  cases h <;> simp

/-- A block comment ends where its text does. -/
theorem CommentText.blockComment?_append {text : List Char} (h : CommentText text) (d n : Nat)
    (rest : List Char) :
    blockComment? (d + 1) n (text ++ rest) = blockComment? d (n + text.length) rest := by
  induction h generalizing d n rest with
  | close => rfl
  | @char c cs hopen hclose h ih =>
    obtain ⟨c', cs, rfl⟩ := List.exists_cons_of_ne_nil h.ne_nil
    rw [List.cons_append, blockComment?, ih, Nat.add_assoc, Nat.add_comm 1]
    · rfl
    · rintro rest' rfl hrest
      obtain ⟨rfl, -⟩ := List.cons.inj hrest
      exact hopen ⟨cs, rfl⟩
    · rintro rest' rfl hrest
      obtain ⟨rfl, -⟩ := List.cons.inj hrest
      exact hclose ⟨cs, rfl⟩
  | @comment inner cs _ _ ihinner ih =>
    rw [List.cons_append, List.cons_append, blockComment?, List.append_assoc, ihinner, ih]
    congr 1
    simp only [List.length_cons, List.length_append]
    omega

/-- A line comment goes on to the next newline or to the end. -/
theorem Lexeme.gap_line {text after : List Char} (htext : '\n' ∉ text)
    (hend : ∀ c ∈ after.head?, c = '\n') :
    gap (';' :: ';' :: (text ++ after)) = .skip (text.length + 2) := by
  have htake : (text ++ after).takeWhile (· != '\n') = text :=
    takeWhile_stretch (fun c hc => bne_iff_ne.mpr fun heq => htext (heq ▸ hc))
      fun c hc => by simp [hend c hc]
  rw [gap, htake, Nat.add_comm]

/-- Gaps are passed over. -/
theorem Spacing.ofChars_append {rest gap : List Char} (h : Spacing rest gap) (p : Pos) :
    Item.ofChars p (gap ++ rest) = Item.ofChars (p.after gap) rest := by
  induction h generalizing p with
  | nil => rfl
  | blank hc _ ih =>
    rw [List.cons_append, Item.ofChars_blank p hc, ih]
    rfl
  | @line text cs htext hend _ ih =>
    rw [List.cons_append, List.cons_append, List.append_assoc,
      Item.ofChars_comment p (gap_line htext hend)]
    simp only [Nat.add_succ_sub_one, List.take_succ_cons, List.take_left,
      List.drop_succ_cons, List.drop_left]
    rw [ih, ← Pos.after_append]
    rfl
  | @block text cs htext _ ih =>
    have hgap : Lexeme.gap ('(' :: ';' :: (text ++ (cs ++ rest))) = .skip (text.length + 2) := by
      rw [Lexeme.gap, htext.blockComment?_append, blockComment?, Nat.add_comm]
    rw [List.cons_append, List.cons_append, List.append_assoc, Item.ofChars_comment p hgap]
    simp only [Nat.add_succ_sub_one, List.take_succ_cons, List.take_left,
      List.drop_succ_cons, List.drop_left]
    rw [ih, ← Pos.after_append]
    rfl

/-- A gap in front of a text is one in front of any other that is no worse an end to a line. -/
theorem Spacing.of_rest {rest rest' gap : List Char} (h : Spacing rest gap)
    (hrest : (∀ c ∈ rest.head?, c = '\n') → ∀ c ∈ rest'.head?, c = '\n') : Spacing rest' gap := by
  induction h with
  | nil => exact .nil
  | blank hc _ ih => exact .blank hc ih
  | @line text cs htext hend _ ih =>
    refine .line htext ?_ ih
    cases cs with
    | nil => exact hrest hend
    | cons => exact hend
  | block htext _ ih => exact .block htext ih

/-! ## What stands in front of a token -/

/-- A text starts with a character that ends no token. -/
def Lexeme.StartsWord (cs : List Char) : Prop := ∃ c ds, cs = c :: ds ∧ isBoundary c = false

theorem TokenKind.SpelledBy.startsWord {kind : TokenKind} {text : List Char}
    (h : kind.SpelledBy text) (hleft : kind ≠ .leftParen) (hright : kind ≠ .rightParen) :
    StartsWord text := by
  obtain _ | ⟨c, cs⟩ := text
  · exact h.elim
  have hread := h.read_eq
  refine ⟨c, cs, rfl, Bool.eq_false_iff.mpr fun hc => ?_⟩
  have hresult := congrArg Lexeme.result hread
  refine not_ok_of_isBoundary hc ?_ ?_ hresult
  · rintro rfl
    rw [Lexeme.read, if_pos rfl] at hresult
    exact hleft (Except.ok.inj hresult).symm
  · rintro rfl
    rw [Lexeme.read, if_neg (by decide), if_pos rfl] at hresult
    exact hright (Except.ok.inj hresult).symm

theorem Lexeme.StartsWord.append {cs : List Char} (h : StartsWord cs) (rest : List Char) :
    StartsWord (cs ++ rest) := by
  obtain ⟨c, ds, rfl, hc⟩ := h
  exact ⟨c, ds ++ rest, rfl, hc⟩

/-- A text starts as another does, or both start with a word: what stands in front of one may stand
in front of the other. -/
def Lexeme.MayReplace (tail cs : List Char) : Prop :=
  tail.head? = cs.head? ∨ StartsWord tail ∧ StartsWord cs

theorem Lexeme.MayReplace.append_left {tail cs : List Char} (h : MayReplace tail cs)
    (before : List Char) : MayReplace (before ++ tail) (before ++ cs) := by
  cases before with
  | nil => exact h
  | cons => exact .inl rfl

/-- No line comment ends in front of a word. -/
theorem Spacing.of_mayReplace {cs tail gap : List Char} (h : Spacing cs gap)
    (htail : MayReplace tail cs) : Spacing tail gap := by
  refine h.of_rest fun hnewline => ?_
  rcases htail with hhead | ⟨-, c, ds, rfl, hc⟩
  · rw [hhead]
    exact hnewline
  · rw [hnewline c rfl] at hc
    cases hc

/-- An opening parenthesis is read where it stands. -/
theorem Lexeme.eq_of_read_leftParen {c : Char} {cs : List Char}
    (h : (read c cs).result = .ok .leftParen) : c = '(' := by
  by_contra hne
  rw [read, if_neg hne] at h
  split at h
  · cases h
  split at h
  · split at h <;> cases result_of_bounded h
  split at h
  · dsimp only at h
    split at h <;> cases result_of_bounded h
  split at h
  · dsimp only at h
    split at h
    · next kind hword =>
      obtain rfl : kind = .leftParen := Except.ok.inj (result_of_bounded h)
      exact (not_paren_of_word hword).1 rfl
    · cases result_of_bounded h
  · cases result_of_bounded h

/-- Where a lexeme stands no comment starts. -/
theorem Lexeme.ne_of_gap_done {c : Char} {cs : List Char} (h : gap (c :: ';' :: cs) = .done) :
    c ≠ ';' ∧ c ≠ '(' := by
  constructor
  · rintro rfl
    rw [gap] at h
    cases h
  · rintro rfl
    rw [gap] at h
    split at h <;> cases h

namespace TokenKind

/-- What follows a token is told from its first character, which is no part of a comment. -/
theorem mayPrecede_of_read {c : Char} {cs : List Char} {kind : TokenKind}
    (hread : (Lexeme.read c cs).result = .ok kind) (hgap : Lexeme.gap (c :: cs) = .done) :
    kind.MayPrecede (cs.drop ((Lexeme.read c cs).size - 1)) := by
  by_cases hleft : kind = .leftParen
  · subst hleft
    obtain rfl := eq_of_read_leftParen hread
    rw [Lexeme.read, if_pos rfl]
    intro hhead
    obtain ⟨rest, hrest⟩ := List.head?_eq_some_iff.mp hhead
    obtain rfl : cs = ';' :: rest := hrest
    exact (ne_of_gap_done hgap).2 rfl
  by_cases hright : kind = .rightParen
  · subst hright
    trivial
  have hboundary := boundary_of_read hread hleft hright
  cases kind with
  | leftParen => exact absurd rfl hleft
  | rightParen => trivial
  | _ => exact hboundary

/-- Only a parenthesis may stand in front of a word, and then in front of any other. -/
theorem MayPrecede.of_mayReplace {kind : TokenKind} {cs tail : List Char}
    (h : kind.MayPrecede cs) (htail : MayReplace tail cs) : kind.MayPrecede tail := by
  rcases htail with hhead | ⟨⟨c', ds', rfl, hc'⟩, c, ds, rfl, hc⟩
  · cases kind with
    | leftParen => rwa [MayPrecede, hhead]
    | rightParen => trivial
    | _ =>
      show ∀ c ∈ tail.head?, isBoundary c = true
      rw [hhead]
      exact h
  · cases kind with
    | leftParen =>
      rintro ⟨⟩
      cases hc'
    | rightParen => trivial
    | _ =>
      rw [h c rfl] at hc
      cases hc

end TokenKind

namespace Item

/-- A lexeme that gives no problem gives a token. -/
theorem ofLexeme_of_problems {p : Pos} {taken : List Char} {result : Except Refusal TokenKind}
    (h : problems (ofLexeme p taken result) = []) :
    ∃ kind, result = .ok kind ∧ ofLexeme p taken result =
      [.ok ⟨kind, ⟨String.ofList taken, p.offset⟩, p.spanTo (p.after taken)⟩] := by
  unfold ofLexeme at h ⊢
  dsimp only at h ⊢
  split at h
  · cases h
  · next kind hkind => exact ⟨kind, rfl, rfl⟩
  · cases h

/-- A text falls apart at a token: in front of it the text is lexed the same whatever replaces the
token and the rest, and the token is the same whatever replaces the rest. -/
structure SplitAt (p : Pos) (cs : List Char) (left : List Item) (t : Token) (right : List Item)
    (before after : List Char) : Prop where
  chars : cs = before ++ (t.text.toList ++ after)
  span : t.span = (p.after before).spanTo (p.after (before ++ t.text.toList))
  rest : right = ofChars (p.after (before ++ t.text.toList)) after
  follows : t.kind.MayPrecede after
  front (tail : List Char) : MayReplace tail (t.text.toList ++ after) →
    ofChars p (before ++ tail) = left ++ ofChars (p.after before) tail
  token (tail : List Char) : t.kind.MayPrecede tail →
    ofChars (p.after before) (t.text.toList ++ tail) =
      .ok t :: ofChars (p.after (before ++ t.text.toList)) tail

/-- A text may be put in front if the items of whatever goes on like the rest come after its own. -/
theorem SplitAt.prepend {p : Pos} {first cs before after : List Char} {items left right : List Item}
    {t : Token} (h : SplitAt (p.after first) cs left t right before after)
    (hfirst : ∀ tail, MayReplace tail cs →
      ofChars p (first ++ tail) = items ++ ofChars (p.after first) tail) :
    SplitAt p (first ++ cs) (items ++ left) t right (first ++ before) after where
  chars := by rw [h.chars, List.append_assoc]
  span := by rw [h.span, List.append_assoc, ← Pos.after_append, ← Pos.after_append]
  rest := by rw [h.rest, List.append_assoc, ← Pos.after_append]
  follows := h.follows
  front tail htail := by
    have hreplace := htail.append_left before
    rw [← h.chars] at hreplace
    rw [List.append_assoc, hfirst _ hreplace, h.front tail htail, ← Pos.after_append,
      List.append_assoc]
  token tail htail := by
    rw [List.append_assoc, Pos.after_append, Pos.after_append]
    exact h.token tail htail

/-- A text without lexical problems falls apart at each of its tokens. -/
theorem exists_splitAt {p : Pos} {cs : List Char} {left right : List Item} {t : Token}
    (hok : problems (ofChars p cs) = []) (h : ofChars p cs = left ++ .ok t :: right) :
    ∃ before after, SplitAt p cs left t right before after := by
  induction p, cs using ofChars_induction generalizing left with
  | nil p =>
    rw [ofChars] at h
    simp at h
  | blank p c cs hc ih =>
    rw [ofChars_blank p hc] at h hok
    obtain ⟨before, after, hsplit⟩ := ih hok h
    have hsplit : SplitAt (p.after [c]) cs left t right before after := hsplit
    have hwhole : SplitAt p ([c] ++ cs) ([] ++ left) t right ([c] ++ before) after :=
      hsplit.prepend fun tail _ => ofChars_blank p hc tail
    exact ⟨_, after, hwhole⟩
  | comment p c cs n hc hgap ih =>
    rw [ofChars_comment p hgap] at h hok
    obtain ⟨before, after, hsplit⟩ := ih hok h
    have hspacing := Spacing.of_gap hc hgap (List.nil_append _).symm .nil
    rw [List.append_nil] at hspacing
    have hwhole : SplitAt p (_ ++ _) ([] ++ left) t right (_ ++ before) after :=
      hsplit.prepend fun tail htail => (hspacing.of_mayReplace htail).ofChars_append p
    rw [List.cons_append, List.take_append_drop] at hwhole
    exact ⟨_, after, hwhole⟩
  | unterminated p c cs hgap =>
    rw [ofChars_unterminated p hgap] at hok
    cases hok
  | lexeme p c cs hc hgap ih =>
    rw [ofChars_lexeme p hgap] at h hok
    rw [problems_append, List.append_eq_nil_iff] at hok
    obtain ⟨kind, hread, hone⟩ := ofLexeme_of_problems hok.1
    obtain ⟨text, rest, rfl, hsize, hspelled⟩ := exists_text_of_read hread
    have hprecede := TokenKind.mayPrecede_of_read hread hgap
    have hsize' : (Lexeme.read c (text ++ rest)).size - 1 = text.length := by omega
    rw [hsize', List.drop_left] at hprecede
    rw [hsize', List.take_left] at hone
    simp only [hsize', List.take_left, List.drop_left] at h hok ih
    rw [hone] at h
    -- this token is read the same before whatever may follow it
    have hlexeme (tail : List Char) (htail : kind.MayPrecede tail) :
        ofChars p (c :: text ++ tail) = [.ok ⟨kind, ⟨String.ofList (c :: text), p.offset⟩,
          p.spanTo (p.after (c :: text))⟩] ++ ofChars (p.after (c :: text)) tail := by
      rw [ofChars_text p hspelled htail, ← hone, hread]
    -- the token looked for is this one or one further on
    obtain _ | ⟨i, left⟩ := left
    · obtain ⟨hhead, hrest⟩ := List.cons.inj h
      obtain rfl := Except.ok.inj hhead
      refine ⟨[], rest, ?_, ?_, ?_, hprecede, fun tail _ => rfl, ?_⟩
      all_goals rw [Token.text, String.toList_ofList]
      · rfl
      · rfl
      · exact hrest.symm
      · exact hlexeme
    · obtain ⟨rfl, hrest⟩ := List.cons.inj h
      obtain ⟨before, after, hsplit⟩ := ih hok.2 hrest
      exact ⟨_, after, hsplit.prepend fun tail htail => hlexeme tail (hprecede.of_mayReplace htail)⟩

/-! ## What stands behind a token -/

/-- Places are all that depends on where a text starts. -/
theorem unspanned_ofChars (p q : Pos) (cs : List Char) :
    (ofChars p cs).map unspanned = (ofChars q cs).map unspanned := by
  induction p, cs using ofChars_induction generalizing q with
  | nil p => rw [ofChars, ofChars]
  | blank p c cs hc ih =>
    rw [ofChars_blank p hc, ofChars_blank q hc]
    exact ih _
  | comment p c cs n _ hgap ih =>
    rw [ofChars_comment p hgap, ofChars_comment q hgap]
    exact ih _
  | unterminated p c cs hgap =>
    rw [ofChars_unterminated p hgap, ofChars_unterminated q hgap]
    rfl
  | lexeme p c cs _ hgap ih =>
    rw [ofChars_lexeme p hgap, ofChars_lexeme q hgap, List.map_append, List.map_append, ih]
    congr 1
    unfold ofLexeme
    split <;> rfl

end Item

/-! ## Forms with one token replaced -/

namespace Form

/-- One token among some forms is replaced by another. -/
inductive Replaced (t t' : Token) : List Form → List Form → Prop
  | here (rest : List Form) : Replaced t t' (.atom t :: rest) (.atom t' :: rest)
  | inside {span : Span} {items items' : List Form} (h : Replaced t t' items items')
    (rest : List Form) : Replaced t t' (.list span items :: rest) (.list span items' :: rest)
  | later (f : Form) {rest rest' : List Form} (h : Replaced t t' rest rest') :
    Replaced t t' (f :: rest) (f :: rest')

variable {t t' : Token} {forms forms' : List Form} {items items' : List Item}

namespace Replaced

theorem append_left (h : Replaced t t' forms forms') (before : List Form) :
    Replaced t t' (before ++ forms) (before ++ forms') := by
  induction before with
  | nil => exact h
  | cons f before ih => exact .later f ih

theorem depthAll_eq (h : Replaced t t' forms forms') : depthAll forms' = depthAll forms := by
  induction h with
  | here => rfl
  | inside _ _ ih => rw [depthAll, depthAll, depth, depth, ih]
  | later _ _ ih => rw [depthAll, depthAll, ih]

/-- A row of lists stays one. -/
theorem lists (h : Replaced t t' forms forms') (hlists : ∀ f ∈ forms, f.items?.isSome = true) :
    ∀ f ∈ forms', f.items?.isSome = true := by
  induction h with
  | here => exact absurd (hlists _ List.mem_cons_self) (by simp [items?])
  | inside => exact List.forall_mem_cons.mpr ⟨rfl, (List.forall_mem_cons.mp hlists).2⟩
  | later _ _ ih =>
    obtain ⟨hf, hrest⟩ := List.forall_mem_cons.mp hlists
    exact List.forall_mem_cons.mpr ⟨hf, ih hrest⟩

end Replaced

/-- The token is one of the items that spell the forms, and its replacement takes its place. -/
theorem Spells.replaced (h : Spells items forms) (hreplaced : Replaced t t' forms forms')
    (hleft' : t'.kind ≠ .leftParen) (hright' : t'.kind ≠ .rightParen) :
    ∃ left right, items = left ++ .ok t :: right ∧ t.kind ≠ .leftParen ∧ t.kind ≠ .rightParen ∧
      Spells (left ++ .ok t' :: right) forms' := by
  induction h generalizing forms' with
  | nil => cases hreplaced
  | @problem p _ _ _ ih =>
    obtain ⟨left, right, rfl, hleft, hright, h⟩ := ih hreplaced
    exact ⟨.error p :: left, right, rfl, hleft, hright, .problem h⟩
  | @atom u items _ hleft hright h ih =>
    cases hreplaced with
    | here => exact ⟨[], items, rfl, hleft, hright, .atom hleft' hright' h⟩
    | later _ hreplaced =>
      obtain ⟨left, right, rfl, htleft, htright, h⟩ := ih hreplaced
      exact ⟨.ok u :: left, right, rfl, htleft, htright, .atom hleft hright h⟩
  | @list first last body items _ _ hfirst hlast hbody h ihbody ih =>
    cases hreplaced with
    | inside hreplaced =>
      obtain ⟨left, right, rfl, hleft, hright, hinner⟩ := ihbody hreplaced
      refine ⟨.ok first :: left, right ++ .ok last :: items, by simp, hleft, hright, ?_⟩
      have hlist := Spells.list hfirst hlast hinner h
      rwa [List.append_assoc, List.cons_append] at hlist
    | later _ hreplaced =>
      obtain ⟨left, right, rfl, hleft, hright, h⟩ := ih hreplaced
      refine ⟨.ok first :: (body ++ .ok last :: left), right, by simp, hleft, hright, ?_⟩
      have hlist := Spells.list hfirst hlast hbody h
      simpa using hlist

theorem kind_eq_of_unspanned {t u : Token} (h : Item.unspanned (.ok t) = Item.unspanned (.ok u)) :
    t.kind = u.kind := by
  have hkind := congrArg Token.kind (Except.ok.inj h)
  exact hkind

/-- Items that differ in their places spell forms that do. -/
theorem Spells.exists_unspanned (h : Spells items forms)
    (hsame : items'.map Item.unspanned = items.map Item.unspanned) :
    ∃ forms', Spells items' forms' ∧ forms'.map unspanned = forms.map unspanned := by
  -- places change no kind, so each item has the part that its counterpart has
  induction h generalizing items' with
  | nil =>
    obtain rfl := List.map_eq_nil_iff.mp hsame
    exact ⟨[], .nil, rfl⟩
  | problem _ ih =>
    obtain ⟨i, items', rfl, hi, hsame⟩ := List.map_eq_cons_iff.mp hsame
    obtain ⟨forms', h', hforms⟩ := ih hsame
    cases i with
    | ok => cases hi
    | error p => exact ⟨forms', .problem h', hforms⟩
  | @atom u _ _ hleft hright _ ih =>
    obtain ⟨i, items', rfl, hi, hsame⟩ := List.map_eq_cons_iff.mp hsame
    obtain ⟨forms', h', hforms⟩ := ih hsame
    cases i with
    | error p => cases hi
    | ok u' =>
      have hu : u'.unspanned = u.unspanned := Except.ok.inj hi
      have hkind := kind_eq_of_unspanned hi
      refine ⟨.atom u' :: forms', .atom (hkind ▸ hleft) (hkind ▸ hright) h', ?_⟩
      rw [List.map_cons, List.map_cons, hforms, unspanned_atom, unspanned_atom, hu]
  | @list first last body _ _ _ hfirst hlast _ _ ihbody ih =>
    obtain ⟨i, more, rfl, hi, hsame⟩ := List.map_eq_cons_iff.mp hsame
    rw [List.map_append] at hsame
    obtain ⟨body', more', rfl, hbody, hsame⟩ := List.map_eq_append_iff.mp hsame
    obtain ⟨j, items', rfl, hj, hsame⟩ := List.map_eq_cons_iff.mp hsame
    obtain ⟨inner', hinner', hinner⟩ := ihbody hbody
    obtain ⟨forms', h', hforms⟩ := ih hsame
    cases i with
    | error p => cases hi
    | ok first' =>
      cases j with
      | error p => cases hj
      | ok last' =>
        have hfirst' := (kind_eq_of_unspanned hi).trans hfirst
        have hlast' := (kind_eq_of_unspanned hj).trans hlast
        refine ⟨_, .list hfirst' hlast' hinner' h', ?_⟩
        rw [List.map_cons, List.map_cons, hforms, unspanned_list, unspanned_list, hinner]

end Form

/-! ## Sources with one word replaced -/

theorem Item.problems_unspanned (items : List Item) :
    problems (items.map unspanned) = (problems items).map Problem.unspanned := by
  induction items with
  | nil => rfl
  | cons i items ih =>
    cases i with
    | ok => exact ih
    | error p => rw [List.map_cons, unspanned_error, problems_error, problems_error, ih]; rfl

/-- A source has some items, but for their places. -/
def Source.SameItems (src : Source) (items : List Item) : Prop :=
  src.items.map Item.unspanned = items.map Item.unspanned

/-- The lists of a source are spelled by its items. -/
theorem Reader.spells_itemsOf (es : List Entry) :
    Form.Spells (itemsOf es []) (es.map Entry.form) ∧
      (∀ f ∈ es.map Entry.form, f.items?.isSome = true) ∧
        Form.depthAll (es.map Entry.form) ≤ maxNesting := by
  induction es with
  | nil => exact ⟨.nil, by simp, by simp [Form.depthAll]⟩
  | cons e es ih =>
    obtain ⟨hspells, hlists, hdepth⟩ := ih
    refine ⟨?_, List.forall_mem_cons.mpr ⟨rfl, hlists⟩, ?_⟩
    · rw [itemsOf_cons]
      have hproblems (ps : List Problem) {items : List Item} {forms : List Form}
          (h : Form.Spells items forms) : Form.Spells (ps.map .error ++ items) forms := by
        induction ps with
        | nil => exact h
        | cons p ps ih => exact .problem ih
      exact hproblems e.before (.list e.left_kind e.right_kind e.spells hspells)
    · have hinner := e.depth_le
      rw [List.map_cons, Form.depthAll, Entry.form, Form.depth]
      omega

/-- A source with the text of one token replaced has the items of the source with that token
replaced, but for their places. -/
theorem Source.items_replaced {src : Source} {left right : List Item} {t t' : Token}
    (hok : Item.problems src.items = []) (h : src.items = left ++ .ok t :: right)
    (hleft : t.kind ≠ .leftParen) (hright : t.kind ≠ .rightParen)
    (hspelled : t'.kind.SpelledBy t'.text.toList) (hleft' : t'.kind ≠ .leftParen)
    (hright' : t'.kind ≠ .rightParen) (hreserved : t'.kind ≠ .reserved) :
    ∃ before after, src.text = before ++ t.text ++ after ∧
      Slice.byteSize before.toList = t.span.start ∧
      (Source.mk src.file (before ++ t'.text ++ after)).SameItems (left ++ .ok t' :: right) := by
  obtain ⟨before, after, hsplit⟩ := Item.exists_splitAt hok h
  have hold : t.kind.SpelledBy t.text.toList := by
    refine Item.spelledBy_of_mem_ofChars Pos.start src.chars t ?_
    rw [show Item.ofChars Pos.start src.chars = left ++ .ok t :: right from h]
    simp
  have hprecede : t'.kind.MayPrecede after := by
    have hboundary := hsplit.follows.boundary hleft hright
    cases hkind : t'.kind with
    | leftParen => exact absurd hkind hleft'
    | rightParen => trivial
    | _ => exact hboundary
  have hreplace : MayReplace (t'.text.toList ++ after) (t.text.toList ++ after) :=
    .inr ⟨(hspelled.startsWord hleft' hright').append after,
      (hold.startsWord hleft hright).append after⟩
  refine ⟨String.ofList before, String.ofList after, ?_, ?_, ?_⟩
  · rw [← String.toList_inj, String.toList_append, String.toList_append, String.toList_ofList,
      String.toList_ofList, List.append_assoc]
    exact hsplit.chars
  · rw [String.toList_ofList, hsplit.span]
    show _ = (Pos.start.after before).offset
    rw [Pos.offset_after]
    exact (Nat.zero_add _).symm
  have hbehind := Item.unspanned_ofChars ((Pos.start.after before).after t'.text.toList)
    (Pos.start.after (before ++ t.text.toList)) after
  rw [SameItems, items, chars, String.toList_append, String.toList_append, String.toList_ofList,
    String.toList_ofList, List.append_assoc, hsplit.front _ hreplace,
    Item.ofChars_text _ hspelled hprecede, Item.ofLexeme_ok hreserved, hsplit.rest]
  simp only [List.map_append, List.map_cons, List.map_nil, String.ofList_toList, hbehind]
  rfl

/-- A source with the items of some lists, wherever they stand, is a row of these lists, but for
their places. -/
theorem Source.exists_entries_of_sameItems {src : Source} {items : List Item} {forms : List Form}
    (hsame : src.SameItems items) (hok : Item.problems items = [])
    (hspells : Form.Spells items forms) (hlists : ∀ f ∈ forms, f.items?.isSome = true)
    (hdepth : Form.depthAll forms ≤ Reader.maxNesting) :
    ∃ es, src.items = Reader.itemsOf es [] ∧ Item.problems src.items = [] ∧
      (es.map Reader.Entry.form).map Form.unspanned = forms.map Form.unspanned := by
  obtain ⟨forms', hspells', hforms⟩ := hspells.exists_unspanned hsame
  have hlists' : ∀ f ∈ forms', f.items?.isSome = true := by
    intro f hf
    obtain ⟨g, hg, hfg⟩ := List.mem_map.mp (hforms ▸ List.mem_map_of_mem hf)
    have hitems := hlists g hg
    rw [← Option.isSome_map (f := List.map Form.unspanned), ← Form.items?_unspanned] at hitems ⊢
    rwa [← hfg]
  have hdepth' : Form.depthAll forms' ≤ Reader.maxNesting := by
    rw [← Form.depthAll_unspanned, Form.unspannedAll_eq_map, hforms, ← Form.unspannedAll_eq_map,
      Form.depthAll_unspanned]
    exact hdepth
  have hok' : Item.problems src.items = [] := by
    rw [← List.map_eq_nil_iff (f := Problem.unspanned), ← Item.problems_unspanned, hsame,
      Item.problems_unspanned, hok]
    rfl
  obtain ⟨es, after, hitems, rfl⟩ := Reader.exists_entries_of_spells hspells' hlists' hdepth'
  obtain rfl : after = [] := by
    rw [hitems, Reader.problems_itemsOf] at hok'
    exact (List.append_eq_nil_iff.mp hok').2
  exact ⟨es, hitems, hok', hforms⟩

namespace Module

open Reader

variable {src : Source} {m m' : Module} {t t' : Token} {items : List Item}
  {forms forms' : List Form}

/-- The items of a source that is accepted spell the lists of a module. -/
theorem exists_forms_of_accepted (h : (parse src).outcome = .accepted m) :
    Item.problems src.items = [] ∧ ∃ forms, Form.Spells src.items forms ∧
      (∀ f ∈ forms, f.items?.isSome = true) ∧ ofForms forms = .ok m := by
  obtain ⟨es, hitems, hok⟩ := exists_entries_of_accepted h
  obtain ⟨hspells, hlists, -⟩ := spells_itemsOf es
  rw [← hitems] at hspells
  rw [parse_of_entries hitems hok, Parsed.ofResult_accepted_iff] at h
  exact ⟨hok, _, hspells, hlists, h⟩

/-- Wherever its items stand, they spell the forms of a module if the source is accepted. -/
theorem exists_spells_of_accepted (hsame : src.SameItems items)
    (h : (parse src).outcome = .accepted m) :
    Item.problems items = [] ∧ ∃ forms m', Form.Spells items forms ∧ ofForms forms = .ok m' ∧
      m'.unspanned = m.unspanned := by
  obtain ⟨hok, forms, hspells, -, hm⟩ := exists_forms_of_accepted h
  obtain ⟨forms', hspells', hforms⟩ := hspells.exists_unspanned hsame.symm
  have hbare : Failure.unspan unspanned (ofForms forms') = .ok m.unspanned := by
    rw [← ofForms_unspanned, hforms, ofForms_unspanned, hm]
    rfl
  obtain ⟨m', hm', hunspanned⟩ := Failure.of_unspan hbare
  refine ⟨?_, forms', m', hspells', hm', hunspanned⟩
  rw [← List.map_eq_nil_iff (f := Problem.unspanned), ← Item.problems_unspanned, ← hsame,
    Item.problems_unspanned, hok]
  rfl

/-- A source is accepted if its items spell a module, wherever they stand. -/
theorem parse_of_spells (hsame : src.SameItems items) (hok : Item.problems items = [])
    (hspells : Form.Spells items forms) (hlists : ∀ f ∈ forms, f.items?.isSome = true)
    (hdepth : Form.depthAll forms ≤ maxNesting) (hm : ofForms forms = .ok m) :
    ∃ m', (parse src).outcome = .accepted m' ∧ m'.unspanned = m.unspanned := by
  obtain ⟨es, hitems, hok', hforms⟩ :=
    Source.exists_entries_of_sameItems hsame hok hspells hlists hdepth
  have hbare : Failure.unspan unspanned (ofForms (es.map Entry.form)) = .ok m.unspanned := by
    rw [← ofForms_unspanned, hforms, ofForms_unspanned, hm]
    rfl
  obtain ⟨m', hm', hunspanned⟩ := Failure.of_unspan hbare
  refine ⟨m', ?_, hunspanned⟩
  rw [parse_of_entries hitems hok', Parsed.ofResult_accepted_iff]
  exact hm'

/-- A source that is accepted stays so if a word is replaced by another, and the forms with the
token replaced are a module. -/
theorem parse_replaced (h : (parse src).outcome = .accepted m)
    (hreplaced : Form.Replaced t t' (Reader.ofSource src).readCommand.1 forms')
    (hspelled : t'.kind.SpelledBy t'.text.toList) (hleft' : t'.kind ≠ .leftParen)
    (hright' : t'.kind ≠ .rightParen) (hreserved : t'.kind ≠ .reserved)
    (hm' : ofForms forms' = .ok m') :
    ∃ before after, src.text = before ++ t.text ++ after ∧
      Slice.byteSize before.toList = t.span.start ∧
      ∃ m'', (parse ⟨src.file, before ++ t'.text ++ after⟩).outcome = .accepted m'' ∧
        m''.unspanned = m'.unspanned := by
  obtain ⟨es, hitems, hok⟩ := exists_entries_of_accepted h
  rw [readCommand_entries (r := ofSource src) hitems rfl] at hreplaced
  obtain ⟨hspells, hlists, hdepth⟩ := spells_itemsOf es
  rw [← hitems] at hspells
  obtain ⟨left, right, hsplit, hleft, hright, hspells'⟩ :=
    hspells.replaced hreplaced hleft' hright'
  obtain ⟨before, after, hchars, hstart, hsame⟩ :=
    Source.items_replaced hok hsplit hleft hright hspelled hleft' hright' hreserved
  have hok' : Item.problems (left ++ .ok t' :: right) = [] := by
    rw [hsplit] at hok
    simpa using hok
  exact ⟨before, after, hchars, hstart, parse_of_spells hsame hok' hspells'
    (hreplaced.lists hlists) (hreplaced.depthAll_eq.trans_le hdepth) hm'⟩

end Module

end WasmText
