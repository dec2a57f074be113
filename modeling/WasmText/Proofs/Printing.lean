import WasmText.Proofs.Abandoned
import WasmText.Proofs.Relexing
import WasmText.Proofs.Unspanned

/-!
# Printed forms are read back

The text of a form has each token's own text, a space between items and nothing inside the
parentheses. So every token is followed by a boundary, no comment starts between two of them, and
the text is lexed as the tokens of the form again, with the problem of each unknown word
(`Form.prints_text`). A form that a reader returned nests no deeper than lists may, so its text
is read as one form, the same but for the spans (`Form.text_read_back`).
-/

namespace WasmText

namespace Form

/-! ## The tokens of a form -/

mutual

/-- The tokens of a form in order, without its parentheses. -/
def tokens : Form → List Token
  | atom t => [t]
  | list _ items => tokensAll items

def tokensAll : List Form → List Token
  | [] => []
  | f :: fs => tokens f ++ tokensAll fs

end

/-- The problems of the unknown words among some forms. -/
def unknownWords (forms : List Form) : List Problem :=
  (tokensAll forms).filterMap fun t =>
    if t.kind = .reserved then some (.lexical (.unknownWord t.text) t.span) else none

@[simp] theorem unknownWords_nil : unknownWords [] = [] := rfl

/-- The unknown words of some forms are those of the first and of the rest. -/
theorem unknownWords_cons (f : Form) (fs : List Form) :
    unknownWords (f :: fs) = unknownWords [f] ++ unknownWords fs := by
  simp [unknownWords, tokensAll]

@[simp] theorem unknownWords_list (span : Span) (items : List Form) :
    unknownWords [list span items] = unknownWords items := by
  simp [unknownWords, tokensAll, tokens]

/-- The tokens that items spell are among them, and none is a parenthesis. -/
theorem Spells.mem_of_mem_tokensAll {items : List Item} {forms : List Form}
    (h : Spells items forms) :
    ∀ t ∈ tokensAll forms, .ok t ∈ items ∧ t.kind ≠ .leftParen ∧ t.kind ≠ .rightParen := by
  induction h with
  | nil => simp [tokensAll]
  | problem h ih =>
    intro t ht
    exact ⟨List.mem_cons_of_mem _ (ih t ht).1, (ih t ht).2⟩
  | @atom t items forms hleft hright h ih =>
    intro t' ht'
    rw [tokensAll, Form.tokens, List.singleton_append, List.mem_cons] at ht'
    obtain rfl | ht' := ht'
    · exact ⟨List.mem_cons_self, hleft, hright⟩
    · exact ⟨List.mem_cons_of_mem _ (ih t' ht').1, (ih t' ht').2⟩
  | @list left right body items inner forms hleft hright hbody h ihbody ih =>
    intro t ht
    rw [tokensAll, Form.tokens, List.mem_append] at ht
    obtain ht | ht := ht
    · exact ⟨by simp [(ihbody t ht).1], (ihbody t ht).2⟩
    · exact ⟨by simp [(ih t ht).1], (ih t ht).2⟩

/-! ## What spans do not change -/

mutual

/-- The text of a form does not depend on where it stands. -/
theorem text_unspanned (f : Form) : f.unspanned.text = f.text := by
  match f with
  | atom t => rfl
  | list span items => rw [unspanned, text, text, textAll_unspanned items]

theorem textAll_unspanned (fs : List Form) : textAll (unspannedAll fs) = textAll fs := by
  match fs with
  | [] => rfl
  | [f] => exact text_unspanned f
  | f :: g :: fs =>
    have hrest := textAll_unspanned (g :: fs)
    rw [unspannedAll] at hrest ⊢
    rw [unspannedAll, textAll, textAll, text_unspanned f, hrest]

end

mutual

/-- The depth of a form does not depend on where it stands. -/
theorem depth_unspanned (f : Form) : f.unspanned.depth = f.depth := by
  match f with
  | atom t => rfl
  | list span items => rw [unspanned, depth, depth, depthAll_unspanned items]

theorem depthAll_unspanned (fs : List Form) : depthAll (unspannedAll fs) = depthAll fs := by
  match fs with
  | [] => rfl
  | f :: fs => rw [unspannedAll, depthAll, depthAll, depth_unspanned f, depthAll_unspanned fs]

end

/-! ## Lexing the text of forms -/

/-- Items of forms printed anew: the same but for the spans, and with the problems of their unknown
words only. -/
structure Reprints (items : List Item) (forms printed : List Form) : Prop where
  spells : Spells items printed
  same : printed.map unspanned = forms.map unspanned
  problems : Item.problems items = unknownWords printed

theorem Reprints.nil : Reprints [] [] [] := ⟨.nil, rfl, rfl⟩

/-- Forms are reprinted one after the other. -/
theorem Reprints.cons {items items' : List Item} {f g : Form} {forms printed : List Form}
    (h : Reprints items [f] [g]) (h' : Reprints items' forms printed) :
    Reprints (items ++ items') (f :: forms) (g :: printed) where
  spells := h.spells.append h'.spells
  same := by
    have hfirst : g.unspanned = f.unspanned := List.singleton_inj.mp h.same
    rw [List.map_cons, List.map_cons, hfirst, h'.same]
  problems := by rw [Item.problems_append, h.problems, h'.problems, ← unknownWords_cons]

/-- A list is reprinted between its parentheses. -/
theorem Reprints.list {body : List Item} {inner printed : List Form} {left right : Token}
    (hleft : left.kind = .leftParen) (hright : right.kind = .rightParen)
    (h : Reprints body inner printed) (span : Span) :
    Reprints (.ok left :: (body ++ [.ok right])) [.list span inner]
      [.list (left.span.join right.span) printed] where
  spells := .list hleft hright h.spells .nil
  same := by
    rw [List.map_singleton, List.map_singleton, unspanned_list, unspanned_list, h.same]
  problems := by simp [h.problems]

/-- A token of a printed form: no parenthesis, and its text is lexed as the token. -/
structure IsPrintable (t : Token) : Prop where
  left : t.kind ≠ .leftParen
  right : t.kind ≠ .rightParen
  spelled : t.kind.SpelledBy t.text.toList

/-- In front of a boundary that starts no line comment a text is lexed as forms printed anew. -/
def Prints (text : String) (forms : List Form) : Prop :=
  ∀ (p : Pos) (rest : List Char), (∀ c ∈ rest.head?, Lexeme.isBoundary c = true ∧ c ≠ ';') →
    ∃ items printed, Reprints items forms printed ∧
      Item.ofChars p (text.toList ++ rest) = items ++ Item.ofChars (p.after text.toList) rest

/-- A token is lexed as itself, after its problem if it is an unknown word. -/
theorem reprints_ofLexeme {t : Token} (hleft : t.kind ≠ .leftParen) (hright : t.kind ≠ .rightParen)
    (p : Pos) :
    Reprints (Item.ofLexeme p t.text.toList (.ok t.kind)) [atom t]
      [atom ⟨t.kind, ⟨t.text, p.offset⟩, p.spanTo (p.after t.text.toList)⟩] := by
  obtain ⟨kind, source, span⟩ := t
  by_cases hkind : kind = .reserved
  · subst hkind
    simp only [Item.ofLexeme, String.ofList_toList]
    exact ⟨.problem (.atom hleft hright .nil), rfl, rfl⟩
  · have hitems : Item.ofLexeme p source.text.toList (.ok kind) =
        [.ok ⟨kind, ⟨source.text, p.offset⟩, p.spanTo (p.after source.text.toList)⟩] := by
      rw [Item.ofLexeme_ok hkind, String.ofList_toList]
    refine ⟨?_, rfl, ?_⟩
    · rw [Token.text, hitems]
      exact .atom hleft hright .nil
    · rw [Token.text, hitems]
      simp [unknownWords, tokensAll, Form.tokens, hkind]

/-- A printable token is printed as itself. -/
theorem prints_atom {t : Token} (ht : IsPrintable t) : Prints t.text [atom t] := fun p _ hrest =>
  ⟨_, _, reprints_ofLexeme ht.left ht.right p,
    Item.ofChars_text p ht.spelled (t.kind.mayPrecede_of_boundary hrest)⟩

/-- The text of a list is that of its items between parentheses. -/
theorem text_list (span : Span) (inner : List Form) :
    (list span inner).text.toList = '(' :: ((textAll inner).toList ++ [')']) := by
  simp [text]

/-- A list is lexed as its parentheses and its items. -/
theorem exists_items_of_list {inner : List Form} (h : Prints (textAll inner) inner)
    (hfirst : (textAll inner).toList.head? ≠ some ';') (p : Pos) (rest : List Char) :
    ∃ left right body printed, left.kind = .leftParen ∧ right.kind = .rightParen ∧
      Reprints body inner printed ∧
      Item.ofChars p ('(' :: ((textAll inner).toList ++ ')' :: rest)) =
        .ok left :: (body ++ .ok right ::
          Item.ofChars (p.after ('(' :: ((textAll inner).toList ++ [')']))) rest) := by
  have hopen : ((textAll inner).toList ++ ')' :: rest).head? ≠ some ';' := by
    rw [List.head?_append]
    cases hhead : (textAll inner).toList.head? with
    | none => simp
    | some c => simpa [hhead] using hfirst
  have hclose : ∀ c ∈ (')' :: rest).head?, Lexeme.isBoundary c = true ∧ c ≠ ';' := by
    rintro c ⟨⟩
    decide
  obtain ⟨body, printed, hbody, hitems⟩ := h (p.next '(') (')' :: rest) hclose
  rw [Item.ofChars_leftParen p hopen, hitems, Item.ofChars_rightParen, Pos.after_cons,
    Pos.after_append]
  exact ⟨_, _, body, printed, rfl, rfl, hbody, rfl⟩

/-- No text starts with a semicolon, so none makes a comment of what is before it. -/
theorem head?_text {f : Form} (hf : ∀ t ∈ f.tokens, IsPrintable t) :
    ∃ c cs, f.text.toList = c :: cs ∧ c ≠ ';' := by
  cases f with
  | atom t =>
    have hspelled := (hf t (List.mem_singleton_self t)).spelled
    rw [text]
    cases htext : t.text.toList with
    | nil =>
      rw [htext] at hspelled
      exact hspelled.elim
    | cons c cs =>
      rw [htext] at hspelled
      exact ⟨c, cs, rfl, hspelled.ne_semicolon⟩
  | list span inner => exact ⟨'(', _, text_list span inner, by decide⟩

theorem head?_textAll {fs : List Form} (hfs : ∀ t ∈ tokensAll fs, IsPrintable t) :
    (textAll fs).toList.head? ≠ some ';' := by
  match fs with
  | [] => simp [textAll]
  | [f] =>
    rw [tokensAll, tokensAll, List.append_nil] at hfs
    obtain ⟨c, cs, htext, hc⟩ := head?_text hfs
    rw [textAll, htext]
    simpa using hc
  | f :: g :: fs =>
    obtain ⟨c, cs, htext, hc⟩ := head?_text fun t ht => hfs t (List.mem_append_left _ ht)
    rw [textAll, String.toList_append, String.toList_append, htext]
    simpa using hc

mutual

/-- The text of a form is read back as the form. -/
theorem prints_text (f : Form) (hf : ∀ t ∈ f.tokens, IsPrintable t) : Prints f.text [f] := by
  match f with
  | atom t => exact prints_atom (hf t (List.mem_singleton_self t))
  | list span inner =>
    intro p rest _
    obtain ⟨left, right, body, printed, hleft, hright, hbody, hitems⟩ :=
      exists_items_of_list (prints_textAll inner hf) (head?_textAll hf) p rest
    refine ⟨_, _, hbody.list hleft hright span, ?_⟩
    rw [text_list, List.cons_append, List.append_assoc, List.singleton_append, hitems]
    simp

/-- The text of forms is read back as the forms. -/
theorem prints_textAll (fs : List Form) (hfs : ∀ t ∈ tokensAll fs, IsPrintable t) :
    Prints (textAll fs) fs := by
  match fs with
  | [] => exact fun p rest _ => ⟨[], [], .nil, rfl⟩
  | [f] => exact prints_text f fun t ht => hfs t (by simpa [tokensAll] using ht)
  | f :: g :: fs =>
    intro p rest hrest
    have hf := prints_text f fun t ht => hfs t (List.mem_append_left _ ht)
    have hfs := prints_textAll (g :: fs) fun t ht => hfs t (List.mem_append_right _ ht)
    have hspace : ∀ c ∈ (' ' :: ((textAll (g :: fs)).toList ++ rest)).head?,
        Lexeme.isBoundary c = true ∧ c ≠ ';' := by
      rintro c ⟨⟩
      decide
    obtain ⟨items, printed, hfirst, hitems⟩ := hf p _ hspace
    obtain ⟨items', printed', hothers, hitems'⟩ :=
      hfs ((p.after f.text.toList).next ' ') rest hrest
    have hsame := hfirst.same
    obtain ⟨first, rfl⟩ : ∃ first, printed = [first] :=
      List.length_eq_one_iff.mp (by simpa using congrArg List.length hsame)
    refine ⟨_, _, hfirst.cons hothers, ?_⟩
    have htext : (textAll (f :: g :: fs)).toList =
        f.text.toList ++ ' ' :: (textAll (g :: fs)).toList := by
      simp [textAll]
    rw [htext, List.append_assoc, List.cons_append, hitems, Item.ofChars_blank _ (by decide),
      hitems', Pos.after_append, Pos.after_cons, List.append_assoc]

end

end Form

namespace Reader

/-! ## Reading printed forms -/

/-- The readers that a new reader of a source becomes as forms are read and problems reported. -/
inductive Over (src : Source) : Reader → Prop
  | new : Over src (ofSource src)
  | read {r : Reader} (fresh : Bool) (h : Over src r) : Over src (r.read fresh).2
  | report {r : Reader} (p : Problem) (h : Over src r) : Over src (r.report p)

theorem Over.readsFrom {src : Source} {r : Reader} (h : r.Over src) : r.ReadsFrom src := by
  induction h with
  | new => exact readsFrom_ofSource src
  | @read r fresh _ ih => exact (keeps_readsFrom src r fresh ih).1
  | report p _ ih => exact ih.report p

/-- What a reader returns is a list of its source, and the tokens of the list are printable. -/
theorem Over.exists_entry {src : Source} {r : Reader} {f : Form} {fresh : Bool} (hr : r.Over src)
    (h : (r.read fresh).1 = some f) :
    ∃ e : Entry, e.form = f ∧ ∀ t ∈ e.form.tokens, Form.IsPrintable t := by
  obtain hfinished | hfinished := Bool.eq_false_or_eq_true r.finished
  · rw [read_of_finished hfinished] at h
    cases h
  rw [read_of_not_finished hfinished] at h
  obtain ⟨e, he, hpart⟩ := exists_entry_of_next _ _ _ _ _ h
  refine ⟨e, he, fun t ht => ?_⟩
  obtain ⟨hmem, hleft, hright⟩ := e.spells.mem_of_mem_tokensAll t ht
  have hitem : .ok t ∈ e.items := by simp [Entry.items, hmem]
  exact ⟨hleft, hright, Source.spelledBy_of_mem (hr.readsFrom.mem (hpart.mem hitem))⟩

/-- The text of a list is that of a list printed anew, if it nests no deeper than lists may. -/
theorem exists_entry_of_text {e : Entry} (he : ∀ t ∈ e.form.tokens, Form.IsPrintable t)
    (file : String) :
    ∃ e' : Entry, (ofSource ⟨file, e.form.text⟩).pending = itemsOf [e'] [] ∧ e'.before = [] ∧
      e'.inside = Form.unknownWords [e'.form] ∧ e'.form.unspanned = e.form.unspanned := by
  obtain ⟨left, right, body, printed, hleft, hright, hbody, hitems⟩ :=
    Form.exists_items_of_list (Form.prints_textAll e.inner he) (Form.head?_textAll he) .start []
  have hinner : Form.unspannedAll printed = Form.unspannedAll e.inner := by
    rw [Form.unspannedAll_eq_map, Form.unspannedAll_eq_map, hbody.same]
  have hdepth : 1 + Form.depthAll printed ≤ maxNesting := by
    rw [← Form.depthAll_unspanned, hinner, Form.depthAll_unspanned]
    exact e.depth_le
  refine ⟨⟨[], left, body, right, printed, hleft, hright, hbody.spells, hdepth⟩, ?_, rfl, ?_, ?_⟩
  · show Item.ofChars .start e.form.text.toList = _
    rw [Entry.form, Form.text_list, hitems, Item.ofChars, itemsOf_cons]
    rfl
  · exact hbody.problems.trans (Form.unknownWords_list _ _).symm
  · exact congrArg (Form.list .origin) hinner

end Reader

open Reader in
/-- A form that a reader returned is read back from its text: as the only form, with the same
tokens in the same lists, and with the problems of its unknown words only. -/
theorem Form.text_read_back {src : Source} {r : Reader} {f : Form} {fresh : Bool}
    (hr : r.Over src) (h : (r.read fresh).1 = some f) (file : String) :
    ∃ (g : Form) (log : Log), log.problems.toList = unknownWords [g] ∧
      (∀ fresh, (ofSource ⟨file, f.text⟩).read fresh =
        (some g, ⟨⟨file, f.text⟩, [], log, false⟩)) ∧
      (ofSource ⟨file, f.text⟩).readForms = ([g], ⟨⟨file, f.text⟩, [], log, true⟩) ∧
      g.unspanned = f.unspanned ∧ g.text = f.text := by
  obtain ⟨e, rfl, he⟩ := hr.exists_entry h
  obtain ⟨e', hpending, hbefore, hinside, hsame⟩ := exists_entry_of_text he file
  have hread (fresh : Bool) : (ofSource ⟨file, e.form.text⟩).read fresh =
      (some e'.form, ⟨⟨file, e.form.text⟩, [], Log.empty.lexicals e'.inside, false⟩) := by
    rw [read_entry hpending rfl, hbefore]
    cases fresh <;> rfl
  refine ⟨e'.form, Log.empty.lexicals e'.inside, ?_, hread, ?_, hsame, ?_⟩
  · rw [Log.toList_problems_lexicals, hinside]
    rfl
  · have hend (log : Log) : (⟨⟨file, e.form.text⟩, [], log, false⟩ : Reader).read true =
        (none, ⟨⟨file, e.form.text⟩, [], log, true⟩) := by
      rw [read_of_not_finished rfl, next]
    rw [readForms_of_some (congrArg Prod.fst (hread true)), hread, readForms_of_none (by rw [hend]),
      hend]
  · rw [← text_unspanned, hsame, text_unspanned]

/-- A form with a comment, unknown words, a comment's opening in a string, and a refused string. -/
def Source.lossy : Source := ⟨"a", "(foo (;;) \"\\\"(;\"\n@b \"\\q\"(-1) $x)"⟩

/-- What is refused is lost before the form is printed; what is printed is read back. -/
theorem Form.text_read_back_lossy :
    ∃ f, ((Reader.ofSource .lossy).read true).1 = some f ∧ f.text = "(foo \"\\\"(;\" @b (-1) $x)" ∧
      ∃ (g : Form) (log : Log), log.problems.toList = unknownWords [g] ∧
        (∀ fresh, (Reader.ofSource ⟨"b", f.text⟩).read fresh =
          (some g, ⟨⟨"b", f.text⟩, [], log, false⟩)) ∧
        (Reader.ofSource ⟨"b", f.text⟩).readForms = ([g], ⟨⟨"b", f.text⟩, [], log, true⟩) ∧
        g.unspanned = f.unspanned ∧ g.text = f.text := by
  have htext : ((Reader.ofSource .lossy).read true).1.map text =
      some "(foo \"\\\"(;\" @b (-1) $x)" := by
    decide +kernel
  obtain ⟨f, hf, htext⟩ := Option.map_eq_some_iff.mp htext
  exact ⟨f, hf, htext, text_read_back .new hf "b"⟩

end WasmText
