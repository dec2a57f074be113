import WasmText.Proofs.Accepted
import WasmText.Proofs.Nesting
import WasmText.Proofs.Replacing

/-!
# Modules that are kept as they stand

A text module that is asserted to be malformed is not read but cut out of the source, from its
opening parenthesis to the one that closes it. Lexing falls apart at both: in front of the closing
one nothing changes where the text ends with it, and behind the opening one nothing depends on what
stands before but places. So the piece, read alone, is the form that it was cut from, but for its
places (`Script.kept_of_accepted`).
-/

namespace WasmText

open Lexeme

/-! ## Pieces of a source -/

/-- A text is what stands in a source from the opening parenthesis of a list to the one that closes
it. -/
inductive Form.WrittenAs (src : Source) (f : Form) (text : String) : Prop
  | intro {before after : List Char} {front body back : List Item} {left right : Token}
    {inner : List Form} (hform : f = .list (left.span.join right.span) inner)
    (hitems : src.items = front ++ .ok left :: (body ++ .ok right :: back))
    (hleft : left.kind = .leftParen) (hright : right.kind = .rightParen)
    (hbody : Spells body inner) (hchars : src.chars = before ++ (text.toList ++ after))
    (hstart : left.span.start = Slice.byteSize before)
    (hstop : right.span.stop = Slice.byteSize (before ++ text.toList))

/-- A text alone, in whatever file, is read as a form but for places, and nothing is wrong with
it. -/
def Form.ReadAlone (f : Form) (text : String) : Prop :=
  ∀ file, ∃ g, (Reader.ofSource ⟨file, text⟩).readForms.1 = [g] ∧
    (Reader.ofSource ⟨file, text⟩).readForms.2.log.problems = #[] ∧ g.unspanned = f.unspanned

namespace Form

/-- A list among some forms stands among the items that spell them. -/
theorem Spells.exists_list_of_mem {items : List Item} {forms inner : List Form} {span : Span}
    (h : Spells items forms) (hmem : .list span inner ∈ forms) :
    ∃ front left body right back, items = front ++ .ok left :: (body ++ .ok right :: back) ∧
      left.kind = .leftParen ∧ right.kind = .rightParen ∧ Spells body inner ∧
      span = left.span.join right.span := by
  induction h with
  | nil => cases hmem
  | @problem p items forms h ih =>
    obtain ⟨front, left, body, right, back, rfl, hlist⟩ := ih hmem
    exact ⟨.error p :: front, left, body, right, back, rfl, hlist⟩
  | @atom t items forms _ _ h ih =>
    obtain ⟨front, left, body, right, back, rfl, hlist⟩ := ih (by simpa using hmem)
    exact ⟨.ok t :: front, left, body, right, back, rfl, hlist⟩
  | @list first last body' items inner' forms hfirst hlast hbody h _ ih =>
    rcases List.mem_cons.mp hmem with heq | hmem
    · obtain ⟨rfl, rfl⟩ := list.inj heq
      exact ⟨[], first, body', last, items, rfl, hfirst, hlast, hbody, rfl⟩
    · obtain ⟨front, left, body, right, back, rfl, hlist⟩ := ih hmem
      exact ⟨.ok first :: (body' ++ .ok last :: front), left, body, right, back, by simp, hlist⟩

end Form

/-- The piece of a source from some token to a closing parenthesis has the items from the one to the
other, but for their places. -/
theorem Source.exists_piece {src : Source} {front body back : List Item} {left right : Token}
    (hok : Item.problems src.items = [])
    (hitems : src.items = front ++ .ok left :: (body ++ .ok right :: back))
    (hright : right.kind = .rightParen) :
    ∃ before text after, src.chars = before ++ (text ++ after) ∧
      left.span.start = Slice.byteSize before ∧
      right.span.stop = Slice.byteSize (before ++ text) ∧
      ∀ file, (Source.mk file (String.ofList text)).SameItems
        (.ok left :: (body ++ [.ok right])) := by
  have hoffset (cs : List Char) : (Pos.start.after cs).offset = Slice.byteSize cs := by
    rw [Pos.offset_after]
    exact Nat.zero_add _
  -- the source may end behind the closing parenthesis
  have hwhole : Item.ofChars .start src.chars =
      (front ++ .ok left :: body) ++ .ok right :: back := by
    rw [List.append_assoc]
    exact hitems
  obtain ⟨upto, after, hclosing⟩ := Item.exists_splitAt hok hwhole
  have hspelled : right.kind.SpelledBy right.text.toList :=
    Item.spelledBy_of_mem_ofChars .start src.chars right (by simp [hwhole])
  have hreplace : MayReplace right.text.toList (right.text.toList ++ after) := by
    cases htext : right.text.toList with
    | nil =>
      rw [htext] at hspelled
      exact hspelled.elim
    | cons c cs => exact .inl rfl
  have hshort : Item.ofChars .start (upto ++ right.text.toList) =
      front ++ .ok left :: (body ++ [.ok right]) := by
    have htoken := hclosing.token [] (hright ▸ trivial)
    rw [List.append_nil, Item.ofChars] at htoken
    rw [hclosing.front _ hreplace, htoken, List.append_assoc]
    rfl
  have hok' : Item.problems (Item.ofChars .start (upto ++ right.text.toList)) = [] := by
    rw [hitems, Item.problems_append, Item.problems_ok, Item.problems_append,
      List.append_eq_nil_iff, List.append_eq_nil_iff] at hok
    rw [hshort, Item.problems_append, Item.problems_ok, Item.problems_append, hok.1, hok.2.1]
    rfl
  -- and it may start at the token
  obtain ⟨before, rest, hopening⟩ := Item.exists_splitAt hok' hshort
  have htext : Item.ofChars (Pos.start.after before) (left.text.toList ++ rest) =
      .ok left :: (body ++ [.ok right]) := by
    rw [hopening.token rest hopening.follows, ← hopening.rest]
  refine ⟨before, left.text.toList ++ rest, after, ?_, ?_, ?_, fun file => ?_⟩
  · rw [hclosing.chars, ← List.append_assoc, hopening.chars, List.append_assoc]
  · rw [hopening.span]
    exact hoffset before
  · rw [hclosing.span, ← hopening.chars]
    exact hoffset _
  · have hplaces :=
      Item.unspanned_ofChars .start (Pos.start.after before) (left.text.toList ++ rest)
    rw [htext] at hplaces
    rw [SameItems, items, chars, String.toList_ofList]
    exact hplaces

/-- A source that is one list without lexical problems is read as it. -/
theorem Reader.readForms_of_entry {src : Source} {e : Entry} (hitems : src.items = itemsOf [e] [])
    (hok : Item.problems src.items = []) : (ofSource src).readForms =
      ([e.form], { ofSource src with pending := [], finished := true }) := by
  rw [hitems, problems_itemsOf, List.append_nil] at hok
  obtain ⟨hbefore, hinside⟩ : e.before = [] ∧ e.inside = [] := by simpa [lexicalOf] using hok
  have hread : (ofSource src).read true = (some e.form, (ofSource src).moveTo [] [] .empty) := by
    have hentry := read_entry (r := ofSource src) hitems rfl true
    rwa [hbefore, hinside] at hentry
  have hend := read_end (r := (ofSource src).moveTo [] [] .empty) rfl rfl true
  have hrest := readForms_of_none (congrArg Prod.fst hend)
  rw [hend] at hrest
  rw [readForms_of_some (congrArg Prod.fst hread), hread, hrest]
  rfl

namespace Form

/-- A source with the items of one list is read as this list but for places. -/
theorem readAlone_of_sameItems {text : String} {body : List Item} {left right : Token}
    {inner : List Form} {span : Span} (hleft : left.kind = .leftParen)
    (hright : right.kind = .rightParen) (hbody : Spells body inner)
    (hok : Item.problems body = []) (hdepth : 1 + depthAll inner ≤ Reader.maxNesting)
    (hsame : ∀ file, (Source.mk file text).SameItems (.ok left :: (body ++ [.ok right]))) :
    (list span inner).ReadAlone text := by
  intro file
  have hok' : Item.problems (.ok left :: (body ++ [.ok right])) = [] := by
    rw [Item.problems_ok, Item.problems_append, hok]
    rfl
  have hdepth' : depthAll [list (left.span.join right.span) inner] ≤ Reader.maxNesting := by
    rw [depthAll, depth, depthAll]
    omega
  obtain ⟨es, hitems, hlexical, hforms⟩ := Source.exists_entries_of_sameItems (hsame file) hok'
    (.list hleft hright hbody .nil) (List.forall_mem_singleton.mpr rfl) hdepth'
  rw [List.map_map] at hforms
  obtain ⟨e, rfl, he⟩ := List.map_eq_singleton_iff.mp hforms
  rw [Reader.readForms_of_entry hitems hlexical]
  refine ⟨e.form, rfl, rfl, ?_⟩
  rw [show e.form.unspanned = _ from he, unspanned_list, unspanned_list]

/-- A list in a list of a source without lexical problems is written as a text that is read alone as
this list. -/
theorem exists_text_of_mem_args {src : Source} {lists : List Form} {f g : Form}
    (hok : Item.problems src.items = []) (hspells : Spells src.items lists)
    (hdepth : depthAll lists ≤ Reader.maxNesting) (hf : f ∈ lists) (hg : g ∈ f.args)
    (hlist : g.items?.isSome = true) :
    ∃ text, g.WrittenAs src text ∧ g.ReadAlone text ∧ src.slice? g.span = some text.toList := by
  obtain _ | ⟨span, items⟩ := f
  · cases hg
  obtain _ | ⟨span', inner⟩ := g
  · cases hlist
  have hmem : list span' inner ∈ items := List.mem_of_mem_tail hg
  have hinner : 1 + depthAll inner ≤ Reader.maxNesting := by
    have hitems := depthAll_le_iff.mp hdepth _ hf
    rw [depth] at hitems
    have hlist := depthAll_le_iff.mp (Nat.le_of_succ_le hitems) _ hmem
    rw [depth] at hlist
    omega
  -- the items of the list stand among those of the form, and these among those of the source
  obtain ⟨front, left, body, right, back, hitems, -, -, hbody, -⟩ := hspells.exists_list_of_mem hf
  obtain ⟨front', left', body', right', back', rfl, hleft, hright, hbody', rfl⟩ :=
    hbody.exists_list_of_mem hmem
  have hsplit : src.items = (front ++ .ok left :: front') ++
      .ok left' :: (body' ++ .ok right' :: (back' ++ .ok right :: back)) := by
    rw [hitems]
    simp
  obtain ⟨before, text, after, hchars, hstart, hstop, hsame⟩ :=
    Source.exists_piece hok hsplit hright
  have hinside : Item.problems body' = [] := by
    rw [hsplit] at hok
    simp only [Item.problems_append, Item.problems_ok, List.append_eq_nil_iff] at hok
    exact hok.2.1
  have htext : (String.ofList text).toList = text := String.toList_ofList
  have halone : (list (left'.span.join right'.span) inner).ReadAlone (String.ofList text) :=
    readAlone_of_sameItems hleft hright hbody' hinside hinner hsame
  refine ⟨String.ofList text, ?_, halone, ?_⟩
  · exact .intro rfl hsplit hleft hright hbody' (by rwa [htext]) hstart (by rwa [htext])
  · rw [htext]
    exact Source.slice?_of_append hchars hstart hstop

end Form

/-! ## Malformed modules in commands -/

/-- What a module that is asserted to be malformed is kept as. -/
theorem ScriptModule.of_ofMalformed {src : Source} {g : Form} {m : ScriptModule}
    (h : ofMalformed src g = .ok m) : g.isHeadedBy .moduleKw = true ∧
      (g.args[(Field.name g.args).2]?.bind Form.keyword? ≠ some .binaryKw →
        g.args[(Field.name g.args).2]?.bind Form.keyword? ≠ some .quoteKw →
          ∃ text, m = .source text) ∧
      ∀ text, m = .source text → text = String.ofList ((src.slice? g.span).getD []) := by
  -- a module in bytes or in quotes is kept as that and never as its text
  have hencoded (hword : g.args[(Field.name g.args).2]?.bind Form.keyword? = some .binaryKw ∨
      g.args[(Field.name g.args).2]?.bind Form.keyword? = some .quoteKw) (h : ofForm g = .ok m)
      (text : String) : m ≠ .source text := by
    rintro rfl
    unfold ofForm at h
    dsimp only at h
    rcases hword with hword | hword
    all_goals
      rw [hword] at h
      obtain ⟨bytes, -, h⟩ := Success.of_bind h
      cases Success.of_pure h
  unfold ofMalformed at h
  split at h
  · next hhead =>
    refine ⟨hhead, ?_⟩
    split at h
    · next hbinary =>
      exact ⟨fun hne => absurd hbinary hne,
        fun text hm => absurd hm (hencoded (.inl hbinary) h text)⟩
    · next hquote =>
      exact ⟨fun _ hne => absurd hquote hne,
        fun text hm => absurd hm (hencoded (.inr hquote) h text)⟩
    · obtain rfl := Except.ok.inj h
      refine ⟨fun _ _ => ⟨_, rfl⟩, ?_⟩
      rintro text ⟨⟩
      rfl
  · cases h

namespace Command

variable {src : Source} {f : Form} {m : ScriptModule} {text : String}

/-- Only an assertion that a module is malformed makes a command that is one. -/
theorem headKeyword?_of_assertMalformed (h : kindOf src f = .ok (.assertMalformed m text)) :
    f.headKeyword? = some .assertMalformedKw := by
  unfold kindOf at h
  obtain ⟨_, -, h⟩ := Success.of_bind h
  split at h
  case h_11 hhead => exact hhead
  case h_1 | h_3 | h_4 =>
    obtain ⟨_, -, h⟩ := Success.of_bind h
    cases Success.of_pure h
  case h_2 =>
    obtain ⟨_, -, h⟩ := Success.of_bind (Success.of_mapError h)
    obtain ⟨_, -, h⟩ := Success.of_bind h
    obtain ⟨_, -, h⟩ := Success.of_bind h
    cases Success.of_pure h
  case h_5 | h_6 | h_7 | h_9 =>
    obtain ⟨_, -, h⟩ := Success.of_bind h
    obtain ⟨_, -, h⟩ := Success.of_bind h
    cases Success.of_pure h
  case h_8 =>
    obtain ⟨_, -, h⟩ := Success.of_bind h
    obtain ⟨_, -, h⟩ := Success.of_bind h
    split at h
    · obtain ⟨_, -, h⟩ := Success.of_bind h
      cases Success.of_pure h
    · obtain ⟨_, -, h⟩ := Success.of_bind h
      cases Success.of_pure h
  case h_10 | h_12 | h_13 =>
    obtain ⟨_, _, _, -, -, h⟩ := of_onModule h
    cases h
  case h_14 => cases h

/-- Such an assertion makes a command with the module that stands first in it. -/
theorem exists_module_of_assertMalformed {kind : CommandKind}
    (hhead : f.headKeyword? = some .assertMalformedKw) (h : kindOf src f = .ok kind) :
    ∃ g m text, f.args[0]? = some g ∧ ScriptModule.ofMalformed src g = .ok m ∧
      kind = .assertMalformed m text := by
  unfold kindOf at h
  obtain ⟨_, -, h⟩ := Success.of_bind h
  rw [hhead] at h
  exact of_onModule h

/-- A command is made of a list that asserts a module to be malformed. A module in text is kept as
it is written, and read alone it is the form that stands in the list. -/
def Keeps (src : Source) (f : Form) (c : Command) : Prop :=
  c.span = f.span ∧ ∃ g m message, f.args[0]? = some g ∧ g.isHeadedBy .moduleKw = true ∧
    c.kind = .assertMalformed m message ∧
    (g.args[(Field.name g.args).2]?.bind Form.keyword? ≠ some .binaryKw →
      g.args[(Field.name g.args).2]?.bind Form.keyword? ≠ some .quoteKw →
        ∃ text, m = .source text) ∧
    ∀ text, m = .source text → g.WrittenAs src text ∧ g.ReadAlone text

theorem keeps_of_ofForm {lists : List Form} {c : Command} (hok : Item.problems src.items = [])
    (hspells : Form.Spells src.items lists) (hdepth : Form.depthAll lists ≤ Reader.maxNesting)
    (hf : f ∈ lists) (hhead : f.headKeyword? = some .assertMalformedKw)
    (h : ofForm src f = .ok c) : c.Keeps src f := by
  obtain ⟨kind, hkind, h⟩ := Success.of_bind h
  obtain rfl := Success.of_pure h
  obtain ⟨g, m, message, hg, hm, rfl⟩ := exists_module_of_assertMalformed hhead hkind
  obtain ⟨hmodule, hsource, htext⟩ := ScriptModule.of_ofMalformed hm
  refine ⟨rfl, g, m, message, hg, hmodule, rfl, hsource, fun text hkept => ?_⟩
  obtain ⟨text', hwritten, halone, hslice⟩ :=
    Form.exists_text_of_mem_args hok hspells hdepth hf (List.mem_of_getElem? hg)
      (Form.isSome_items?_of_headKeyword? (Form.headKeyword?_of_isHeadedBy hmodule))
  have hsame : text = text' := by
    rw [htext text hkept, hslice]
    exact String.ofList_toList
  rw [hsame]
  exact ⟨hwritten, halone⟩

end Command

namespace Script

variable {src : Source} {lists : List Form} {cs : List Command} {f : Form} {c : Command}

/-- A list that is no field makes a command. -/
theorem Walk.exists_command (h : Walk src lists cs) (hf : f ∈ lists) (hfield : f.isField = false) :
    ∃ c ∈ cs, Command.ofForm src f = .ok c := by
  induction h with
  | nil => cases hf
  | alone _ hread _ _ ih =>
    rcases List.mem_cons.mp hf with rfl | hf
    · exact ⟨_, List.mem_cons_self, hread⟩
    · obtain ⟨c, hc, hread⟩ := ih hf
      exact ⟨c, List.mem_cons_of_mem _ hc, hread⟩
  | fields hfields _ _ _ _ _ ih =>
    rw [← List.cons_append] at hf
    rcases List.mem_append.mp hf with hf | hf
    · rw [hfields f hf] at hfield
      cases hfield
    · obtain ⟨c, hc, hread⟩ := ih hf
      exact ⟨c, List.mem_cons_of_mem _ hc, hread⟩

/-- A command is made of a list that is no field, or of fields. -/
theorem Walk.exists_list (h : Walk src lists cs) (hc : c ∈ cs) :
    (∃ f ∈ lists, Command.ofForm src f = .ok c) ∨ ∃ m, c.kind = .module (.text m) := by
  induction h with
  | nil => cases hc
  | alone _ hread _ _ ih =>
    rcases List.mem_cons.mp hc with rfl | hc
    · exact .inl ⟨_, List.mem_cons_self, hread⟩
    · rcases ih hc with ⟨f, hf, hread⟩ | hm
      · exact .inl ⟨f, List.mem_cons_of_mem _ hf, hread⟩
      · exact .inr hm
  | fields _ _ _ hkind _ _ ih =>
    rcases List.mem_cons.mp hc with rfl | hc
    · exact .inr ⟨_, hkind⟩
    · rcases ih hc with ⟨f, hf, hread⟩ | hm
      · exact .inl ⟨f, List.mem_cons_of_mem _ (List.mem_append_right _ hf), hread⟩
      · exact .inr hm

/-- An assertion in an accepted script that a module is malformed makes a command, and there is no
other such command: it keeps a module in text as what is written between the parentheses of its
form, and this text alone is read as that form, without a problem. -/
theorem kept_of_accepted {s : Script} (h : (parse src).outcome = .accepted s) :
    ∃ lists, (∀ forms, Form.TopLevel (Item.tokens src.tokens) forms ↔ forms = lists) ∧
      (∀ f ∈ lists, f.isHeadedBy .assertMalformedKw = true → ∃ c ∈ s.commands, c.Keeps src f) ∧
      ∀ c ∈ s.commands, ∀ m message, c.kind = .assertMalformed m message →
        ∃ f ∈ lists, f.isHeadedBy .assertMalformedKw = true ∧ c.Keeps src f := by
  obtain ⟨es, hitems⟩ := exists_entries_of_accepted h
  have htop := Source.topLevel_of_entries hitems
  have hok := lexical_of_accepted h hitems
  obtain ⟨hspells, -, hdepth⟩ := Reader.spells_itemsOf es
  rw [← hitems] at hspells
  -- the commands come from the groups of lists, one after the other
  have hwalk : Walk src (es.map Reader.Entry.form) s.commands := by
    have hflatten : (Reader.Entry.groups es).flatten = es := List.flatten_splitBy _ es
    have hpending : (Reader.ofSource src).pending =
        Reader.itemsOf (Reader.Entry.groups es).flatten [] := by
      rw [hflatten]
      exact hitems
    have hmade := walk_of_areGroups (Reader.Entry.areGroups_groups es) hpending rfl
      ((parse_settled src).of_accepted h)
    rwa [hflatten] at hmade
  refine ⟨es.map Reader.Entry.form, fun forms => ⟨fun hforms => hforms.unique htop, ?_⟩, ?_, ?_⟩
  · rintro rfl
    exact htop
  · intro f hf hhead
    have hhead := Form.headKeyword?_of_isHeadedBy hhead
    have hfield : f.isField = false := by
      rw [Form.isField, hhead]
      rfl
    obtain ⟨c, hc, hread⟩ := hwalk.exists_command hf hfield
    exact ⟨c, hc, Command.keeps_of_ofForm hok hspells hdepth hf hhead hread⟩
  · intro c hc m message hkind
    rcases hwalk.exists_list hc with ⟨f, hf, hread⟩ | ⟨m', hm'⟩
    · have hhead : f.headKeyword? = some .assertMalformedKw := by
        obtain ⟨kind, hkind', hpure⟩ := Success.of_bind hread
        obtain rfl := Success.of_pure hpure
        rw [show kind = _ from hkind] at hkind'
        exact Command.headKeyword?_of_assertMalformed hkind'
      exact ⟨f, hf, Form.isHeadedBy_iff.mpr hhead,
        Command.keeps_of_ofForm hok hspells hdepth hf hhead hread⟩
    · rw [hkind] at hm'
      cases hm'

/-- A malformed module behind a comment of more bytes than characters, with a parenthesis in a
comment and another in a string. -/
def malformedModule : Source :=
  ⟨"t", "(;é;)(assert_malformed(module $m (;)é;)(\")\" 1)) \"é\")(func)"⟩

theorem kept_of_accepted_malformedModule : ∃ s, (parse malformedModule).outcome = .accepted s ∧
    ∃ lists, (∀ forms, Form.TopLevel (Item.tokens malformedModule.tokens) forms ↔ forms = lists) ∧
      (∀ f ∈ lists, f.isHeadedBy .assertMalformedKw = true →
        ∃ c ∈ s.commands, c.Keeps malformedModule f) ∧
      ∀ c ∈ s.commands, ∀ m message, c.kind = .assertMalformed m message →
        ∃ f ∈ lists, f.isHeadedBy .assertMalformedKw = true ∧ c.Keeps malformedModule f := by
  obtain ⟨s, hs⟩ := Outcome.exists_accepted (o := (parse malformedModule).outcome)
    (by decide +kernel)
  exact ⟨s, hs, kept_of_accepted hs⟩

end Script

end WasmText
