import WasmText.Proofs.NumberedFields
import WasmText.Proofs.Replacing

/-!
# Names and numbers are interchangeable

A name that refers to something can be written as the number of what it refers to. The module is
accepted as before and is the same (`Module.names_and_numbers`), with the forms of its fields given
or with its text: what a name refers to is told by `Field.Numbered`, and the text of the source is
changed at that one name.
-/

namespace WasmText

open Form

/-! ## The fields of a module -/

namespace Form.Replaced

variable {t t' : Token} {f : Form} {rest forms forms' : List Form}

/-- The first form stays a list with the same keyword, or none, if no keyword is replaced. -/
theorem exists_cons (h : Replaced t t' (f :: rest) forms') (ht : (atom t).keyword? = none)
    (ht' : (atom t').keyword? = none) :
    ∃ f' rest', forms' = f' :: rest' ∧ rest'.length = rest.length ∧
      f'.headKeyword? = f.headKeyword? := by
  have hlength {forms forms' : List Form} (h : Replaced t t' forms forms') :
      forms'.length = forms.length := by
    induction h with
    | here | inside => rfl
    | later _ _ ih => rw [List.length_cons, List.length_cons, ih]
  cases h with
  | here => exact ⟨_, rest, rfl, rfl, rfl⟩
  | inside h =>
    refine ⟨_, rest, rfl, rfl, ?_⟩
    cases h with
    | here => exact ht'.trans ht.symm
    | inside | later => rfl
  | later _ h => exact ⟨f, _, rfl, hlength h, rfl⟩

/-- The name of a module is in front of its fields and stays. -/
theorem name_eq {items : List Form} (ht' : (atom t').id? = none)
    (h : Replaced t t' (items.drop (Field.name items).2) forms) :
    Field.name (items.take (Field.name items).2 ++ forms) = Field.name items := by
  unfold Field.name at h ⊢
  cases hname : items.head?.bind id? with
  | some name =>
    obtain ⟨f, hf, hid⟩ := Option.bind_eq_some_iff.mp hname
    obtain ⟨rest, rfl⟩ := List.head?_eq_some_iff.mp hf
    simp [hid]
  | none =>
    rw [hname] at h
    have hnone : forms.head?.bind id? = none := by
      cases h with
      | here => exact ht'
      | inside => rfl
      | later => exact hname
    simp [hnone]

end Form.Replaced

namespace Module

variable {fields fields' forms : List Form} {m : Module} {t : Token} {i : Nat} {n : String}

/-- A reference among the fields of a module is one among its forms. -/
theorem exists_forms_of_fields (hm : ofForms forms = .ok m) (hid : t.kind = .id n)
    (h : Replaced t (t.numeral i) (fieldsOf forms) fields') :
    ∃ name forms', Replaced t (t.numeral i) forms forms' ∧
      ofFields name (fieldsOf forms) = .ok m ∧ ofForms forms' = ofFields name fields' := by
  have hkeyword : (atom t).keyword? = none := by
    obtain ⟨kind, source, span⟩ := t
    obtain rfl : kind = _ := hid
    rfl
  match forms, h with
  | [], h => cases h
  | [f], h =>
    rw [fieldsOf] at h ⊢
    rw [ofForms] at hm
    split at h
    · next hhead =>
      rw [if_pos hhead] at hm ⊢
      -- the form is the module, and the reference stands behind its word and its name
      obtain ⟨span, head, args, rfl⟩ := exists_list_of_headKeyword? (isHeadedBy_iff.mp hhead)
      have hfields : (Form.list span (head :: args)).moduleFields =
        args.drop (Field.name args).2 := rfl
      have hm : ofFields (Field.name args).1 (args.drop (Field.name args).2) = .ok m := hm
      rw [hfields] at h ⊢
      have hname := Replaced.name_eq rfl h
      have hargs := (h.append_left (args.take (Field.name args).2)).later head
      rw [List.take_append_drop] at hargs
      refine ⟨(Field.name args).1,
        [.list span (head :: (args.take (Field.name args).2 ++ fields'))], .inside hargs [], hm, ?_⟩
      rw [ofForms, if_pos (by exact hhead)]
      show ofFields (Field.name (args.take (Field.name args).2 ++ fields')).1
        ((args.take (Field.name args).2 ++ fields').drop
          (Field.name (args.take (Field.name args).2 ++ fields')).2) = _
      rw [hname, List.drop_left' (List.length_take_of_le (Field.name_le_length args))]
    · next hhead =>
      rw [if_neg hhead] at hm ⊢
      -- the form is the one field
      obtain ⟨f', rest, rfl, hlength, hsame⟩ := h.exists_cons hkeyword rfl
      obtain rfl := List.eq_nil_of_length_eq_zero hlength
      refine ⟨none, [f'], h, hm, ?_⟩
      rw [ofForms, if_neg]
      rwa [isHeadedBy, hsame]
  | f :: g :: fs, h =>
    rw [ofForms] at hm
    split at hm
    · cases hm
    · next hhead =>
      obtain ⟨f', rest, rfl, hlength, hsame⟩ := h.exists_cons hkeyword rfl
      obtain ⟨g', rest, rfl⟩ := List.exists_of_length_succ _ hlength
      refine ⟨none, f' :: g' :: rest, h, hm, ?_⟩
      rw [ofForms, if_neg]
      rwa [isHeadedBy, hsame]

/-- A name among the fields of a module refers to what has the number `i` there: to the entity with
that index, or to the label that as many others separate from it. -/
def Refers (m : Module) (fields : List Form) (t : Token) (i : Nat) : Prop :=
  (∃ n, t.kind = .id n) ∧
    ∃ fields', Replaced t (t.numeral i) fields fields' ∧ m.Numbered fields fields'

theorem parse_of_read {src : Source} (hm : ofForms (Reader.ofSource src).readCommand.1 = .ok m)
    (herrors : (Reader.ofSource src).readCommand.2.errors = 0) :
    (parse src).outcome = .accepted m := by
  unfold parse
  dsimp only
  rw [hm]
  exact if_pos herrors

/-- Names and numbers are interchangeable. Fields of an accepted module, alone or in a script, make
the same module if references among them are written as numbers. And a source stays accepted if the
numeral of what a name refers to takes its place, and the module is the same but for the spans. -/
theorem names_and_numbers :
    (∀ fields m fields', Accepted fields m → m.Numbered fields fields' →
      ∃ name, ofFields name fields = .ok m ∧ ofFields name fields' = .ok m) ∧
    ∀ src m t i, (parse src).outcome = .accepted m →
      m.Refers (fieldsOf (Reader.ofSource src).readCommand.1) t i →
      ∃ before after, src.text = before ++ t.text ++ after ∧
        Slice.byteSize before.toList = t.span.start ∧
        ∃ m', (parse ⟨src.file, before ++ toString i ++ after⟩).outcome = .accepted m' ∧
          m'.unspanned = m.unspanned := by
  constructor
  · intro fields m fields' h hnumbered
    obtain ⟨name, hm⟩ := h.ofFields
    exact ⟨name, hm, ofFields_numbered hm hnumbered⟩
  · rintro src m t i h ⟨⟨n, hid⟩, fields', hreplaced, hnumbered⟩
    have hm := (parse_settled src).of_accepted h
    obtain ⟨name, forms', hforms, hfields, hsame⟩ := exists_forms_of_fields hm hid hreplaced
    have hm' : ofForms forms' = .ok m := hsame.trans (ofFields_numbered hfields hnumbered)
    have hspelled : (t.numeral i).kind.SpelledBy (t.numeral i).text.toList :=
      Lexeme.spelledBy_toString i
    have haccepted := parse_replaced h hforms hspelled nofun nofun nofun hm'
    exact haccepted

end Module

/-- A branch out of a loop and the block around it, and a start. -/
def Source.branchOut : Source := ⟨"t", "(func $f (block $b (loop $a br $b)))(start $f)"⟩

namespace Form

/-- The target of the branch in `Source.branchOut`. -/
def branchTarget : Token := ⟨.id "b", ⟨"$b", 31⟩, ⟨31, 33, 1, 32⟩⟩

/-- The function that `Source.branchOut` starts. -/
def startTarget : Token := ⟨.id "f", ⟨"$f", 43⟩, ⟨43, 45, 1, 44⟩⟩

/-- The fields of `Source.branchOut`, with the target of the branch and the start. -/
def branchOut (target start : Token) : List Form :=
  [.list ⟨0, 36, 1, 1⟩ [wordAt 1 (.keyword .funcKw) "func", wordAt 6 (.id "f") "$f",
      .list ⟨9, 35, 1, 10⟩ [wordAt 10 (.opcode .block) "block", wordAt 16 (.id "b") "$b",
        .list ⟨19, 34, 1, 20⟩ [wordAt 20 (.opcode .loop) "loop", wordAt 25 (.id "a") "$a",
          wordAt 28 (.opcode .br) "br", .atom target]]],
    .list ⟨36, 46, 1, 37⟩ [wordAt 37 (.keyword .startKw) "start", .atom start]]

end Form

namespace Module

/-- The branch goes past the label of the loop. -/
theorem numbered_branchOut (m : Module) :
    m.Numbered (branchOut branchTarget startTarget)
      (branchOut (branchTarget.numeral 1) startTarget) := by
  have hblock : (wordAt 10 (.opcode .block) "block").opcode? = some .block := rfl
  have hloop : (wordAt 20 (.opcode .loop) "loop").opcode? = some .loop := rfl
  have hbr : (wordAt 28 (.opcode .br) "br").opcode? = some .br := rfl
  refine ⟨[], _, _, _, rfl, rfl, .func rfl ?_⟩
  refine .item rfl (.same ..) (.item rfl (.folded hblock (by decide) ?_) (.nil ..))
  refine .item rfl (.same ..) (.item rfl (.folded hloop (by decide) ?_) (.nil ..))
  refine .item rfl (.same ..) (.word hbr ?_)
  exact .item rfl (.name (n := "b") rfl rfl (by decide)) (.nil ..)

theorem refers_branchTarget (m : Module) :
    m.Refers (branchOut branchTarget startTarget) branchTarget 1 := by
  refine ⟨⟨"b", rfl⟩, _, ?_, numbered_branchOut m⟩
  have hloop {head name op : Form} :
      Replaced branchTarget (branchTarget.numeral 1) [head, name, op, .atom branchTarget]
        [head, name, op, .atom (branchTarget.numeral 1)] :=
    .later _ (.later _ (.later _ (.here [])))
  exact .inside (.later _ (.later _ (.inside (.later _ (.later _ (.inside hloop []))) []))) _

/-- The start is the first function. -/
theorem refers_startTarget (m : Module) :
    m.Refers (branchOut branchTarget startTarget) startTarget 0 := by
  refine ⟨⟨"f", rfl⟩, branchOut branchTarget (startTarget.numeral 0), ?_, ?_⟩
  · exact .later _ (.inside (.later _ (.here [])) _)
  · refine ⟨[_], _, _, [], rfl, rfl, .start rfl ?_⟩
    exact .item rfl (.name (n := "f") rfl rfl (by decide)) (.nil ..)

/-- A target two labels out and a start, written as numbers. -/
theorem names_and_numbers_branchOut :
    let src := Source.branchOut
    let fields := branchOut branchTarget startTarget
    let numbered := branchOut (branchTarget.numeral 1) startTarget
    ∃ m, (parse src).outcome = .accepted m ∧
      (∃ name, ofFields name fields = .ok m ∧ ofFields name numbered = .ok m) ∧
      (∃ before after, src.text = before ++ "$b" ++ after ∧ Slice.byteSize before.toList = 31 ∧
        ∃ m', (parse ⟨src.file, before ++ "1" ++ after⟩).outcome = .accepted m' ∧
          m'.unspanned = m.unspanned) ∧
      ∃ before after, src.text = before ++ "$f" ++ after ∧ Slice.byteSize before.toList = 43 ∧
        ∃ m', (parse ⟨src.file, before ++ "0" ++ after⟩).outcome = .accepted m' ∧
          m'.unspanned = m.unspanned := by
  intro src fields numbered
  have hread : (Reader.ofSource src).readCommand.1 = fields ∧
      (Reader.ofSource src).readCommand.2.errors = 0 := by decide +kernel
  obtain ⟨m, hm⟩ : ∃ m, ofForms fields = .ok m := by
    have hsome : (ofForms fields).toOption.isSome = true := by decide +kernel
    cases hm : ofForms fields with
    | ok m => exact ⟨m, rfl⟩
    | error =>
      rw [hm] at hsome
      cases hsome
  have haccepted : (parse src).outcome = .accepted m := parse_of_read (hread.1.symm ▸ hm) hread.2
  have hfields : fieldsOf (Reader.ofSource src).readCommand.1 = fields := by
    rw [hread.1]
    rfl
  obtain ⟨hall, hnames⟩ := names_and_numbers
  refine ⟨m, haccepted, hall fields m numbered ?_ (numbered_branchOut m), ?_, ?_⟩
  · rw [← hfields]
    exact .alone haccepted
  · refine hnames src m branchTarget 1 haccepted ?_
    rw [hfields]
    exact refers_branchTarget m
  · refine hnames src m startTarget 0 haccepted ?_
    rw [hfields]
    exact refers_startTarget m

end Module

end WasmText
