import Mathlib.Data.List.TakeWhile
import WasmText.Instr.Body
import WasmText.Proofs.Success

/-!
# The instruction words of a body

`Form.wordsAll` lists the words of instructions among some forms in the order of evaluation, with no
regard to what the forms are read as: in the order of the text, but that the word of a folded
instruction stands after its operands, and that of a folded `if` after its condition. Words that
only delimit, `else` and `end`, are left out. `Form.placedAll` lists the same words, each with the
labels of the blocks that it is written in.

Nothing but an instruction has words in it. Types, names, numbers and strings are leaves
(`Form.Leaf`), and what stands with an instruction or in a field beside its body is a leaf or a list
of leaves behind a keyword (`Form.Inert`).
-/

namespace WasmText

/-- The word of an instruction, with the span of the instruction and the forms after the word in the
list it stands in. -/
structure Word where
  op : Opcode
  span : Span
  args : List Form

/-- The label that is written after the word, if it is that of a block. -/
def Word.label? (w : Word) : Option String := w.args.head?.bind Form.id?

/-- A word of an instruction, and the labels of the blocks that it is written in, innermost
first. -/
structure PlacedWord where
  enclosing : List (Option String)
  word : Word

namespace Form

mutual

/-- The instruction words in a list, in the order of evaluation. -/
def words : Form → List Word
  | .atom _ => []
  | .list _ [] => []
  | .list span (.atom t :: rest) =>
    match t.kind with
    | .opcode op =>
      match op with
      | .endOp | .elseOp => wordsAll rest
      | .block | .loop => ⟨op, span, rest⟩ :: wordsAll rest
      | .ifOp => wordsOfIf ⟨op, span, rest⟩ rest
      | _ => wordsAll rest ++ [⟨op, span, rest⟩]
    | _ => wordsAll rest
  | .list _ (.list span items :: rest) => words (.list span items) ++ wordsAll rest

/-- The instruction words among some forms, in the order of evaluation. -/
def wordsAll : List Form → List Word
  | [] => []
  | .atom t :: rest =>
    match t.kind with
    | .opcode op =>
      match op with
      | .endOp | .elseOp => wordsAll rest
      | _ => ⟨op, t.span, rest⟩ :: wordsAll rest
    | _ => wordsAll rest
  | .list span items :: rest => words (.list span items) ++ wordsAll rest

/-- The instruction words of a folded `if`, whose own word is `w` and stands before the arms. -/
def wordsOfIf (w : Word) : List Form → List Word
  | [] => [w]
  | .atom _ :: rest => wordsOfIf w rest
  | .list span items :: rest =>
    if (Form.list span items).isHeadedBy .thenKw then
      w :: (words (.list span items) ++ wordsAll rest)
    else words (.list span items) ++ wordsOfIf w rest

end

/-! ## Blocks around the words -/

mutual

/-- The instruction words in a list that is written in blocks with the labels `enclosing`, each with
the labels around it. A block's label is around what the block holds. -/
def placedIn (enclosing : List (Option String)) : Form → List PlacedWord
  | .atom _ => []
  | .list _ [] => []
  | .list span (.atom t :: rest) =>
    match t.kind with
    | .opcode op =>
      match op with
      | .endOp | .elseOp => placedAll enclosing rest
      | .block | .loop =>
        ⟨enclosing, ⟨op, span, rest⟩⟩ ::
          placedAll (Word.label? ⟨op, span, rest⟩ :: enclosing) rest
      | .ifOp => placedOfIf enclosing ⟨op, span, rest⟩ rest
      | _ => placedAll enclosing rest ++ [⟨enclosing, ⟨op, span, rest⟩⟩]
    | _ => placedAll enclosing rest
  | .list _ (.list span items :: rest) =>
    placedIn enclosing (.list span items) ++ placedAll enclosing rest

/-- The instruction words among some forms, each with the labels around it: a flat block reaches as
far as its `end`. -/
def placedAll (enclosing : List (Option String)) : List Form → List PlacedWord
  | [] => []
  | .atom t :: rest =>
    match t.kind with
    | .opcode op =>
      match op with
      | .endOp => placedAll enclosing.tail rest
      | .elseOp => placedAll enclosing rest
      | .block | .loop | .ifOp =>
        ⟨enclosing, ⟨op, t.span, rest⟩⟩ ::
          placedAll (Word.label? ⟨op, t.span, rest⟩ :: enclosing) rest
      | _ => ⟨enclosing, ⟨op, t.span, rest⟩⟩ :: placedAll enclosing rest
    | _ => placedAll enclosing rest
  | .list span items :: rest =>
    placedIn enclosing (.list span items) ++ placedAll enclosing rest

/-- The words of a folded `if`, whose label is around its arms and not around its condition. -/
def placedOfIf (enclosing : List (Option String)) (w : Word) : List Form → List PlacedWord
  | [] => [⟨enclosing, w⟩]
  | .atom _ :: rest => placedOfIf enclosing w rest
  | .list span items :: rest =>
    if (Form.list span items).isHeadedBy .thenKw then
      ⟨enclosing, w⟩ :: (placedIn (w.label? :: enclosing) (.list span items) ++
        placedAll (w.label? :: enclosing) rest)
    else placedIn enclosing (.list span items) ++ placedOfIf enclosing w rest

end

/-- The instruction words of a field, each with the labels of the blocks around it. -/
def placed (f : Form) : List PlacedWord := f.placedIn []

mutual

/-- The placed words of a form are its words, whatever is around it. -/
theorem map_word_placedIn (enclosing : List (Option String)) (f : Form) :
    (f.placedIn enclosing).map PlacedWord.word = f.words := by
  match f with
  | .atom _ | .list _ [] => rfl
  | .list span (.list place items :: rest) =>
    rw [placedIn, words, List.map_append, map_word_placedIn enclosing (.list place items),
      map_word_placedAll enclosing rest]
  | .list span (.atom t :: rest) =>
    have hrest := fun enclosing => map_word_placedAll enclosing rest
    have hif := fun w => map_word_placedOfIf enclosing w rest
    rw [placedIn, words]
    split
    · split <;> simp [hrest, hif]
    · exact hrest enclosing

theorem map_word_placedAll (enclosing : List (Option String)) (items : List Form) :
    (placedAll enclosing items).map PlacedWord.word = wordsAll items := by
  match items with
  | [] => rfl
  | .list span inside :: rest =>
    rw [placedAll, wordsAll, List.map_append, map_word_placedIn enclosing (.list span inside),
      map_word_placedAll enclosing rest]
  | .atom t :: rest =>
    have hrest := fun enclosing => map_word_placedAll enclosing rest
    rw [placedAll, wordsAll]
    split
    · split <;> simp [hrest]
    · exact hrest enclosing

theorem map_word_placedOfIf (enclosing : List (Option String)) (w : Word) (items : List Form) :
    (placedOfIf enclosing w items).map PlacedWord.word = wordsOfIf w items := by
  match items with
  | [] => rfl
  | .atom _ :: rest => exact map_word_placedOfIf enclosing w rest
  | .list span inside :: rest =>
    have hfirst := fun enclosing => map_word_placedIn enclosing (.list span inside)
    rw [placedOfIf, wordsOfIf]
    split
    · rw [List.map_cons, List.map_append, hfirst, map_word_placedAll _ rest]
    · rw [List.map_append, hfirst, map_word_placedOfIf enclosing w rest]

end

@[simp] theorem map_word_placed (f : Form) : f.placed.map PlacedWord.word = f.words :=
  map_word_placedIn [] f

/-- Items with the placed words of a form have its words. -/
theorem wordsAll_of_placedAll {f : Form} {items : List Form} (h : placedAll [] items = f.placed) :
    wordsAll items = f.words := by
  rw [← map_word_placedAll [], h, map_word_placed]

theorem words_eq_nil_of_placed {f : Form} (h : f.placed = []) : f.words = [] := by
  rw [← map_word_placed, h, List.map_nil]

/-! ## Heads and names -/

theorem isHeadedBy_iff {word : Keyword} {f : Form} :
    f.isHeadedBy word = true ↔ f.headKeyword? = some word := beq_iff_eq

theorem opcode?_of_kind {a : Token} {op : Opcode} (h : a.kind = .opcode op) :
    (atom a).opcode? = some op := by
  obtain ⟨kind, text, span⟩ := a
  obtain rfl : kind = .opcode op := h
  rfl

/-- The opcode at the head of a list is that of its first atom. -/
theorem headOpcode?_of_kind {a : Token} {op : Opcode} {place : Span} {rest : List Form}
    (h : a.kind = .opcode op) : (list place (.atom a :: rest)).headOpcode? = some op :=
  opcode?_of_kind h

/-- A name is no number. -/
theorem number?_of_id? {f : Form} {name : String} (h : f.id? = some name) : f.number? = none := by
  obtain ⟨⟨kind, text, span⟩⟩ | ⟨span, items⟩ := f
  · cases kind with
    | id _ => rfl
    | _ => cases h
  · cases h

/-! ## Forms without words -/

/-- An atom that is no instruction, be it the `else` between the arms of one. An `end` is none of
them, as the blocks around what follows are others. -/
inductive Leaf : Form → Prop
  | atom {t : Token} (h : ∀ op, t.kind = .opcode op → op = .elseOp) : Leaf (.atom t)

/-- A leaf, or leaves in a list behind a keyword. -/
inductive Inert : Form → Prop
  | leaf {f : Form} (h : f.Leaf) : Inert f
  | list {f : Form} {word : Keyword} (hhead : f.headKeyword? = some word)
      (hargs : ∀ g ∈ f.args, g.Leaf) : Inert f

/-- A form without instruction words, and in which no block ends. -/
def Wordless (f : Form) : Prop :=
  ∀ enclosing rest, placedAll enclosing (f :: rest) = placedAll enclosing rest

theorem leaf_atom {t : Token} (h : ∀ op, t.kind ≠ .opcode op) : (atom t).Leaf :=
  .atom fun op hop => absurd hop (h op)

/-- Names, numbers, types, strings and keywords are leaves. -/
theorem leaf_of_isSome {f : Form} (h : f.id?.isSome ∨ f.number?.isSome ∨ f.valType?.isSome ∨
    f.bytes?.isSome ∨ f.keyword?.isSome) : f.Leaf := by
  obtain ⟨⟨kind, text, span⟩⟩ | ⟨span, items⟩ := f
  · apply leaf_atom
    rintro op rfl
    simp [id?, number?, valType?, bytes?, keyword?] at h
  · simp [id?, number?, valType?, bytes?, keyword?] at h

/-- An `else` says nothing about blocks. -/
theorem leaf_of_else {f : Form} (h : f.opcode? = some .elseOp) : f.Leaf := by
  obtain ⟨⟨kind, text, span⟩⟩ | ⟨span, items⟩ := f
  · refine .atom ?_
    rintro op rfl
    exact Option.some.inj h
  · simp [opcode?] at h

/-- A leaf has no words. -/
theorem Leaf.wordless {f : Form} (h : f.Leaf) : f.Wordless := by
  intro enclosing rest
  obtain ⟨h⟩ := h
  rw [placedAll]
  split
  · next op hop =>
    obtain rfl := h op hop
    rfl
  · rfl

/-- At an `end` the innermost block ends. -/
theorem placedAll_end {f : Form} (h : f.opcode? = some .endOp) (enclosing : List (Option String))
    (rest : List Form) : placedAll enclosing (f :: rest) = placedAll enclosing.tail rest := by
  obtain ⟨⟨kind, text, span⟩⟩ | ⟨span, items⟩ := f
  · cases kind with
    | opcode op =>
      obtain rfl := Option.some.inj h
      rfl
    | _ => cases h
  · cases h

/-- A list has the words of its items if its head is none. -/
theorem placedIn_list {span : Span} {items : List Form}
    (h : (list span items).headOpcode? = none) (enclosing : List (Option String)) :
    placedIn enclosing (list span items) = placedAll enclosing items := by
  match items with
  | [] => rfl
  | .list _ _ :: _ => rfl
  | .atom ⟨kind, text, place⟩ :: rest =>
    cases kind with
    | opcode op => cases h
    | _ => rfl

/-- A form with a keyword at its head is a list with a head. -/
theorem exists_list_of_headKeyword? {f : Form} {word : Keyword} (h : f.headKeyword? = some word) :
    ∃ span head args, f = .list span (head :: args) := by
  unfold headKeyword? at h
  split at h
  · exact ⟨_, _, _, rfl⟩
  · cases h

/-- A head that is a keyword is no opcode. -/
theorem headOpcode?_of_headKeyword? {f : Form} {word : Keyword}
    (h : f.headKeyword? = some word) : f.headOpcode? = none := by
  match f with
  | .atom _ => rfl
  | .list _ [] => rfl
  | .list _ (.list _ _ :: _) => rfl
  | .list _ (.atom ⟨kind, text, place⟩ :: rest) =>
    cases kind with
    | opcode op => cases h
    | _ => rfl

theorem isHeadedBy_of_headOpcode? {f : Form} {op : Opcode} (h : f.headOpcode? = some op)
    (word : Keyword) : f.isHeadedBy word = false := by
  rw [Bool.eq_false_iff, ne_eq, isHeadedBy_iff]
  intro hword
  rw [headOpcode?_of_headKeyword? hword] at h
  cases h

/-- Forms without words have none together. -/
theorem placedAll_eq_nil {items : List Form} (h : ∀ f ∈ items, f.Wordless)
    (enclosing : List (Option String)) : placedAll enclosing items = [] := by
  induction items with
  | nil => rfl
  | cons f items ih =>
    obtain ⟨hf, hitems⟩ := List.forall_mem_cons.mp h
    rw [hf enclosing items, ih hitems]

/-- The words of a list with a keyword at its head are those of its arguments, and no block is
entered. -/
theorem placedIn_of_headKeyword? {f : Form} {word : Keyword} (h : f.headKeyword? = some word)
    (enclosing : List (Option String)) : f.placedIn enclosing = placedAll enclosing f.args := by
  obtain ⟨place, head, rest, rfl⟩ := exists_list_of_headKeyword? h
  have hhead : head.Leaf := by
    apply leaf_of_isSome
    rw [show head.keyword? = some word from h]
    simp
  rw [placedIn_list (headOpcode?_of_headKeyword? h), hhead.wordless enclosing rest]
  rfl

/-- A list behind a keyword has no words if what follows the keyword has none. -/
theorem wordless_of_headKeyword? {f : Form} {word : Keyword} (hhead : f.headKeyword? = some word)
    (hargs : ∀ g ∈ f.args, g.Wordless) : f.Wordless := by
  intro enclosing rest
  have hnone :=
    (placedIn_of_headKeyword? hhead enclosing).trans (placedAll_eq_nil hargs enclosing)
  obtain ⟨place, head, args, rfl⟩ := exists_list_of_headKeyword? hhead
  rw [placedAll, hnone]
  rfl

/-- Inert forms have no words. -/
theorem Inert.wordless {f : Form} (h : f.Inert) : f.Wordless := by
  cases h with
  | leaf h => exact h.wordless
  | list hhead hargs => exact wordless_of_headKeyword? hhead fun g hg => (hargs g hg).wordless

theorem Wordless.placedIn {f : Form} (h : f.Wordless) (enclosing : List (Option String)) :
    f.placedIn enclosing = [] := by
  have hnil := h enclosing []
  cases f with
  | atom => rfl
  | list span items =>
    rw [placedAll] at hnil
    exact (List.append_eq_nil_iff.mp hnil).1

/-- The first `n` of some forms are no instructions. -/
def InertTake (n : Nat) (items : List Form) : Prop := ∀ f ∈ items.take n, f.Inert

theorem inertTake_zero (items : List Form) : InertTake 0 items := by simp [InertTake]

theorem inertTake_one {items : List Form} (h : ∀ f ∈ items.head?, f.Inert) :
    InertTake 1 items := by
  cases items with
  | nil => simp [InertTake]
  | cons f items => simpa [InertTake] using h

theorem inertTake_head {items : List Form} (h : ∃ f, items.head? = some f ∧ f.Inert) :
    InertTake 1 items := by
  apply inertTake_one
  obtain ⟨f, hf, hinert⟩ := h
  rintro g hg
  obtain rfl : f = g := Option.some.inj (hf.symm.trans hg)
  exact hinert

theorem inertTake_leaf {items : List Form} (h : ∃ f, items.head? = some f ∧ f.Leaf) :
    InertTake 1 items := by
  obtain ⟨f, hf, hleaf⟩ := h
  exact inertTake_head ⟨f, hf, .leaf hleaf⟩

/-- Where what is taken is inert, as many items are. -/
theorem inertTake_takeWhile {p : Form → Bool} {items : List Form}
    (h : ∀ f ∈ items.takeWhile p, f.Inert) : InertTake (items.takeWhile p).length items := by
  rw [InertTake, ← List.prefix_iff_eq_take.mp (List.takeWhile_prefix p)]
  exact h

/-- Inert items followed by inert items are inert together. -/
theorem InertTake.add {m n : Nat} {items : List Form} (hm : InertTake m items)
    (hn : InertTake n (items.drop m)) : InertTake (m + n) items := by
  intro f hf
  rw [List.take_add, List.mem_append] at hf
  exact hf.elim (hm f) (hn f)

/-- Forms without words may be dropped. -/
theorem InertTake.placedAll_drop {n : Nat} {items : List Form} (h : InertTake n items)
    (enclosing : List (Option String)) :
    placedAll enclosing (items.drop n) = placedAll enclosing items := by
  induction n generalizing items with
  | zero => rfl
  | succ n ih =>
    cases items with
    | nil => rfl
    | cons f items =>
      rw [List.drop_succ_cons, ih fun g hg => h g (List.mem_cons_of_mem _ hg)]
      exact ((h f List.mem_cons_self).wordless enclosing items).symm

end Form

open Form

/-! ## Types and type uses -/

namespace Form

theorem leaf_of_valueType {f : Form} {type : ValType} (h : f.valueType = .ok type) :
    f.Leaf := by
  unfold valueType at h
  split at h
  · next t ht => exact leaf_of_isSome (by simp [ht])
  · cases h

theorem leaf_of_mapM_valueType {fs : List Form} {types : List ValType}
    (h : fs.mapM valueType = .ok types) : ∀ f ∈ fs, f.Leaf := by
  intro f hf
  obtain ⟨type, htype⟩ := Success.of_mapM h f hf
  exact leaf_of_valueType htype

/-- No items are left over where no more are allowed. -/
theorem eq_nil_of_noMore {fs : List Form} (h : noMore fs = .ok ()) : fs = [] := by
  cases fs with
  | nil => rfl
  | cons f fs => cases h

/-- What is needed is there. -/
theorem eq_some_of_need {what : Expectation} {span : Span} {f? : Option Form} {f : Form}
    (h : need what span f? = .ok f) : f? = some f := by
  cases f? with
  | none => cases h
  | some g => rw [Except.ok.inj h]

/-- A first item with none after it is the only one. -/
theorem eq_singleton_of_noMore {fs : List Form} {f : Form} (hfirst : fs.head? = some f)
    (h : noMore fs.tail = .ok ()) : fs = [f] := by
  rw [← List.cons_head?_tail hfirst, eq_nil_of_noMore h]

/-- Two items with none after them are the only ones. -/
theorem eq_pair_of_noMore {fs : List Form} {f g : Form} (hfirst : fs[0]? = some f)
    (hsecond : fs[1]? = some g) (h : noMore (fs.drop 2) = .ok ()) : fs = [f, g] := by
  have hnil := eq_nil_of_noMore h
  match fs, hfirst, hsecond, hnil with
  | [_, _], rfl, rfl, _ => rfl

end Form

namespace Names

/-- What a reference comes to: what has its name, or the number itself if it is in range. -/
inductive ResolvedAs (names : Names) (f : Form) (index : Nat) : Prop
  | name {name : String} (hid : f.id? = some name) (hindex : names.indexOf? name = some index)
  | number {t : Token} (hid : f.id? = none) (hnumber : f.number? = some t)
    (hindex : natural t.text t.span = .ok index) (hlt : index < names.length)

variable {space : Space} {names : Names} {span : Span} {f? : Option Form} {index : Nat}

/-- What can be resolved is a number in range or a name that is declared. -/
theorem resolvedAs_of_resolve (h : names.resolve space span f? = .ok index) :
    ∃ f, f? = some f ∧ names.ResolvedAs f index := by
  unfold resolve at h
  split at h
  · cases h
  · next f =>
    refine ⟨f, rfl, ?_⟩
    split at h
    · next hid =>
      split at h
      · next hindex =>
        obtain rfl := Except.ok.inj h
        exact .name hid hindex
      · cases h
    · next hid =>
      split at h
      · next hnumber =>
        obtain ⟨index', hindex, h⟩ := Success.of_bind h
        split at h
        · next hlt =>
          obtain rfl := Except.ok.inj h
          exact .number hid hnumber hindex hlt
        · cases h
      · cases h

/-- A reference is a name or a number. -/
theorem leaf_of_resolve (h : names.resolve space span f? = .ok index) :
    ∃ f, f? = some f ∧ f.Leaf := by
  obtain ⟨f, hf, h⟩ := resolvedAs_of_resolve h
  refine ⟨f, hf, leaf_of_isSome ?_⟩
  cases h with
  | name hid => simp [hid]
  | number _ hnumber => simp [hnumber]

/-- What a form resolves to is in range. -/
theorem lt_of_resolve (h : names.resolve space span f? = .ok index) : index < names.length := by
  obtain ⟨f, -, h⟩ := resolvedAs_of_resolve h
  cases h with
  | name _ hindex => exact (List.findIdx?_eq_some_iff_getElem.mp hindex).1
  | number _ _ _ hlt => exact hlt

end Names

end WasmText
