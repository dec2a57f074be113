import WasmText.Proofs.Decimals
import WasmText.Proofs.Locality

/-!
# Names written as numbers

A name in a reference stands for a number: the index of the entity that it names, or the number of
labels between a branch and its target. `Form.NumberedAll` says that some forms come from others by
writing the numbers of such names in their place, with the scope of every name told from the words
around it and with no regard to the readers.

What refers to nothing is not numbered: a name that is declared, and the label repeated after an
`else` or `end`. So all that is read off the forms behind an instruction word stays as it is.
-/

namespace WasmText

/-- The token with the numeral of a number for its text. -/
def Token.numeral (t : Token) (i : Nat) : Token :=
  ⟨.number .int, ⟨toString i, t.source.offset⟩, t.span⟩

/-- What the names in a body may refer to, the labels innermost first. -/
structure NameScope where
  spaces : Spaces
  locals : Names
  labels : Names

namespace NameScope

/-- The scope inside a block, with the block's label or `none`. -/
def push (s : NameScope) (label : Option String) : NameScope :=
  { s with labels := label :: s.labels }

/-- The scope behind an instruction word, in front of the forms `rest`: a block starts or ends
there, or neither. -/
def after (s : NameScope) (op : Opcode) (rest : List Form) : NameScope :=
  match op with
  | .block | .loop | .ifOp => s.push (rest.head?.bind Form.id?)
  | .endOp => { s with labels := s.labels.tail }
  | _ => s

/-- What names directly behind an instruction word refer to. -/
def names (s : NameScope) : Opcode → Names
  | .br | .brIf | .brTable => s.labels
  | .call => s.spaces.funcs
  | .callIndirect => s.spaces.types
  | .getLocal | .setLocal | .teeLocal => s.locals
  | .getGlobal | .setGlobal => s.spaces.globals
  | _ => []

/-- What names directly inside a list with a keyword refer to, if there may be references in it. -/
def inside? (s : NameScope) : Keyword → Option Names
  | .typeKw => some s.spaces.types
  | .elemKw => some s.spaces.funcs
  | .funcKw | .offsetKw => some []
  | _ => none

end NameScope

/-! ## Numbered forms -/

namespace Form

mutual

/-- The second form is the first with some references written as numbers, where a name that is the
whole form would refer to one of `names`. A number that is referred to has 32 bits. -/
inductive Numbered : NameScope → Names → Form → Form → Prop
  | same (s : NameScope) (names : Names) (f : Form) : Numbered s names f f
  | name {s : NameScope} {names : Names} {t : Token} {n : String} {i : Nat}
    (hid : t.kind = .id n) (hi : names.indexOf? n = some i) (hlt : i < Nat.pow 2 32) :
    Numbered s names (.atom t) (.atom (t.numeral i))
  | keyword {s : NameScope} {names inside : Names} {span : Span} {head : Form} {word : Keyword}
    {args args' : List Form} (hhead : head.keyword? = some word)
    (hinside : s.inside? word = some inside) (h : NumberedAll s inside args args') :
    Numbered s names (.list span (head :: args)) (.list span (head :: args'))
  | folded {s : NameScope} {names : Names} {span : Span} {head : Form} {op : Opcode}
    {args args' : List Form} (hhead : head.opcode? = some op) (hop : op ≠ .ifOp)
    (h : NumberedAll (s.after op args) (s.names op) args args') :
    Numbered s names (.list span (head :: args)) (.list span (head :: args'))
  | conditional {s : NameScope} {names : Names} {span : Span} {head : Form}
    {args args' : List Form} (hhead : head.opcode? = some .ifOp)
    (h : NumberedArms s (s.after .ifOp args) args args') :
    Numbered s names (.list span (head :: args)) (.list span (head :: args'))

/-- The same for each of some forms, in front of which a name would refer to one of `names`. An
instruction word changes what names refer to, and the scope if a block starts or ends. -/
inductive NumberedAll : NameScope → Names → List Form → List Form → Prop
  | nil (s : NameScope) (names : Names) : NumberedAll s names [] []
  | word {s : NameScope} {names : Names} {f : Form} {op : Opcode} {rest rest' : List Form}
    (hop : f.opcode? = some op) (h : NumberedAll (s.after op rest) (s.names op) rest rest') :
    NumberedAll s names (f :: rest) (f :: rest')
  | item {s : NameScope} {names : Names} {f f' : Form} {rest rest' : List Form}
    (hop : f.opcode? = none) (hf : Numbered s names f f') (h : NumberedAll s names rest rest') :
    NumberedAll s names (f :: rest) (f' :: rest')

/-- The same for the forms behind the word of a folded conditional. Its label is in scope in its
arms only. -/
inductive NumberedArms : NameScope → NameScope → List Form → List Form → Prop
  | nil (s inner : NameScope) : NumberedArms s inner [] []
  | arm {s inner : NameScope} {span : Span} {head : Form} {args args' rest rest' : List Form}
    (hhead : head.keyword? = some .thenKw ∨ head.opcode? = some .elseOp)
    (h : NumberedAll inner [] args args') (hrest : NumberedArms s inner rest rest') :
    NumberedArms s inner (.list span (head :: args) :: rest) (.list span (head :: args') :: rest')
  | operand {s inner : NameScope} {f f' : Form} {rest rest' : List Form}
    (hthen : f.headKeyword? ≠ some .thenKw) (helse : f.headOpcode? ≠ some .elseOp)
    (hf : Numbered s [] f f') (hrest : NumberedArms s inner rest rest') :
    NumberedArms s inner (f :: rest) (f' :: rest')

end

variable {s inner : NameScope} {names : Names} {f f' : Form} {items items' : List Form}

/-- Nothing has to be numbered. -/
theorem NumberedAll.refl (s : NameScope) (names : Names) (items : List Form) :
    NumberedAll s names items items := by
  induction items generalizing s names with
  | nil => exact .nil s names
  | cons f rest ih =>
    cases hop : f.opcode? with
    | none => exact .item hop (.same s names f) (ih s names)
    | some op => exact .word hop (ih _ _)

theorem NumberedArms.refl (s inner : NameScope) (items : List Form) :
    NumberedArms s inner items items := by
  induction items with
  | nil => exact .nil s inner
  | cons f rest ih =>
    by_cases harm : f.headKeyword? = some .thenKw ∨ f.headOpcode? = some .elseOp
    · match f, harm with
      | .atom t, harm => rcases harm with harm | harm <;> cases harm
      | .list _ [], harm => rcases harm with harm | harm <;> cases harm
      | .list span (head :: args), harm => exact .arm harm (.refl inner [] args) ih
    · obtain ⟨hthen, helse⟩ := not_or.mp harm
      exact .operand hthen helse (.same s [] f) ih

end Form

/-! ## Forms that look the same

A form that no name stands for is numbered inside of lists only, behind their heads. -/

/-- Whether references may stand in lists with a keyword. -/
def Keyword.mayRefer : Keyword → Bool
  | .typeKw | .elemKw | .funcKw | .offsetKw | .thenKw => true
  | _ => false

/-- A head that puts names in scope may refer. -/
theorem NameScope.mayRefer_of_inside? {s : NameScope} {word : Keyword} {names : Names}
    (h : s.inside? word = some names) : word.mayRefer = true := by
  unfold inside? at h
  split at h <;> first | rfl | cases h

namespace Form

variable {s : NameScope} {names : Names} {f f' : Form}

/-- The forms are equal, or lists that references may stand in, with the same head. -/
inductive Alike : Form → Form → Prop
  | same (f : Form) : Alike f f
  | list {span : Span} {head : Form} {args args' : List Form}
    (hhead : head.opcode?.isSome = true ∨
      ∃ word, head.keyword? = some word ∧ word.mayRefer = true) :
    Alike (.list span (head :: args)) (.list span (head :: args'))

namespace Alike

theorem span_eq (h : Alike f f') : f'.span = f.span := by cases h <;> rfl

theorem id?_eq (h : Alike f f') : f'.id? = f.id? := by cases h <;> rfl

theorem number?_eq (h : Alike f f') : f'.number? = f.number? := by cases h <;> rfl

theorem headKeyword?_eq (h : Alike f f') : f'.headKeyword? = f.headKeyword? := by cases h <;> rfl

theorem isReference_eq (h : Alike f f') : f'.isReference = f.isReference := by cases h <;> rfl

theorem isHeadedBy_eq (h : Alike f f') (word : Keyword) :
    f'.isHeadedBy word = f.isHeadedBy word := by
  rw [isHeadedBy, isHeadedBy, h.headKeyword?_eq]

/-- A list whose head refers to nothing is left as it is. -/
theorem eq_of_headKeyword? {word : Keyword} (h : Alike f f') (hhead : f.headKeyword? = some word)
    (hword : word.mayRefer = false) : f' = f := by
  cases h with
  | same => rfl
  | @list span head args args' hlist =>
    have hkeyword : head.keyword? = some word := hhead
    have hnone : head.opcode? = none := headOpcode?_of_headKeyword? hhead
    rcases hlist with hlist | ⟨word', hlist, hword'⟩
    · rw [hnone] at hlist
      cases hlist
    · obtain rfl : word = word' := Option.some.inj (hkeyword.symm.trans hlist)
      rw [hword] at hword'
      cases hword'

end Alike

/-- A form is left as it is, but for what is inside of it, or is a name that is numbered. -/
theorem Numbered.alike_or_name (h : Numbered s names f f') :
    Alike f f' ∨ ∃ t n i, f = .atom t ∧ f' = .atom (t.numeral i) ∧ t.kind = .id n ∧
      names.indexOf? n = some i ∧ i < Nat.pow 2 32 := by
  cases h with
  | same => exact .inl (.same f)
  | name hid hi hlt => exact .inr ⟨_, _, _, rfl, rfl, hid, hi, hlt⟩
  | keyword hhead hinside =>
    exact .inl (.list (.inr ⟨_, hhead, NameScope.mayRefer_of_inside? hinside⟩))
  | folded hhead | conditional hhead => exact .inl (.list (.inl (by simp [hhead])))

/-- Where no names are in scope none are numbered. -/
theorem Numbered.alike (h : Numbered s [] f f') : Alike f f' := by
  rcases h.alike_or_name with h | ⟨_, _, _, _, _, _, hi, _⟩
  · exact h
  · cases hi

theorem Numbered.isReference_eq (h : Numbered s names f f') : f'.isReference = f.isReference := by
  rcases h.alike_or_name with h | ⟨⟨kind, source, span⟩, _, _, rfl, rfl, hid, _⟩
  · exact h.isReference_eq
  · obtain rfl : kind = _ := hid
    rfl

theorem Numbered.isHeadedBy_eq (h : Numbered s names f f') (word : Keyword) :
    f'.isHeadedBy word = f.isHeadedBy word := by
  rcases h.alike_or_name with h | ⟨_, _, _, rfl, rfl, _⟩
  · exact h.isHeadedBy_eq word
  · rfl

end Form

end WasmText
