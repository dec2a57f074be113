import WasmText.Proofs.BlamedBodies
import WasmText.Proofs.FormInvariants
import WasmText.Proofs.Locality

/-!
# Operands are counted, and none goes without a value

The operands of a folded instruction are the folded instructions among the forms after its word, and
the condition of a folded `if` those in front of its `then`. The reader of bodies checks them on
what they come to, one level at a time: each is looked at by the last instruction of what is read
from it, which is its own (`Body.yields?_of_folded`).

What that says of a module is a statement about its forms alone. A form headed by an instruction is
read as a folded instruction wherever it stands (`Form.ReadWithin`), so `Form.OperandsChecked` holds
of it at every depth.
-/

namespace WasmText

open Form

/-! ## Counts and values -/

namespace Opcode

/-- The number of operands that an instruction takes, where that is fixed. -/
def operandCount? : Opcode → Option Nat
  | .nop | .getLocal | .getGlobal | .currentMemory => some 0
  | .drop | .setLocal | .teeLocal | .setGlobal => some 1
  | .select => some 3
  | .unreachable | .block | .loop | .ifOp | .elseOp | .endOp | .br | .brIf | .brTable | .ret | .call
  | .callIndirect => none
  | op => some op.arity

/-- Whether an instruction that holds no others certainly leaves no value. -/
def yieldsNothing : Opcode → Bool
  | .nop | .drop | .setLocal | .setGlobal => true
  | op => op.isStore

end Opcode

namespace Form

/-- `g` is `f` or stands in it, at any depth. -/
inductive Occurs (g : Form) : Form → Prop
  | here : Occurs g g
  | item {span : Span} {items : List Form} {f : Form} (hf : f ∈ items) (h : Occurs g f) :
    Occurs g (.list span items)

/-- What follows the label at the front of some forms. -/
def afterLabel (items : List Form) : List Form :=
  items.drop (if (items.head?.bind id?).isSome then 1 else 0)

/-- Whether a result type is written in front of a block's body. -/
def writesResult (items : List Form) : Bool :=
  (afterLabel items).head?.any fun f =>
    f.valType?.isSome || (f.isHeadedBy .resultKw && !f.args.isEmpty)

/-- Whether the instruction at the head of a list certainly leaves no value. -/
def yieldsNothing (f : Form) : Bool :=
  match f.headOpcode? with
  | none => false
  | some op =>
    if (BlockKind.ofOpcode? op).isSome then !writesResult f.args else op.yieldsNothing

/-- The operands written in a folded instruction: those of a conditional are its condition, and a
block has none. -/
def operandForms (f : Form) : List Form :=
  match f.headOpcode? with
  | none => []
  | some op =>
    if op = .elseOp then []
    else
      match BlockKind.ofOpcode? op with
      | none => f.args.filter (·.headOpcode?.isSome)
      | some .cond =>
        (f.args.takeWhile (!·.isHeadedBy .thenKw)).filter (·.headOpcode?.isSome)
      | some _ => []

/-- If operands are written, there are as many as the instruction takes, and each may leave a
value. -/
structure OperandsChecked (f : Form) : Prop where
  count : ∀ op n, f.headOpcode? = some op → op.operandCount? = some n → f.operandForms ≠ [] →
    f.operandForms.length = n
  values : ∀ g ∈ f.operandForms, g.yieldsNothing = false

end Form

/-! ## Plain instructions -/

namespace Opcode

variable {op : Opcode}

/-- Constants, accesses and numeric instructions take what the table says. -/
theorem operandCount?_eq_arity
    (h : op.isConst = true ∨ op.isLoad = true ∨ op.isStore = true ∨
      (Plain.numeric? op).isSome = true) :
    op.operandCount? = some op.arity := by
  unfold operandCount?
  split
  all_goals first | rfl | exact absurd h (by decide)

theorem yieldsNothing_of_isConst (h : op.isConst = true) : op.yieldsNothing = false := by
  unfold isConst at h
  split at h
  case h_5 => cases h
  all_goals rfl

theorem yieldsNothing_of_isLoad (h : op.isLoad = true) : op.yieldsNothing = false := by
  unfold yieldsNothing
  split
  case h_5 =>
    rw [isLoad, Bool.and_eq_true, beq_iff_eq] at h
    rw [isStore, h.2]
    simp
  all_goals exact absurd h (by decide)

/-- Numeric instructions leave a value. -/
theorem yieldsNothing_of_numeric? {p : Plain} (h : Plain.numeric? op = some p) :
    op.yieldsNothing = false := by
  have hsome : (Plain.numeric? op).isSome = true := by
    rw [h]
    rfl
  unfold yieldsNothing
  split
  case h_5 =>
    rw [isStore, Plain.access_of_numeric? h]
    rfl
  all_goals exact absurd hsome (by decide)

end Opcode

namespace Plain

variable {sc : Scope} {span : Span} {items : List Form} {t t' : TypeTable} {op : Opcode}
  {p : Plain} {n : Nat}

/-- A numeric instruction takes as many operands as its opcode says. -/
theorem operands?_of_numeric? (h : numeric? op = some p) : p.operands? = some op.arity := by
  cases numericAs_of_numeric? h <;> rfl

/-- An instruction takes as many operands as its word says. -/
theorem ReadAs.operands?_eq (h : p.ReadAs sc span items t op n t') :
    p.operands? = op.operandCount? := by
  have hopcode := h.opcode
  cases h with
  | bare hbare hop =>
    subst hop
    simp only [Plain.bare, List.mem_cons, List.not_mem_nil, or_false] at hbare
    rcases hbare with rfl | rfl | rfl | rfl | rfl | rfl | rfl <;> rfl
  | const hop =>
    rw [Opcode.operandCount?_eq_arity (.inl hop), ← hopcode]
    rfl
  | load hop =>
    rw [Opcode.operandCount?_eq_arity (.inr (.inl hop))]
    rfl
  | store hop =>
    rw [Opcode.operandCount?_eq_arity (.inr (.inr (.inl hop)))]
    rfl
  | numeric hop =>
    rw [Opcode.operandCount?_eq_arity (.inr (.inr (.inr (by rw [hop]; rfl)))),
      operands?_of_numeric? hop]
  | _ => rfl

/-- What leaves no value by its word leaves none by what is read. -/
theorem ReadAs.yields?_eq (h : p.ReadAs sc span items t op n t')
    (hnothing : op.yieldsNothing = true) : p.yields? = some false := by
  cases h with
  | bare hbare hop =>
    subst hop
    simp only [Plain.bare, List.mem_cons, List.not_mem_nil, or_false] at hbare
    rcases hbare with rfl | rfl | rfl | rfl | rfl | rfl | rfl
    all_goals first | rfl | exact absurd hnothing (by decide)
  | const hop => exact absurd hnothing (by simp [Opcode.yieldsNothing_of_isConst hop])
  | load hop => exact absurd hnothing (by simp [Opcode.yieldsNothing_of_isLoad hop])
  | numeric hop => exact absurd hnothing (by simp [Opcode.yieldsNothing_of_numeric? hop])
  | store | setLocal | setGlobal => rfl
  | _ => exact absurd hnothing (by decide)

end Plain

/-! ## Blocks -/

/-- Blocks have no number of operands. -/
theorem Opcode.operandCount?_of_block {op : Opcode} {kind : BlockKind}
    (h : BlockKind.ofOpcode? op = some kind) : op.operandCount? = none := by
  obtain ⟨rfl, -⟩ | ⟨rfl, -⟩ | ⟨rfl, -⟩ := BlockKind.ofOpcode?_eq_some_iff.mp h <;> rfl

namespace Block

variable {items : List Form} {name : Option String} {type : ValType} {n : Nat}

/-- A block has no type where none is written in front of its items. -/
theorem void_of_sig (h : sig items = .ok (type, n))
    (hno : items.head?.any (fun f =>
      f.valType?.isSome || (f.isHeadedBy .resultKw && !f.args.isEmpty)) = false) :
    type = .void := by
  cases sigAs_of_sig h with
  | none | empty => rfl
  | bare hf hvalue =>
    rw [hf, Option.any_some, hvalue] at hno
    cases hno
  | result hf hresult hargs =>
    rw [hf, Option.any_some, isHeadedBy_iff.mpr hresult, hargs, Bool.true_and, Bool.or_eq_false_iff]
      at hno
    cases hno.2

/-- A block has no result type but one that is written. -/
theorem void_of_header (h : header items = .ok (name, type, n))
    (hno : writesResult items = false) : type = .void := by
  obtain ⟨⟨type, m⟩, hsig, h⟩ := Success.of_bind h
  obtain ⟨rfl, -⟩ := Prod.mk.inj (Prod.mk.inj (Success.of_pure h)).2
  exact void_of_sig hsig hno

end Block

/-! ## Folded instructions -/

namespace Form

variable {f : Form} {op : Opcode} {kind : BlockKind} {items : List Form} {n : Nat}

/-- A folded instruction leaves nothing when its opcode does. -/
theorem yieldsNothing_plain (hhead : f.headOpcode? = some op)
    (hplain : BlockKind.ofOpcode? op = none) : f.yieldsNothing = op.yieldsNothing := by
  simp [yieldsNothing, hhead, hplain]

/-- A folded block leaves nothing when no result is written. -/
theorem yieldsNothing_block (hhead : f.headOpcode? = some op)
    (hkind : BlockKind.ofOpcode? op = some kind) : f.yieldsNothing = !writesResult f.args := by
  simp [yieldsNothing, hhead, hkind]

/-- The operands of a folded instruction are the lists with an opcode among its items. -/
theorem operandForms_plain (hhead : f.headOpcode? = some op) (helse : op ≠ .elseOp)
    (hplain : BlockKind.ofOpcode? op = none) :
    f.operandForms = f.args.filter (·.headOpcode?.isSome) := by
  simp [operandForms, hhead, helse, hplain]

/-- The operands of a folded conditional stand before its arms. -/
theorem operandForms_cond (hhead : f.headOpcode? = some op)
    (hcond : BlockKind.ofOpcode? op = some .cond) :
    f.operandForms = (f.args.takeWhile (!·.isHeadedBy .thenKw)).filter (·.headOpcode?.isSome) := by
  have helse := (BlockKind.ne_of_ofOpcode? hcond).2
  simp [operandForms, hhead, helse, hcond]

/-- A folded block has no operands. -/
theorem operandForms_block (hhead : f.headOpcode? = some op)
    (hkind : BlockKind.ofOpcode? op = some kind) (hcond : kind ≠ .cond) : f.operandForms = [] := by
  have helse := (BlockKind.ne_of_ofOpcode? hkind).2
  cases kind with
  | cond => contradiction
  | block | loop => simp [operandForms, hhead, helse, hkind]

theorem Inert.headOpcode? (h : f.Inert) : f.headOpcode? = none := by
  cases h with
  | leaf h =>
    obtain ⟨-⟩ := h
    rfl
  | list hhead => exact headOpcode?_of_headKeyword? hhead

/-- The instructions among some forms are what is left if the others stand in front. -/
theorem InertTake.filter_eq (h : InertTake n items)
    (hrest : ∀ f ∈ items.drop n, f.headOpcode?.isSome = true) :
    items.filter (·.headOpcode?.isSome) = items.drop n := by
  have htake : (items.take n).filter (·.headOpcode?.isSome) = [] := by
    rw [List.filter_eq_nil_iff]
    intro f hf
    rw [(h f hf).headOpcode?]
    simp
  conv_lhs => rw [← List.take_append_drop n items]
  rw [List.filter_append, htake, List.nil_append, List.filter_eq_self]
  exact hrest

end Form

namespace Operand

/-- Each operand is checked by itself, and how many there are if there are any. -/
theorem of_check {op : Opcode} {p : Plain} {groups : List (List Instr)} {span : Span}
    (h : check op p groups span = .ok ()) :
    (∀ group ∈ groups, checkValue op group = .ok ()) ∧
      ∀ n, p.operands? = some n → groups ≠ [] → groups.length = n := by
  obtain ⟨_, hvalues, h⟩ := Success.of_bind h
  refine ⟨Success.of_forM hvalues, fun n hn hgroups => ?_⟩
  rw [hn] at h
  dsimp only at h
  split at h
  · cases h
  · next hcount =>
    rw [Bool.not_eq_true', List.isEmpty_eq_false_iff, not_and, not_not] at hcount
    exact hcount hgroups

end Operand

namespace Body

variable {sc : Scope} {t t' : TypeTable} {f : Form} {is : List Instr}

/-- What leaves no value by its word and its header is the last of what is read from its list, and
leaves none. -/
theorem yields?_of_folded (h : (folded sc f).run t = .ok (is, t'))
    (hnothing : f.yieldsNothing = true) :
    ∃ front last, is = front ++ [last] ∧ last.yields? = some false := by
  cases foldedAs_of_run h with
  | @plain _ _ _ _ _ p _ _ _ groups _ hop _ _ hplain hread =>
    rw [yieldsNothing_plain (headOpcode?_of_kind hop) hplain] at hnothing
    exact ⟨groups.flatten, _, rfl, (Plain.readAs_of_read hread).yields?_eq hnothing⟩
  | cond _ hop hcond hheader harms =>
    rw [yieldsNothing_block (headOpcode?_of_kind hop) hcond, Bool.not_eq_true'] at hnothing
    obtain ⟨front, thenBody, elseBody, rfl⟩ := exists_cond_of_conditional harms
    obtain rfl := Block.void_of_header hheader hnothing
    exact ⟨front, _, rfl, rfl⟩
  | @block _ _ _ _ _ kind _ _ _ _ _ _ hop hkind _ hheader =>
    rw [yieldsNothing_block (headOpcode?_of_kind hop) hkind, Bool.not_eq_true'] at hnothing
    obtain rfl := Block.void_of_header hheader hnothing
    refine ⟨[], _, rfl, ?_⟩
    cases kind <;> rfl

/-- A checked operand is none that leaves no value. -/
theorem yieldsNothing_of_checkValue {op : Opcode} (h : (folded sc f).run t = .ok (is, t'))
    (hcheck : Operand.checkValue op is = .ok ()) : f.yieldsNothing = false := by
  by_contra hnothing
  obtain ⟨front, last, rfl, hlast⟩ := yields?_of_folded h (Bool.not_eq_false _ ▸ hnothing)
  rw [Operand.checkValue, List.getLast?_concat] at hcheck
  dsimp only at hcheck
  rw [if_pos hlast] at hcheck
  cases hcheck

/-- Each operand is read, and what it comes to is one of the groups. -/
theorem exists_group_of_operands {items : List Form} {groups : List (List Instr)}
    (h : (operands sc items).run t = .ok (groups, t')) :
    ∀ f ∈ items, ∃ group ∈ groups, ∃ s s', (folded sc f).run s = .ok (group, s') := by
  intro f hf
  exact Success.exists_right (forall₂_of_operands h) hf

/-- What stands in front of the `then` form of a conditional is read and checked. -/
theorem condition_of_run {name : Option String} {sig : ValType} {span : Span} {items : List Form}
    (h : (conditional sc name sig span items).run t = .ok (is, t')) :
    ∀ g ∈ items.takeWhile (!·.isHeadedBy .thenKw), ∃ s group s',
      (folded sc g).run s = .ok (group, s') ∧ Operand.checkValue .ifOp group = .ok () := by
  induction items generalizing t t' is with
  | nil => simp
  | cons f rest ih =>
    cases conditionalAs_of_run h with
    | one hthen | two hthen =>
      rw [List.takeWhile_cons, hthen]
      simp
    | condition hthen hgroup hcheck hothers =>
      rw [List.takeWhile_cons, hthen]
      exact List.forall_mem_cons.mpr ⟨⟨_, _, _, hgroup, hcheck⟩, ih hothers⟩

/-- In front of the `then` form stand the header and the condition. -/
theorem inert_or_condition {name : Option String} {sig : ValType} {n : Nat} {span : Span}
    {items : List Form} (hheader : Block.header items = .ok (name, sig, n))
    (h : (conditional sc name sig span (items.drop n)).run t = .ok (is, t')) :
    ∀ g ∈ items.takeWhile (!·.isHeadedBy .thenKw), g.Inert ∨ ∃ s group s',
      (folded sc g).run s = .ok (group, s') ∧ Operand.checkValue .ifOp group = .ok () := by
  have hinert := Block.inert_of_header hheader
  intro g hg
  rw [← List.take_append_drop n items, List.takeWhile_append_of_pos, List.mem_append] at hg
  · exact hg.imp (fun hg => (hinert g hg).1) (condition_of_run h g)
  · intro f hf
    rw [(hinert f hf).2]
    rfl

/-- The operands of a plain instruction are all that follows its immediates. -/
theorem operandForms_of_operands {deeper : Scope} {place : Span} {a : Token} {rest : List Form}
    {op : Opcode} {n : Nat} {groups : List (List Instr)} (hop : a.kind = .opcode op)
    (helse : op ≠ .elseOp) (hplain : BlockKind.ofOpcode? op = none) (htake : InertTake n rest)
    (h : (operands deeper (rest.drop n)).run t = .ok (groups, t')) :
    (Form.list place (.atom a :: rest)).operandForms = rest.drop n := by
  rw [operandForms_plain (headOpcode?_of_kind hop) helse hplain]
  refine htake.filter_eq fun g hg => ?_
  obtain ⟨_, -, _, _, hgroup⟩ := exists_group_of_operands h g hg
  obtain ⟨op', hhead, -⟩ := exists_headOpcode?_of_folded hgroup
  exact Option.isSome_iff_exists.mpr ⟨op', hhead⟩

/-- An instruction that is accepted has no operands or as many as it takes. -/
theorem count_of_folded (h : (folded sc f).run t = .ok (is, t')) {op : Opcode} {n : Nat}
    (hhead : f.headOpcode? = some op) (hn : op.operandCount? = some n) (hne : f.operandForms ≠ []) :
    f.operandForms.length = n := by
  cases foldedAs_of_run h with
  | @plain _ _ _ _ _ p _ _ _ groups _ hop _ helse hplain hread hgroups hcheck =>
    obtain rfl := Option.some.inj (hhead.symm.trans (headOpcode?_of_kind hop))
    have hread := Plain.readAs_of_read hread
    have hlength := (forall₂_of_operands hgroups).length_eq
    rw [operandForms_of_operands hop helse hplain hread.inertTake hgroups] at hne ⊢
    rw [hlength]
    refine (Operand.of_check hcheck).2 n (hread.operands?_eq.trans hn) ?_
    rwa [ne_eq, ← List.length_eq_zero_iff, ← hlength, List.length_eq_zero_iff]
  | cond _ hop hkind | block _ hop hkind =>
    obtain rfl := Option.some.inj (hhead.symm.trans (headOpcode?_of_kind hop))
    rw [Opcode.operandCount?_of_block hkind] at hn
    cases hn

/-- The operands of an instruction that is accepted leave a value. -/
theorem values_of_folded (h : (folded sc f).run t = .ok (is, t')) :
    ∀ g ∈ f.operandForms, g.yieldsNothing = false := by
  intro g hg
  cases foldedAs_of_run h with
  | @plain _ _ _ _ _ _ _ _ _ groups _ hop _ helse hplain hread hgroups hcheck =>
    have htake := (Plain.readAs_of_read hread).inertTake
    rw [operandForms_of_operands hop helse hplain htake hgroups] at hg
    obtain ⟨group, hmem, _, _, hgroup⟩ := exists_group_of_operands hgroups g hg
    exact yieldsNothing_of_checkValue hgroup ((Operand.of_check hcheck).1 group hmem)
  | cond _ hop hcond hheader harms =>
    rw [operandForms_cond (headOpcode?_of_kind hop) hcond, List.mem_filter] at hg
    obtain hinert | ⟨s, group, s', hgroup, hcheck⟩ := inert_or_condition hheader harms g hg.1
    · rw [hinert.headOpcode?] at hg
      cases hg.2
    · exact yieldsNothing_of_checkValue hgroup hcheck
  | block _ hop hkind hcond =>
    rw [operandForms_block (headOpcode?_of_kind hop) hkind hcond] at hg
    cases hg

end Body

/-! ## Every depth -/

namespace Form

variable {f g : Form}

/-- What stands in a list behind a word is the list, the word, or in one of the others. -/
theorem Occurs.of_word {span : Span} {a : Token} {args : List Form}
    (h : g.Occurs (.list span (.atom a :: args))) :
    g = .list span (.atom a :: args) ∨ g = .atom a ∨ ∃ f ∈ args, g.Occurs f := by
  cases h with
  | here => exact .inl rfl
  | item hf h =>
    obtain rfl | hf := List.mem_cons.mp hf
    · cases h
      exact .inr (.inl rfl)
    · exact .inr (.inr ⟨_, hf, h⟩)

/-- Whatever is headed by an instruction in a form, but for the `else` of a conditional, is read as
a folded instruction. -/
def ReadWithin (f : Form) : Prop :=
  ∀ g, g.Occurs f → ∀ op, g.headOpcode? = some op → op ≠ .elseOp →
    ∃ sc t is t', (Body.folded sc g).run t = .ok (is, t')

theorem readWithin_atom (t : Token) : ReadWithin (.atom t) := by
  rintro g ⟨⟩ op hhead
  cases hhead

/-- It is enough to know of the list and of what follows its word. -/
theorem ReadWithin.of_args
    (hword : f.headKeyword?.isSome = true ∨ f.headOpcode?.isSome = true)
    (hself : ∀ op, f.headOpcode? = some op → op ≠ .elseOp →
      ∃ sc t is t', (Body.folded sc f).run t = .ok (is, t'))
    (hargs : ∀ g ∈ f.args, ReadWithin g) : ReadWithin f := by
  match f with
  | .atom a => exact readWithin_atom a
  | .list _ [] | .list _ (.list _ _ :: _) =>
    simp [headKeyword?, headOpcode?, keyword?, opcode?] at hword
  | .list span (.atom a :: args) =>
    intro g hg
    obtain rfl | rfl | ⟨x, hx, hg⟩ := hg.of_word
    · exact hself
    · exact readWithin_atom a _ .here
    · exact hargs x hx g hg

/-- A list with a keyword at its head is no instruction, so only its items count. -/
theorem ReadWithin.of_keyword {word : Keyword} (hhead : f.headKeyword? = some word)
    (hargs : ∀ g ∈ f.args, ReadWithin g) : ReadWithin f := by
  refine .of_args (.inl (by simp [hhead])) ?_ hargs
  simp [headOpcode?_of_headKeyword? hhead]

theorem Leaf.readWithin (h : f.Leaf) : ReadWithin f := by
  obtain ⟨-⟩ := h
  exact readWithin_atom _

theorem Inert.readWithin (h : f.Inert) : ReadWithin f := by
  cases h with
  | leaf h => exact h.readWithin
  | list hhead hargs => exact .of_keyword hhead fun g hg => (hargs g hg).readWithin

theorem IsArm.readWithin (h : f.IsArm) (hargs : ∀ g ∈ f.args, ReadWithin g) : ReadWithin f := by
  obtain hthen | helse := h
  · exact .of_keyword (isHeadedBy_iff.mp hthen) hargs
  · refine .of_args (.inr (by simp [helse])) ?_ hargs
    simp [helse]

end Form

/-- What is read in a body is read at any depth. -/
theorem Body.formInvariant_readWithin : FormInvariant fun _ f => f.ReadWithin where
  atom _ t := readWithin_atom t
  inert _ _ h := h.readWithin
  enter h := h
  enterElse _ h := h
  descend _ h := h
  folded hread _ hargs := by
    obtain ⟨op, hhead, -⟩ := exists_headOpcode?_of_folded hread
    refine .of_args (.inr (by simp [hhead])) (fun _ _ _ => ⟨_, _, _, _, hread⟩) fun g hg => ?_
    exact (hargs g hg).elim id fun harm => harm.1.readWithin harm.2

theorem Form.Layered.readWithin {k : Nat} {f : Form} (h : f.Layered Body.IsRead k) :
    f.ReadWithin := by
  induction h with
  | inert h => exact h.readWithin
  | body h =>
    obtain ⟨-, h⟩ := Body.formInvariant_readWithin.of_isRead h
    exact h
  | list hhead _ ih => exact .of_keyword hhead ih

/-! ## Accepted modules -/

namespace Module

/-- Every instruction at any depth of accepted fields is read in some scope. -/
theorem readWithin_of_accepted {fields : List Form} {m : Module} (h : Accepted fields m) :
    ∀ f ∈ fields, f.ReadWithin := by
  obtain ⟨name, h⟩ := h.ofFields
  exact fun f hf => (layered_of_ofFields h f hf).readWithin

/-- In an accepted module operands are counted and leave values, however deep an instruction is
folded into others. -/
theorem operands_checked {fields : List Form} {m : Module} (h : Accepted fields m) :
    ∀ f ∈ fields, ∀ g : Form, g.Occurs f → g.OperandsChecked := by
  intro f hf g hg
  by_cases hread : ∃ op, g.headOpcode? = some op ∧ op ≠ .elseOp
  · obtain ⟨op, hhead, helse⟩ := hread
    obtain ⟨_, _, _, _, hfolded⟩ := readWithin_of_accepted h f hf g hg op hhead helse
    exact ⟨fun _ _ => Body.count_of_folded hfolded, Body.values_of_folded hfolded⟩
  · -- no operands are written in what is no instruction
    have hnil : g.operandForms = [] := by
      unfold operandForms
      split
      · rfl
      · next op hhead => rw [if_pos (not_not.mp fun helse => hread ⟨op, hhead, helse⟩)]
    exact ⟨fun _ _ _ _ hne => absurd hnil hne, by simp [hnil]⟩

/-- Operands in an arm, and a condition in an operand. -/
theorem operands_checked_nested :
    let src : Source := ⟨"t", "(func (drop (if i32 (i32.const 1) (then (i32.clz (i32.const 2))))))"⟩
    let fields := fieldsOf (Reader.ofSource src).readCommand.1
    ∃ m, (parse src).outcome = .accepted m ∧
      ∀ f ∈ fields, ∀ g : Form, g.Occurs f → g.OperandsChecked := by
  intro src fields
  obtain ⟨m, hm⟩ : ∃ m, (parse src).outcome = .accepted m :=
    Outcome.exists_accepted (by decide +kernel)
  exact ⟨m, hm, operands_checked (.alone hm)⟩

end Module

end WasmText
