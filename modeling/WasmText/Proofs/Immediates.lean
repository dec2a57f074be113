import WasmText.Proofs.TypeUses

/-!
# What plain instructions come to

`Plain.ReadAs` says, one instruction at a time, which immediates stand behind the word of an
instruction that holds no others, and what is read off them. Whatever is read keeps the word's
opcode, takes only forms that are no instructions, and changes of the types at most their end.
-/

namespace WasmText

open Form

/-! ## Single immediates -/

namespace Immediate

variable {labels : Labels} {span : Span} {f? : Option Form} {items : List Form} {op : Opcode}
  {n : Nat}

/-- A reference has no words. -/
theorem leaf_of_isReference {f : Form} (h : f.isReference = true) : f.Leaf := by
  apply leaf_of_isSome
  unfold isReference at h
  split at h
  · simp [id?]
  · simp [number?]
  · cases h

/-- How a form tells which label is meant. -/
inductive LabelAs (labels : Labels) (f : Form) (depth : Nat) : Prop
  | name {name : String} (hid : f.id? = some name) (h : labels.depthOf name f.span = .ok depth)
  | number {t : Token} {l : Label} (hid : f.id? = none) (hnumber : f.number? = some t)
    (h : natural t.text t.span = .ok depth) (hl : labels.atDepth depth t.span = .ok l)

/-- What is read as a label is a number in range or the name of a block around it. -/
theorem labelAs_of_label {depth : Nat} (h : label labels span f? = .ok depth) :
    ∃ f, f? = some f ∧ LabelAs labels f depth := by
  unfold label at h
  split at h
  · cases h
  · next f =>
    refine ⟨f, rfl, ?_⟩
    split at h
    · next hid => exact .name hid h
    · next hid =>
      split at h
      · next hnumber =>
        obtain ⟨depth, hdepth, h⟩ := Success.of_bind h
        obtain ⟨_, hdiscard, h⟩ := Success.of_bind h
        obtain ⟨l, hl, -⟩ := Success.of_map hdiscard
        obtain rfl := Success.of_pure h
        exact .number hid hnumber hdepth hl
      · cases h

theorem leaf_of_label {depth : Nat} (h : label labels span f? = .ok depth) :
    ∃ f, f? = some f ∧ f.Leaf := by
  obtain ⟨f, hf, hlabel⟩ := labelAs_of_label h
  cases hlabel with
  | name hid => exact ⟨f, hf, leaf_of_isSome (by simp [hid])⟩
  | number _ hnumber => exact ⟨f, hf, leaf_of_isSome (by simp [hnumber])⟩

/-- A label table is a label with all the references after it. -/
theorem labelTable_eq_ok_iff {targets : List Nat} :
    labelTable labels span items = .ok (targets, n) ↔
      ∃ first others, label labels span items.head? = .ok first ∧
        List.Forall₂ (fun f depth => label labels span (some f) = .ok depth)
          (items.tail.takeWhile isReference) others ∧
        targets = first :: others ∧ n = others.length + 1 := by
  constructor
  · intro h
    obtain ⟨first, hfirst, h⟩ := Success.of_bind h
    obtain ⟨others, hothers, h⟩ := Success.of_bind h
    obtain ⟨rfl, rfl⟩ := Prod.mk.inj (Success.of_pure h)
    exact ⟨first, others, hfirst, Success.mapM_iff.mp hothers, rfl, rfl⟩
  · rintro ⟨first, others, hfirst, hothers, rfl, rfl⟩
    rw [labelTable, Success.bind_of hfirst, Success.bind_of (Success.mapM_iff.mpr hothers)]
    rfl

/-- The labels of a table have no words. -/
theorem inertTake_of_labelTable {targets : List Nat}
    (h : labelTable labels span items = .ok (targets, n)) : InertTake n items := by
  obtain ⟨first, others, hfirst, hothers, -, rfl⟩ := labelTable_eq_ok_iff.mp h
  rw [← hothers.length_eq, Nat.add_comm]
  refine (inertTake_leaf (leaf_of_label hfirst)).add ?_
  rw [List.drop_one]
  exact inertTake_takeWhile fun f hf => .leaf (leaf_of_isReference (List.mem_takeWhile_imp hf))

/-- The number of a constant, which is an integer for a type of integers. -/
theorem exists_numeral_of_const {c : Const} (h : const op span f? = .ok c) :
    ∃ f t numeral, f? = some f ∧ f.number? = some t ∧ Numeral.ofText t.text = .ok numeral ∧
      (op.result.isInt → numeral.kind = .int) ∧ c = ⟨op.result, numeral⟩ := by
  unfold const at h
  split at h
  · cases h
  · next f =>
    split at h
    · cases h
    · next t hnumber =>
      split at h
      · cases h
      · next numeral hnumeral =>
        split at h
        · cases h
        · next hint =>
          have hint : op.result.isInt → numeral.kind = .int := fun hisInt =>
            Classical.not_not.mp fun hkind => hint ⟨hisInt, hkind⟩
          exact ⟨f, t, numeral, rfl, hnumber, hnumeral, hint, (Except.ok.inj h).symm⟩

theorem leaf_of_const {c : Const} (h : const op span f? = .ok c) : ∃ f, f? = some f ∧ f.Leaf := by
  obtain ⟨f, t, _, hf, hnumber, -⟩ := exists_numeral_of_const h
  exact ⟨f, hf, leaf_of_isSome (by simp [hnumber])⟩

/-- A constant has the type that its opcode leaves. -/
theorem type_of_const {c : Const} (h : const op span f? = .ok c) : c.type = op.result := by
  obtain ⟨_, _, _, -, -, -, -, rfl⟩ := exists_numeral_of_const h
  rfl

/-! ### Offset and alignment -/

/-- A keyed immediate is an atom of its kind. -/
theorem keyed?_eq_some_iff {kind : TokenKind} {t : Token} :
    keyed? kind f? = some t ↔ f? = some (.atom t) ∧ t.kind = kind := by
  constructor
  · intro h
    unfold keyed? at h
    split at h
    · split at h
      · next hkind =>
        obtain rfl := Option.some.inj h
        exact ⟨rfl, hkind⟩
      · cases h
    · cases h
  · rintro ⟨rfl, hkind⟩
    exact if_pos hkind

/-- How many forms an immediate with a keyword takes, as it may be left out. -/
def width (kind : TokenKind) (items : List Form) : Nat :=
  if (keyed? kind items.head?).isSome then 1 else 0

theorem width_of_eq_none {kind : TokenKind} (h : keyed? kind items.head? = none) :
    width kind items = 0 := by
  rw [width, h]
  rfl

theorem width_of_eq_some {kind : TokenKind} {t : Token} (h : keyed? kind items.head? = some t) :
    width kind items = 1 := by
  rw [width, h]
  rfl

/-- A keyed immediate has no words. -/
theorem inertTake_width {kind : TokenKind} (hkind : ∀ op, kind ≠ .opcode op)
    (items : List Form) : InertTake (width kind items) items := by
  cases h : keyed? kind items.head? with
  | none =>
    rw [width_of_eq_none h]
    exact inertTake_zero items
  | some t =>
    obtain ⟨hhead, ht⟩ := keyed?_eq_some_iff.mp h
    rw [width_of_eq_some h]
    exact inertTake_leaf ⟨_, hhead, leaf_atom (ht ▸ hkind)⟩

theorem takes_of_offset {offset : Nat} (h : Immediate.offset items = .ok (offset, n)) :
    n = width .offsetEq items := by
  unfold Immediate.offset at h
  split at h
  · next t ht =>
    obtain ⟨_, -, h⟩ := Success.of_bind h
    rw [width_of_eq_some ht]
    exact (Prod.mk.inj (Success.of_pure h)).2.symm
  · next hnone =>
    rw [width_of_eq_none hnone]
    exact (Prod.mk.inj (Except.ok.inj h)).2.symm

/-- How the alignment of a load or store comes about. -/
inductive AlignAs (op : Opcode) (items : List Form) : Nat → Nat → Prop
  | natural (h : keyed? .alignEq items.head? = none) : AlignAs op items op.naturalAlign 0
  | written {t : Token} {requested : Nat} (ht : keyed? .alignEq items.head? = some t)
    (h : Form.natural (afterEquals t.text) t.span = .ok requested)
    (hpower : Opcode.isPowerOfTwo requested = true) (haligned : op.isAligned requested = true) :
    AlignAs op items (op.resolveAlign requested) 1

/-- What is read as an alignment is a power of two that is written, or the natural one. -/
theorem alignAs_of_align {a : Nat} (h : align op items = .ok (a, n)) : AlignAs op items a n := by
  unfold align at h
  split at h
  · next hnone =>
    obtain ⟨rfl, rfl⟩ := Prod.mk.inj (Except.ok.inj h)
    exact .natural hnone
  · next t ht =>
    obtain ⟨requested, hrequested, h⟩ := Success.of_bind h
    dsimp only at h
    split at h
    · cases h
    · next hpower =>
      split at h
      · cases h
      · next haligned =>
        obtain ⟨rfl, rfl⟩ := Prod.mk.inj (Success.of_pure h)
        exact .written ht hrequested (by simpa using hpower) (by simpa using haligned)

theorem takes_of_align {a : Nat} (h : align op items = .ok (a, n)) : n = width .alignEq items := by
  cases alignAs_of_align h with
  | natural hnone => exact (width_of_eq_none hnone).symm
  | written ht => exact (width_of_eq_some ht).symm

/-- An offset is read first, and an alignment from what follows it. -/
theorem memArg_eq_ok_iff {arg : MemArg} :
    memArg op items = .ok (arg, n) ↔ ∃ i j, Immediate.offset items = .ok (arg.offset, i) ∧
      align op (items.drop i) = .ok (arg.align, j) ∧ n = i + j := by
  constructor
  · intro h
    obtain ⟨⟨offset, i⟩, hoffset, h⟩ := Success.of_bind h
    obtain ⟨⟨a, j⟩, halign, h⟩ := Success.of_bind h
    obtain ⟨rfl, rfl⟩ := Prod.mk.inj (Success.of_pure h)
    exact ⟨i, j, hoffset, halign, rfl⟩
  · rintro ⟨i, j, hoffset, halign, rfl⟩
    rw [memArg, Success.bind_of hoffset]
    dsimp only
    rw [Success.bind_of halign]
    rfl

/-- The immediates of an access to memory have no words. -/
theorem inertTake_of_memArg {arg : MemArg} (h : memArg op items = .ok (arg, n)) :
    InertTake n items := by
  obtain ⟨i, j, hoffset, halign, rfl⟩ := memArg_eq_ok_iff.mp h
  obtain rfl := takes_of_offset hoffset
  obtain rfl := takes_of_align halign
  exact (inertTake_width (by simp) items).add (inertTake_width (by simp) _)

/-! ### The type of an indirect call -/

/-- How the type of an indirect call comes about, from the types `t` on. -/
inductive IndirectType (span : Span) (items : List Form) (t : TypeTable) :
    Nat → Nat → TypeTable → Prop
  | reference {f : Form} {index : Nat} (hhead : items.head? = some f)
    (href : f.isReference = true) (h : t.names.resolve .type span (some f) = .ok index) :
    IndirectType span items t index 1 t
  | use {use : TypeUse} {n : Nat} {t' : TypeTable}
    (hhead : items.head?.filter isReference = none)
    (h : TypeUse.ReadAs false items t use n t') (hpos : n ≠ 0) :
    IndirectType span items t use.index n t'

/-- The type of an indirect call is a reference or a type use. -/
theorem indirectType_of_run {span : Span} {items : List Form} {t t' : TypeTable} {type n : Nat}
    (h : (indirectType span items).run t = .ok ((type, n), t')) :
    IndirectType span items t type n t' := by
  unfold indirectType at h
  split at h
  · next f hf =>
    obtain ⟨table, s, hget, h⟩ := Success.of_run_bind h
    obtain ⟨rfl, rfl⟩ : t = table ∧ t = s := Prod.mk.inj (Except.ok.inj hget)
    obtain ⟨index, hindex, h⟩ := Success.of_run_lift h
    obtain ⟨rfl, rfl, rfl⟩ := Success.of_run_pure_pair h
    obtain ⟨hhead, href⟩ := Option.filter_eq_some_iff.mp hf
    exact .reference hhead href hindex
  · next hnone =>
    obtain ⟨⟨use, m⟩, s, hread, h⟩ := Success.of_run_bind h
    dsimp only at h
    split at h
    · cases h
    · next hpos =>
      obtain ⟨rfl, rfl, rfl⟩ := Success.of_run_pure_pair h
      exact .use hnone (TypeUse.readAs_of_read hread) hpos

/-- The type of an indirect call has no words. -/
theorem IndirectType.inertTake {span : Span} {items : List Form} {t t' : TypeTable}
    {type n : Nat} (h : IndirectType span items t type n t') : InertTake n items := by
  cases h with
  | reference hhead href => exact inertTake_leaf ⟨_, hhead, leaf_of_isReference href⟩
  | use _ h => exact h.inertTake

/-- An indirect call adds types at the end of the table, or none. -/
theorem IndirectType.grows {span : Span} {items : List Form} {t t' : TypeTable}
    {type n : Nat} (h : IndirectType span items t type n t') : t.Grows t' := by
  cases h with
  | reference => exact .refl t
  | use _ h => exact h.grows

end Immediate

/-! ## Plain instructions -/

namespace Plain

/-- The instructions without immediates that are not numeric. -/
def bare : List Plain := [unreachable, nop, drop, select, ret, currentMemory, growMemory]

/-- What an instruction that holds no others comes to, read in a scope from the types `t` on: the
instruction, how many forms its immediates take, and the types after it. -/
inductive ReadAs (sc : Scope) (span : Span) (items : List Form) (t : TypeTable) :
    Opcode → Plain → Nat → TypeTable → Prop
  | bare {op : Opcode} {p : Plain} (h : p ∈ bare) (hop : p.opcode = op) :
    ReadAs sc span items t op p 0 t
  | br {depth : Nat} (h : Immediate.label sc.labels span items.head? = .ok depth) :
    ReadAs sc span items t .br (.br depth) 1 t
  | brIf {depth : Nat} (h : Immediate.label sc.labels span items.head? = .ok depth) :
    ReadAs sc span items t .brIf (.brIf depth) 1 t
  | brTable {targets : List Nat} {n : Nat}
    (h : Immediate.labelTable sc.labels span items = .ok (targets, n)) :
    ReadAs sc span items t .brTable (.brTable targets.dropLast (targets.getLast?.getD 0)) n t
  | call {index : Nat} (h : sc.spaces.funcs.resolve .func span items.head? = .ok index) :
    ReadAs sc span items t .call (.call index) 1 t
  | callIndirect {type n : Nat} {t' : TypeTable}
    (h : Immediate.IndirectType span items t type n t') :
    ReadAs sc span items t .callIndirect (.callIndirect type) n t'
  | getLocal {index : Nat} (h : sc.locals.resolve .localVar span items.head? = .ok index) :
    ReadAs sc span items t .getLocal (.getLocal index) 1 t
  | setLocal {index : Nat} (h : sc.locals.resolve .localVar span items.head? = .ok index) :
    ReadAs sc span items t .setLocal (.setLocal index) 1 t
  | teeLocal {index : Nat} (h : sc.locals.resolve .localVar span items.head? = .ok index) :
    ReadAs sc span items t .teeLocal (.teeLocal index) 1 t
  | getGlobal {index : Nat} (h : sc.spaces.globals.resolve .global span items.head? = .ok index) :
    ReadAs sc span items t .getGlobal (.getGlobal index) 1 t
  | setGlobal {index : Nat} (h : sc.spaces.globals.resolve .global span items.head? = .ok index) :
    ReadAs sc span items t .setGlobal (.setGlobal index) 1 t
  | const {op : Opcode} {value : Const} (hop : op.isConst = true)
    (h : Immediate.const op span items.head? = .ok value) :
    ReadAs sc span items t op (.const value) 1 t
  | load {op : Opcode} {arg : MemArg} {n : Nat} (hop : op.isLoad = true)
    (h : Immediate.memArg op items = .ok (arg, n)) : ReadAs sc span items t op (.load op arg) n t
  | store {op : Opcode} {arg : MemArg} {n : Nat} (hop : op.isStore = true)
    (h : Immediate.memArg op items = .ok (arg, n)) : ReadAs sc span items t op (.store op arg) n t
  | numeric {op : Opcode} {p : Plain} (h : numeric? op = some p) : ReadAs sc span items t op p 0 t

/-- An immediate that takes one form. -/
theorem of_run_one {α : Type} {make : α → Plain} {r : Except Problem α} {t t' : TypeTable}
    {p : Plain} {n : Nat}
    (h : (do return (make (← r), 1) : Elab (Plain × Nat)).run t = .ok ((p, n), t')) :
    ∃ a, r = .ok a ∧ p = make a ∧ n = 1 ∧ t' = t := by
  obtain ⟨a, ha, h⟩ := Success.of_run_lift h
  obtain ⟨rfl, rfl, rfl⟩ := Success.of_run_pure_pair h
  exact ⟨a, ha, rfl, rfl, rfl⟩

/-- What is read as a plain instruction is described by its opcode and its immediates. -/
theorem readAs_of_read {sc : Scope} {op : Opcode} {span : Span} {items : List Form}
    {t t' : TypeTable} {p : Plain} {n : Nat}
    (h : (read sc op span items).run t = .ok ((p, n), t')) : ReadAs sc span items t op p n t' := by
  unfold read at h
  dsimp only at h
  split at h
  case h_1 | h_2 | h_3 | h_4 | h_5 | h_6 | h_7 =>
    obtain ⟨rfl, rfl, rfl⟩ := Success.of_run_pure_pair h
    exact .bare (by simp [bare]) rfl
  case h_8 =>
    obtain ⟨depth, hdepth, rfl, rfl, rfl⟩ := of_run_one h
    exact .br hdepth
  case h_9 =>
    obtain ⟨depth, hdepth, rfl, rfl, rfl⟩ := of_run_one h
    exact .brIf hdepth
  case h_10 =>
    obtain ⟨⟨targets, m⟩, htargets, h⟩ := Success.of_run_lift h
    obtain ⟨rfl, rfl, rfl⟩ := Success.of_run_pure_pair h
    exact .brTable htargets
  case h_11 =>
    obtain ⟨index, hindex, rfl, rfl, rfl⟩ := of_run_one h
    exact .call hindex
  case h_12 =>
    obtain ⟨⟨type, m⟩, s, htype, h⟩ := Success.of_run_bind h
    obtain ⟨rfl, rfl, rfl⟩ := Success.of_run_pure_pair h
    exact .callIndirect (Immediate.indirectType_of_run htype)
  case h_13 =>
    obtain ⟨index, hindex, rfl, rfl, rfl⟩ := of_run_one h
    exact .getLocal hindex
  case h_14 =>
    obtain ⟨index, hindex, rfl, rfl, rfl⟩ := of_run_one h
    exact .setLocal hindex
  case h_15 =>
    obtain ⟨index, hindex, rfl, rfl, rfl⟩ := of_run_one h
    exact .teeLocal hindex
  case h_16 =>
    obtain ⟨index, hindex, rfl, rfl, rfl⟩ := of_run_one h
    exact .getGlobal hindex
  case h_17 =>
    obtain ⟨index, hindex, rfl, rfl, rfl⟩ := of_run_one h
    exact .setGlobal hindex
  case h_18 =>
    -- constants, memory accesses and numeric instructions, by what the opcode is
    split at h
    · next hconst =>
      obtain ⟨value, hvalue, rfl, rfl, rfl⟩ := of_run_one h
      exact .const hconst hvalue
    · split at h
      · next hload =>
        obtain ⟨⟨arg, m⟩, harg, h⟩ := Success.of_run_lift h
        obtain ⟨rfl, rfl, rfl⟩ := Success.of_run_pure_pair h
        exact .load hload harg
      · split at h
        · next hstore =>
          obtain ⟨⟨arg, m⟩, harg, h⟩ := Success.of_run_lift h
          obtain ⟨rfl, rfl, rfl⟩ := Success.of_run_pure_pair h
          exact .store hstore harg
        · split at h
          · next p' hnumeric =>
            obtain ⟨rfl, rfl, rfl⟩ := Success.of_run_pure_pair h
            exact .numeric hnumeric
          · cases h

section ReadAs

variable {sc : Scope} {span : Span} {items : List Form} {t t' : TypeTable} {op : Opcode}
  {p : Plain} {n : Nat}

/-- What an instruction of numbers is, by its range of opcodes. -/
inductive NumericAs (op : Opcode) : Plain → Prop
  | compare : NumericAs op (.compare op)
  | unary (harity : op.arity = 1) : NumericAs op (.unary op)
  | binary (hlow : 0x67 ≤ op.code) (hhigh : op.code ≤ 0xa6) (harity : op.arity ≠ 1) :
    NumericAs op (.binary op)
  | convert : NumericAs op (.convert op)

/-- Opcodes without immediates are told apart by what they are. -/
theorem numericAs_of_numeric? (h : numeric? op = some p) : NumericAs op p := by
  unfold numeric? at h
  split at h
  · obtain rfl := Option.some.inj h
    exact .compare
  · split at h
    · next hcode =>
      obtain rfl := Option.some.inj h
      split
      · next harity => exact .unary harity
      · next harity => exact .binary hcode.1 hcode.2 harity
    · split at h
      · obtain rfl := Option.some.inj h
        exact .convert
      · cases h

/-- A numeric instruction has the opcode that it is read from. -/
theorem opcode_of_numeric? (h : numeric? op = some p) : p.opcode = op := by
  cases numericAs_of_numeric? h <;> rfl

theorem constOpcode_result (h : op.isConst = true) : constOpcode op.result = op := by
  unfold Opcode.isConst at h
  split at h
  · rfl
  · rfl
  · rfl
  · rfl
  · cases h

/-- An instruction keeps the opcode of its word. -/
theorem ReadAs.opcode (h : ReadAs sc span items t op p n t') : p.opcode = op := by
  cases h with
  | const hop h => rw [Plain.opcode, Immediate.type_of_const h, constOpcode_result hop]
  | bare _ hop => exact hop
  | numeric h => exact opcode_of_numeric? h
  | _ => rfl

/-- The immediates of an instruction have no words. -/
theorem ReadAs.inertTake (h : ReadAs sc span items t op p n t') : InertTake n items := by
  cases h with
  | bare | numeric => exact inertTake_zero items
  | br h | brIf h => exact inertTake_leaf (Immediate.leaf_of_label h)
  | brTable h => exact Immediate.inertTake_of_labelTable h
  | call h | getLocal h | setLocal h | teeLocal h | getGlobal h | setGlobal h =>
    exact inertTake_leaf (Names.leaf_of_resolve h)
  | callIndirect h => exact h.inertTake
  | const _ h => exact inertTake_leaf (Immediate.leaf_of_const h)
  | load _ h | store _ h => exact Immediate.inertTake_of_memArg h

/-- A plain instruction adds types at the end of the table, or none. -/
theorem ReadAs.grows (h : ReadAs sc span items t op p n t') : t.Grows t' := by
  cases h with
  | callIndirect h => exact h.grows
  | _ => exact .refl t

end ReadAs

end Plain

end WasmText
