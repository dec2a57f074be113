import WasmText.Proofs.Adding
import WasmText.Proofs.Invariants
import WasmText.Proofs.TypeTable

/-!
# Well-formed modules

The definitions say what a module is like that a later stage need not check again: types of values,
blocks and tables, the operands that numeric instructions take, alignments, constants and how deep
instructions nest. Every module that is accepted is like that, on whichever path its parts were
read: in bodies by one invariant of the readers, in the other parts field by field.
-/

namespace WasmText

open Form

/-! ## What is well formed -/

/-- A signature of value types with at most one result. -/
structure FuncType.WellFormed (t : FuncType) : Prop where
  params : ∀ p ∈ t.params, p.isValue = true
  results : ∀ r ∈ t.results, r.isValue = true
  oneResult : t.results.length ≤ 1

/-- The alignment is a power of two, and not above the natural one of the instruction. -/
structure MemArg.Suits (arg : MemArg) (op : Opcode) : Prop where
  power : arg.align.isPowerOfTwo
  le : arg.align ≤ op.naturalAlign

/-- A constant of a value type, with an integer where the type is one of integers. Its text is a
numeral of its kind. -/
structure Const.WellFormed (c : Const) : Prop where
  type : c.type.isValue = true
  integer : c.type.isInt = true → c.numeral.kind = .int
  classifies : Numeral.ofText c.numeral.text = .ok c.numeral

/-- The immediates of an instruction are such as its opcode takes. -/
def Plain.WellFormed : Plain → Prop
  | .load op arg => op.isLoad = true ∧ arg.Suits op
  | .store op arg => op.isStore = true ∧ arg.Suits op
  | .const value => value.WellFormed
  | .unary op => op.arity = 1
  | .binary op => op.arity = 2
  | _ => True

namespace Instr

/-- An instruction is well formed apart from what it holds. -/
def Sound : Instr → Prop
  | .plain p _ => p.WellFormed
  | .block _ sig _ _ | .loop _ sig _ _ | .cond _ sig _ _ _ => sig.isValue = true ∨ sig = .void

mutual

/-- How many blocks are inside each other, an instruction among them. -/
def nesting : Instr → Nat
  | .plain .. => 0
  | .block _ _ body _ | .loop _ _ body _ => nestingAll body + 1
  | .cond _ _ thenBody elseBody _ => max (nestingAll thenBody) (nestingAll elseBody) + 1

/-- The greatest nesting among some instructions. -/
def nestingAll : List Instr → Nat
  | [] => 0
  | i :: is => max (nesting i) (nestingAll is)

end

end Instr

open Instr

/-- A body is well formed at any depth. As the nesting of each block is bounded, so is that of each
body inside it. -/
structure Body.WellFormed (body : List Instr) : Prop where
  sound : ∀ i ∈ preorderAll body, i.Sound
  nesting : ∀ i ∈ preorderAll body, i.nesting ≤ Scope.maxNesting

/-- The types of an import are well formed. -/
def ImportDesc.WellFormed : ImportDesc → Prop
  | .table type => type.elemType = .anyfunc
  | .global type => type.type.isValue = true
  | _ => True

/-- What holds of a module that is accepted, apart from what its indices refer to: every type,
alignment and constant in it is one, no body is nested too deeply, and no two exports have one
name. -/
structure Module.WellFormed (m : Module) : Prop where
  types : ∀ t ∈ m.types, t.WellFormed
  imports : ∀ i ∈ m.imports, i.desc.WellFormed
  sigs : ∀ x ∈ m.funcs, x.sig.WellFormed
  locals : ∀ x ∈ m.funcs, ∀ t ∈ x.locals, t.isValue = true
  bodies : ∀ x ∈ m.funcs, Body.WellFormed x.body
  tables : ∀ t ∈ m.tables, t.elemType = .anyfunc
  globals : ∀ g ∈ m.globals, g.type.type.isValue = true ∧ Body.WellFormed g.init
  exports : (m.exports.map Export.name).Nodup
  elems : ∀ e ∈ m.elems, Body.WellFormed e.offset
  data : ∀ x ∈ m.data, Body.WellFormed x.offset

/-! ## Nesting -/

namespace Instr

theorem nestingAll_append (is js : List Instr) :
    nestingAll (is ++ js) = max (nestingAll is) (nestingAll js) := by
  induction is with
  | nil => rw [List.nil_append, nestingAll, Nat.zero_max]
  | cons i is ih => rw [List.cons_append, nestingAll, nestingAll, ih, Nat.max_assoc]

theorem preorderAll_append (is js : List Instr) :
    preorderAll (is ++ js) = preorderAll is ++ preorderAll js := by
  rw [← map_instr_sitesAll [], sitesAll_append, List.map_append, map_instr_sitesAll,
    map_instr_sitesAll]

mutual

/-- An instruction is nested no more deeply than one that it is inside. -/
theorem nesting_le_of_mem_preorder {j : Instr} (i : Instr) (h : j ∈ preorder i) :
    j.nesting ≤ i.nesting := by
  cases i with
  | plain p span =>
    obtain rfl := List.mem_singleton.mp h
    exact Nat.le_refl _
  | block label sig body span | loop label sig body span =>
    rw [preorder, List.mem_cons] at h
    rcases h with rfl | h
    · exact Nat.le_refl _
    · exact Nat.le_succ_of_le (nesting_le_of_mem_preorderAll body h)
  | cond label sig thenBody elseBody span =>
    rw [preorder, List.mem_cons, List.mem_append] at h
    rw [nesting.eq_def (.cond ..)]
    rcases h with rfl | h | h
    · rw [nesting]
    · have hle := nesting_le_of_mem_preorderAll thenBody h
      dsimp only
      omega
    · have hle := nesting_le_of_mem_preorderAll elseBody h
      dsimp only
      omega

theorem nesting_le_of_mem_preorderAll {j : Instr} (is : List Instr) (h : j ∈ preorderAll is) :
    j.nesting ≤ nestingAll is := by
  cases is with
  | nil => cases h
  | cons i is =>
    rw [preorderAll, List.mem_append] at h
    rw [nestingAll]
    rcases h with h | h
    · have hle := nesting_le_of_mem_preorder i h
      omega
    · have hle := nesting_le_of_mem_preorderAll is h
      omega

end

end Instr

/-! ## Types -/

/-- What is read as the type of a value is one. -/
theorem isValue_of_valueType {f : Form} {type : ValType} (h : f.valueType = .ok type) :
    type.isValue = true := by
  unfold valueType at h
  split at h
  · split at h
    · next hvalue => rwa [← Except.ok.inj h]
    · cases h
  · cases h

theorem isValue_of_mapM {fs : List Form} {types : List ValType}
    (h : fs.mapM Form.valueType = .ok types) : ∀ t ∈ types, t.isValue = true :=
  Success.forall_of_mapM (fun _ _ => isValue_of_valueType) h

namespace Signature

theorem isValue_of_params {namesAllowed : Bool} {f : Form} {ps : List Param}
    (h : params namesAllowed f = .ok ps) : ∀ p ∈ ps, p.type.isValue = true := by
  cases paramsAs_of_params h with
  | named _ _ htype => exact List.forall_mem_singleton.mpr (isValue_of_valueType htype)
  | unnamed _ h => exact Success.forall_of_forall₂ (fun _ _ hp => isValue_of_valueType hp.1) h

theorem forall_of_flatten_mapM {α β : Type} {r : α → Except Problem (List β)} {Q : β → Prop}
    {xs : List α} {bss : List (List β)} (hr : ∀ x bs, r x = .ok bs → ∀ b ∈ bs, Q b)
    (h : xs.mapM r = .ok bss) : ∀ b ∈ bss.flatten, Q b := by
  intro b hb
  obtain ⟨bs, hbs, hb⟩ := List.mem_flatten.mp hb
  exact Success.forall_of_mapM (Q := fun bs => ∀ b ∈ bs, Q b) hr h bs hbs b hb

/-- The signature that is read has types of values only. -/
theorem wellFormed_of_read {namesAllowed : Bool} {items : List Form} {ps : List Param}
    {rs : List ValType} {n : Nat} (h : read namesAllowed items = .ok (ps, rs, n)) :
    FuncType.WellFormed ⟨ps.map Param.type, rs⟩ := by
  obtain ⟨⟨pss, hps, rfl⟩, ⟨rss, hrs, rfl⟩, hone, -⟩ := readAs_of_read h
  refine ⟨?_, ?_, hone⟩
  · rw [List.forall_mem_map]
    exact forall_of_flatten_mapM (fun _ _ => isValue_of_params) hps
  · exact forall_of_flatten_mapM (fun _ _ => isValue_of_mapM) hrs

end Signature

/-- A type that is defined has types of values only. -/
theorem FuncType.wellFormed_of_ofDefinition? {f : Form} {sig : FuncType}
    (h : ofDefinition? f = some (.ok sig)) : sig.WellFormed := by
  cases Field.definedAs_of_ofDefinition? h with
  | func _ _ hread => exact Signature.wellFormed_of_read hread

/-- Each type that a type use adds to the table has types of values only. -/
theorem TypeUse.ReadAs.adds_wellFormed {namesAllowed : Bool} {items : List Form}
    {t t' : TypeTable} {use : TypeUse} {n : Nat} (h : ReadAs namesAllowed items t use n t') :
    t.Adds FuncType.WellFormed t' := by
  cases h with
  | explicit => exact .refl
  | implicit _ hread => exact t.adds_findOrAdd (Signature.wellFormed_of_read hread)

/-- The type of a block is the type of a value, or there is none. -/
theorem Block.sig_of_header {items : List Form} {name : Option String} {type : ValType} {n : Nat}
    (h : header items = .ok (name, type, n)) : type.isValue = true ∨ type = .void := by
  obtain ⟨m, -, -, hsig⟩ := takes_of_header h
  cases sigAs_of_sig hsig with
  | none | empty => exact .inr rfl
  | bare _ _ htype | result _ _ _ htype => exact .inl (isValue_of_valueType htype)

/-! ## Plain instructions -/

namespace Opcode

/-- The test that an alignment has to pass is for powers of two. -/
theorem isPowerOfTwo_iff {n : Nat} : isPowerOfTwo n = true → n.isPowerOfTwo := by
  intro h
  rw [isPowerOfTwo, Bool.and_eq_true, beq_iff_eq] at h
  exact ⟨n.log2, h.2.symm⟩

/-- The request for the natural alignment is no power of two. -/
theorem ne_useNatural {n : Nat} (h : isPowerOfTwo n = true) : n ≠ useNatural := by
  rintro rfl
  exact absurd h (by decide)

/-- The alignment that is taken where none is written is a power of two too. -/
theorem isPowerOfTwo_naturalAlign {op : Opcode} (h : 0 < op.access) :
    op.naturalAlign.isPowerOfTwo := by
  rw [naturalAlign, if_neg (Nat.ne_of_gt h)]
  exact ⟨_, rfl⟩

end Opcode

namespace Immediate

theorem suits_of_align {op : Opcode} {items : List Form} {a n offset : Nat} (hop : 0 < op.access)
    (h : align op items = .ok (a, n)) : MemArg.Suits ⟨a, offset⟩ op := by
  cases alignAs_of_align h with
  | natural => exact ⟨Opcode.isPowerOfTwo_naturalAlign hop, Nat.le_refl _⟩
  | written _ _ hpower haligned =>
    have hne := Opcode.ne_useNatural hpower
    rw [Opcode.resolveAlign, if_neg hne]
    refine ⟨Opcode.isPowerOfTwo_iff hpower, ?_⟩
    simpa [Opcode.isAligned, hne, hpower] using haligned

/-- An access to memory is aligned by a power of two that is no more than its size. -/
theorem suits_of_memArg {op : Opcode} {items : List Form} {arg : MemArg} {n : Nat}
    (hop : 0 < op.access) (h : memArg op items = .ok (arg, n)) : arg.Suits op := by
  obtain ⟨_, _, -, halign, -⟩ := memArg_eq_ok_iff.mp h
  exact suits_of_align hop halign

/-- A constant has the type of its opcode. -/
theorem wellFormed_of_const {op : Opcode} {span : Span} {f? : Option Form} {value : Const}
    (hop : op.isConst = true) (h : Immediate.const op span f? = .ok value) :
    value.WellFormed := by
  obtain ⟨_, t, numeral, -, -, hnumeral, hint, rfl⟩ := exists_numeral_of_const h
  refine ⟨?_, hint, ?_⟩
  · unfold Opcode.isConst at hop
    split at hop <;> first | rfl | cases hop
  · -- a numeral keeps the text that it is read from
    have htext : numeral.text = t.text := by
      unfold Numeral.ofText at hnumeral
      split at hnumeral
      · rw [← Except.ok.inj hnumeral]
      · cases hnumeral
    rw [htext, hnumeral]

end Immediate

namespace Plain

theorem arity_of_code {op : Opcode} (hlow : 0x67 ≤ op.code) (hhigh : op.code ≤ 0xa6) :
    op.arity = 1 ∨ op.arity = 2 := by
  cases op <;> revert hlow hhigh <;> decide

/-- Opcodes that are numeric take one operand or two, and no immediates. -/
theorem wellFormed_of_numeric? {op : Opcode} {p : Plain} (h : numeric? op = some p) :
    p.WellFormed := by
  cases numericAs_of_numeric? h with
  | unary harity => exact harity
  | binary hlow hhigh harity => exact (arity_of_code hlow hhigh).resolve_left harity
  | compare | convert => trivial

theorem access_pos_of_isLoad {op : Opcode} (h : op.isLoad = true) : 0 < op.access := by
  rw [Opcode.isLoad, Bool.and_eq_true, decide_eq_true_eq] at h
  exact h.1

theorem access_pos_of_isStore {op : Opcode} (h : op.isStore = true) : 0 < op.access := by
  rw [Opcode.isStore, Bool.and_eq_true, decide_eq_true_eq] at h
  exact h.1

variable {sc : Scope} {span : Span} {items : List Form} {t t' : TypeTable} {op : Opcode}
  {p : Plain} {n : Nat}

/-- An instruction that is read has immediates such as its opcode takes. -/
theorem ReadAs.wellFormed (h : ReadAs sc span items t op p n t') : p.WellFormed := by
  cases h with
  | bare hbare hop =>
    simp only [Plain.bare, List.mem_cons, List.not_mem_nil, or_false] at hbare
    rcases hbare with rfl | rfl | rfl | rfl | rfl | rfl | rfl <;> trivial
  | const hop h => exact Immediate.wellFormed_of_const hop h
  | load hop h => exact ⟨hop, Immediate.suits_of_memArg (access_pos_of_isLoad hop) h⟩
  | store hop h => exact ⟨hop, Immediate.suits_of_memArg (access_pos_of_isStore hop) h⟩
  | numeric h => exact wellFormed_of_numeric? h
  | _ => trivial

theorem ReadAs.adds_wellFormed (h : ReadAs sc span items t op p n t') :
    t.Adds FuncType.WellFormed t' := by
  cases h with
  | callIndirect h =>
    cases h with
    | reference => exact .refl
    | use _ huse => exact huse.adds_wellFormed
  | _ => exact .refl

end Plain

/-! ## Bodies -/

namespace Body

/-- A body that is read in a scope is sound and nests no deeper than the scope leaves room for, and
adds well-formed types to the table. -/
structure Kept (sc : Scope) (t t' : TypeTable) (is : List Instr) : Prop where
  types : t.Adds FuncType.WellFormed t'
  sound : ∀ i ∈ preorderAll is, i.Sound
  nesting : nestingAll is ≤ Scope.maxNesting - sc.depth

variable {sc deeper : Scope} {t t' t'' : TypeTable} {is is' : List Instr} {span : Span}

/-- The inside of a block is one level deeper than the block, which is not the deepest allowed. -/
theorem depth_of_arm {kind : BlockKind} {name : Option String} {sig : ValType} {inner : Scope}
    (h : sc.Arm kind name sig inner) :
    sc.depth < Scope.maxNesting ∧ inner.depth = sc.depth + 1 := by
  cases h with
  | first h =>
    obtain ⟨hlt, hdepth⟩ := depth_of_descend h
    exact ⟨hlt, hdepth⟩
  | other h helse =>
    obtain ⟨labels, -, helse⟩ := Success.of_bind helse
    obtain ⟨hlt, hdepth⟩ := depth_of_descend h
    rw [← Success.of_pure helse]
    exact ⟨hlt, hdepth⟩

/-- What is kept by two runs of instructions is kept by both together. -/
theorem Kept.append (h : Kept sc t t' is) (h' : Kept sc t' t'' is') :
    Kept sc t t'' (is ++ is') := by
  refine ⟨h.types.trans h'.types, ?_, ?_⟩
  · rw [preorderAll_append]
    exact List.forall_mem_append.mpr ⟨h.sound, h'.sound⟩
  · rw [nestingAll_append]
    exact Nat.max_le.mpr ⟨h.nesting, h'.nesting⟩

/-- What is kept inside a block is kept by the block. -/
theorem Kept.block {name : Option String} {sig : ValType} {inner other : Scope} (kind : BlockKind)
    (hsig : sig.isValue = true ∨ sig = .void) (harm : sc.Arm kind name sig inner)
    (h : Kept inner t t' is) (harm' : sc.Arm kind name sig other) (h' : Kept other t' t'' is') :
    Kept sc t t'' [kind.toInstr name sig is is' span] := by
  obtain ⟨hlt, hdepth⟩ := depth_of_arm harm
  obtain ⟨-, hdepth'⟩ := depth_of_arm harm'
  have hnesting := h.nesting
  have hnesting' := h'.nesting
  refine ⟨h.types.trans h'.types, ?_, ?_⟩
  · rw [preorderAll, preorderAll, List.append_nil]
    cases kind with
    | block | loop =>
      rw [BlockKind.toInstr, preorder]
      exact List.forall_mem_cons.mpr ⟨hsig, h.sound⟩
    | cond =>
      rw [BlockKind.toInstr, preorder]
      exact List.forall_mem_cons.mpr ⟨hsig, List.forall_mem_append.mpr ⟨h.sound, h'.sound⟩⟩
  · rw [nestingAll, nestingAll, Nat.max_zero]
    cases kind <;> rw [BlockKind.toInstr, Instr.nesting] <;> omega

/-- What the readers of a body keep. -/
theorem kept : Invariant Kept where
  nil sc t := ⟨.refl, by simp [preorderAll], by simp [nestingAll]⟩
  append h h' := h.append h'
  plain {sc op span items t t' t'' p n is} _ hread h := by
    have hplain : Kept sc t' t' [.plain p span] := by
      refine ⟨.refl, ?_, by simp [nestingAll, Instr.nesting]⟩
      rw [preorderAll, preorderAll, List.append_nil, preorder, List.forall_mem_singleton]
      exact hread.wellFormed
    refine ⟨hread.adds_wellFormed.trans h.types, ?_, ?_⟩
    · rw [preorderAll_append]
      exact List.forall_mem_append.mpr ⟨h.sound, hplain.sound⟩
    · rw [nestingAll_append]
      exact Nat.max_le.mpr ⟨h.nesting, hplain.nesting⟩
  block kind hheader harm h harm' h' := .block kind (Block.sig_of_header hheader) harm h harm' h'
  descend hdeeper h := by
    obtain ⟨hlt, hdepth⟩ := depth_of_descend hdeeper
    have hnesting := h.nesting
    exact ⟨h.types, h.sound, by omega⟩

/-- Instructions that keep to the depth of their scope are well formed. -/
theorem Kept.wellFormed (h : Kept sc t t' is) : WellFormed is := by
  refine ⟨h.sound, fun i hi => ?_⟩
  have hle := nesting_le_of_mem_preorderAll is hi
  have hnesting := h.nesting
  omega

/-- The body of a function or of a constant keeps to the depth of its scope. -/
theorem kept_of_whole {items : List Form} (h : (whole sc items).run t = .ok (is, t')) :
    Kept sc t t' is :=
  holds_of_whole kept items h

end Body

/-- The offset of a segment that is written inside its table or memory is well formed. -/
theorem Field.wellFormed_zeroOffset (span : Span) : Body.WellFormed (zeroOffset span) := by
  have hconst : Const.WellFormed ⟨.i32, ⟨.int, "0"⟩⟩ := ⟨rfl, fun _ => rfl, by decide +kernel⟩
  constructor
  · simpa [zeroOffset, preorderAll, preorder, Sound, Plain.WellFormed] using hconst
  · simp [zeroOffset, preorderAll, preorder, Instr.nesting]

/-! ## Fields -/

namespace Field

/-- Locals have types of values. -/
theorem isValue_of_addLocals {locals locals' : Names × List ValType} {f : Form}
    (h : addLocals locals f = .ok locals') (hlocals : ∀ t ∈ locals.2, t.isValue = true) :
    ∀ t ∈ locals'.2, t.isValue = true := by
  unfold addLocals at h
  split at h
  · obtain ⟨g, -, h⟩ := Success.of_bind h
    obtain ⟨type, htype, h⟩ := Success.of_bind h
    obtain ⟨_, -, h⟩ := Success.of_bind h
    obtain ⟨names, -, h⟩ := Success.of_bind h
    rw [← Success.of_pure h]
    exact List.forall_mem_append.mpr
      ⟨hlocals, List.forall_mem_singleton.mpr (isValue_of_valueType htype)⟩
  · obtain ⟨types, htypes, h⟩ := Success.of_bind h
    rw [← Success.of_pure h]
    exact List.forall_mem_append.mpr ⟨hlocals, isValue_of_mapM htypes⟩

theorem isValue_of_locals {locals locals' : Names × List ValType} {fs : List Form}
    (h : fs.foldlM addLocals locals = .ok locals') (hlocals : ∀ t ∈ locals.2, t.isValue = true) :
    ∀ t ∈ locals'.2, t.isValue = true := by
  induction fs generalizing locals with
  | nil => rwa [← Success.of_pure h]
  | cons f fs ih =>
    rw [List.foldlM_cons] at h
    obtain ⟨locals₁, hf, h⟩ := Success.of_bind h
    exact ih h (isValue_of_addLocals hf hlocals)

/-- Elements are functions, as no other type is accepted. -/
theorem eq_anyfunc_of_elemType {span : Span} {f? : Option Form} {type : ValType}
    (h : elemType span f? = .ok type) : type = .anyfunc := by
  unfold elemType at h
  split at h
  · cases h
  · split at h
    · exact (Except.ok.inj h).symm
    · cases h

theorem elemType_of_tableType {span : Span} {items : List Form} {type : TableType} {n : Nat}
    (h : tableType span items = .ok (type, n)) : type.elemType = .anyfunc := by
  obtain ⟨⟨limits, k⟩, -, h⟩ := Success.of_bind h
  obtain ⟨elem, helem, h⟩ := Success.of_bind h
  rw [← (Prod.mk.inj (Success.of_pure h)).1]
  exact eq_anyfunc_of_elemType helem

theorem isValue_of_globalType {span : Span} {item? : Option Form} {type : GlobalType}
    (h : globalType span item? = .ok type) : type.type.isValue = true := by
  obtain ⟨f, -, h⟩ := Success.of_bind h
  cases f with
  | atom t =>
    obtain ⟨type', htype, h⟩ := Success.of_bind h
    rw [← Success.of_pure h]
    exact isValue_of_valueType htype
  | list place items =>
    dsimp only at h
    split at h
    · cases h
    · obtain ⟨g, -, h⟩ := Success.of_bind h
      obtain ⟨type', htype, h⟩ := Success.of_bind h
      obtain ⟨_, -, h⟩ := Success.of_bind h
      rw [← Success.of_pure h]
      exact isValue_of_valueType htype

variable {span : Span} {items : List Form} {t t' : TypeTable} {desc : ImportDesc}

/-- An import has well-formed types. -/
theorem DescAs.wellFormed (h : DescAs span items t desc t') : desc.WellFormed := by
  cases h with
  | table h => exact elemType_of_tableType h
  | global h => exact isValue_of_globalType h
  | _ => trivial

theorem DescAs.adds_wellFormed (h : DescAs span items t desc t') :
    t.Adds FuncType.WellFormed t' := by
  cases h with
  | func huse => exact huse.adds_wellFormed
  | _ => exact .refl

end Field

namespace Part

/-- What a field adds is well formed, as far as it does not depend on other fields. -/
structure WellFormed (p : Part) : Prop where
  imports : ∀ i ∈ p.imports, i.desc.WellFormed
  locals : ∀ x ∈ p.funcs, ∀ t ∈ x.locals, t.isValue = true
  bodies : ∀ x ∈ p.funcs, Body.WellFormed x.body
  tables : ∀ t ∈ p.tables, t.elemType = .anyfunc
  globals : ∀ g ∈ p.globals, g.type.type.isValue = true ∧ Body.WellFormed g.init
  elems : ∀ e ∈ p.elems, Body.WellFormed e.offset
  data : ∀ x ∈ p.data, Body.WellFormed x.offset

variable {spaces : Spaces} {d : Draft} {f : Form} {part : Part} {types : TypeTable}

/-- What is read from a field is well formed. -/
theorem ReadFrom.wellFormed (h : part.ReadFrom spaces d f types) : part.WellFormed := by
  cases h with
  | «import» _ _ _ _ _ hdesc | inlineImport _ _ _ hdesc =>
    constructor <;> simp [hdesc.wellFormed]
  | func _ _ _ _ _ _ _ hlocals hbody =>
    have hlocals := Field.isValue_of_locals hlocals (by simp)
    have hbody := (Body.kept_of_whole hbody).wellFormed
    constructor <;> simp [hbody]
    exact hlocals
  | table _ _ _ htype => constructor <;> simp [Field.elemType_of_tableType htype]
  | tableOfElems _ _ _ _ htype =>
    constructor <;> simp [Field.eq_anyfunc_of_elemType htype, Field.wellFormed_zeroOffset]
  | memoryOfData => constructor <;> simp [Field.wellFormed_zeroOffset]
  | global _ _ _ htype hinit =>
    have hinit := (Body.kept_of_whole hinit).wellFormed
    constructor <;> simp [Field.isValue_of_globalType htype, hinit]
  | elem _ _ _ _ hoffset | data _ _ _ _ hoffset =>
    have hoffset := (Body.kept_of_whole hoffset).wellFormed
    constructor <;> simp [hoffset]
  | _ => constructor <;> simp

/-- The types that a field adds are well formed. -/
theorem ReadFrom.adds_wellFormed (h : part.ReadFrom spaces d f types) :
    d.types.Adds FuncType.WellFormed types := by
  cases h with
  | «import» _ _ _ _ _ hdesc | inlineImport _ _ _ hdesc => exact hdesc.adds_wellFormed
  | func _ _ _ huse _ _ _ _ hbody =>
    exact huse.adds_wellFormed.trans (Body.kept_of_whole hbody).types
  | global _ _ _ _ hinit => exact (Body.kept_of_whole hinit).types
  | elem _ _ _ _ hoffset | data _ _ _ _ hoffset => exact (Body.kept_of_whole hoffset).types
  | _ => exact .refl

end Part

/-! ## Modules -/

/-- The types that all fields add are well formed. -/
theorem Draft.Run.adds_wellFormed {spaces : Spaces} {fields : List Form} {d₀ d : Draft}
    {parts : List Part} (h : Run spaces d₀ fields parts d) :
    d₀.types.Adds FuncType.WellFormed d.types := by
  induction h with
  | nil => exact .refl
  | snoc _ hread _ ih => exact ih.trans hread.adds_wellFormed

namespace Module

variable {fields : List Form} {m : Module}

/-- The types that are defined are well formed. -/
theorem wellFormed_of_typesOfFields {types : List FuncType}
    (h : typesOfFields fields = .ok types) : ∀ t ∈ types, t.WellFormed := by
  refine Success.forall_of_mapM (fun f sig hread => ?_) h
  split at hread
  · next type htype =>
    rw [Success.of_mapError hread] at htype
    exact FuncType.wellFormed_of_ofDefinition? htype
  · cases hread

/-- Names of exports are compared with those of the fields before. -/
theorem distinct_exports_of_foldlM {spaces : Spaces} {d d' : Draft}
    (hd : Draft.Distinct d.exports) (h : fields.foldlM (Field.add spaces) d = .ok d') :
    Draft.Distinct d'.exports := by
  induction fields generalizing d with
  | nil => rwa [← Success.of_pure h]
  | cons f fields ih =>
    rw [List.foldlM_cons] at h
    obtain ⟨d₁, hf, h⟩ := Success.of_bind h
    exact ih (Field.yieldsDistinct_add spaces hd f d₁ hf) h

/-- Every accepted module is well formed. -/
theorem wellFormed_of_accepted (h : Accepted fields m) : m.WellFormed := by
  have hsigs := (typesExact_of_accepted h).sigs
  obtain ⟨name, h⟩ := h.ofFields
  obtain ⟨spaces, types, d, hspaces, htypes, hd, rfl⟩ := passes_of_ofFields h
  obtain ⟨parts, hrun⟩ := Draft.run_of_foldlM hd
  have hjoin := isJoin_of_run hrun name
  -- a module is its parts one after the other, so what holds of each part holds of it
  have hparts : ∀ p ∈ parts, p.WellFormed := by
    have hall := hrun.forall₂ (R := fun _ p => p.WellFormed) fun hread => hread.wellFormed
    intro p hp
    obtain ⟨f, -, hpart⟩ := Success.exists_left hall hp
    exact hpart
  -- the types are those that are defined, and behind them those that were added
  have htypes : ∀ t ∈ d.types.types, t.WellFormed := by
    obtain ⟨added, htable, -, -, hadded⟩ := hrun.adds_wellFormed.exists_added
    rw [htable]
    exact List.forall_mem_append.mpr
      ⟨wellFormed_of_typesOfFields htypes, fun sig hsig => (hadded sig hsig).2⟩
  refine ⟨htypes, ?_, ?_, ?_, ?_, ?_, ?_, ?_, ?_, ?_⟩
  · rw [hjoin.imports]
    exact List.forall_mem_flatMap.mpr fun p hp => (hparts p hp).imports
  · exact fun x hx => htypes _ (List.mem_of_getElem? (hsigs x hx))
  · rw [hjoin.funcs]
    exact List.forall_mem_flatMap.mpr fun p hp => (hparts p hp).locals
  · rw [hjoin.funcs]
    exact List.forall_mem_flatMap.mpr fun p hp => (hparts p hp).bodies
  · rw [hjoin.tables]
    exact List.forall_mem_flatMap.mpr fun p hp => (hparts p hp).tables
  · rw [hjoin.globals]
    exact List.forall_mem_flatMap.mpr fun p hp => (hparts p hp).globals
  · have hnone : Draft.Distinct (Draft.ofTypes ⟨spaces.types, types⟩).exports := List.nodup_nil
    exact distinct_exports_of_foldlM hnone hd
  · rw [hjoin.elems]
    exact List.forall_mem_flatMap.mpr fun p hp => (hparts p hp).elems
  · rw [hjoin.data]
    exact List.forall_mem_flatMap.mpr fun p hp => (hparts p hp).data

/-- A written alignment in a block, an operation of one operand and a segment without an offset. -/
theorem wellFormed_of_accepted_nested :
    let src : Source := ⟨"t", "(memory (data \"a\")) (export \"f\" (func 0))
      (func (param i32) (result i32) (local i64)
        loop i32 (i32.load align=2 (get_local 0)) i32.clz end)"⟩
    ∃ m, (parse src).outcome = .accepted m ∧ m.WellFormed := by
  intro src
  obtain ⟨m, hm⟩ : ∃ m, (parse src).outcome = .accepted m :=
    Outcome.exists_accepted (by decide +kernel)
  exact ⟨m, hm, wellFormed_of_accepted (.alone hm)⟩

end Module

end WasmText
