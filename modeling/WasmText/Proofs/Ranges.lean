import WasmText.Proofs.Assembly

/-!
# Indices are in range

Every index that a module stores is below the number of what it counts in the finished module. A
field that is read knows only the names that all fields declare, the types so far and the locals of
its own function. The names of a kind are as many as the entities of that kind turn out to be, the
names of types are as many as the types all along (`TypeTable.Aligned`), and types only grow, so an
index that is in range where it is read stays so (`Module.indices_in_range`).
-/

namespace WasmText

open Form WasmText.Field

/-! ## What there is to refer to -/

/-- How many entities of each kind and how many types there are. -/
structure Extent where
  entities : ExternKind → Nat
  types : Nat

namespace Module

/-- The number of definitions of a kind. -/
def defined (m : Module) : ExternKind → Nat
  | .func => m.funcs.length
  | .table => m.tables.length
  | .memory => m.memories.length
  | .global => m.globals.length

/-- What a module has to refer to: of each kind its imports and its definitions. -/
def extent (m : Module) : Extent := ⟨fun kind => m.imported kind + m.defined kind, m.types.length⟩

end Module

/-- What the names of all fields and a number of types give to refer to. -/
def Spaces.extent (s : Spaces) (types : Nat) : Extent := ⟨fun kind => (s.ofKind kind).length, types⟩

/-- The indices of an instruction in a place with some locals are in range. -/
def Plain.InRange (x : Extent) (locals : Nat) : Plain → Prop
  | call i => i < x.entities .func
  | callIndirect i => i < x.types
  | getLocal i | setLocal i | teeLocal i => i < locals
  | getGlobal i | setGlobal i => i < x.entities .global
  | _ => True

namespace Instr

/-- A block has no index of its own. -/
def InRange (x : Extent) (locals : Nat) : Instr → Prop
  | plain p _ => p.InRange x locals
  | _ => True

/-- The indices of a body and of all it holds are in range. Without locals, no instruction of it
uses one. -/
def AllInRange (x : Extent) (locals : Nat) (body : List Instr) : Prop :=
  ∀ i ∈ preorderAll body, i.InRange x locals

variable {x x' : Extent} {locals : Nat}

/-- An instruction stays in range when types are added. -/
theorem InRange.mono {i : Instr} (hentities : x'.entities = x.entities)
    (htypes : x.types ≤ x'.types) (h : i.InRange x locals) : i.InRange x' locals := by
  cases i with
  | plain p span =>
    cases p with
    | callIndirect i => exact Nat.lt_of_lt_of_le h htypes
    | call i | getGlobal i | setGlobal i =>
      rw [InRange, Plain.InRange, hentities]
      exact h
    | _ => exact h
  | block | loop | cond => exact h

theorem AllInRange.mono {body : List Instr} (hentities : x'.entities = x.entities)
    (htypes : x.types ≤ x'.types) (h : AllInRange x locals body) : AllInRange x' locals body :=
  fun i hi => (h i hi).mono hentities htypes

end Instr

open Instr

/-! ## References -/

section References

variable {names : Names} {space : Space} {span : Span} {index n : Nat} {items : List Form}
  {t t' : TypeTable}

/-- A signature that is added gets the last index. -/
theorem TypeTable.findOrAdd_lt (ht : t.Aligned) (sig : FuncType) :
    (t.findOrAdd sig).1 < (t.findOrAdd sig).2.types.length := by
  unfold findOrAdd
  split
  · next hindex => exact (List.findIdx?_eq_some_iff_getElem.mp hindex).1
  · rw [List.length_append, List.length_singleton, ht]
    exact Nat.lt_succ_self _

/-- A type use has an index in the table. -/
theorem TypeUse.ReadAs.index_lt {namesAllowed : Bool} {use : TypeUse} (ht : t.Aligned)
    (h : ReadAs namesAllowed items t use n t') : use.index < t'.types.length := by
  cases h with
  | explicit _ _ htype => exact (List.getElem?_eq_some_iff.mp htype).1
  | implicit => exact TypeTable.findOrAdd_lt ht _

/-- The parameters of a type use have the types that its signature has, be they written or not. -/
theorem TypeUse.ReadAs.map_type_params {namesAllowed : Bool} {use : TypeUse}
    (h : ReadAs namesAllowed items t use n t') :
    use.params.map Param.type = use.sig.params := by
  cases h with
  | @explicit _ span ps rs n _ _ _ hagree hunwritten =>
    by_cases hn : n = 0
    · rw [hunwritten hn, List.map_map]
      exact List.map_id _
    · obtain ⟨hsig, hparams⟩ := hagree hn
      rw [hparams, hsig]
  | implicit => rfl

theorem TypeUse.ReadAs.length_params {namesAllowed : Bool} {use : TypeUse}
    (h : ReadAs namesAllowed items t use n t') : use.params.length = use.sig.params.length := by
  rw [← h.map_type_params, List.length_map]

/-- An indirect call has a type in the table. -/
theorem Immediate.IndirectType.index_lt (ht : t.Aligned)
    (h : IndirectType span items t index n t') : index < t'.types.length := by
  cases h with
  | reference _ _ hindex => exact Nat.lt_of_lt_of_eq (Names.lt_of_resolve hindex) ht
  | use _ hread _ => exact hread.index_lt ht

/-- An index is in range in the scope where it is read, with the types there are then. -/
theorem Plain.ReadAs.inRange {sc : Scope} {op : Opcode} {p : Plain} (ht : t.Aligned)
    (h : p.ReadAs sc span items t op n t') :
    p.InRange (sc.spaces.extent t'.types.length) sc.locals.length := by
  cases h with
  | call h | getLocal h | setLocal h | teeLocal h | getGlobal h | setGlobal h =>
    exact Names.lt_of_resolve h
  | callIndirect h => exact h.index_lt ht
  | bare h =>
    simp only [Plain.bare, List.mem_cons, List.not_mem_nil, or_false] at h
    rcases h with rfl | rfl | rfl | rfl | rfl | rfl | rfl <;> trivial
  | numeric h =>
    cases numericAs_of_numeric? h <;> trivial
  | _ => trivial

end References

/-! ## Bodies -/

section Bodies

variable {sc : Scope} {start stop : TypeTable} {ps : List PlacedWord} {body : List Instr}

/-- The instruction that a word is read as is in range. -/
theorem inRange_of_readsAs {w : Word} {s : Site} (ht : start.Aligned)
    (h : Body.ReadsAs sc start stop w s) :
    s.instr.InRange (sc.spaces.extent stop.types.length) sc.locals.length := by
  cases h with
  | @plain enclosing inner p n t t' hinner hkind hstart hread hstop =>
    have hp : (Instr.plain p w.span).InRange (inner.spaces.extent t'.types.length)
        inner.locals.length := hread.inRange (hstart.aligned ht)
    rw [hinner.spaces, hinner.locals] at hp
    refine hp.mono ?_ ?_
    · rfl
    · exact hstop.types.length_le
  | @block enclosing kind name sig body elseBody n hkind hheader => cases kind <;> trivial

/-- A body that is read has its indices in range: each instruction of it is one of its sites. -/
theorem allInRange_of_covers (ht : start.Aligned) (h : Body.Covers sc [] start stop ps body) :
    AllInRange (sc.spaces.extent stop.types.length) sc.locals.length body := by
  intro i hi
  rw [← map_instr_sitesAll []] at hi
  obtain ⟨s, hs, rfl⟩ := List.mem_map.mp hi
  obtain ⟨p, -, hreads⟩ := Success.exists_left h.placed hs
  exact inRange_of_readsAs ht hreads.reads

/-- The instructions of an offset are in range. -/
theorem Part.OffsetCovers.allInRange {spaces : Spaces} {f : Form} {offset : List Instr}
    (ht : start.Aligned) (h : OffsetCovers spaces start stop f offset) :
    AllInRange (spaces.extent stop.types.length) 0 offset := by
  cases h with
  | written h => exact allInRange_of_covers ht h
  | zero =>
    intro i hi
    obtain rfl := List.mem_singleton.mp hi
    trivial

end Bodies

/-! ## Locals -/

namespace Field

/-- Every local has a type and a name, or none. -/
theorem length_of_addLocals {locals locals' : Names × List ValType} {f : Form}
    (h : addLocals locals f = .ok locals') :
    locals'.1.length + locals.2.length = locals.1.length + locals'.2.length := by
  unfold addLocals at h
  split at h
  · obtain ⟨_, -, h⟩ := Success.of_bind h
    obtain ⟨_, -, h⟩ := Success.of_bind h
    obtain ⟨_, -, h⟩ := Success.of_bind h
    obtain ⟨names, hnames, h⟩ := Success.of_bind h
    obtain rfl := Success.of_pure h
    rw [(Names.of_declare hnames).1]
    simp only [List.length_append, List.length_singleton]
    omega
  · obtain ⟨types, -, h⟩ := Success.of_bind h
    obtain rfl := Success.of_pure h
    simp only [List.length_append, List.length_map]
    omega

theorem length_of_foldlM_addLocals {fs : List Form} {locals locals' : Names × List ValType}
    (h : fs.foldlM addLocals locals = .ok locals') :
    locals'.1.length + locals.2.length = locals.1.length + locals'.2.length := by
  induction fs generalizing locals with
  | nil =>
    obtain rfl := Success.of_pure h
    rfl
  | cons f fs ih =>
    rw [List.foldlM_cons] at h
    obtain ⟨locals₁, hf, h⟩ := Success.of_bind h
    have hfirst := length_of_addLocals hf
    have hrest := ih h
    omega

theorem length_of_foldlM_declare {ps : List Param} {names names' : Names}
    (h : ps.foldlM (fun names p => names.declare .localVar p.name p.span) names = .ok names') :
    names'.length = names.length + ps.length := by
  induction ps generalizing names with
  | nil =>
    obtain rfl := Success.of_pure h
    rfl
  | cons p ps ih =>
    rw [List.foldlM_cons] at h
    obtain ⟨names₁, hp, h⟩ := Success.of_bind h
    rw [ih h, (Names.of_declare hp).1, List.length_append, List.length_singleton, List.length_cons]
    omega

/-- The locals of a function are its parameters and those that it declares. -/
theorem length_locals {namesAllowed : Bool} {items decls : List Form} {t t' : TypeTable}
    {use : TypeUse} {n : Nat} {params names : Names} {locals : List ValType}
    (huse : TypeUse.ReadAs namesAllowed items t use n t') (hparams : parameters use = .ok params)
    (hlocals : decls.foldlM addLocals (params, []) = .ok (names, locals)) :
    names.length = use.sig.params.length + locals.length := by
  have hfirst : params.length = use.params.length := by
    rw [length_of_foldlM_declare hparams, List.length_nil, Nat.zero_add]
  have hall := length_of_foldlM_addLocals hlocals
  rw [← huse.length_params, ← hfirst]
  exact hall

end Field

/-! ## Parts -/

/-- A segment that does not say which table or memory it is for. -/
def Form.omitsTarget (f : Form) : Bool :=
  (f.isHeadedBy .elemKw || f.isHeadedBy .dataKw) && (f.args.head?.bind Form.token?).isNone

/-- The index of the table or memory of a segment is in range, or 0 if none is written. -/
def Form.TargetInRange (f : Form) (count target : Nat) : Prop :=
  if f.omitsTarget then target = 0 else target < count

namespace Part

/-- All indices of a part but the targets of its segments are in range. -/
structure InRange (x : Extent) (p : Part) : Prop where
  funcs : ∀ y ∈ p.funcs, y.type < x.types ∧
    AllInRange x (y.sig.params.length + y.locals.length) y.body
  imports : ∀ i ∈ p.imports, ∀ type, i.desc = .func type → type < x.types
  globals : ∀ g ∈ p.globals, AllInRange x 0 g.init
  exports : ∀ e ∈ p.exports, e.index < x.entities e.kind
  start : ∀ i, p.start = some i → i < x.entities .func
  elems : ∀ e ∈ p.elems, AllInRange x 0 e.offset ∧ ∀ i ∈ e.init, i < x.entities .func
  data : ∀ y ∈ p.data, AllInRange x 0 y.offset

/-- The segments of a field have targets in range. -/
structure TargetsInRange (entities : ExternKind → Nat) (f : Form) (p : Part) : Prop where
  elems : ∀ e ∈ p.elems, f.TargetInRange (entities .table) e.table
  data : ∀ y ∈ p.data, f.TargetInRange (entities .memory) y.memory

variable {x x' : Extent} {p : Part}

/-- More types keep everything in range. -/
theorem InRange.mono (hentities : x'.entities = x.entities) (htypes : x.types ≤ x'.types)
    (h : p.InRange x) : p.InRange x' where
  funcs y hy := ⟨Nat.lt_of_lt_of_le (h.funcs y hy).1 htypes, (h.funcs y hy).2.mono hentities htypes⟩
  imports i hi type htype := Nat.lt_of_lt_of_le (h.imports i hi type htype) htypes
  globals g hg := (h.globals g hg).mono hentities htypes
  exports e he := hentities ▸ h.exports e he
  start i hi := hentities ▸ h.start i hi
  elems e he := ⟨(h.elems e he).1.mono hentities htypes, hentities ▸ (h.elems e he).2⟩
  data y hy := (h.data y hy).mono hentities htypes

end Part

/-! ## Steps -/

section Step

variable {spaces : Spaces} {d : Draft} {f : Form} {part : Part} {types : TypeTable}
  {kind : ExternKind}

/-- Reading a field adds to the types at most at their end. -/
theorem Field.DescAs.grows {span : Span} {items : List Form} {t t' : TypeTable} {desc : ImportDesc}
    (h : DescAs span items t desc t') : t.Grows t' := by
  cases h with
  | func h => exact h.grows
  | _ => exact .refl t

/-- A field adds types at the end of the table, or none. -/
theorem Part.ReadFrom.grows (h : part.ReadFrom spaces d f types) : d.types.Grows types := by
  cases h with
  | «import» _ _ _ _ _ hdesc | inlineImport _ _ _ hdesc => exact hdesc.grows
  | func _ _ _ huse _ _ _ _ hbody =>
    exact huse.grows.trans (Body.covers_of_whole _ (Scope.within_self _) hbody).grows
  | global _ _ _ _ hbody | elem _ _ _ _ hbody | data _ _ _ _ hbody =>
    exact (Body.covers_of_whole _ (Scope.within_self _) hbody).grows
  | _ => exact .refl d.types

/-- The type of an imported function is in the table. -/
theorem Field.DescAs.type_lt {span : Span} {items : List Form} {t t' : TypeTable} {type : Nat}
    (ht : t.Aligned) (h : DescAs span items t (.func type) t') : type < t'.types.length := by
  cases h with
  | func h => exact h.index_lt ht

/-- The inline exports of a field export the entity that it adds. -/
theorem Field.Opens.exports_lt {o : Opening} {es : List Export} (hopen : Opens kind d f o es)
    (hnext : d.nextIndex kind < (spaces.ofKind kind).length) :
    ∀ e ∈ es, e.index < (spaces.ofKind e.kind).length := by
  intro e he
  obtain ⟨g, -, hexport⟩ := Success.exists_left hopen.exports he
  rw [hexport.kind, hexport.index, hopen.index]
  exact hnext

theorem Field.lt_of_mapM_resolve {names : Names} {space : Space} {span : Span} {fs : List Form}
    {indices : List Nat} (h : fs.mapM (fun v => names.resolve space span (some v)) = .ok indices) :
    ∀ i ∈ indices, i < names.length := by
  intro i hi
  obtain ⟨f, -, hresolve⟩ := Success.exists_left (Success.mapM_iff.mp h) hi
  exact Names.lt_of_resolve hresolve

/-- A definition declares an entity of its own kind. -/
theorem kind?_of_kindOf? (h : Spaces.kindOf? f.headKeyword? = some kind) : kind? f = some kind :=
  (kind?_of_ne_import (ne_import_of_kindOf? h)).trans h

/-- A field that is read stores no index out of range, in bodies and outside of them. -/
theorem Part.ReadFrom.inRange
    (hnext : ∀ kind, kind? f = some kind → d.nextIndex kind < (spaces.ofKind kind).length)
    (ht : d.types.Aligned) (h : part.ReadFrom spaces d f types) :
    part.InRange (spaces.extent types.types.length) where
  funcs y hy := by
    cases h with
    | @func o es use n params names decls rest locals body t t' hhead hopen himport huse hdecls
        hrest hparams hlocals hbody =>
      obtain rfl := List.mem_singleton.mp hy
      -- the locals in a body are those of its function, and the types those met up to its end
      have hcovers := Body.covers_of_whole _ (Scope.within_self _) hbody
      have hall := allInRange_of_covers (huse.grows.aligned ht) hcovers
      rw [length_locals huse hparams hlocals] at hall
      exact ⟨Nat.lt_of_lt_of_le (huse.index_lt ht) hcovers.grows.types.length_le, hall⟩
    | _ => cases hy
  imports i hi type htype := by
    cases h with
    | «import» _ _ _ _ _ hdesc | inlineImport _ _ _ hdesc =>
      obtain rfl := List.mem_singleton.mp hi
      obtain rfl : _ = ImportDesc.func type := htype
      exact hdesc.type_lt ht
    | _ => cases hi
  globals g hg := allInRange_of_covers ht (h.covers_global g hg)
  exports e he := by
    cases h with
    | inlineImport hkind hopen => exact hopen.exports_lt (hnext _ (kind?_of_kindOf? hkind)) e he
    | func hhead hopen | table hhead hopen | tableOfElems hhead hopen | memory hhead hopen
    | memoryOfData hhead hopen | global hhead hopen =>
      exact hopen.exports_lt (hnext _ (kind?_of_kindOf? (by rw [hhead]; rfl))) e he
    | «export» _ _ _ _ _ href =>
      obtain rfl := List.mem_singleton.mp he
      exact Names.lt_of_resolve href
    | _ => cases he
  start i hi := by
    cases h with
    | start _ _ _ href =>
      obtain rfl := Option.some.inj hi
      exact Names.lt_of_resolve href
    | _ => cases hi
  elems e he := by
    refine ⟨(h.covers_elem e he).allInRange ht, ?_⟩
    cases h with
    | tableOfElems _ _ _ _ _ _ hinit | elem _ _ _ _ _ hinit =>
      obtain rfl := List.mem_singleton.mp he
      exact lt_of_mapM_resolve hinit
    | _ => cases he
  data y hy := (h.covers_data y hy).allInRange ht

/-- The target of a segment is in range when it is written, and the first entity when it is not. -/
theorem Field.targetInRange_of_target {names : Names} {space : Space} {target n : Nat}
    (hhead : f.headKeyword? = some .elemKw ∨ f.headKeyword? = some .dataKw)
    (h : Field.target space names f.args = .ok (target, n)) :
    f.TargetInRange names.length target := by
  have homits : f.omitsTarget = (f.args.head?.bind Form.token?).isNone := by
    rcases hhead with hhead | hhead
    · rw [Form.omitsTarget, isHeadedBy_iff.mpr hhead, Bool.true_or, Bool.true_and]
    · rw [Form.omitsTarget, isHeadedBy_iff.mpr hhead, Bool.or_true, Bool.true_and]
  unfold Field.target at h
  rw [Form.TargetInRange, homits]
  split at h
  · next t ht =>
    obtain ⟨index, hindex, h⟩ := Success.of_bind h
    obtain ⟨rfl, -⟩ := Prod.mk.inj (Success.of_pure h)
    rw [ht]
    exact Names.lt_of_resolve hindex
  · next hlist =>
    obtain ⟨rfl, -⟩ := Prod.mk.inj (Except.ok.inj h)
    cases hfirst : f.args.head? with
    | none => rfl
    | some g =>
      cases g with
      | atom t => exact absurd hfirst (hlist t)
      | list => rfl

/-- A definition has one keyword at its head. -/
theorem isHeadedBy_of_kindOf? {word : Keyword} (hkind : Spaces.kindOf? f.headKeyword? = some kind)
    (hword : Spaces.kindOf? (some word) = none) : f.isHeadedBy word = false := by
  rw [Bool.eq_false_iff]
  intro hhead
  rw [isHeadedBy_iff.mp hhead, hword] at hkind
  cases hkind

/-- The segment in a table or memory is for the entity that its field adds. -/
theorem Field.targetInRange_of_opens {o : Opening} {es : List Export}
    (hkind : Spaces.kindOf? f.headKeyword? = some kind) (hopen : Opens kind d f o es)
    (hnext : ∀ kind, kind? f = some kind → d.nextIndex kind < (spaces.ofKind kind).length) :
    f.TargetInRange (spaces.ofKind kind).length o.index := by
  have helem : f.isHeadedBy .elemKw = false := isHeadedBy_of_kindOf? hkind rfl
  have hdata : f.isHeadedBy .dataKw = false := isHeadedBy_of_kindOf? hkind rfl
  rw [Form.TargetInRange, Form.omitsTarget, helem, hdata, hopen.index]
  exact hnext _ (kind?_of_kindOf? hkind)

/-- The segments of a field have their target in range, or the entity they are written in. -/
theorem Part.ReadFrom.targetsInRange
    (hnext : ∀ kind, kind? f = some kind → d.nextIndex kind < (spaces.ofKind kind).length)
    (h : part.ReadFrom spaces d f types) :
    part.TargetsInRange (fun kind => (spaces.ofKind kind).length) f where
  elems e he := by
    cases h with
    | tableOfElems hhead hopen =>
      obtain rfl := List.mem_singleton.mp he
      exact targetInRange_of_opens (by rw [hhead]; rfl) hopen hnext
    | elem hhead htarget =>
      obtain rfl := List.mem_singleton.mp he
      exact targetInRange_of_target (.inl hhead) htarget
    | _ => cases he
  data y hy := by
    cases h with
    | memoryOfData hhead hopen =>
      obtain rfl := List.mem_singleton.mp hy
      exact targetInRange_of_opens (by rw [hhead]; rfl) hopen hnext
    | data hhead htarget =>
      obtain rfl := List.mem_singleton.mp hy
      exact targetInRange_of_target (.inr hhead) htarget
    | _ => cases hy

end Step

/-! ## Runs -/

namespace Spaces

variable {s : Spaces} {fields : List Form}

/-- The types that are defined are as many as their names. -/
theorem aligned_of_ofFields {types : List FuncType} (h : ofFields fields = .ok s)
    (htypes : Module.typesOfFields fields = .ok types) : TypeTable.Aligned ⟨s.types, types⟩ := by
  rw [TypeTable.Aligned, (ofFields_types h).1, typeNames, List.length_map]
  exact (Success.mapM_iff.mp htypes).length_eq

end Spaces

namespace Draft

variable {spaces : Spaces} {types : TypeTable} {d : Draft} {fields before : List Form}
  {parts : List Part}

/-- There are as many entities in a draft as there are names for them, once all fields are read. -/
theorem Run.nextIndex_eq_length (hspaces : Spaces.ofFields fields = .ok spaces)
    (h : Run spaces (.ofTypes types) fields parts d) (kind : ExternKind) :
    d.nextIndex kind = (spaces.ofKind kind).length := by
  rw [h.nextIndex_eq, (Spaces.ofFields_ofKind hspaces kind).1, declaredNames, List.length_map]

/-- Before that there are fewer where a field comes that declares one more. -/
theorem Run.nextIndex_lt {f : Form} (hspaces : Spaces.ofFields fields = .ok spaces)
    (h : Run spaces (.ofTypes types) before parts d) (hbefore : before ++ [f] <+: fields)
    {kind : ExternKind} (hkind : kind? f = some kind) :
    d.nextIndex kind < (spaces.ofKind kind).length := by
  have hprefix : declaring kind (before ++ [f]) <+: declaring kind fields := hbefore.filter _
  have hle := hprefix.length_le
  rw [declaring_append, declaring_singleton hkind, List.length_append, List.length_singleton] at hle
  rw [h.nextIndex_eq, (Spaces.ofFields_ofKind hspaces kind).1, declaredNames, List.length_map]
  exact hle

/-- Whatever has been read is in range, as far as the types have grown by now. -/
theorem Run.inRange (hspaces : Spaces.ofFields fields = .ok spaces) (ht : types.Aligned)
    (h : Run spaces (.ofTypes types) before parts d) (hbefore : before <+: fields) :
    d.types.Aligned ∧ List.Forall₂ (fun f part =>
      part.InRange (spaces.extent d.types.types.length) ∧
        part.TargetsInRange (fun kind => (spaces.ofKind kind).length) f) before parts := by
  induction h with
  | nil => exact ⟨ht, .nil⟩
  | @snoc before parts d f part types hrun hread hadd ih =>
    obtain ⟨haligned, hall⟩ := ih ((List.prefix_append before [f]).trans hbefore)
    have hnext : ∀ kind, kind? f = some kind → d.nextIndex kind < (spaces.ofKind kind).length :=
      fun kind hkind => hrun.nextIndex_lt hspaces hbefore hkind
    refine ⟨hread.grows.aligned haligned, List.rel_append (hall.imp ?_) (.cons ?_ .nil)⟩
    · rintro g p ⟨hp, htargets⟩
      refine ⟨hp.mono ?_ ?_, htargets⟩
      · rfl
      · exact hread.grows.types.length_le
    · exact ⟨hread.inRange hnext haligned, hread.targetsInRange hnext⟩

end Draft

/-! ## Accepted modules -/

namespace Module

/-- All that a module holds but its types, as one part. -/
def whole (m : Module) : Part where
  imports := m.imports
  funcs := m.funcs
  tables := m.tables
  memories := m.memories
  globals := m.globals
  exports := m.exports
  start := m.start
  elems := m.elems
  data := m.data

/-- A module is in range when its parts are. -/
theorem inRange_of_isJoin {m : Module} {parts : List Part} {x : Extent} (h : m.IsJoin parts)
    (hparts : ∀ p ∈ parts, p.InRange x) : m.whole.InRange x where
  funcs y hy := by
    rw [whole, h.funcs] at hy
    obtain ⟨p, hp, hy⟩ := List.mem_flatMap.mp hy
    exact (hparts p hp).funcs y hy
  imports i hi := by
    rw [whole, h.imports] at hi
    obtain ⟨p, hp, hi⟩ := List.mem_flatMap.mp hi
    exact (hparts p hp).imports i hi
  globals g hg := by
    rw [whole, h.globals] at hg
    obtain ⟨p, hp, hg⟩ := List.mem_flatMap.mp hg
    exact (hparts p hp).globals g hg
  exports e he := by
    rw [whole, h.exports] at he
    obtain ⟨p, hp, he⟩ := List.mem_flatMap.mp he
    exact (hparts p hp).exports e he
  start i hi := by
    rw [whole, h.start] at hi
    obtain ⟨p, hp, hi⟩ := List.exists_of_findSome?_eq_some hi
    exact (hparts p hp).start i hi
  elems e he := by
    rw [whole, h.elems] at he
    obtain ⟨p, hp, he⟩ := List.mem_flatMap.mp he
    exact (hparts p hp).elems e he
  data y hy := by
    rw [whole, h.data] at hy
    obtain ⟨p, hp, hy⟩ := List.mem_flatMap.mp hy
    exact (hparts p hp).data y hy

/-- The names of all fields count the entities of the module that is made of them. -/
theorem extent_of_run {fields : List Form} {spaces : Spaces} {types : TypeTable} {d : Draft}
    {parts : List Part} (hspaces : Spaces.ofFields fields = .ok spaces)
    (h : Draft.Run spaces (.ofTypes types) fields parts d) (name : Option String) :
    (d.toModule name).extent = spaces.extent d.types.types.length := by
  have hentities : (d.toModule name).extent.entities = fun kind => (spaces.ofKind kind).length := by
    funext kind
    rw [← h.nextIndex_eq_length hspaces kind]
    cases kind <;> rfl
  exact congrArg (Extent.mk · d.types.types.length) hentities

/-- All indices that an accepted module stores are in range of the module itself: in bodies, where
the locals are those of the function and there are none in initialisers and offsets, in exports,
imports and functions, as the start function, and as members of segments. The module is assembled
from the parts of its fields, and each segment has the target that its field writes, in range, or 0
if the field writes none. -/
theorem indices_in_range {fields : List Form} {m : Module} (h : Accepted fields m) :
    m.whole.InRange m.extent ∧ ∃ parts, m.Assembled fields parts ∧
      List.Forall₂ (fun f part => part.TargetsInRange m.extent.entities f) fields parts := by
  obtain ⟨name, spaces, types, d, parts, hspaces, htypes, hrun, rfl⟩ := h.run
  have hparts := assembled_of_run hspaces hrun name
  have haligned := Spaces.aligned_of_ofFields hspaces htypes
  obtain ⟨-, hall⟩ := hrun.inRange hspaces haligned List.prefix_rfl
  rw [extent_of_run hspaces hrun name]
  refine ⟨inRange_of_isJoin hparts.join ?_, parts, hparts, hall.imp fun f p hp => hp.2⟩
  intro p hp
  obtain ⟨f, -, hrange, -⟩ := Success.exists_left hall hp
  exact hrange

/-- A module that refers to a function, a local, a type, a global, a table and a memory, some of
them declared later. -/
theorem indices_in_range_all :
    let src : Source := ⟨"t", "(start $f) (elem 0 (get_global $g) $f) (data (i32.const 0) \"a\")
      (export \"g\" (global 0)) (import \"m\" \"g\" (global $g i32)) (table anyfunc (elem $h $f))
      (memory 1) (func $h) (func $f (param i32) (local $x i64)
      (call_indirect (param i64) (get_local 0) (tee_local $x (call $h))))"⟩
    let fields := fieldsOf (Reader.ofSource src).readCommand.1
    ∃ m, (parse src).outcome = .accepted m ∧ m.whole.InRange m.extent ∧
      ∃ parts, m.Assembled fields parts ∧
        List.Forall₂ (fun f part => part.TargetsInRange m.extent.entities f) fields parts := by
  intro src fields
  obtain ⟨m, hm⟩ : ∃ m, (parse src).outcome = .accepted m :=
    Outcome.exists_accepted (by decide +kernel)
  obtain ⟨hrange, htargets⟩ := indices_in_range (.alone hm)
  exact ⟨m, hm, hrange, htargets⟩

end Module

end WasmText
