import WasmText.Proofs.Accepted
import WasmText.Proofs.Spaces

/-!
# Entities stand where their fields say

The index space of a kind is the imports of that kind and then its definitions. Reading a field adds
the entity that the field declares at the end of the space: definitions always do, and an import
does as there is no definition of its kind yet. So the entities of a module are those that its
fields declare, in the order of the fields (`Draft.Run.declares`).
-/

namespace WasmText

open Form WasmText.Field

/-! ## Index spaces -/

/-- An entity of an index space. -/
inductive Entity
  | imported (i : Import)
  | func (x : Func)
  | table (type : TableType)
  | memory (limits : Limits)
  | global (g : Global)

namespace Entity

/-- The definitions of a kind. -/
def definitions (funcs : List Func) (tables : List TableType) (memories : List Limits)
    (globals : List Global) : ExternKind → List Entity
  | .func => funcs.map func
  | .table => tables.map table
  | .memory => memories.map memory
  | .global => globals.map global

/-- The imports of a kind, and after them its definitions. -/
def space (imports : List Import) (funcs : List Func) (tables : List TableType)
    (memories : List Limits) (globals : List Global) (kind : ExternKind) : List Entity :=
  (imports.filter (·.desc.kind == kind)).map imported ++
    definitions funcs tables memories globals kind

theorem length_imports (imports : List Import) (kind : ExternKind) :
    ((imports.filter (·.desc.kind == kind)).map imported).length =
      imports.countP (·.desc.kind == kind) := by
  rw [List.length_map, List.countP_eq_length_filter]

end Entity

namespace Module

/-- The index space of a kind. -/
def space (m : Module) : ExternKind → List Entity :=
  Entity.space m.imports m.funcs m.tables m.memories m.globals

/-- A function is found by its index if it is defined. -/
theorem definedFunc?_eq_some_iff {m : Module} {index : Nat} {x : Func} :
    m.definedFunc? index = some x ↔ (m.space .func)[index]? = some (.func x) := by
  have himports := Entity.length_imports m.imports .func
  rw [definedFunc?, imported, space, Entity.space]
  by_cases hle : m.imports.countP (·.desc.kind == .func) ≤ index
  · rw [if_pos hle, List.getElem?_append_right (himports ▸ hle), himports, Entity.definitions,
      List.getElem?_map]
    simp
  · rw [if_neg hle, List.getElem?_append_left (himports ▸ Nat.lt_of_not_le hle), List.getElem?_map]
    simp

end Module

namespace Draft

/-- The index space of a kind so far. -/
def space (d : Draft) : ExternKind → List Entity :=
  Entity.space d.imports d.funcs d.tables d.memories d.globals

end Draft

namespace Part

/-- What a part adds to the index space of a kind. -/
def space (p : Part) : ExternKind → List Entity :=
  Entity.space p.imports p.funcs p.tables p.memories p.globals

end Part

namespace Draft

variable {d : Draft} {p : Part} {kind : ExternKind}

/-- The next entity of a kind is numbered by the entities before it. -/
theorem length_space (d : Draft) (kind : ExternKind) :
    (d.space kind).length = d.nextIndex kind := by
  have himports := Entity.length_imports d.imports kind
  have hdefinitions :
      (Entity.definitions d.funcs d.tables d.memories d.globals kind).length = d.defined kind := by
    cases kind <;> exact List.length_map _
  rw [space, Entity.space, List.length_append, himports, hdefinitions, nextIndex, imported]

/-- There are no definitions of a kind where none are counted. -/
theorem definitions_eq_nil (h : d.defined kind = 0) :
    Entity.definitions d.funcs d.tables d.memories d.globals kind = [] := by
  cases kind with
  | func | table | memory | global =>
    rw [Entity.definitions, List.map_eq_nil_iff]
    exact List.eq_nil_of_length_eq_zero h

/-- A part goes to the end of every space if it imports only what is not defined yet. -/
theorem space_extend (himports : ∀ i ∈ p.imports, d.defined i.desc.kind = 0) (types : TypeTable)
    (kind : ExternKind) : (d.extend p types).space kind = d.space kind ++ p.space kind := by
  have hdefinitions : Entity.definitions (d.funcs ++ p.funcs) (d.tables ++ p.tables)
      (d.memories ++ p.memories) (d.globals ++ p.globals) kind =
        Entity.definitions d.funcs d.tables d.memories d.globals kind ++
          Entity.definitions p.funcs p.tables p.memories p.globals kind := by
    cases kind <;> exact List.map_append
  rw [space, space, Part.space, Entity.space, Entity.space, Entity.space, extend]
  dsimp only
  rw [hdefinitions, List.filter_append, List.map_append]
  -- either no import of the kind is added, or there is no definition for it to come before
  by_cases hnil : p.imports.filter (·.desc.kind == kind) = []
  · rw [hnil, List.map_nil, List.append_nil, List.nil_append, List.append_assoc]
  · obtain ⟨i, hi⟩ := List.exists_mem_of_ne_nil _ hnil
    obtain ⟨hmem, hkind⟩ := List.mem_filter.mp hi
    have hzero : d.defined kind = 0 := beq_iff_eq.mp hkind ▸ himports i hmem
    rw [definitions_eq_nil hzero, List.nil_append, List.append_nil, List.append_assoc]

end Draft

/-! ## The entity of a field -/

namespace Field

/-- The form with the names of what a field imports, if it imports anything. -/
def importForm? (f : Form) : Option Form :=
  if f.isHeadedBy .importKw then some f else (afterExports f).head?.filter (isHeadedBy .importKw)

/-- An entity is as it is written in its field: an import if the field is one, with the names that
it gives. -/
inductive Describes (f : Form) : Entity → Prop
  | imported {i : Import} {g : Form} (h : importForm? f = some g)
    (hnames : importNames g = .ok (i.moduleName, i.field)) : Describes f (.imported i)
  | func {x : Func} (h : importForm? f = none) (hname : x.name = declaredName f) :
    Describes f (.func x)
  | table {type : TableType} (h : importForm? f = none) : Describes f (.table type)
  | memory {limits : Limits} (h : importForm? f = none) : Describes f (.memory limits)
  | global {g : Global} (h : importForm? f = none) (hname : g.name = declaredName f) :
    Describes f (.global g)

/-- A field declares an entity of a kind: reading the field puts the entity at the end of the space
of that kind. -/
structure Declares (spaces : Spaces) (kind : ExternKind) (f : Form) (e : Entity) : Prop where
  describes : Describes f e
  adds : ∃ d d', Field.add spaces d f = .ok d' ∧ d'.space kind = d.space kind ++ [e]

variable {kind : ExternKind} {d : Draft} {f : Form} {o : Opening} {es : List Export}

theorem ne_import_of_kindOf? (h : Spaces.kindOf? f.headKeyword? = some kind) :
    f.headKeyword? ≠ some .importKw := by
  intro himport
  rw [himport] at h
  cases h

/-- A definition is imported by a list behind its exports. -/
theorem importForm?_of_kindOf? (h : Spaces.kindOf? f.headKeyword? = some kind) :
    importForm? f = (afterExports f).head?.filter (isHeadedBy .importKw) :=
  if_neg fun heq => ne_import_of_kindOf? h (isHeadedBy_iff.mp heq)

theorem Opens.importForm?_eq_none (hkind : Spaces.kindOf? f.headKeyword? = some kind)
    (h : Opens kind d f o es) (himport : o.imported = none) : importForm? f = none := by
  obtain ⟨m, hinline, -⟩ := h.imported
  rw [himport] at hinline
  rw [importForm?_of_kindOf? hkind]
  cases importedAs_of_inlineImport hinline with
  | absent hnone => exact hnone

/-- A definition that is opened with an import has its list. -/
theorem Opens.importForm?_eq_some {names : String × String}
    (hkind : Spaces.kindOf? f.headKeyword? = some kind) (h : Opens kind d f o es)
    (himport : o.imported = some names) :
    ∃ g, importForm? f = some g ∧ importNames g = .ok names := by
  obtain ⟨m, hinline, -⟩ := h.imported
  rw [himport] at hinline
  rw [importForm?_of_kindOf? hkind]
  cases importedAs_of_inlineImport hinline with
  | written hg hnames => exact ⟨_, hg, hnames⟩

/-- A definition is opened with the name it declares. -/
theorem Opens.name_eq (hkind : Spaces.kindOf? f.headKeyword? = some kind)
    (h : Opens kind d f o es) : o.name = declaredName f := by
  rw [h.name, declaredName, declaration?_of_ne_import (ne_import_of_kindOf? hkind),
    Option.bind_some]

end Field

/-! ## Steps -/

namespace Part

variable {spaces : Spaces} {d : Draft} {f : Form} {part : Part} {types : TypeTable}
  {kind : ExternKind}

/-- The entities that a part adds are the one that its field declares, if it declares one. -/
def Fits (part : Part) (f : Form) (kind : ExternKind) : Prop :=
  List.Forall₂ Describes (declaring kind [f]) (part.space kind)

/-- A part fits when it has one entity, of the kind declared. -/
theorem fits_of_kind? {kind' : ExternKind} {e : Entity} (hkind : kind? f = some kind')
    (hspace : part.space kind' = [e]) (hothers : ∀ k, k ≠ kind' → part.space k = [])
    (hdescribes : Describes f e) : part.Fits f kind := by
  rw [Fits]
  by_cases heq : kind = kind'
  · rw [heq, declaring_singleton hkind, hspace]
    exact .cons hdescribes .nil
  · have hne : kind? f ≠ some kind := by
      rw [hkind]
      exact fun h => heq (Option.some.inj h).symm
    rw [declaring_singleton_of_ne hne, hothers kind heq]
    exact .nil

theorem fits_of_kind?_eq_none (hkind : kind? f = none) (hspace : part.space kind = []) :
    part.Fits f kind := by
  have hne : kind? f ≠ some kind := by
    rw [hkind]
    simp
  rw [Fits, declaring_singleton_of_ne hne, hspace]
  exact .nil

/-- A part fits a definition when it has one entity, of its kind. -/
theorem fits_of_definition {e : Entity} (hkind : Spaces.kindOf? f.headKeyword? = some kind)
    (hspace : part.space kind = [e]) (hothers : ∀ k, k ≠ kind → part.space k = [])
    (hdescribes : Describes f e) (k : ExternKind) : part.Fits f k :=
  fits_of_kind? ((kind?_of_ne_import (ne_import_of_kindOf? hkind)).trans hkind) hspace hothers
    hdescribes

theorem space_import (i : Import) (es : List Export) :
    space { imports := [i], exports := es } i.desc.kind = [.imported i] ∧
      ∀ k, k ≠ i.desc.kind → space { imports := [i], exports := es } k = [] := by
  have hdefinitions : ∀ k, Entity.definitions [] [] [] [] k = [] := by
    intro k
    cases k <;> rfl
  constructor
  · have hown : [i].filter (·.desc.kind == i.desc.kind) = [i] :=
      List.filter_cons_of_pos (beq_self_eq_true _)
    rw [space, Entity.space, hdefinitions, hown]
    rfl
  · intro k hne
    have hother : [i].filter (·.desc.kind == k) = [] :=
      List.filter_cons_of_neg fun heq => hne (beq_iff_eq.mp heq).symm
    rw [space, Entity.space, hdefinitions, hother]
    rfl

/-- A field that declares no entity adds none. -/
theorem fits_of_headKeyword? {word : Keyword} (hhead : f.headKeyword? = some word)
    (hword : word ≠ .importKw) (hkind : Spaces.kindOf? (some word) = none)
    (himports : part.imports = []) (hdefinitions : ∀ k, Entity.definitions part.funcs part.tables
      part.memories part.globals k = []) (k : ExternKind) : part.Fits f k := by
  have hne : f.headKeyword? ≠ some .importKw := by
    rw [hhead]
    exact fun heq => hword (Option.some.inj heq)
  apply fits_of_kind?_eq_none
  · rw [kind?_of_ne_import hne, hhead, hkind]
  · rw [space, Entity.space, himports, hdefinitions]
    rfl

/-- What is read from a field fits it, for every kind. -/
theorem ReadFrom.fits (h : part.ReadFrom spaces d f types) (kind : ExternKind) :
    part.Fits f kind := by
  -- a part has entities of the kind that its field declares, and of no other
  cases h with
  | type hhead | start hhead | elem hhead | data hhead | «export» hhead =>
    exact fits_of_headKeyword? hhead (by simp) rfl rfl (fun k => by cases k <;> rfl) kind
  | @«import» item names desc t hhead hitem hnames hmore hkind hdesc horder =>
    obtain ⟨hspace, hothers⟩ := space_import ⟨names.1, names.2, desc⟩ []
    refine fits_of_kind? ?_ hspace hothers (.imported (if_pos (isHeadedBy_iff.mpr hhead)) hnames)
    rw [kind?_import hhead, hitem, Option.bind_some, hkind]
  | @inlineImport o es names desc t hkind hopen himport hdesc horder =>
    obtain ⟨hspace, hothers⟩ := space_import ⟨names.1, names.2, desc⟩ es
    obtain ⟨g, hform, hnames⟩ := hopen.importForm?_eq_some hkind himport
    exact fits_of_definition hkind hspace hothers (.imported hform hnames) kind
  | func hhead hopen himport =>
    have hkind : Spaces.kindOf? f.headKeyword? = some .func := by rw [hhead]; rfl
    refine fits_of_definition hkind rfl ?_
      (.func (hopen.importForm?_eq_none hkind himport) (hopen.name_eq hkind)) kind
    intro k hne
    cases k <;> first | rfl | exact absurd rfl hne
  | table hhead hopen himport | tableOfElems hhead hopen himport =>
    have hkind : Spaces.kindOf? f.headKeyword? = some .table := by rw [hhead]; rfl
    refine fits_of_definition hkind rfl ?_ (.table (hopen.importForm?_eq_none hkind himport)) kind
    intro k hne
    cases k <;> first | rfl | exact absurd rfl hne
  | memory hhead hopen himport | memoryOfData hhead hopen himport =>
    have hkind : Spaces.kindOf? f.headKeyword? = some .memory := by rw [hhead]; rfl
    refine fits_of_definition hkind rfl ?_ (.memory (hopen.importForm?_eq_none hkind himport)) kind
    intro k hne
    cases k <;> first | rfl | exact absurd rfl hne
  | global hhead hopen himport =>
    have hkind : Spaces.kindOf? f.headKeyword? = some .global := by rw [hhead]; rfl
    refine fits_of_definition hkind rfl ?_
      (.global (hopen.importForm?_eq_none hkind himport) (hopen.name_eq hkind)) kind
    intro k hne
    cases k <;> first | rfl | exact absurd rfl hne

/-- Imports come before the definitions of their kind. -/
theorem ReadFrom.imports_first (h : part.ReadFrom spaces d f types) :
    ∀ i ∈ part.imports, d.defined i.desc.kind = 0 := by
  cases h with
  | «import» _ _ _ _ _ _ horder | inlineImport _ _ _ _ horder =>
    rw [List.forall_mem_singleton]
    exact horder
  | _ => simp

/-- The entities read from a field are those it declares when it is added. -/
theorem declares_of_readFrom (h : part.ReadFrom spaces d f types)
    (hadd : Field.add spaces d f = .ok (d.extend part types)) (kind : ExternKind) :
    List.Forall₂ (Declares spaces kind) (declaring kind [f]) (part.space kind) := by
  have hfits := h.fits kind
  have hspace := Draft.space_extend h.imports_first types kind
  rw [Fits] at hfits
  by_cases hkind : kind? f = some kind
  · rw [declaring_singleton hkind] at hfits ⊢
    obtain ⟨e, rest, hdescribes, hnil, heq⟩ := List.forall₂_cons_left_iff.mp hfits
    obtain rfl := List.forall₂_nil_left_iff.mp hnil
    rw [heq] at hspace ⊢
    exact .cons ⟨hdescribes, d, d.extend part types, hadd, hspace⟩ .nil
  · rw [declaring_singleton_of_ne hkind] at hfits ⊢
    rw [List.forall₂_nil_left_iff.mp hfits]
    exact .nil

end Part

/-! ## Runs -/

namespace Draft

variable {spaces : Spaces} {types : TypeTable} {d : Draft} {fields : List Form} {parts : List Part}

/-- The entities of a draft are those that the fields read so far declare. -/
theorem Run.declares (h : Run spaces (.ofTypes types) fields parts d) (kind : ExternKind) :
    List.Forall₂ (Declares spaces kind) (declaring kind fields) (d.space kind) := by
  induction h with
  | nil => cases kind <;> exact .nil
  | snoc _ hread hadd ih =>
    rw [declaring_append, space_extend hread.imports_first]
    exact List.rel_append ih (Part.declares_of_readFrom hread hadd kind)

/-- The entities of a draft are those of its parts one after the other. -/
theorem Run.space_eq (h : Run spaces (.ofTypes types) fields parts d) (kind : ExternKind) :
    d.space kind = parts.flatMap (·.space kind) := by
  induction h with
  | nil => cases kind <;> rfl
  | snoc _ hread _ ih =>
    rw [space_extend hread.imports_first, ih, List.flatMap_append, List.flatMap_singleton]

/-- The next entity of a kind gets the number of the fields that declared one before. -/
theorem Run.nextIndex_eq (h : Run spaces (.ofTypes types) fields parts d) (kind : ExternKind) :
    d.nextIndex kind = (declaring kind fields).length := by
  rw [← length_space, (h.declares kind).length_eq]

end Draft

end WasmText
