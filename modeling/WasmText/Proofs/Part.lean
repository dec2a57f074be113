import Mathlib.Data.List.Induction
import WasmText.Module.OfForms
import WasmText.Proofs.Sites

/-!
# What fields add to a module

A field adds a `Part` to the draft that it is read into, and no field changes what others added.
`Part.ReadFrom` tells for each sort of field what it adds, and `readFrom_of_add` is all that is to
be known of a step. A module that is accepted is the parts of its fields one after the other
(`Draft.Run`), each read into the draft that the fields before it make.
-/

namespace WasmText

open Form

/-! ## Parts -/

/-- What a field adds to a module. -/
structure Part where
  imports : List Import := []
  funcs : List Func := []
  tables : List TableType := []
  memories : List Limits := []
  globals : List Global := []
  exports : List Export := []
  start : Option Nat := none
  elems : List Elem := []
  data : List Data := []

namespace Draft

/-- The draft with a part added, and with the types there are then. -/
def extend (d : Draft) (p : Part) (types : TypeTable) : Draft where
  types := types
  imports := d.imports ++ p.imports
  funcs := d.funcs ++ p.funcs
  tables := d.tables ++ p.tables
  memories := d.memories ++ p.memories
  globals := d.globals ++ p.globals
  exports := d.exports ++ p.exports
  start := d.start.or p.start
  elems := d.elems ++ p.elems
  data := d.data ++ p.data

/-- A reader that is run with the types of a draft. -/
theorem of_withTypes {α : Type} {d d' : Draft} {r : Elab α} {a : α}
    (h : d.withTypes r = .ok (a, d')) :
    ∃ t, r.run d.types = .ok (a, t) ∧ d' = { d with types := t } := by
  obtain ⟨⟨a', t⟩, hr, h⟩ := Success.of_bind h
  obtain ⟨rfl, rfl⟩ := Prod.mk.inj (Success.of_pure h)
  exact ⟨t, hr, rfl⟩

/-- An import is added only as long as nothing of its kind is defined, and changes nothing else. -/
theorem of_addImport {d d' : Draft} {i : Import} {span : Span} (h : d.addImport i span = .ok d') :
    d.defined i.desc.kind = 0 ∧ d' = { d with imports := d.imports ++ [i] } := by
  unfold addImport at h
  split at h
  · cases h
  · next hzero => exact ⟨Decidable.not_not.mp hzero, (Except.ok.inj h).symm⟩

/-- An export changes nothing else. -/
theorem of_addExport {d d' : Draft} {e : Export} {span : Span} (h : d.addExport e span = .ok d') :
    d' = { d with exports := d.exports ++ [e] } := by
  unfold addExport at h
  split at h
  · cases h
  · exact (Except.ok.inj h).symm

end Draft

/-! ## Openings -/

namespace Field

/-- The forms of a field after its name. -/
def afterName (f : Form) : List Form := f.args.drop (name f.args).2

/-- The inline exports of a field. -/
def inlineExports (f : Form) : List Form := (afterName f).takeWhile (isHeadedBy .exportKw)

/-- The forms of a field after its inline exports. -/
def afterExports (f : Form) : List Form := (afterName f).drop (inlineExports f).length

theorem afterExports_eq (f : Form) :
    afterExports f = f.args.drop ((name f.args).2 + (inlineExports f).length) := List.drop_drop

theorem name_fst (items : List Form) : (name items).1 = items.head?.bind Form.id? := by
  unfold name
  split
  · next n hn => exact hn.symm
  · next hnone => exact hnone.symm

/-- The name of a field is among its items. -/
theorem name_le_length (items : List Form) : (name items).2 ≤ items.length := by
  unfold name
  split
  · next hname =>
    obtain ⟨f, hf, -⟩ := Option.bind_eq_some_iff.mp hname
    exact List.length_pos_of_mem (List.mem_of_head? hf)
  · exact Nat.zero_le _

/-- The export that an inline `(export …)` of the entity at an index makes. -/
structure InlineExport (kind : ExternKind) (index : Nat) (f : Form) (e : Export) : Prop where
  name : ∃ g, f.args = [g] ∧ g.expectName = .ok e.name
  kind : e.kind = kind
  index : e.index = index

/-- What an export inside a field adds is given by its form. -/
theorem inlineExport_of_run {kind : ExternKind} {index : Nat} {d d' : Draft} {f : Form}
    (h : inlineExport kind index d f = .ok d') :
    ∃ e, InlineExport kind index f e ∧ d' = { d with exports := d.exports ++ [e] } := by
  obtain ⟨g, hneed, h⟩ := Success.of_bind h
  obtain ⟨n, hname, h⟩ := Success.of_bind h
  obtain ⟨_, hmore, h⟩ := Success.of_bind h
  have hargs : f.args = [g] := eq_singleton_of_noMore (eq_some_of_need hneed) hmore
  exact ⟨⟨n, kind, index⟩, ⟨⟨g, hargs, hname⟩, rfl, rfl⟩, Draft.of_addExport h⟩

/-- The exports inside a field are added in order, one for each of their lists. -/
theorem inlineExports_of_run {kind : ExternKind} {index : Nat} {d d' : Draft} {fs : List Form}
    (h : fs.foldlM (inlineExport kind index) d = .ok d') :
    ∃ es, List.Forall₂ (InlineExport kind index) fs es ∧
      d' = { d with exports := d.exports ++ es } := by
  induction fs generalizing d with
  | nil =>
    refine ⟨[], .nil, ?_⟩
    rw [List.append_nil]
    exact (Except.ok.inj h).symm
  | cons f fs ih =>
    rw [List.foldlM_cons] at h
    obtain ⟨d₁, hf, h⟩ := Success.of_bind h
    obtain ⟨e, he, rfl⟩ := inlineExport_of_run hf
    obtain ⟨es, hes, rfl⟩ := ih h
    refine ⟨e :: es, .cons he hes, ?_⟩
    rw [List.append_assoc]
    rfl

/-- How the inline import at the front of some forms comes about, and how many forms it takes. -/
inductive ImportedAs (items : List Form) : Option (String × String) → Nat → Prop
  | absent (h : items.head?.filter (isHeadedBy .importKw) = none) : ImportedAs items none 0
  | written {g : Form} {names : String × String}
    (h : items.head?.filter (isHeadedBy .importKw) = some g) (hnames : importNames g = .ok names)
    (hmore : noMore (g.args.drop 2) = .ok ⟨⟩) : ImportedAs items (some names) 1

/-- An import inside a field is read or there is none. -/
theorem importedAs_of_inlineImport {items : List Form} {imported : Option (String × String)}
    {n : Nat} (h : inlineImport items = .ok (imported, n)) : ImportedAs items imported n := by
  unfold inlineImport at h
  split at h
  · next g hg =>
    obtain ⟨names, hnames, h⟩ := Success.of_bind h
    obtain ⟨_, hmore, h⟩ := Success.of_bind h
    obtain ⟨rfl, rfl⟩ := Prod.mk.inj (Success.of_pure h)
    exact .written hg hnames hmore
  · next hnone =>
    obtain ⟨rfl, rfl⟩ := Prod.mk.inj (Except.ok.inj h)
    exact .absent hnone

/-- How the opening `o` of a field for an entity is read into a draft, with the exports it makes. -/
structure Opens (kind : ExternKind) (d : Draft) (f : Form) (o : Opening) (es : List Export) :
    Prop where
  name : o.name = f.args.head?.bind Form.id?
  index : o.index = d.nextIndex kind
  exports : List.Forall₂ (InlineExport kind o.index) (inlineExports f) es
  imported : ∃ m, inlineImport (afterExports f) = .ok (o.imported, m) ∧
    o.rest = (afterExports f).drop m

/-- What the opening of a definition has read, and what that adds to the draft. -/
theorem opens_of_opening {kind : ExternKind} {d d' : Draft} {f : Form} {o : Opening}
    (h : opening kind d f = .ok (o, d')) :
    ∃ es, Opens kind d f o es ∧ d' = { d with exports := d.exports ++ es } := by
  unfold opening at h
  obtain ⟨d₁, hexports, h⟩ := Success.of_bind h
  obtain ⟨⟨imported, m⟩, himport, h⟩ := Success.of_bind h
  obtain ⟨rfl, rfl⟩ := Prod.mk.inj (Success.of_pure h)
  obtain ⟨es, hes, rfl⟩ := inlineExports_of_run hexports
  refine ⟨es, ⟨name_fst f.args, rfl, hes, m, ?_, ?_⟩, rfl⟩
  · rw [afterExports_eq]
    exact himport
  · rw [afterExports_eq]
    rfl

/-- What follows the opening of a definition stands after its inline exports. -/
theorem Opens.rest_eq {kind : ExternKind} {d : Draft} {f : Form} {o : Opening} {es : List Export}
    (h : Opens kind d f o es) (himport : o.imported = none) : o.rest = afterExports f := by
  obtain ⟨m, hinline, hrest⟩ := h.imported
  rw [himport] at hinline
  cases importedAs_of_inlineImport hinline with
  | absent => exact hrest

/-! ## Imports -/

/-- How an import's description is read, from the types `t` on. -/
inductive DescAs (span : Span) (items : List Form) (t : TypeTable) : ImportDesc → TypeTable → Prop
  | func {use : TypeUse} {n : Nat} {t' : TypeTable} (h : TypeUse.ReadAs true items t use n t')
    (hrest : items.drop n = []) : DescAs span items t (.func use.index) t'
  | table {type : TableType} {n : Nat} (h : tableType span items = .ok (type, n))
    (hrest : items.drop n = []) : DescAs span items t (.table type) t
  | memory {type : Limits} {n : Nat} (h : limits span items = .ok (type, n))
    (hrest : items.drop n = []) : DescAs span items t (.memory type) t
  | global {type : GlobalType} (h : globalType span items.head? = .ok type)
    (hrest : items.tail = []) : DescAs span items t (.global type) t

/-- The description of an import is read from what follows its name, and may add a type. -/
theorem descAs_of_importDesc {d d' : Draft} {f : Form} {desc : ImportDesc}
    (h : importDesc d f = .ok (desc, d')) :
    ∃ t, DescAs f.span (afterName f) d.types desc t ∧
      Spaces.kindOf? f.headKeyword? = some desc.kind ∧ d' = { d with types := t } := by
  unfold importDesc at h
  dsimp only at h
  split at h
  · next hhead =>
    obtain ⟨⟨⟨use, n⟩, d₁⟩, hrun, h⟩ := Success.of_bind h
    obtain ⟨_, hmore, h⟩ := Success.of_bind h
    obtain ⟨rfl, rfl⟩ := Prod.mk.inj (Success.of_pure h)
    obtain ⟨t, huse, rfl⟩ := Draft.of_withTypes hrun
    exact ⟨t, .func (TypeUse.readAs_of_read huse) (eq_nil_of_noMore hmore), by rw [hhead]; rfl, rfl⟩
  · next hhead =>
    obtain ⟨⟨type, n⟩, htype, h⟩ := Success.of_bind h
    obtain ⟨_, hmore, h⟩ := Success.of_bind h
    obtain ⟨rfl, rfl⟩ := Prod.mk.inj (Success.of_pure h)
    exact ⟨d.types, .table htype (eq_nil_of_noMore hmore), by rw [hhead]; rfl, rfl⟩
  · next hhead =>
    obtain ⟨⟨type, n⟩, htype, h⟩ := Success.of_bind h
    obtain ⟨_, hmore, h⟩ := Success.of_bind h
    obtain ⟨rfl, rfl⟩ := Prod.mk.inj (Success.of_pure h)
    exact ⟨d.types, .memory htype (eq_nil_of_noMore hmore), by rw [hhead]; rfl, rfl⟩
  · next hhead =>
    obtain ⟨type, htype, h⟩ := Success.of_bind h
    obtain ⟨_, hmore, h⟩ := Success.of_bind h
    obtain ⟨rfl, rfl⟩ := Prod.mk.inj (Success.of_pure h)
    exact ⟨d.types, .global htype (eq_nil_of_noMore hmore), by rw [hhead]; rfl, rfl⟩
  · cases h

end Field

/-! ## Steps -/

namespace Part

open WasmText.Field

/-- What a field adds to a draft, and the types there are then. -/
inductive ReadFrom (spaces : Spaces) (d : Draft) (f : Form) : Part → TypeTable → Prop
  | type (hhead : f.headKeyword? = some .typeKw) : ReadFrom spaces d f {} d.types
  | import {item : Form} {names : String × String} {desc : ImportDesc} {t : TypeTable}
    (hhead : f.headKeyword? = some .importKw) (hitem : f.args[2]? = some item)
    (hnames : importNames f = .ok names) (hmore : f.args.drop 3 = [])
    (hkind : Spaces.kindOf? item.headKeyword? = some desc.kind)
    (hdesc : DescAs item.span (afterName item) d.types desc t)
    (horder : d.defined desc.kind = 0) :
    ReadFrom spaces d f { imports := [⟨names.1, names.2, desc⟩] } t
  | inlineImport {o : Opening} {es : List Export} {names : String × String} {desc : ImportDesc}
    {t : TypeTable} (hkind : Spaces.kindOf? f.headKeyword? = some desc.kind)
    (hopen : Opens desc.kind d f o es) (himport : o.imported = some names)
    (hdesc : DescAs f.span o.rest d.types desc t) (horder : d.defined desc.kind = 0) :
    ReadFrom spaces d f { imports := [⟨names.1, names.2, desc⟩], exports := es } t
  | func {o : Opening} {es : List Export} {use : TypeUse} {n : Nat} {params names : Names}
    {decls rest : List Form} {locals : List ValType} {body : List Instr} {t t' : TypeTable}
    (hhead : f.headKeyword? = some .funcKw) (hopen : Opens .func d f o es)
    (himport : o.imported = none) (huse : TypeUse.ReadAs true o.rest d.types use n t)
    (hdecls : decls = (o.rest.drop n).takeWhile (isHeadedBy .localKw))
    (hrest : rest = (o.rest.drop n).drop decls.length)
    (hparams : parameters use = .ok params)
    (hlocals : decls.foldlM addLocals (params, []) = .ok (names, locals))
    (hbody : (Body.whole ⟨spaces, names, .ofFunction use.sig.result, 0⟩ rest).run t =
      .ok (body, t')) :
    ReadFrom spaces d f
      { funcs := [⟨o.name, use.index, use.sig, locals, body⟩], exports := es } t'
  | table {o : Opening} {es : List Export} {type : TableType} {n : Nat}
    (hhead : f.headKeyword? = some .tableKw) (hopen : Opens .table d f o es)
    (himport : o.imported = none) (htype : tableType f.span o.rest = .ok (type, n))
    (hrest : o.rest.drop n = []) :
    ReadFrom spaces d f { tables := [type], exports := es } d.types
  | tableOfElems {o : Opening} {es : List Export} {type list : Form} {elemType : ValType}
    {init : List Nat} (hhead : f.headKeyword? = some .tableKw) (hopen : Opens .table d f o es)
    (himport : o.imported = none) (hrest : o.rest = [type, list])
    (htype : Field.elemType f.span (some type) = .ok elemType)
    (hlist : list.headKeyword? = some .elemKw)
    (hinit : list.args.mapM (fun v => spaces.funcs.resolve .func list.span (some v)) = .ok init) :
    ReadFrom spaces d f
      { tables := [⟨⟨init.length, some init.length⟩, elemType⟩], exports := es
        elems := [⟨o.index, zeroOffset list.span, init⟩] } d.types
  | memory {o : Opening} {es : List Export} {type : Limits} {n : Nat}
    (hhead : f.headKeyword? = some .memoryKw) (hopen : Opens .memory d f o es)
    (himport : o.imported = none) (htype : limits f.span o.rest = .ok (type, n))
    (hrest : o.rest.drop n = []) :
    ReadFrom spaces d f { memories := [type], exports := es } d.types
  | memoryOfData {o : Opening} {es : List Export} {list : Form} {init : List UInt8} {pages : Nat}
    (hhead : f.headKeyword? = some .memoryKw) (hopen : Opens .memory d f o es)
    (himport : o.imported = none) (hrest : o.rest = [list])
    (hlist : list.headKeyword? = some .dataKw) (hinit : expectAllBytes list.args = .ok init)
    (hpages : pages = (init.length + pageSize - 1) / pageSize) :
    ReadFrom spaces d f
      { memories := [⟨pages, some pages⟩], exports := es
        data := [⟨o.index, zeroOffset list.span, init⟩] } d.types
  | global {o : Opening} {es : List Export} {type : GlobalType} {init : List Instr} {t : TypeTable}
    (hhead : f.headKeyword? = some .globalKw) (hopen : Opens .global d f o es)
    (himport : o.imported = none) (htype : globalType f.span o.rest.head? = .ok type)
    (hinit : (Body.whole (constScope spaces) o.rest.tail).run d.types = .ok (init, t)) :
    ReadFrom spaces d f { globals := [⟨o.name, type, init⟩], exports := es } t
  | export {name desc ref : Form} {e : Export} (hhead : f.headKeyword? = some .exportKw)
    (hargs : f.args = [name, desc]) (hname : name.expectName = .ok e.name)
    (hkind : Spaces.kindOf? desc.headKeyword? = some e.kind) (hdesc : desc.args = [ref])
    (href : (spaces.ofKind e.kind).resolve (.ofExtern e.kind) desc.span (some ref) = .ok e.index) :
    ReadFrom spaces d f { exports := [e] } d.types
  | start {ref : Form} {index : Nat} (hhead : f.headKeyword? = some .startKw)
    (hfirst : d.start = none) (hargs : f.args = [ref])
    (href : spaces.funcs.resolve .func f.span (some ref) = .ok index) :
    ReadFrom spaces d f { start := some index } d.types
  | elem {table n : Nat} {offset : List Instr} {item : Form} {init : List Nat} {t : TypeTable}
    (hhead : f.headKeyword? = some .elemKw)
    (htarget : target .table spaces.tables f.args = .ok (table, n))
    (hitem : f.args[n]? = some item) (hlist : item.items?.isSome = true)
    (hoffset : (Body.whole (constScope spaces)
      (if item.isHeadedBy .offsetKw then item.args else [item])).run d.types = .ok (offset, t))
    (hinit : (f.args.drop (n + 1)).mapM (fun v => spaces.funcs.resolve .func f.span (some v)) =
      .ok init) :
    ReadFrom spaces d f { elems := [⟨table, offset, init⟩] } t
  | data {memory n : Nat} {offset : List Instr} {item : Form} {init : List UInt8} {t : TypeTable}
    (hhead : f.headKeyword? = some .dataKw)
    (htarget : target .memory spaces.memories f.args = .ok (memory, n))
    (hitem : f.args[n]? = some item) (hlist : item.items?.isSome = true)
    (hoffset : (Body.whole (constScope spaces)
      (if item.isHeadedBy .offsetKw then item.args else [item])).run d.types = .ok (offset, t))
    (hinit : expectAllBytes (f.args.drop (n + 1)) = .ok init) :
    ReadFrom spaces d f { data := [⟨memory, offset, init⟩] } t

/-- An inline import is read like the description in an `(import …)`. -/
theorem readFrom_of_inlineImport {spaces : Spaces} {d d' : Draft} {f : Form} {o : Opening}
    {es : List Export} {names : String × String} (desc : ImportDesc) {t : TypeTable}
    (hkind : Spaces.kindOf? f.headKeyword? = some desc.kind) (hopen : Opens desc.kind d f o es)
    (himport : o.imported = some names) (hdesc : DescAs f.span o.rest d.types desc t)
    (h : ({ d with exports := d.exports ++ es, types := t } : Draft).addImport
      ⟨names.1, names.2, desc⟩ f.span = .ok d') :
    ∃ part types, ReadFrom spaces d f part types ∧ d' = d.extend part types := by
  obtain ⟨horder, rfl⟩ := Draft.of_addImport h
  exact ⟨_, t, .inlineImport hkind hopen himport hdesc horder, by simp [Draft.extend]⟩

/-- An import that can be added is read as a part with an import only. -/
theorem readFrom_of_addImport {spaces : Spaces} {d d' : Draft} {f : Form}
    (hhead : f.headKeyword? = some .importKw) (h : Field.addImport d f = .ok d') :
    ∃ part types, ReadFrom spaces d f part types ∧ d' = d.extend part types := by
  unfold Field.addImport at h
  obtain ⟨names, hnames, h⟩ := Success.of_bind h
  obtain ⟨item, hitem, h⟩ := Success.of_bind h
  obtain ⟨_, -, h⟩ := Success.of_bind h
  obtain ⟨_, hmore, h⟩ := Success.of_bind h
  obtain ⟨⟨desc, d₁⟩, hrun, h⟩ := Success.of_bind h
  obtain ⟨t, hdesc, hkind, rfl⟩ := descAs_of_importDesc hrun
  obtain ⟨horder, rfl⟩ := Draft.of_addImport h
  exact ⟨_, t, .import hhead (eq_some_of_need hitem) hnames (eq_nil_of_noMore hmore) hkind hdesc
    horder, by simp [Draft.extend]⟩

/-- A function is read as an import with its signature, or as a function with its body. -/
theorem readFrom_of_addFunc {spaces : Spaces} {d d' : Draft} {f : Form}
    (hhead : f.headKeyword? = some .funcKw) (h : Field.addFunc spaces d f = .ok d') :
    ∃ part types, ReadFrom spaces d f part types ∧ d' = d.extend part types := by
  unfold Field.addFunc at h
  obtain ⟨⟨o, d₁⟩, hopening, h⟩ := Success.of_bind h
  obtain ⟨es, hopen, rfl⟩ := opens_of_opening hopening
  obtain ⟨⟨⟨use, n⟩, d₂⟩, hrun, h⟩ := Success.of_bind h
  obtain ⟨t, hread, rfl⟩ := Draft.of_withTypes hrun
  have huse := TypeUse.readAs_of_read hread
  dsimp only at h
  split at h
  · next names himport =>
    obtain ⟨_, hmore, h⟩ := Success.of_bind h
    exact readFrom_of_inlineImport (.func use.index) (by rw [hhead]; rfl) hopen himport
      (.func huse (eq_nil_of_noMore hmore)) h
  · next himport =>
    obtain ⟨params, hparams, h⟩ := Success.of_bind h
    obtain ⟨⟨names, locals⟩, hlocals, h⟩ := Success.of_bind h
    obtain ⟨⟨body, d₃⟩, hrun, h⟩ := Success.of_bind h
    obtain ⟨t', hbody, rfl⟩ := Draft.of_withTypes hrun
    obtain rfl := Success.of_pure h
    exact ⟨_, t', .func hhead hopen himport huse rfl rfl hparams hlocals hbody,
      by simp [Draft.extend]⟩

/-- A table is read as an import, as a table with its type, or as a table with a segment that fills
it. -/
theorem readFrom_of_addTable {spaces : Spaces} {d d' : Draft} {f : Form}
    (hhead : f.headKeyword? = some .tableKw) (h : Field.addTable spaces d f = .ok d') :
    ∃ part types, ReadFrom spaces d f part types ∧ d' = d.extend part types := by
  unfold Field.addTable at h
  obtain ⟨⟨o, d₁⟩, hopening, h⟩ := Success.of_bind h
  obtain ⟨es, hopen, rfl⟩ := opens_of_opening hopening
  dsimp only at h
  split at h
  · next names himport =>
    obtain ⟨⟨type, n⟩, htype, h⟩ := Success.of_bind h
    obtain ⟨_, hmore, h⟩ := Success.of_bind h
    exact readFrom_of_inlineImport (.table type) (by rw [hhead]; rfl) hopen himport
      (.table htype (eq_nil_of_noMore hmore)) h
  · next himport =>
    split at h
    · obtain ⟨elemType, htype, h⟩ := Success.of_bind h
      obtain ⟨list, hneed, h⟩ := Success.of_bind h
      obtain ⟨_, -, h⟩ := Success.of_bind h
      split at h
      · cases h
      · next hlist =>
        obtain ⟨_, hmore, h⟩ := Success.of_bind h
        obtain ⟨init, hinit, h⟩ := Success.of_bind h
        obtain rfl := Success.of_pure h
        -- an element type was read, so there is a form to read it from
        obtain ⟨type, hfirst⟩ : ∃ type, o.rest.head? = some type := by
          cases hcases : o.rest.head? with
          | none =>
            rw [hcases] at htype
            cases htype
          | some type => exact ⟨type, rfl⟩
        rw [hfirst] at htype
        rw [List.head?_eq_getElem?] at hfirst
        rw [List.head?_tail] at hneed
        have hrest : o.rest = [type, list] :=
          eq_pair_of_noMore hfirst (eq_some_of_need hneed) hmore
        exact ⟨_, d.types, .tableOfElems hhead hopen himport hrest htype
          (Decidable.not_not.mp hlist) hinit, by simp [Draft.extend]⟩
    · obtain ⟨⟨type, n⟩, htype, h⟩ := Success.of_bind h
      obtain ⟨_, hmore, h⟩ := Success.of_bind h
      obtain rfl := Success.of_pure h
      exact ⟨_, d.types, .table hhead hopen himport htype (eq_nil_of_noMore hmore),
        by simp [Draft.extend]⟩

/-- A memory is read as an import, as a memory with its limits, or as a memory with a segment that
fills it. -/
theorem readFrom_of_addMemory {spaces : Spaces} {d d' : Draft} {f : Form}
    (hhead : f.headKeyword? = some .memoryKw) (h : Field.addMemory d f = .ok d') :
    ∃ part types, ReadFrom spaces d f part types ∧ d' = d.extend part types := by
  unfold Field.addMemory at h
  obtain ⟨⟨o, d₁⟩, hopening, h⟩ := Success.of_bind h
  obtain ⟨es, hopen, rfl⟩ := opens_of_opening hopening
  dsimp only at h
  split at h
  · next names himport =>
    obtain ⟨⟨type, n⟩, htype, h⟩ := Success.of_bind h
    obtain ⟨_, hmore, h⟩ := Success.of_bind h
    exact readFrom_of_inlineImport (.memory type) (by rw [hhead]; rfl) hopen himport
      (.memory htype (eq_nil_of_noMore hmore)) h
  · next himport =>
    split at h
    · next list hlist =>
      obtain ⟨hfirst, hlist⟩ := Option.filter_eq_some_iff.mp hlist
      obtain ⟨_, hmore, h⟩ := Success.of_bind h
      obtain ⟨init, hinit, h⟩ := Success.of_bind h
      obtain rfl := Success.of_pure h
      have hrest : o.rest = [list] := eq_singleton_of_noMore hfirst hmore
      exact ⟨_, d.types,
        .memoryOfData hhead hopen himport hrest (isHeadedBy_iff.mp hlist) hinit rfl,
        by simp [Draft.extend]⟩
    · obtain ⟨⟨type, n⟩, htype, h⟩ := Success.of_bind h
      obtain ⟨_, hmore, h⟩ := Success.of_bind h
      obtain rfl := Success.of_pure h
      exact ⟨_, d.types, .memory hhead hopen himport htype (eq_nil_of_noMore hmore),
        by simp [Draft.extend]⟩

/-- A global is read as an import with its type, or as a global with its body. -/
theorem readFrom_of_addGlobal {spaces : Spaces} {d d' : Draft} {f : Form}
    (hhead : f.headKeyword? = some .globalKw) (h : Field.addGlobal spaces d f = .ok d') :
    ∃ part types, ReadFrom spaces d f part types ∧ d' = d.extend part types := by
  unfold Field.addGlobal at h
  obtain ⟨⟨o, d₁⟩, hopening, h⟩ := Success.of_bind h
  obtain ⟨es, hopen, rfl⟩ := opens_of_opening hopening
  obtain ⟨type, htype, h⟩ := Success.of_bind h
  dsimp only at h
  split at h
  · next names himport =>
    obtain ⟨_, hmore, h⟩ := Success.of_bind h
    exact readFrom_of_inlineImport (.global type) (by rw [hhead]; rfl) hopen himport
      (.global htype (eq_nil_of_noMore hmore)) h
  · next himport =>
    obtain ⟨⟨init, d₂⟩, hrun, h⟩ := Success.of_bind h
    obtain ⟨t, hinit, rfl⟩ := Draft.of_withTypes hrun
    obtain rfl := Success.of_pure h
    exact ⟨_, t, .global hhead hopen himport htype hinit, by simp [Draft.extend]⟩

/-- An export is read as a name with the entry that its item refers to. -/
theorem readFrom_of_addExport {spaces : Spaces} {d d' : Draft} {f : Form}
    (hhead : f.headKeyword? = some .exportKw) (h : Field.addExport spaces d f = .ok d') :
    ∃ part types, ReadFrom spaces d f part types ∧ d' = d.extend part types := by
  unfold Field.addExport at h
  obtain ⟨first, hfirst, h⟩ := Success.of_bind h
  obtain ⟨name, hname, h⟩ := Success.of_bind h
  obtain ⟨desc, hdesc, h⟩ := Success.of_bind h
  obtain ⟨_, -, h⟩ := Success.of_bind h
  obtain ⟨_, hmore, h⟩ := Success.of_bind h
  split at h
  · cases h
  · next kind hkind =>
    obtain ⟨index, hindex, h⟩ := Success.of_bind h
    obtain ⟨_, hmore', h⟩ := Success.of_bind h
    obtain rfl := Draft.of_addExport h
    have hargs : f.args = [first, desc] :=
      eq_pair_of_noMore (eq_some_of_need hfirst) (eq_some_of_need hdesc) hmore
    obtain ⟨ref, href, -⟩ := Names.leaf_of_resolve hindex
    have hrefs : desc.args = [ref] := eq_singleton_of_noMore href hmore'
    rw [href] at hindex
    exact ⟨_, d.types, .export (e := ⟨name, kind, index⟩) hhead hargs hname hkind hrefs hindex,
      by simp [Draft.extend]⟩

/-- A start field is read as the function it refers to. -/
theorem readFrom_of_addStart {spaces : Spaces} {d d' : Draft} {f : Form}
    (hhead : f.headKeyword? = some .startKw) (h : Field.addStart spaces d f = .ok d') :
    ∃ part types, ReadFrom spaces d f part types ∧ d' = d.extend part types := by
  unfold Field.addStart at h
  dsimp only at h
  split at h
  · cases h
  · next hstart =>
    have hfirst : d.start = none := by simpa using hstart
    obtain ⟨index, hindex, h⟩ := Success.of_bind h
    obtain ⟨_, hmore, h⟩ := Success.of_bind h
    obtain rfl := Success.of_pure h
    obtain ⟨ref, href, -⟩ := Names.leaf_of_resolve hindex
    have hargs : f.args = [ref] := eq_singleton_of_noMore href hmore
    rw [href] at hindex
    exact ⟨_, d.types, .start hhead hfirst hargs hindex, by simp [Draft.extend, hfirst]⟩

theorem isSome_of_expectList {what : Expectation} {f : Form} {items : List Form}
    (h : f.expectList what = .ok items) : f.items?.isSome = true := by
  unfold expectList at h
  split at h
  · next hitems => rw [hitems]; rfl
  · cases h

/-- The offset of a segment. -/
theorem of_offset {spaces : Spaces} {d d' : Draft} {span : Span} {item? : Option Form}
    {offset : List Instr} (h : Field.offset spaces d span item? = .ok (offset, d')) :
    ∃ item t, item? = some item ∧ item.items?.isSome = true ∧ d' = { d with types := t } ∧
      (Body.whole (constScope spaces)
        (if item.isHeadedBy .offsetKw then item.args else [item])).run d.types =
          .ok (offset, t) := by
  unfold Field.offset at h
  obtain ⟨item, hitem, h⟩ := Success.of_bind h
  obtain ⟨_, hdiscard, h⟩ := Success.of_bind h
  obtain ⟨items, hlist, -⟩ := Success.of_map hdiscard
  obtain ⟨t, hrun, rfl⟩ := Draft.of_withTypes h
  exact ⟨item, t, eq_some_of_need hitem, isSome_of_expectList hlist, rfl, hrun⟩

/-- An element segment is read as a target, an offset and the functions it holds. -/
theorem readFrom_of_addElem {spaces : Spaces} {d d' : Draft} {f : Form}
    (hhead : f.headKeyword? = some .elemKw) (h : Field.addElem spaces d f = .ok d') :
    ∃ part types, ReadFrom spaces d f part types ∧ d' = d.extend part types := by
  unfold Field.addElem at h
  obtain ⟨⟨table, n⟩, htarget, h⟩ := Success.of_bind h
  obtain ⟨⟨offset, d₁⟩, hrun, h⟩ := Success.of_bind h
  obtain ⟨item, t, hitem, hlist, rfl, hoffset⟩ := of_offset hrun
  obtain ⟨init, hinit, h⟩ := Success.of_bind h
  obtain rfl := Success.of_pure h
  exact ⟨_, t, .elem hhead htarget hitem hlist hoffset hinit, by simp [Draft.extend]⟩

/-- A data segment is read as a target, an offset and the bytes it holds. -/
theorem readFrom_of_addData {spaces : Spaces} {d d' : Draft} {f : Form}
    (hhead : f.headKeyword? = some .dataKw) (h : Field.addData spaces d f = .ok d') :
    ∃ part types, ReadFrom spaces d f part types ∧ d' = d.extend part types := by
  unfold Field.addData at h
  obtain ⟨⟨memory, n⟩, htarget, h⟩ := Success.of_bind h
  obtain ⟨⟨offset, d₁⟩, hrun, h⟩ := Success.of_bind h
  obtain ⟨item, t, hitem, hlist, rfl, hoffset⟩ := of_offset hrun
  obtain ⟨init, hinit, h⟩ := Success.of_bind h
  obtain rfl := Success.of_pure h
  exact ⟨_, t, .data hhead htarget hitem hlist hoffset hinit, by simp [Draft.extend]⟩

/-- A field adds a part to the draft. -/
theorem readFrom_of_add {spaces : Spaces} {d d' : Draft} {f : Form}
    (h : Field.add spaces d f = .ok d') :
    ∃ part types, ReadFrom spaces d f part types ∧ d' = d.extend part types := by
  unfold Field.add at h
  obtain ⟨_, -, h⟩ := Success.of_bind h
  split at h
  · next hhead =>
    obtain rfl := Success.of_pure h
    exact ⟨{}, d.types, .type hhead, by simp [Draft.extend]⟩
  · next hhead => exact readFrom_of_addImport hhead h
  · next hhead => exact readFrom_of_addFunc hhead h
  · next hhead => exact readFrom_of_addTable hhead h
  · next hhead => exact readFrom_of_addMemory hhead h
  · next hhead => exact readFrom_of_addGlobal hhead h
  · next hhead => exact readFrom_of_addExport hhead h
  · next hhead => exact readFrom_of_addStart hhead h
  · next hhead => exact readFrom_of_addElem hhead h
  · next hhead => exact readFrom_of_addData hhead h
  · cases h

end Part

/-! ## Runs -/

namespace Draft

/-- A draft is read from the fields before it, each of which added a part. -/
inductive Run (spaces : Spaces) (d₀ : Draft) : List Form → List Part → Draft → Prop
  | nil : Run spaces d₀ [] [] d₀
  | snoc {fields : List Form} {parts : List Part} {d : Draft} {f : Form} {part : Part}
    {types : TypeTable} (h : Run spaces d₀ fields parts d)
    (hread : Part.ReadFrom spaces d f part types)
    (hadd : Field.add spaces d f = .ok (d.extend part types)) :
    Run spaces d₀ (fields ++ [f]) (parts ++ [part]) (d.extend part types)

/-- Fields that can be added one after the other are a run. -/
theorem run_of_foldlM {spaces : Spaces} {d₀ d : Draft} {fields : List Form}
    (h : fields.foldlM (Field.add spaces) d₀ = .ok d) : ∃ parts, Run spaces d₀ fields parts d := by
  -- from the last field on, as that is where a run grows
  induction fields using List.reverseRecOn generalizing d with
  | nil =>
    obtain rfl := Success.of_pure h
    exact ⟨[], .nil⟩
  | append_singleton fields f ih =>
    rw [List.foldlM_append] at h
    obtain ⟨d₁, hfields, h⟩ := Success.of_bind h
    rw [List.foldlM_cons] at h
    obtain ⟨d₂, hf, h⟩ := Success.of_bind h
    obtain rfl := Success.of_pure h
    obtain ⟨parts, hrun⟩ := ih hfields
    obtain ⟨part, types, hread, rfl⟩ := Part.readFrom_of_add hf
    exact ⟨parts ++ [part], hrun.snoc hread hf⟩

section Run

variable {spaces : Spaces} {d₀ d : Draft} {fields : List Form} {parts : List Part}

/-- A run has a part for each field. -/
theorem Run.length_eq (h : Run spaces d₀ fields parts d) : fields.length = parts.length := by
  induction h with
  | nil => rfl
  | snoc _ _ _ ih => rw [List.length_append, List.length_append, ih]; rfl

/-- What holds of a field and the part it adds in every step holds of all fields of a run. -/
theorem Run.forall₂ {R : Form → Part → Prop} (h : Run spaces d₀ fields parts d)
    (hstep : ∀ {d : Draft} {f : Form} {part : Part} {types : TypeTable},
      part.ReadFrom spaces d f types → R f part) : List.Forall₂ R fields parts := by
  induction h with
  | nil => exact .nil
  | snoc _ hread _ ih => exact List.rel_append ih (.cons (hstep hread) .nil)

/-- Each field of a run is read as its part. -/
theorem Run.reads (h : Run spaces d₀ fields parts d) :
    List.Forall₂ (fun f part => ∃ d types, part.ReadFrom spaces d f types) fields parts :=
  h.forall₂ fun hread => ⟨_, _, hread⟩

/-- What holds of each field that is read holds of all fields of a run. -/
theorem Run.forall_fields {R : Form → Prop} (h : Run spaces d₀ fields parts d)
    (hstep : ∀ {d : Draft} {f : Form} {part : Part} {types : TypeTable},
      part.ReadFrom spaces d f types → R f) : ∀ f ∈ fields, R f := by
  have hall : List.Forall₂ (fun f _ => R f) fields parts := h.forall₂ hstep
  intro f hf
  obtain ⟨part, -, hfield⟩ := Success.exists_right hall hf
  exact hfield

/-- Each field of a run is read into the draft that those before it make. -/
theorem Run.step (h : Run spaces d₀ fields parts d) {i : Nat} {f : Form} {part : Part}
    (hf : fields[i]? = some f) (hpart : parts[i]? = some part) :
    ∃ d' types, Run spaces d₀ (fields.take i) (parts.take i) d' ∧
      part.ReadFrom spaces d' f types := by
  induction h with
  | nil => cases hf
  | @snoc fields parts d g part' types hrun hread _ ih =>
    -- the step is one of those before the last, or it is the last
    rcases Nat.lt_trichotomy i fields.length with hlt | rfl | hgt
    · rw [List.getElem?_append_left hlt] at hf
      rw [List.getElem?_append_left (hrun.length_eq ▸ hlt)] at hpart
      obtain ⟨d', types, hprefix, hstep⟩ := ih hf hpart
      rw [List.take_append_of_le_length (Nat.le_of_lt hlt),
        List.take_append_of_le_length (hrun.length_eq ▸ Nat.le_of_lt hlt)]
      exact ⟨d', types, hprefix, hstep⟩
    · rw [List.getElem?_concat_length] at hf
      rw [hrun.length_eq, List.getElem?_concat_length] at hpart
      obtain rfl := Option.some.inj hf
      obtain rfl := Option.some.inj hpart
      rw [List.take_left, hrun.length_eq, List.take_left]
      exact ⟨d, types, hrun, hread⟩
    · rw [List.getElem?_eq_none (by simp; omega)] at hf
      cases hf

end Run

end Draft

/-! ## Modules in parts -/

namespace Module

/-- A module is some parts one after the other. -/
structure IsJoin (m : Module) (parts : List Part) : Prop where
  imports : m.imports = parts.flatMap Part.imports
  funcs : m.funcs = parts.flatMap Part.funcs
  tables : m.tables = parts.flatMap Part.tables
  memories : m.memories = parts.flatMap Part.memories
  globals : m.globals = parts.flatMap Part.globals
  exports : m.exports = parts.flatMap Part.exports
  start : m.start = parts.findSome? Part.start
  elems : m.elems = parts.flatMap Part.elems
  data : m.data = parts.flatMap Part.data

/-- The module of a run joins the parts of the run. -/
theorem isJoin_of_run {spaces : Spaces} {types : TypeTable} {d : Draft} {fields : List Form}
    {parts : List Part} (h : Draft.Run spaces (.ofTypes types) fields parts d)
    (name : Option String) : (d.toModule name).IsJoin parts := by
  induction h with
  | nil => constructor <;> rfl
  | @snoc _ _ _ _ part _ _ _ _ ih =>
    constructor
    all_goals
      simp only [Draft.toModule, Draft.extend, List.flatMap_append, List.flatMap_singleton]
    · exact congrArg (· ++ _) ih.imports
    · exact congrArg (· ++ _) ih.funcs
    · exact congrArg (· ++ _) ih.tables
    · exact congrArg (· ++ _) ih.memories
    · exact congrArg (· ++ _) ih.globals
    · exact congrArg (· ++ _) ih.exports
    · have hstart := ih.start
      have hlast : List.findSome? Part.start [part] = part.start := by
        cases hpart : part.start <;> simp [hpart]
      rw [List.findSome?_append, ← hstart, hlast]
      rfl
    · exact congrArg (· ++ _) ih.elems
    · exact congrArg (· ++ _) ih.data

end Module

end WasmText
