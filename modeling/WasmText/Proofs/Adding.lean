import WasmText.Proofs.FieldTypes
import WasmText.Proofs.Locality

/-!
# When a field is added

A field that can be read into a draft is refused for one reason only, an export name that is taken:
it is added where it is read as some part and the names of all exports are then different
(`Field.add_of_readFrom`), and a draft that it is added to keeps the names of its exports different
(`Field.yieldsDistinct_add`).
-/

namespace WasmText

open Form

namespace Draft

/-- The names of some exports are different. -/
def Distinct (es : List Export) : Prop := (es.map Export.name).Nodup

theorem Distinct.of_append_left {es es' : List Export} (h : Distinct (es ++ es')) :
    Distinct es := by
  unfold Distinct at h
  rw [List.map_append] at h
  exact (List.nodup_append.mp h).1

variable {d : Draft}

/-- A reader that succeeds on the types of a draft changes those only. -/
theorem withTypes_of_run {α : Type} {r : Elab α} {a : α} {t : TypeTable}
    (h : r.run d.types = .ok (a, t)) : d.withTypes r = .ok (a, { d with types := t }) := by
  rw [withTypes, h]
  rfl

/-- An import is added as long as nothing of its kind is defined. -/
theorem addImport_of_defined {i : Import} {span : Span} (h : d.defined i.desc.kind = 0) :
    d.addImport i span = .ok { d with imports := d.imports ++ [i] } :=
  if_neg (not_not_intro h)

/-- An export is added when its name is not taken. -/
theorem addExport_of_distinct {e : Export} {span : Span} (h : Distinct (d.exports ++ [e])) :
    d.addExport e span = .ok { d with exports := d.exports ++ [e] } := by
  refine if_neg ?_
  unfold Distinct at h
  rw [List.map_append, List.nodup_append] at h
  rw [List.any_eq_true]
  rintro ⟨e', hmem, hname⟩
  exact h.2.2 e'.name (List.mem_map_of_mem hmem) e.name (by simp) (beq_iff_eq.mp hname)

end Draft

/-! ## Steps that succeed -/

namespace Form

/-- What is there can be needed. -/
theorem need_of_eq {what : Expectation} {span : Span} {f? : Option Form} {f : Form}
    (h : f? = some f) : need what span f? = .ok f := by
  rw [h]
  rfl

/-- No more items than there are may be left over. -/
theorem noMore_of_eq {items : List Form} (h : items = []) : noMore items = .ok () := by
  rw [h]
  rfl

/-- A list is taken for one. -/
theorem discard_expectList_of_isSome (what : Expectation) {f : Form}
    (h : f.items?.isSome = true) :
    (discard (f.expectList what) : Except Problem Unit) = .ok () := by
  obtain ⟨items, hitems⟩ := Option.isSome_iff_exists.mp h
  rw [expectList, hitems]
  rfl

theorem isSome_of_headKeyword? {f : Form} {word : Keyword} (h : f.headKeyword? = some word) :
    f.items?.isSome = true := by
  cases f with
  | atom t => cases h
  | list span items => rfl

end Form

/-! ## Openings and imports -/

namespace Field

open Draft (Distinct)

variable {d : Draft} {f : Form}

/-- An export inside a field is added when its name is not taken. -/
theorem inlineExport_of {kind : ExternKind} {index : Nat} {e : Export}
    (h : InlineExport kind index f e) (hnew : Distinct (d.exports ++ [e])) :
    inlineExport kind index d f = .ok { d with exports := d.exports ++ [e] } := by
  obtain ⟨name, kind', index'⟩ := e
  obtain ⟨⟨g, hargs, hname⟩, rfl, rfl⟩ := h
  unfold inlineExport
  rw [hargs]
  show (g.expectName >>= fun name => d.addExport ⟨name, kind', index'⟩ f.span) = _
  rw [hname]
  exact Draft.addExport_of_distinct hnew

/-- The exports inside a field are added when their names are different from each other and from
those before. -/
theorem inlineExports_of {kind : ExternKind} {index : Nat} {fs : List Form} {es : List Export}
    (h : List.Forall₂ (InlineExport kind index) fs es) (hnew : Distinct (d.exports ++ es)) :
    fs.foldlM (inlineExport kind index) d = .ok { d with exports := d.exports ++ es } := by
  induction h generalizing d with
  | nil =>
    rw [List.append_nil]
    rfl
  | @cons f e fs es hf hfs ih =>
    rw [← List.singleton_append, ← List.append_assoc] at hnew
    rw [List.foldlM_cons, Success.bind_of (inlineExport_of hf hnew.of_append_left), ih hnew]
    simp

/-- A definition is opened when its exports can be added. -/
theorem opening_of_opens {kind : ExternKind} {o : Opening} {es : List Export}
    (h : Opens kind d f o es) (hnew : Distinct (d.exports ++ es)) :
    opening kind d f = .ok (o, { d with exports := d.exports ++ es }) := by
  obtain ⟨name, index, imported, rest⟩ := o
  obtain ⟨hname, rfl, hexports, m, hinline, rfl⟩ := h
  rw [← name_fst] at hname
  obtain rfl := hname
  rw [afterExports_eq] at hinline ⊢
  have hfold : ((f.args.drop (name f.args).2).takeWhile (isHeadedBy .exportKw)).foldlM
      (inlineExport kind (d.nextIndex kind)) d = .ok { d with exports := d.exports ++ es } :=
    inlineExports_of hexports hnew
  unfold opening
  dsimp only
  rw [Success.bind_of hfold]
  exact Success.bind_of hinline

/-- An import's description is read as it says. -/
theorem importDesc_of_descAs {desc : ImportDesc} {t : TypeTable}
    (hkind : Spaces.kindOf? f.headKeyword? = some desc.kind)
    (h : DescAs f.span (afterName f) d.types desc t) :
    importDesc d f = .ok (desc, { d with types := t }) := by
  have hhead := Spaces.eq_of_kindOf? hkind
  unfold afterName at h
  unfold importDesc
  dsimp only
  rw [hhead]
  cases h with
  | func huse hrest =>
    have hrun := Draft.withTypes_of_run (TypeUse.read_of_readAs huse)
    dsimp only [ImportDesc.kind]
    rw [Success.bind_of hrun]
    dsimp only
    rw [Success.bind_of (noMore_of_eq hrest)]
    rfl
  | table htype hrest =>
    dsimp only [ImportDesc.kind]
    rw [Success.bind_of htype]
    dsimp only
    rw [Success.bind_of (noMore_of_eq hrest)]
    rfl
  | memory htype hrest =>
    dsimp only [ImportDesc.kind]
    rw [Success.bind_of htype]
    dsimp only
    rw [Success.bind_of (noMore_of_eq hrest)]
    rfl
  | global htype hrest =>
    dsimp only [ImportDesc.kind]
    rw [Success.bind_of htype, Success.bind_of (noMore_of_eq hrest)]
    rfl

/-! ## Fields -/

variable {spaces : Spaces} {part : Part} {types : TypeTable}

/-- What an inline import adds once it is read. -/
theorem addImport_of_inlineImport {es : List Export} {names : String × String} {desc : ImportDesc}
    {t : TypeTable} {span : Span} (horder : d.defined desc.kind = 0) :
    ({ d with exports := d.exports ++ es, types := t } : Draft).addImport
        ⟨names.1, names.2, desc⟩ span =
      .ok (d.extend { imports := [⟨names.1, names.2, desc⟩], exports := es } t) := by
  rw [Draft.addImport_of_defined horder]
  simp [Draft.extend]

/-- A function that is imported is added with its signature. -/
theorem addFunc_of_inlineImport {o : Opening} {es : List Export} {names : String × String}
    {use : TypeUse} {n : Nat} {t : TypeTable} (hopen : Opens .func d f o es)
    (himport : o.imported = some names) (huse : TypeUse.ReadAs true o.rest d.types use n t)
    (hrest : o.rest.drop n = []) (horder : d.defined .func = 0)
    (hnew : Distinct (d.exports ++ es)) :
    addFunc spaces d f = .ok (d.extend
      { imports := [⟨names.1, names.2, .func use.index⟩], exports := es } t) := by
  have hrun := Draft.withTypes_of_run (d := { d with exports := d.exports ++ es })
    (TypeUse.read_of_readAs huse)
  unfold addFunc
  rw [Success.bind_of (opening_of_opens hopen hnew)]
  dsimp only
  rw [Success.bind_of hrun, himport]
  dsimp only
  rw [Success.bind_of (noMore_of_eq hrest)]
  exact addImport_of_inlineImport horder

/-- A table that is imported is added with its type. -/
theorem addTable_of_inlineImport {o : Opening} {es : List Export} {names : String × String}
    {type : TableType} {n : Nat} (hopen : Opens .table d f o es)
    (himport : o.imported = some names) (htype : tableType f.span o.rest = .ok (type, n))
    (hrest : o.rest.drop n = []) (horder : d.defined .table = 0)
    (hnew : Distinct (d.exports ++ es)) :
    addTable spaces d f = .ok (d.extend
      { imports := [⟨names.1, names.2, .table type⟩], exports := es } d.types) := by
  unfold addTable
  rw [Success.bind_of (opening_of_opens hopen hnew)]
  dsimp only
  rw [himport]
  dsimp only
  rw [Success.bind_of htype, Success.bind_of (noMore_of_eq hrest)]
  exact addImport_of_inlineImport horder

/-- A memory that is imported is added with its limits. -/
theorem addMemory_of_inlineImport {o : Opening} {es : List Export} {names : String × String}
    {type : Limits} {n : Nat} (hopen : Opens .memory d f o es)
    (himport : o.imported = some names) (htype : limits f.span o.rest = .ok (type, n))
    (hrest : o.rest.drop n = []) (horder : d.defined .memory = 0)
    (hnew : Distinct (d.exports ++ es)) :
    addMemory d f = .ok (d.extend
      { imports := [⟨names.1, names.2, .memory type⟩], exports := es } d.types) := by
  unfold addMemory
  rw [Success.bind_of (opening_of_opens hopen hnew)]
  dsimp only
  rw [himport]
  dsimp only
  rw [Success.bind_of htype, Success.bind_of (noMore_of_eq hrest)]
  exact addImport_of_inlineImport horder

/-- A global that is imported is added with its type. -/
theorem addGlobal_of_inlineImport {o : Opening} {es : List Export} {names : String × String}
    {type : GlobalType} (hopen : Opens .global d f o es) (himport : o.imported = some names)
    (htype : globalType f.span o.rest.head? = .ok type) (hrest : o.rest.tail = [])
    (horder : d.defined .global = 0) (hnew : Distinct (d.exports ++ es)) :
    addGlobal spaces d f = .ok (d.extend
      { imports := [⟨names.1, names.2, .global type⟩], exports := es } d.types) := by
  unfold addGlobal
  rw [Success.bind_of (opening_of_opens hopen hnew)]
  dsimp only
  rw [Success.bind_of htype, himport]
  dsimp only
  rw [Success.bind_of (noMore_of_eq hrest)]
  exact addImport_of_inlineImport horder

/-- A function is added with its locals and its body. -/
theorem addFunc_of {o : Opening} {es : List Export} {use : TypeUse} {n : Nat} {params names : Names}
    {locals : List ValType} {body : List Instr} {t t' : TypeTable} (hopen : Opens .func d f o es)
    (himport : o.imported = none) (huse : TypeUse.ReadAs true o.rest d.types use n t)
    (hparams : parameters use = .ok params)
    (hlocals : ((o.rest.drop n).takeWhile (isHeadedBy .localKw)).foldlM addLocals (params, []) =
      .ok (names, locals))
    (hbody : (Body.whole ⟨spaces, names, .ofFunction use.sig.result, 0⟩
      ((o.rest.drop n).drop ((o.rest.drop n).takeWhile (isHeadedBy .localKw)).length)).run t =
        .ok (body, t'))
    (hnew : Distinct (d.exports ++ es)) :
    addFunc spaces d f = .ok (d.extend
      { funcs := [⟨o.name, use.index, use.sig, locals, body⟩], exports := es } t') := by
  have huse := Draft.withTypes_of_run (d := { d with exports := d.exports ++ es })
    (TypeUse.read_of_readAs huse)
  have hbody := Draft.withTypes_of_run
    (d := { d with exports := d.exports ++ es, types := t }) hbody
  unfold addFunc
  rw [Success.bind_of (opening_of_opens hopen hnew)]
  dsimp only
  rw [Success.bind_of huse, himport]
  dsimp only
  rw [Success.bind_of hparams, Success.bind_of hlocals]
  dsimp only
  rw [Success.bind_of hbody]
  show Except.ok _ = _
  simp [Draft.extend]

/-- A size is a number. -/
theorem number?_of_limits {span : Span} {items : List Form} {type : Limits} {n : Nat}
    (h : limits span items = .ok (type, n)) : ∃ t, items.head? = some (.atom t) ∧
      (Form.atom t).number? = some t := by
  obtain ⟨first, hfirst, h⟩ := Success.of_bind h
  split at h
  · cases h
  · next t hnumber =>
    have hatom : first = .atom t := by
      unfold number? at hnumber
      split at hnumber
      · split at hnumber
        · rw [Option.some.inj hnumber]
        · cases hnumber
      · cases hnumber
    rw [hatom] at hnumber hfirst
    exact ⟨t, eq_some_of_need hfirst, hnumber⟩

/-- A table is added with its type. -/
theorem addTable_of {o : Opening} {es : List Export} {type : TableType} {n : Nat}
    (hopen : Opens .table d f o es) (himport : o.imported = none)
    (htype : tableType f.span o.rest = .ok (type, n)) (hrest : o.rest.drop n = [])
    (hnew : Distinct (d.exports ++ es)) :
    addTable spaces d f = .ok (d.extend { tables := [type], exports := es } d.types) := by
  -- a size is no element type
  have hnone : (o.rest.head?.bind Form.valType?).isSome = false := by
    obtain ⟨⟨l, m⟩, hlimits, -⟩ := Success.of_bind htype
    obtain ⟨⟨kind, text, span⟩, hfirst, hnumber⟩ := number?_of_limits hlimits
    rw [hfirst]
    cases kind <;> first | rfl | cases hnumber
  unfold addTable
  rw [Success.bind_of (opening_of_opens hopen hnew)]
  dsimp only
  rw [himport]
  dsimp only
  rw [hnone, Success.bind_of htype, Success.bind_of (noMore_of_eq hrest)]
  show Except.ok _ = _
  simp [Draft.extend]

/-- A table that lists what it holds is added with a segment that fills it. -/
theorem addTable_of_elems {o : Opening} {es : List Export} {type list : Form} {elemType : ValType}
    {init : List Nat} (hopen : Opens .table d f o es) (himport : o.imported = none)
    (hrest : o.rest = [type, list]) (htype : Field.elemType f.span (some type) = .ok elemType)
    (hhead : list.headKeyword? = some .elemKw)
    (hinit : list.args.mapM (fun v => spaces.funcs.resolve .func list.span (some v)) = .ok init)
    (hnew : Distinct (d.exports ++ es)) :
    addTable spaces d f = .ok (d.extend
      { tables := [⟨⟨init.length, some init.length⟩, elemType⟩], exports := es
        elems := [⟨o.index, zeroOffset list.span, init⟩] } d.types) := by
  have hlist := discard_expectList_of_isSome .elemForm (isSome_of_headKeyword? hhead)
  have hsome : (o.rest.head?.bind Form.valType?).isSome = true := by
    rw [hrest]
    unfold Field.elemType at htype
    dsimp only at htype
    split at htype
    · next hanyfunc => exact Option.isSome_of_eq_some hanyfunc
    · cases htype
  unfold addTable
  rw [Success.bind_of (opening_of_opens hopen hnew)]
  dsimp only
  rw [himport]
  dsimp only
  have htype : Field.elemType f.span [type, list].head? = .ok elemType := htype
  have hneed : need .elemForm f.span [type, list].tail.head? = .ok list := rfl
  have hmore : noMore ([type, list].drop 2) = .ok () := rfl
  rw [if_pos hsome, hrest, Success.bind_of htype, Success.bind_of hneed, Success.bind_of hlist,
    if_neg (not_not_intro hhead)]
  rw [Success.bind_of hmore, Success.bind_of hinit]
  show Except.ok _ = _
  simp [Draft.extend]

/-- A memory is added with its limits. -/
theorem addMemory_of {o : Opening} {es : List Export} {type : Limits} {n : Nat}
    (hopen : Opens .memory d f o es) (himport : o.imported = none)
    (htype : limits f.span o.rest = .ok (type, n)) (hrest : o.rest.drop n = [])
    (hnew : Distinct (d.exports ++ es)) :
    addMemory d f = .ok (d.extend { memories := [type], exports := es } d.types) := by
  -- a size is no list of data
  have hnone : o.rest.head?.filter (Form.isHeadedBy .dataKw) = none := by
    obtain ⟨t, hfirst, -⟩ := number?_of_limits htype
    rw [hfirst]
    rfl
  unfold addMemory
  rw [Success.bind_of (opening_of_opens hopen hnew)]
  dsimp only
  rw [himport, hnone]
  dsimp only
  rw [Success.bind_of htype, Success.bind_of (noMore_of_eq hrest)]
  show Except.ok _ = _
  simp [Draft.extend]

/-- A memory that lists what it holds is added with a segment that fills it. -/
theorem addMemory_of_data {o : Opening} {es : List Export} {list : Form} {init : List UInt8}
    (hopen : Opens .memory d f o es) (himport : o.imported = none) (hrest : o.rest = [list])
    (hhead : list.headKeyword? = some .dataKw) (hinit : expectAllBytes list.args = .ok init)
    (hnew : Distinct (d.exports ++ es)) :
    addMemory d f = .ok (d.extend
      { memories := [⟨(init.length + pageSize - 1) / pageSize,
          some ((init.length + pageSize - 1) / pageSize)⟩]
        exports := es, data := [⟨o.index, zeroOffset list.span, init⟩] } d.types) := by
  have hdata : o.rest.head?.filter (Form.isHeadedBy .dataKw) = some list := by
    rw [hrest]
    exact Option.filter_eq_some_iff.mpr ⟨rfl, isHeadedBy_iff.mpr hhead⟩
  unfold addMemory
  rw [Success.bind_of (opening_of_opens hopen hnew)]
  dsimp only
  rw [himport, hdata, hrest]
  dsimp only
  rw [Success.bind_of (noMore_of_eq (List.tail_cons ..)), Success.bind_of hinit]
  show Except.ok _ = _
  simp [Draft.extend]

/-- A global is added with its body. -/
theorem addGlobal_of {o : Opening} {es : List Export} {type : GlobalType} {init : List Instr}
    {t : TypeTable} (hopen : Opens .global d f o es) (himport : o.imported = none)
    (htype : globalType f.span o.rest.head? = .ok type)
    (hinit : (Body.whole (constScope spaces) o.rest.tail).run d.types = .ok (init, t))
    (hnew : Distinct (d.exports ++ es)) :
    addGlobal spaces d f =
      .ok (d.extend { globals := [⟨o.name, type, init⟩], exports := es } t) := by
  have hinit := Draft.withTypes_of_run (d := { d with exports := d.exports ++ es }) hinit
  unfold addGlobal
  rw [Success.bind_of (opening_of_opens hopen hnew)]
  dsimp only
  rw [Success.bind_of htype, himport]
  dsimp only
  rw [Success.bind_of hinit]
  show Except.ok _ = _
  simp [Draft.extend]

/-- An export is added with the entity that it refers to. -/
theorem addExport_of {name desc ref : Form} {e : Export} (hargs : f.args = [name, desc])
    (hname : name.expectName = .ok e.name)
    (hkind : Spaces.kindOf? desc.headKeyword? = some e.kind) (hdesc : desc.args = [ref])
    (href : (spaces.ofKind e.kind).resolve (.ofExtern e.kind) desc.span (some ref) = .ok e.index)
    (hnew : Distinct (d.exports ++ [e])) :
    addExport spaces d f = .ok (d.extend { exports := [e] } d.types) := by
  have hlist := discard_expectList_of_isSome .exportDescriptor
    (isSome_of_headKeyword? (Spaces.eq_of_kindOf? hkind))
  unfold addExport
  rw [hargs]
  have hfirst : need .exportName f.span [name, desc][0]? = .ok name := rfl
  have hsecond : need .exportDescriptor f.span [name, desc][1]? = .ok desc := rfl
  have hmore : noMore ([name, desc].drop 2) = .ok () := rfl
  have href : (spaces.ofKind e.kind).resolve (.ofExtern e.kind) desc.span desc.args.head? =
      .ok e.index := by
    rw [hdesc]
    exact href
  have hmore' : noMore desc.args.tail = .ok () := by
    rw [hdesc]
    rfl
  rw [Success.bind_of hfirst, Success.bind_of hname, Success.bind_of hsecond,
    Success.bind_of hlist, Success.bind_of hmore, hkind]
  dsimp only
  rw [Success.bind_of href, Success.bind_of hmore', Draft.addExport_of_distinct hnew]
  simp [Draft.extend]

/-- A start function is added when there is none before. -/
theorem addStart_of {ref : Form} {index : Nat} (hfirst : d.start = none) (hargs : f.args = [ref])
    (href : spaces.funcs.resolve .func f.span (some ref) = .ok index) :
    addStart spaces d f = .ok (d.extend { start := some index } d.types) := by
  unfold addStart
  rw [hfirst, hargs]
  show (spaces.funcs.resolve .func f.span (some ref) >>= fun index =>
    pure { d with start := some index }) = _
  rw [href]
  show Except.ok _ = _
  simp [Draft.extend, hfirst]

/-- The offset of a segment is read in the scope of an initialiser. -/
theorem offset_of {item : Form} {n : Nat} {offset : List Instr} {t : TypeTable} {span : Span}
    (hitem : f.args[n]? = some item) (hlist : item.items?.isSome = true)
    (hoffset : (Body.whole (constScope spaces)
      (if item.isHeadedBy .offsetKw then item.args else [item])).run d.types = .ok (offset, t)) :
    Field.offset spaces d span f.args[n]? = .ok (offset, { d with types := t }) := by
  unfold Field.offset
  rw [Success.bind_of (need_of_eq hitem),
    Success.bind_of (discard_expectList_of_isSome .offset hlist)]
  exact Draft.withTypes_of_run hoffset

/-- An element segment is added with its table, its offset and its functions. -/
theorem addElem_of {table n : Nat} {offset : List Instr} {item : Form} {init : List Nat}
    {t : TypeTable} (htarget : target .table spaces.tables f.args = .ok (table, n))
    (hitem : f.args[n]? = some item) (hlist : item.items?.isSome = true)
    (hoffset : (Body.whole (constScope spaces)
      (if item.isHeadedBy .offsetKw then item.args else [item])).run d.types = .ok (offset, t))
    (hinit : (f.args.drop (n + 1)).mapM (fun v => spaces.funcs.resolve .func f.span (some v)) =
      .ok init) :
    addElem spaces d f = .ok (d.extend { elems := [⟨table, offset, init⟩] } t) := by
  unfold addElem
  rw [Success.bind_of htarget]
  dsimp only
  rw [Success.bind_of (offset_of hitem hlist hoffset)]
  dsimp only
  rw [Success.bind_of hinit]
  show Except.ok _ = _
  simp [Draft.extend]

/-- A data segment is added with its memory, its offset and its bytes. -/
theorem addData_of {memory n : Nat} {offset : List Instr} {item : Form} {init : List UInt8}
    {t : TypeTable} (htarget : target .memory spaces.memories f.args = .ok (memory, n))
    (hitem : f.args[n]? = some item) (hlist : item.items?.isSome = true)
    (hoffset : (Body.whole (constScope spaces)
      (if item.isHeadedBy .offsetKw then item.args else [item])).run d.types = .ok (offset, t))
    (hinit : expectAllBytes (f.args.drop (n + 1)) = .ok init) :
    addData spaces d f = .ok (d.extend { data := [⟨memory, offset, init⟩] } t) := by
  unfold addData
  rw [Success.bind_of htarget]
  dsimp only
  rw [Success.bind_of (offset_of hitem hlist hoffset)]
  dsimp only
  rw [Success.bind_of hinit]
  show Except.ok _ = _
  simp [Draft.extend]

/-- What a field that is read adds, if the names of its exports are new. -/
theorem add_of_readFrom (h : part.ReadFrom spaces d f types)
    (hnew : Distinct (d.exports ++ part.exports)) :
    add spaces d f = .ok (d.extend part types) := by
  have hlist {word : Keyword} (hhead : f.headKeyword? = some word) :=
    discard_expectList_of_isSome .moduleField (isSome_of_headKeyword? hhead)
  -- the field is a list, and its head leaves one reader, of which each case has all the steps
  unfold add
  cases h with
  | type hhead =>
    rw [Success.bind_of (hlist hhead), hhead]
    show Except.ok d = _
    simp [Draft.extend]
  | @«import» item names desc t hhead hitem hnames hmore hkind hdesc horder =>
    rw [Success.bind_of (hlist hhead), hhead]
    dsimp only
    unfold addImport
    have hdesc := importDesc_of_descAs hkind hdesc
    have hitems := discard_expectList_of_isSome .importDescriptor
      (isSome_of_headKeyword? (Spaces.eq_of_kindOf? hkind))
    rw [Success.bind_of hnames]
    dsimp only
    rw [Success.bind_of (need_of_eq hitem), Success.bind_of hitems,
      Success.bind_of (noMore_of_eq hmore), Success.bind_of hdesc]
    dsimp only
    rw [Draft.addImport_of_defined horder]
    simp [Draft.extend]
  | @inlineImport o es names desc t hkind hopen himport hdesc horder =>
    have hhead := Spaces.eq_of_kindOf? hkind
    rw [Success.bind_of (hlist hhead), hhead]
    cases hdesc with
    | func huse hrest => exact addFunc_of_inlineImport hopen himport huse hrest horder hnew
    | table htype hrest => exact addTable_of_inlineImport hopen himport htype hrest horder hnew
    | memory htype hrest => exact addMemory_of_inlineImport hopen himport htype hrest horder hnew
    | global htype hrest => exact addGlobal_of_inlineImport hopen himport htype hrest horder hnew
  | func hhead hopen himport huse hdecls hrest hparams hlocals hbody =>
    subst hdecls hrest
    rw [Success.bind_of (hlist hhead), hhead]
    exact addFunc_of hopen himport huse hparams hlocals hbody hnew
  | table hhead hopen himport htype hrest =>
    rw [Success.bind_of (hlist hhead), hhead]
    exact addTable_of hopen himport htype hrest hnew
  | tableOfElems hhead hopen himport hrest htype helem hinit =>
    rw [Success.bind_of (hlist hhead), hhead]
    exact addTable_of_elems hopen himport hrest htype helem hinit hnew
  | memory hhead hopen himport htype hrest =>
    rw [Success.bind_of (hlist hhead), hhead]
    exact addMemory_of hopen himport htype hrest hnew
  | memoryOfData hhead hopen himport hrest hdata hinit hpages =>
    subst hpages
    rw [Success.bind_of (hlist hhead), hhead]
    exact addMemory_of_data hopen himport hrest hdata hinit hnew
  | global hhead hopen himport htype hinit =>
    rw [Success.bind_of (hlist hhead), hhead]
    exact addGlobal_of hopen himport htype hinit hnew
  | «export» hhead hargs hname hkind hdesc href =>
    rw [Success.bind_of (hlist hhead), hhead]
    exact addExport_of hargs hname hkind hdesc href hnew
  | start hhead hfirst hargs href =>
    rw [Success.bind_of (hlist hhead), hhead]
    exact addStart_of hfirst hargs href
  | elem hhead htarget hitem hoffsetList hoffset hinit =>
    rw [Success.bind_of (hlist hhead), hhead]
    exact addElem_of htarget hitem hoffsetList hoffset hinit
  | data hhead htarget hitem hoffsetList hoffset hinit =>
    rw [Success.bind_of (hlist hhead), hhead]
    exact addData_of htarget hitem hoffsetList hoffset hinit

end Field

/-! ## Names of exports stay different -/

/-- The names of the exports are different where reading succeeds. -/
def YieldsDistinct (x : Except Problem Draft) : Prop :=
  ∀ d, x = .ok d → Draft.Distinct d.exports

namespace YieldsDistinct

variable {α : Type} {d : Draft}

/-- A field that is refused leaves nothing to compare. -/
theorem error (p : Problem) : YieldsDistinct (.error p) := by
  intro d h
  cases h

theorem pure (h : Draft.Distinct d.exports) : YieldsDistinct (Pure.pure d) := by
  intro d' h'
  rwa [← Success.of_pure h']

/-- A step that ends in different names does so after any other step. -/
theorem bind {x : Except Problem α} {g : α → Except Problem Draft}
    (h : ∀ a, x = .ok a → YieldsDistinct (g a)) : YieldsDistinct (x >>= g) := by
  intro d hd
  obtain ⟨a, ha, hd⟩ := Success.of_bind hd
  exact h a ha d hd

theorem addImport (h : Draft.Distinct d.exports) (i : Import) (span : Span) :
    YieldsDistinct (d.addImport i span) := by
  intro d' hd'
  obtain ⟨-, rfl⟩ := Draft.of_addImport hd'
  exact h

theorem addExport (h : Draft.Distinct d.exports) (e : Export) (span : Span) :
    YieldsDistinct (d.addExport e span) := by
  intro d' hd'
  unfold Draft.addExport at hd'
  split at hd'
  · cases hd'
  · next hnew =>
    obtain rfl := Except.ok.inj hd'
    unfold Draft.Distinct at h ⊢
    rw [List.map_append, List.nodup_append]
    refine ⟨h, by simp, ?_⟩
    rintro _ hmem _ hlast rfl
    obtain ⟨e', hmem', hname⟩ := List.mem_map.mp hmem
    obtain rfl := List.mem_singleton.mp hlast
    exact hnew (List.any_eq_true.mpr ⟨e', hmem', beq_iff_eq.mpr hname⟩)

end YieldsDistinct

namespace Draft

variable {d d' : Draft}

/-- A reader of types leaves the exports alone. -/
theorem Distinct.of_withTypes {α : Type} {r : Elab α} {a : α} (h : Distinct d.exports)
    (hrun : d.withTypes r = .ok (a, d')) : Distinct d'.exports := by
  obtain ⟨t, -, rfl⟩ := Draft.of_withTypes hrun
  exact h

end Draft

namespace Field

variable {d d' : Draft} {f : Form} {spaces : Spaces}

open Draft (Distinct)

/-- Opening a definition leaves the names of the exports different. -/
theorem distinct_of_opening {kind : ExternKind} {o : Opening} (hd : Distinct d.exports)
    (h : opening kind d f = .ok (o, d')) : Distinct d'.exports := by
  have hfold {fs : List Form} {index : Nat} {d d' : Draft} (hd : Distinct d.exports)
      (h : fs.foldlM (inlineExport kind index) d = .ok d') : Distinct d'.exports := by
    induction fs generalizing d with
    | nil =>
      obtain rfl := Success.of_pure h
      exact hd
    | cons f fs ih =>
      rw [List.foldlM_cons] at h
      obtain ⟨d₁, hf, h⟩ := Success.of_bind h
      obtain ⟨_, -, hf⟩ := Success.of_bind hf
      obtain ⟨_, -, hf⟩ := Success.of_bind hf
      obtain ⟨_, -, hf⟩ := Success.of_bind hf
      exact ih (YieldsDistinct.addExport hd _ _ d₁ hf) h
  unfold opening at h
  obtain ⟨d₁, hexports, h⟩ := Success.of_bind h
  obtain ⟨_, -, h⟩ := Success.of_bind h
  obtain ⟨-, rfl⟩ := Prod.mk.inj (Success.of_pure h)
  exact hfold hd hexports

theorem yieldsDistinct_addFunc (hd : Distinct d.exports) :
    YieldsDistinct (addFunc spaces d f) := by
  refine .bind fun ⟨o, d₁⟩ hopen => ?_
  have h₁ := distinct_of_opening hd hopen
  refine .bind fun ⟨⟨use, n⟩, d₂⟩ huse => ?_
  have h₂ : Distinct d₂.exports := h₁.of_withTypes huse
  dsimp only
  split
  · exact .bind fun _ _ => .addImport h₂ _ _
  · refine .bind fun params _ => .bind fun ⟨names, locals⟩ _ => .bind fun ⟨body, d₃⟩ hbody => ?_
    have h₃ : Distinct d₃.exports := h₂.of_withTypes hbody
    exact .pure h₃

theorem yieldsDistinct_addTable (hd : Distinct d.exports) :
    YieldsDistinct (addTable spaces d f) := by
  refine .bind fun ⟨o, d₁⟩ hopen => ?_
  have h₁ : Distinct d₁.exports := distinct_of_opening hd hopen
  dsimp only
  split
  · exact .bind fun _ _ => .bind fun _ _ => .addImport h₁ _ _
  · split
    · refine .bind fun _ _ => .bind fun list _ => .bind fun _ _ => ?_
      split
      · exact .error _
      · exact .bind fun _ _ => .bind fun _ _ => .pure h₁
    · exact .bind fun _ _ => .bind fun _ _ => .pure h₁

theorem yieldsDistinct_addMemory (hd : Distinct d.exports) : YieldsDistinct (addMemory d f) := by
  refine .bind fun ⟨o, d₁⟩ hopen => ?_
  have h₁ : Distinct d₁.exports := distinct_of_opening hd hopen
  dsimp only
  split
  · exact .bind fun _ _ => .bind fun _ _ => .addImport h₁ _ _
  · split
    · exact .bind fun _ _ => .bind fun _ _ => .pure h₁
    · exact .bind fun _ _ => .bind fun _ _ => .pure h₁

theorem yieldsDistinct_addGlobal (hd : Distinct d.exports) :
    YieldsDistinct (addGlobal spaces d f) := by
  refine .bind fun ⟨o, d₁⟩ hopen => ?_
  have h₁ : Distinct d₁.exports := distinct_of_opening hd hopen
  refine .bind fun type _ => ?_
  dsimp only
  split
  · exact .bind fun _ _ => .addImport h₁ _ _
  · refine .bind fun ⟨init, d₂⟩ hinit => ?_
    have h₂ : Distinct d₂.exports := h₁.of_withTypes hinit
    exact .pure h₂

theorem yieldsDistinct_addImport (hd : Distinct d.exports) :
    YieldsDistinct (Field.addImport d f) := by
  refine .bind fun _ _ => .bind fun item _ => .bind fun _ _ => .bind fun _ _ => ?_
  refine .bind fun ⟨desc, d₁⟩ hdesc => ?_
  obtain ⟨t, -, -, rfl⟩ := descAs_of_importDesc hdesc
  exact .addImport (by exact hd) _ _

theorem yieldsDistinct_addExport (hd : Distinct d.exports) :
    YieldsDistinct (Field.addExport spaces d f) := by
  refine .bind fun _ _ => .bind fun _ _ => .bind fun desc _ => .bind fun _ _ => .bind fun _ _ => ?_
  split
  · exact .error _
  · exact .bind fun _ _ => .bind fun _ _ => .addExport hd _ _

theorem yieldsDistinct_addStart (hd : Distinct d.exports) :
    YieldsDistinct (addStart spaces d f) := by
  unfold addStart
  dsimp only
  split
  · exact .error _
  · exact .bind fun _ _ => .bind fun _ _ => .pure hd

theorem yieldsDistinct_addElem (hd : Distinct d.exports) :
    YieldsDistinct (addElem spaces d f) := by
  refine .bind fun _ _ => .bind fun ⟨offset, d₁⟩ hoffset => ?_
  obtain ⟨item, t, -, -, rfl, -⟩ := Part.of_offset hoffset
  exact .bind fun _ _ => .pure hd

theorem yieldsDistinct_addData (hd : Distinct d.exports) :
    YieldsDistinct (addData spaces d f) := by
  refine .bind fun _ _ => .bind fun ⟨offset, d₁⟩ hoffset => ?_
  obtain ⟨item, t, -, -, rfl, -⟩ := Part.of_offset hoffset
  exact .bind fun _ _ => .pure hd

/-- A field leaves the names of the exports different. -/
theorem yieldsDistinct_add (spaces : Spaces) (hd : Distinct d.exports) (f : Form) :
    YieldsDistinct (add spaces d f) := by
  refine .bind fun _ _ => ?_
  split
  · exact .pure hd
  · exact yieldsDistinct_addImport hd
  · exact yieldsDistinct_addFunc hd
  · exact yieldsDistinct_addTable hd
  · exact yieldsDistinct_addMemory hd
  · exact yieldsDistinct_addGlobal hd
  · exact yieldsDistinct_addExport hd
  · exact yieldsDistinct_addStart hd
  · exact yieldsDistinct_addElem hd
  · exact yieldsDistinct_addData hd
  · exact .error _

end Field

end WasmText
