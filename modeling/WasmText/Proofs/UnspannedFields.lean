import WasmText.Module.OfForms
import WasmText.Proofs.UnspannedBodies

/-!
# Fields and spans

The readers of fields do not look at spans, and nor does the reader of a module: fields without
their spans make the module without its spans, or meet the same problem
(`Module.ofFields_unspanned`).
-/

namespace WasmText

open Form

/-! ## Modules without spans -/

def Func.unspanned (f : Func) : Func := { f with body := f.body.map Instr.unspanned }

def Global.unspanned (g : Global) : Global := { g with init := g.init.map Instr.unspanned }

def Elem.unspanned (e : Elem) : Elem := { e with offset := e.offset.map Instr.unspanned }

def Data.unspanned (d : Data) : Data := { d with offset := d.offset.map Instr.unspanned }

/-- The module with no span told from another. -/
def Module.unspanned (m : Module) : Module :=
  { m with
    funcs := m.funcs.map Func.unspanned
    globals := m.globals.map Global.unspanned
    elems := m.elems.map Elem.unspanned
    data := m.data.map Data.unspanned }

namespace Draft

/-- The draft with no span told from another. -/
def unspanned (d : Draft) : Draft :=
  { d with
    funcs := d.funcs.map Func.unspanned
    globals := d.globals.map Global.unspanned
    elems := d.elems.map Elem.unspanned
    data := d.data.map Data.unspanned }

variable (d : Draft)

theorem defined_unspanned (kind : ExternKind) : d.unspanned.defined kind = d.defined kind := by
  cases kind with
  | func => exact List.length_map _
  | global => exact List.length_map _
  | table | memory => rfl

/-- An entity that is added next has the same index. -/
theorem nextIndex_unspanned (kind : ExternKind) : d.unspanned.nextIndex kind = d.nextIndex kind :=
  congrArg (d.imported kind + ·) (d.defined_unspanned kind)

theorem addImport_unspanned (i : Import) (span : Span) :
    d.unspanned.addImport i .origin = unspan unspanned (d.addImport i span) := by
  unfold addImport
  rw [defined_unspanned]
  split <;> rfl

theorem addExport_unspanned (e : Export) (span : Span) :
    d.unspanned.addExport e .origin = unspan unspanned (d.addExport e span) := by
  unfold addExport
  show (if d.exports.any _ = true then _ else _) = _
  split <;> rfl

/-- A reader of types that agrees without spans agrees in a draft. -/
theorem withTypes_unspanned {α : Type} {u : α → α} {r r' : Elab α} (hr : r' = Elab.unspan u r) :
    d.unspanned.withTypes r' = unspan (Prod.map u unspanned) (d.withTypes r) := by
  rw [hr]
  exact unspan_bind (x := r d.types) rfl fun (a, t) => rfl

end Draft

namespace Field

variable (d : Draft) (f : Form) (items : List Form) (span : Span)

/-! ## Parts of fields -/

theorem name_unspanned : name (items.map unspanned) = name items := by
  unfold name
  rw [bind_id?_unspanned]

theorem importNames_unspanned : importNames f.unspanned = unspan id (importNames f) := by
  unfold importNames
  rw [args_unspanned, span_unspanned, List.getElem?_map, List.getElem?_map]
  refine unspan_bind (need_unspanned .moduleName f.span f.args[0]?) fun g => ?_
  refine unspan_bind (expectName_unspanned g) fun moduleName => ?_
  refine unspan_bind (need_unspanned .importName f.span f.args[1]?) fun h => ?_
  exact unspan_bind (expectName_unspanned h) fun field => rfl

theorem inlineImport_unspanned :
    inlineImport (items.map unspanned) = unspan id (inlineImport items) := by
  unfold inlineImport
  rw [head?_filter_isHeadedBy_unspanned]
  cases items.head?.filter (isHeadedBy .importKw) with
  | none => rfl
  | some f =>
    refine unspan_bind (importNames_unspanned f) fun names => ?_
    rw [args_unspanned, ← List.map_drop]
    exact unspan_bind (noMore_unspanned _) fun _ => rfl

/-- An export inside a field has the same name and entity. -/
theorem inlineExport_unspanned (kind : ExternKind) (index : Nat) :
    inlineExport kind index d.unspanned f.unspanned =
      unspan Draft.unspanned (inlineExport kind index d f) := by
  unfold inlineExport
  rw [args_unspanned, span_unspanned, List.head?_map, ← List.map_tail]
  refine unspan_bind (need_unspanned .exportName f.span f.args.head?) fun g => ?_
  refine unspan_bind (expectName_unspanned g) fun name => ?_
  refine unspan_bind (noMore_unspanned f.args.tail) fun _ => ?_
  exact Draft.addExport_unspanned d ⟨name, kind, index⟩ f.span

/-- The opening with no span told from another. -/
def Opening.unspanned (o : Opening) : Opening := { o with rest := o.rest.map Form.unspanned }

/-- A definition is opened in the same way, and what follows its exports is the same. -/
theorem opening_unspanned (kind : ExternKind) :
    opening kind d.unspanned f.unspanned =
      unspan (Prod.map Opening.unspanned Draft.unspanned) (opening kind d f) := by
  unfold opening
  rw [args_unspanned, name_unspanned, Draft.nextIndex_unspanned]
  generalize name f.args = named
  obtain ⟨name, n⟩ := named
  dsimp only
  rw [← List.map_drop, takeWhile_isHeadedBy_unspanned, List.length_map, ← List.map_drop]
  refine unspan_bind (unspan_foldlM (fun d f => inlineExport_unspanned d f kind _) _ d)
    fun d => ?_
  refine unspan_bind (inlineImport_unspanned _) fun (imported, m) => ?_
  dsimp only [id]
  rw [← List.map_drop]
  rfl

/-- Limits are the numbers that are written, wherever they stand. -/
theorem limits_unspanned :
    limits .origin (items.map unspanned) = unspan id (limits span items) := by
  unfold limits
  rw [List.head?_map, ← List.map_tail, List.head?_map, Option.bind_map]
  refine unspan_bind (need_unspanned .natural span items.head?) fun first => ?_
  rw [number?_unspanned, unexpected_unspanned]
  cases first.number? with
  | none => rfl
  | some t =>
    refine unspan_bind (natural_unspanned t.text t.span) fun min => ?_
    have hnumber : items.tail.head?.bind (number? ∘ unspanned) =
        (items.tail.head?.bind number?).map Token.unspanned := by
      rw [Option.map_bind]
      exact congrArg _ (funext number?_unspanned)
    rw [hnumber]
    cases items.tail.head?.bind number? with
    | none => rfl
    | some t => exact unspan_bind (natural_unspanned t.text t.span) fun max => rfl

theorem elemType_unspanned (item : Option Form) :
    elemType .origin (item.map unspanned) = unspan id (elemType span item) := by
  cases item with
  | none => rfl
  | some f =>
    unfold elemType
    rw [Option.map_some]
    dsimp only
    rw [valType?_unspanned, unexpected_unspanned]
    split <;> rfl

theorem tableType_unspanned :
    tableType .origin (items.map unspanned) = unspan id (tableType span items) := by
  unfold tableType
  refine unspan_bind (limits_unspanned items span) fun (limits, n) => ?_
  dsimp only [id]
  rw [← List.map_drop, List.head?_map]
  exact unspan_bind (elemType_unspanned span _) fun type => rfl

theorem globalType_unspanned (item : Option Form) :
    globalType .origin (item.map unspanned) = unspan id (globalType span item) := by
  unfold globalType
  refine unspan_bind (need_unspanned .globalType span item) fun f => ?_
  cases f with
  | atom t => exact unspan_bind (valueType_unspanned (.atom t)) fun type => rfl
  | list place inside =>
    rw [unspanned_list]
    dsimp only
    rw [← unspanned_list place, headKeyword?_unspanned, unexpected_unspanned, args_unspanned,
      List.head?_map, ← List.map_tail]
    split
    · rfl
    · refine unspan_bind (need_unspanned .valueType place _) fun g => ?_
      refine unspan_bind (valueType_unspanned g) fun type => ?_
      exact unspan_bind (noMore_unspanned _) fun _ => rfl

/-! ## Imports -/

/-- An import has the same type, and adds the same to the table. -/
theorem importDesc_unspanned :
    importDesc d.unspanned f.unspanned =
      unspan (Prod.map id Draft.unspanned) (importDesc d f) := by
  unfold importDesc
  rw [args_unspanned, name_unspanned, headKeyword?_unspanned, unexpected_unspanned, span_unspanned,
    ← List.map_drop]
  generalize f.args.drop _ = items
  dsimp only
  split
  · refine unspan_bind (d.withTypes_unspanned (TypeUse.read_unspanned true items))
      fun ((use, n), d) => ?_
    dsimp only [Prod.map, id]
    rw [← List.map_drop]
    exact unspan_bind (noMore_unspanned _) fun _ => rfl
  · refine unspan_bind (tableType_unspanned items f.span) fun (type, n) => ?_
    dsimp only [id]
    rw [← List.map_drop]
    exact unspan_bind (noMore_unspanned _) fun _ => rfl
  · refine unspan_bind (limits_unspanned items f.span) fun (type, n) => ?_
    dsimp only [id]
    rw [← List.map_drop]
    exact unspan_bind (noMore_unspanned _) fun _ => rfl
  · rw [List.head?_map, ← List.map_tail]
    refine unspan_bind (globalType_unspanned f.span items.head?) fun type => ?_
    exact unspan_bind (noMore_unspanned _) fun _ => rfl
  · rfl

theorem addImport_unspanned :
    addImport d.unspanned f.unspanned = unspan Draft.unspanned (addImport d f) := by
  unfold addImport
  rw [args_unspanned, span_unspanned, List.getElem?_map, ← List.map_drop]
  refine unspan_bind (importNames_unspanned f) fun (moduleName, field) => ?_
  refine unspan_bind (need_unspanned .importDescriptor f.span _) fun item => ?_
  refine unspan_bind (unspan_discard (expectList_unspanned item _)) fun _ => ?_
  refine unspan_bind (noMore_unspanned _) fun _ => ?_
  refine unspan_bind (importDesc_unspanned d item) fun (desc, d) => ?_
  exact d.addImport_unspanned ⟨moduleName, field, desc⟩ f.span

/-! ## Functions -/

/-- Locals have the same types and names. -/
theorem addLocals_unspanned (locals : Names × List ValType) :
    addLocals locals f.unspanned = unspan id (addLocals locals f) := by
  unfold addLocals
  rw [args_unspanned, span_unspanned, bind_id?_unspanned, ← List.map_tail, List.head?_map,
    ← List.map_drop]
  cases f.args.head?.bind Form.id? with
  | some name =>
    refine unspan_bind (need_unspanned .valueType f.span _) fun g => ?_
    refine unspan_bind (valueType_unspanned g) fun type => ?_
    refine unspan_bind (noMore_unspanned _) fun _ => ?_
    exact unspan_bind (Names.declare_unspanned _ _ f.span _) fun names => rfl
  | none =>
    refine unspan_bind (u := id) ?_ fun types => rfl
    rw [← List.map_id_fun]
    exact unspan_mapM valueType_unspanned f.args

/-- The names of parameters are taken or not wherever they stand. -/
theorem parameters_unspanned (use : TypeUse) :
    parameters use.unspanned = unspan id (parameters use) :=
  unspan_foldlM (u := id) (w := Param.unspanned)
    (fun names p => Names.declare_unspanned .localVar names p.span p.name) use.params []

/-- A function has the same type, locals and body. -/
theorem addFunc_unspanned (spaces : Spaces) :
    addFunc spaces d.unspanned f.unspanned = unspan Draft.unspanned (addFunc spaces d f) := by
  unfold addFunc
  refine unspan_bind (opening_unspanned d f .func) fun (o, d) => ?_
  refine unspan_bind (d.withTypes_unspanned (TypeUse.read_unspanned true o.rest))
    fun ((use, n), d) => ?_
  dsimp only [Prod.map, id, Opening.unspanned]
  rw [span_unspanned, ← List.map_drop, takeWhile_isHeadedBy_unspanned, List.length_map,
    ← List.map_drop]
  cases o.imported with
  | some names =>
    refine unspan_bind (noMore_unspanned _) fun _ => ?_
    exact d.addImport_unspanned ⟨names.1, names.2, .func use.index⟩ f.span
  | none =>
    refine unspan_bind (parameters_unspanned use) fun params => ?_
    refine unspan_bind (unspan_foldlM (fun locals f => addLocals_unspanned f locals) _ _)
      fun (names, locals) => ?_
    refine unspan_bind (d.withTypes_unspanned (Body.whole_unspanned _ _)) fun (body, d) => ?_
    show _ = Except.ok (Draft.unspanned _)
    simp only [Draft.unspanned, List.map_append]
    rfl

/-! ## Tables, memories and globals -/

theorem mapM_resolve_unspanned (names : Names) :
    (items.map unspanned).mapM (fun v => names.resolve .func .origin (some v)) =
      unspan id (items.mapM fun v => names.resolve .func span (some v)) := by
  rw [← List.map_id_fun]
  exact unspan_mapM (fun v => Names.resolve_unspanned .func names span (some v)) items

/-- A table has the same type, and is filled with the same functions. -/
theorem addTable_unspanned (spaces : Spaces) :
    addTable spaces d.unspanned f.unspanned = unspan Draft.unspanned (addTable spaces d f) := by
  unfold addTable
  refine unspan_bind (opening_unspanned d f .table) fun (o, d) => ?_
  dsimp only [Prod.map, id, Opening.unspanned]
  rw [span_unspanned]
  cases o.imported with
  | some names =>
    refine unspan_bind (tableType_unspanned o.rest f.span) fun (type, n) => ?_
    dsimp only [id]
    rw [← List.map_drop]
    refine unspan_bind (noMore_unspanned _) fun _ => ?_
    exact d.addImport_unspanned ⟨names.1, names.2, .table type⟩ f.span
  | none =>
    have htype : (o.rest.map unspanned).head?.bind Form.valType? =
        o.rest.head?.bind Form.valType? := by
      rw [List.head?_map, Option.bind_map]
      exact congrArg _ (funext valType?_unspanned)
    dsimp only
    rw [htype]
    split
    · -- an element type, and the elements that size the table
      rw [← List.map_tail, List.head?_map, List.head?_map, ← List.map_drop]
      refine unspan_bind (elemType_unspanned f.span _) fun type => ?_
      refine unspan_bind (need_unspanned .elemForm f.span _) fun list => ?_
      refine unspan_bind (unspan_discard (expectList_unspanned list _)) fun _ => ?_
      rw [headKeyword?_unspanned, unexpected_unspanned, args_unspanned, span_unspanned]
      split
      · rfl
      · refine unspan_bind (noMore_unspanned _) fun _ => ?_
        refine unspan_bind (mapM_resolve_unspanned _ list.span _) fun init => ?_
        show _ = Except.ok (Draft.unspanned _)
        simp only [Draft.unspanned, List.map_append]
        rfl
    · refine unspan_bind (tableType_unspanned o.rest f.span) fun (type, n) => ?_
      dsimp only [id]
      rw [← List.map_drop]
      exact unspan_bind (noMore_unspanned _) fun _ => rfl

/-- A memory has the same limits, and is filled with the same bytes. -/
theorem addMemory_unspanned :
    addMemory d.unspanned f.unspanned = unspan Draft.unspanned (addMemory d f) := by
  unfold addMemory
  refine unspan_bind (opening_unspanned d f .memory) fun (o, d) => ?_
  dsimp only [Prod.map, id, Opening.unspanned]
  rw [span_unspanned]
  cases o.imported with
  | some names =>
    refine unspan_bind (limits_unspanned o.rest f.span) fun (limits, n) => ?_
    dsimp only [id]
    rw [← List.map_drop]
    refine unspan_bind (noMore_unspanned _) fun _ => ?_
    exact d.addImport_unspanned ⟨names.1, names.2, .memory limits⟩ f.span
  | none =>
    dsimp only
    rw [head?_filter_isHeadedBy_unspanned]
    cases o.rest.head?.filter (isHeadedBy .dataKw) with
    | some list =>
      -- the data that size the memory
      dsimp only [Option.map_some]
      rw [← List.map_tail, args_unspanned, span_unspanned]
      refine unspan_bind (noMore_unspanned _) fun _ => ?_
      refine unspan_bind (expectAllBytes_unspanned _) fun init => ?_
      show _ = Except.ok (Draft.unspanned _)
      simp only [Draft.unspanned, List.map_append]
      rfl
    | none =>
      refine unspan_bind (limits_unspanned o.rest f.span) fun (limits, n) => ?_
      dsimp only [id]
      rw [← List.map_drop]
      exact unspan_bind (noMore_unspanned _) fun _ => rfl

/-- A global has the same type and body. -/
theorem addGlobal_unspanned (spaces : Spaces) :
    addGlobal spaces d.unspanned f.unspanned = unspan Draft.unspanned (addGlobal spaces d f) := by
  unfold addGlobal
  refine unspan_bind (opening_unspanned d f .global) fun (o, d) => ?_
  dsimp only [Prod.map, id, Opening.unspanned]
  rw [span_unspanned, List.head?_map, ← List.map_tail]
  refine unspan_bind (globalType_unspanned f.span _) fun type => ?_
  cases o.imported with
  | some names =>
    refine unspan_bind (noMore_unspanned _) fun _ => ?_
    exact d.addImport_unspanned ⟨names.1, names.2, .global type⟩ f.span
  | none =>
    refine unspan_bind (d.withTypes_unspanned (Body.whole_unspanned _ _)) fun (init, d) => ?_
    show _ = Except.ok (Draft.unspanned _)
    simp only [Draft.unspanned, List.map_append]
    rfl

/-! ## Exports, start and segments -/

theorem addExport_unspanned (spaces : Spaces) :
    addExport spaces d.unspanned f.unspanned =
      unspan Draft.unspanned (addExport spaces d f) := by
  unfold addExport
  rw [args_unspanned, span_unspanned, List.getElem?_map, List.getElem?_map, ← List.map_drop]
  refine unspan_bind (need_unspanned .exportName f.span _) fun g => ?_
  refine unspan_bind (expectName_unspanned g) fun name => ?_
  refine unspan_bind (need_unspanned .exportDescriptor f.span _) fun desc => ?_
  refine unspan_bind (unspan_discard (expectList_unspanned desc _)) fun _ => ?_
  refine unspan_bind (noMore_unspanned _) fun _ => ?_
  rw [headKeyword?_unspanned, unexpected_unspanned, args_unspanned, span_unspanned,
    List.head?_map, ← List.map_tail]
  cases Spaces.kindOf? desc.headKeyword? with
  | none => rfl
  | some kind =>
    refine unspan_bind (Names.resolve_unspanned _ _ desc.span _) fun index => ?_
    refine unspan_bind (noMore_unspanned _) fun _ => ?_
    exact d.addExport_unspanned ⟨name, kind, index⟩ f.span

theorem addStart_unspanned (spaces : Spaces) :
    addStart spaces d.unspanned f.unspanned = unspan Draft.unspanned (addStart spaces d f) := by
  unfold addStart
  rw [args_unspanned, span_unspanned, List.head?_map, ← List.map_tail]
  show (if d.start.isSome = true then _ else _) = _
  split
  · rfl
  · refine unspan_bind (Names.resolve_unspanned _ _ f.span _) fun index => ?_
    exact unspan_bind (noMore_unspanned _) fun _ => rfl

/-- A segment has the same target, whether it is written or not. -/
theorem target_unspanned (space : Space) (names : Names) :
    target space names (items.map unspanned) = unspan id (target space names items) := by
  rcases items with - | ⟨t | ⟨_, _⟩, _⟩
  · rfl
  · exact unspan_bind (Names.resolve_unspanned space names t.span (some (.atom t)))
      fun index => rfl
  · rfl

theorem offset_unspanned (spaces : Spaces) (item : Option Form) :
    offset spaces d.unspanned .origin (item.map unspanned) =
      unspan (Prod.map (List.map Instr.unspanned) Draft.unspanned) (offset spaces d span item) := by
  unfold offset
  refine unspan_bind (need_unspanned .offset span item) fun f => ?_
  refine unspan_bind (unspan_discard (expectList_unspanned f _)) fun _ => ?_
  have hitems : (if f.unspanned.isHeadedBy .offsetKw then f.unspanned.args else [f.unspanned]) =
      (if f.isHeadedBy .offsetKw then f.args else [f]).map unspanned := by
    rw [isHeadedBy_unspanned, args_unspanned]
    split <;> rfl
  dsimp only
  rw [hitems]
  exact d.withTypes_unspanned (Body.whole_unspanned _ _)

theorem addElem_unspanned (spaces : Spaces) :
    addElem spaces d.unspanned f.unspanned = unspan Draft.unspanned (addElem spaces d f) := by
  unfold addElem
  rw [args_unspanned, span_unspanned]
  refine unspan_bind (target_unspanned f.args _ _) fun (table, n) => ?_
  dsimp only [id]
  rw [List.getElem?_map, ← List.map_drop]
  refine unspan_bind (offset_unspanned d f.span spaces _) fun (offset, d) => ?_
  refine unspan_bind (mapM_resolve_unspanned _ f.span _) fun init => ?_
  show _ = Except.ok (Draft.unspanned _)
  simp only [Draft.unspanned, List.map_append]
  rfl

theorem addData_unspanned (spaces : Spaces) :
    addData spaces d.unspanned f.unspanned = unspan Draft.unspanned (addData spaces d f) := by
  unfold addData
  rw [args_unspanned, span_unspanned]
  refine unspan_bind (target_unspanned f.args _ _) fun (memory, n) => ?_
  dsimp only [id]
  rw [List.getElem?_map, ← List.map_drop]
  refine unspan_bind (offset_unspanned d f.span spaces _) fun (offset, d) => ?_
  refine unspan_bind (expectAllBytes_unspanned _) fun init => ?_
  show _ = Except.ok (Draft.unspanned _)
  simp only [Draft.unspanned, List.map_append]
  rfl

/-! ## Any field -/

/-- A field adds the same to a draft. -/
theorem add_unspanned (spaces : Spaces) :
    add spaces d.unspanned f.unspanned = unspan Draft.unspanned (add spaces d f) := by
  unfold add
  refine unspan_bind (unspan_discard (expectList_unspanned f _)) fun _ => ?_
  rw [headKeyword?_unspanned, unexpected_unspanned]
  split
  · rfl
  · exact addImport_unspanned d f
  · exact addFunc_unspanned d f spaces
  · exact addTable_unspanned d f spaces
  · exact addMemory_unspanned d f
  · exact addGlobal_unspanned d f spaces
  · exact addExport_unspanned d f spaces
  · exact addStart_unspanned d f spaces
  · exact addElem_unspanned d f spaces
  · exact addData_unspanned d f spaces
  · rfl

end Field

/-! ## Modules -/

section

variable {α β γ : Type} {u : α → α} {v : β → β}

/-- A result with no span told from another, where reading may be abandoned. -/
def Failure.unspan (u : α → α) : Except Failure α → Except Failure α
  | .ok a => .ok (u a)
  | .error (.problem p) => .error (.problem p.unspanned)
  | .error .abandoned => .error .abandoned

theorem Failure.unspan_lift {x x' : Except Problem α} (hx : x' = WasmText.unspan u x) :
    Failure.lift x' = Failure.unspan u (Failure.lift x) := by
  rw [hx]
  cases x <;> rfl

/-- Readers that may be abandoned agree one after the other when each does. -/
theorem Failure.unspan_bind {x x' : Except Failure α} {g g' : α → Except Failure β}
    (hx : x' = Failure.unspan u x) (hg : ∀ a, g' (u a) = Failure.unspan v (g a)) :
    x' >>= g' = Failure.unspan v (x >>= g) := by
  rw [hx]
  match x with
  | .ok a => exact hg a
  | .error (.problem p) => rfl
  | .error .abandoned => rfl

/-- What succeeds without spans succeeds with them. -/
theorem Failure.of_unspan {x : Except Failure α} {a : α} (h : Failure.unspan u x = .ok a) :
    ∃ b, x = .ok b ∧ u b = a := by
  match x with
  | .ok b => exact ⟨b, rfl, Except.ok.inj h⟩
  | .error (.problem p) => cases h
  | .error .abandoned => cases h

theorem Failure.unspan_mapM {w : γ → γ} {g g' : γ → Except Failure α}
    (hg : ∀ c, g' (w c) = Failure.unspan u (g c)) (cs : List γ) :
    (cs.map w).mapM g' = Failure.unspan (List.map u) (cs.mapM g) := by
  induction cs with
  | nil => rfl
  | cons c cs ih =>
    rw [List.map_cons, List.mapM_cons, List.mapM_cons]
    exact unspan_bind (hg c) fun a => unspan_bind ih fun as => rfl

end

namespace Module

/-- A module defines the same types. -/
theorem typesOfFields_unspanned (fields : List Form) :
    typesOfFields (fields.map Form.unspanned) = Failure.unspan id (typesOfFields fields) := by
  unfold typesOfFields
  rw [filter_isHeadedBy_unspanned, ← List.map_id_fun]
  refine Failure.unspan_mapM (fun f => ?_) _
  rw [FuncType.ofDefinition?_unspanned]
  cases FuncType.ofDefinition? f with
  | none => rfl
  | some type => exact Failure.unspan_lift rfl

/-- Fields without their spans make the module without its spans, if they make one. -/
theorem ofFields_unspanned (name : Option String) (fields : List Form) :
    ofFields name (fields.map Form.unspanned) =
      Failure.unspan unspanned (ofFields name fields) := by
  unfold ofFields
  refine Failure.unspan_bind (Failure.unspan_lift (Spaces.ofFields_unspanned fields))
    fun spaces => ?_
  refine Failure.unspan_bind (typesOfFields_unspanned fields) fun types => ?_
  -- the third pass, from the types that the first two have found
  have hread := unspan_foldlM (fun d f => Field.add_unspanned d f spaces) fields
    (.ofTypes ⟨spaces.types, types⟩)
  exact Failure.unspan_bind (Failure.unspan_lift hread) fun d => rfl

end Module

end WasmText
