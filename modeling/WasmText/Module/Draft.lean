import WasmText.Instr.Body
import WasmText.Module

/-!
# Module fields

A draft is a module whose fields are read one after the other. The names of all fields are known
from the start and the defined types are there, so a field adds what it defines and the signatures
it writes, and looks nothing up in other fields.

Imports come before definitions of their kind. That is why an entity's index, the number of imports
and definitions of its kind before it, never changes later.
-/

namespace WasmText

/-- A module being read. -/
structure Draft where
  types : TypeTable
  imports : List Import
  funcs : List Func
  tables : List TableType
  memories : List Limits
  globals : List Global
  exports : List Export
  start : Option Nat
  elems : List Elem
  data : List Data

namespace Draft

def ofTypes (types : TypeTable) : Draft := ⟨types, [], [], [], [], [], [], none, [], []⟩

/-- The finished module. -/
def toModule (d : Draft) (name : Option String) : Module :=
  ⟨name, d.types.types, d.imports, d.funcs, d.tables, d.memories, d.globals, d.exports, d.start,
    d.elems, d.data⟩

/-- The number of imports of a kind. -/
def imported (d : Draft) (kind : ExternKind) : Nat := d.imports.countP (·.desc.kind == kind)

/-- The number of definitions of a kind. -/
def defined (d : Draft) : ExternKind → Nat
  | .func => d.funcs.length
  | .table => d.tables.length
  | .memory => d.memories.length
  | .global => d.globals.length

/-- The index that the next entity of a kind gets. -/
def nextIndex (d : Draft) (kind : ExternKind) : Nat := d.imported kind + d.defined kind

/-- Adds an import; `span` is the field's. -/
def addImport (d : Draft) (i : Import) (span : Span) : Except Problem Draft :=
  if d.defined i.desc.kind ≠ 0 then .error ⟨.importAfter i.desc.kind, span⟩
  else .ok { d with imports := d.imports ++ [i] }

/-- Adds an export; `span` is its form's. -/
def addExport (d : Draft) (e : Export) (span : Span) : Except Problem Draft :=
  if d.exports.any (·.name == e.name) then .error ⟨.duplicateExport e.name, span⟩
  else .ok { d with exports := d.exports ++ [e] }

/-- Runs a reader with the draft's type table. -/
def withTypes {α : Type} (d : Draft) (r : Elab α) : Except Problem (α × Draft) := do
  let (a, types) ← r.run d.types
  return (a, { d with types })

end Draft

/-! ## Parts of fields -/

namespace Field

/-- The name at the front of some forms, and how many forms it takes. -/
def name (items : List Form) : Option String × Nat :=
  match items.head?.bind Form.id? with
  | some n => (some n, 1)
  | none => (none, 0)

/-- The names of an import's module and field, at the front of a form's items. -/
def importNames (f : Form) : Except Problem (String × String) := do
  let moduleName ← (← Form.need .moduleName f.span f.args[0]?).expectName
  let field ← (← Form.need .importName f.span f.args[1]?).expectName
  return (moduleName, field)

/-- An inline `(import …)` at the front of some forms, and how many forms it takes. -/
def inlineImport (items : List Form) : Except Problem (Option (String × String) × Nat) :=
  match items.head?.filter (Form.isHeadedBy .importKw) with
  | some f => do
    let names ← importNames f
    Form.noMore (f.args.drop 2)
    return (some names, 1)
  | none => .ok (none, 0)

/-- Exports an entity under the name that an inline `(export …)` gives. -/
def inlineExport (kind : ExternKind) (index : Nat) (d : Draft) (f : Form) :
    Except Problem Draft := do
  let name ← (← Form.need .exportName f.span f.args.head?).expectName
  Form.noMore f.args.tail
  d.addExport ⟨name, kind, index⟩ f.span

/-- What stands before the body of a field that declares an entity. -/
structure Opening where
  name : Option String
  index : Nat
  imported : Option (String × String)
  /-- The forms after the opening. -/
  rest : List Form

/-- The opening of a field for an entity of a kind: name, inline exports, inline import. -/
def opening (kind : ExternKind) (d : Draft) (f : Form) : Except Problem (Opening × Draft) := do
  let (name, n) := name f.args
  let index := d.nextIndex kind
  let exports := (f.args.drop n).takeWhile (Form.isHeadedBy .exportKw)
  let d ← exports.foldlM (inlineExport kind index) d
  let rest := f.args.drop (n + exports.length)
  let (imported, m) ← inlineImport rest
  return (⟨name, index, imported, rest.drop m⟩, d)

/-- A least and perhaps a greatest size at the front of some forms, and how many forms they take. -/
def limits (span : Span) (items : List Form) : Except Problem (Limits × Nat) := do
  let first ← Form.need .natural span items.head?
  match first.number? with
  | none => .error (first.unexpected .natural)
  | some t =>
    let min ← Form.natural t.text t.span
    match items.tail.head?.bind Form.number? with
    | none => return (⟨min, none⟩, 1)
    | some t => return (⟨min, some (← Form.natural t.text t.span)⟩, 2)

/-- The element type of a table, which is `anyfunc`. -/
def elemType (span : Span) : Option Form → Except Problem ValType
  | none => .error ⟨.expected .anyfunc Form.closingText, span⟩
  | some f => if f.valType? = some .anyfunc then .ok .anyfunc else .error (f.unexpected .anyfunc)

/-- Limits and an element type, and how many forms they take. -/
def tableType (span : Span) (items : List Form) : Except Problem (TableType × Nat) := do
  let (limits, n) ← limits span items
  let elemType ← elemType span (items.drop n).head?
  return (⟨limits, elemType⟩, n + 1)

/-- The type of a global: a value type, in `(mut …)` if it can be set. -/
def globalType (span : Span) (item : Option Form) : Except Problem GlobalType := do
  let f ← Form.need .globalType span item
  match f with
  | .atom _ => return ⟨← f.valueType, false⟩
  | .list span _ =>
    if f.headKeyword? ≠ some .mutKw then throw (f.unexpected .globalType)
    let type ← (← Form.need .valueType span f.args.head?).valueType
    Form.noMore f.args.tail
    return ⟨type, true⟩

/-- The scope of an initialiser or offset, where there are neither locals nor labels. -/
def constScope (spaces : Spaces) : Scope := ⟨spaces, [], [], 0⟩

/-- `i32.const 0`, the offset of inline segments. -/
def zeroOffset (span : Span) : List Instr := [.plain (.const ⟨.i32, ⟨.int, "0"⟩⟩) span]

/-! ## Imports -/

/-- What an `(import …)` field describes. -/
def importDesc (d : Draft) (f : Form) : Except Problem (ImportDesc × Draft) := do
  let items := f.args.drop (name f.args).2
  match f.headKeyword? with
  | some .funcKw =>
    let ((use, n), d) ← d.withTypes (TypeUse.read true items)
    Form.noMore (items.drop n)
    return (.func use.index, d)
  | some .tableKw =>
    let (type, n) ← tableType f.span items
    Form.noMore (items.drop n)
    return (.table type, d)
  | some .memoryKw =>
    let (limits, n) ← limits f.span items
    Form.noMore (items.drop n)
    return (.memory limits, d)
  | some .globalKw =>
    let type ← globalType f.span items.head?
    Form.noMore items.tail
    return (.global type, d)
  | _ => throw (f.unexpected .importDescriptor)

/-- `(import "module" "field" desc)`. -/
def addImport (d : Draft) (f : Form) : Except Problem Draft := do
  let (moduleName, field) ← importNames f
  let item ← Form.need .importDescriptor f.span f.args[2]?
  discard <| item.expectList .importDescriptor
  Form.noMore (f.args.drop 3)
  let (desc, d) ← importDesc d item
  d.addImport ⟨moduleName, field, desc⟩ f.span

/-! ## Functions -/

/-- The locals that a `(local …)` declares, after those before it: names of all locals with the
parameters, and types of those declared so. -/
def addLocals (locals : Names × List ValType) (f : Form) :
    Except Problem (Names × List ValType) := do
  match f.args.head?.bind Form.id? with
  | some name =>
    let type ← (← Form.need .valueType f.span f.args.tail.head?).valueType
    Form.noMore (f.args.drop 2)
    return (← locals.1.declare .localVar (some name) f.span, locals.2 ++ [type])
  | none =>
    let types ← f.args.mapM Form.valueType
    return (locals.1 ++ types.map fun _ => none, locals.2 ++ types)

/-- The names of the parameters. -/
def parameters (use : TypeUse) : Except Problem Names :=
  use.params.foldlM (fun names p => names.declare .localVar p.name p.span) []

/-- `(func …)`, a definition or an inline import. -/
def addFunc (spaces : Spaces) (d : Draft) (f : Form) : Except Problem Draft := do
  let (o, d) ← opening .func d f
  let ((use, n), d) ← d.withTypes (TypeUse.read true o.rest)
  let rest := o.rest.drop n
  match o.imported with
  | some (moduleName, field) =>
    Form.noMore rest
    d.addImport ⟨moduleName, field, .func use.index⟩ f.span
  | none =>
    let params ← parameters use
    let decls := rest.takeWhile (Form.isHeadedBy .localKw)
    let (names, locals) ← decls.foldlM addLocals (params, [])
    let scope : Scope := ⟨spaces, names, .ofFunction use.sig.result, 0⟩
    let (body, d) ← d.withTypes (Body.whole scope (rest.drop decls.length))
    return { d with funcs := d.funcs ++ [⟨o.name, use.index, use.sig, locals, body⟩] }

/-! ## Tables, memories and globals -/

/-- `(table …)`: a definition, one that a list of its elements sizes, or an inline import. -/
def addTable (spaces : Spaces) (d : Draft) (f : Form) : Except Problem Draft := do
  let (o, d) ← opening .table d f
  match o.imported with
  | some (moduleName, field) =>
    let (type, n) ← tableType f.span o.rest
    Form.noMore (o.rest.drop n)
    d.addImport ⟨moduleName, field, .table type⟩ f.span
  | none =>
    if (o.rest.head?.bind Form.valType?).isSome then
      let elemType ← elemType f.span o.rest.head?
      let list ← Form.need .elemForm f.span o.rest.tail.head?
      discard <| list.expectList .elemForm
      if list.headKeyword? ≠ some .elemKw then throw (list.unexpected .elemForm)
      Form.noMore (o.rest.drop 2)
      let init ← list.args.mapM fun v => spaces.funcs.resolve .func list.span (some v)
      let limits : Limits := ⟨init.length, some init.length⟩
      return { d with
        tables := d.tables ++ [⟨limits, elemType⟩]
        elems := d.elems ++ [⟨o.index, zeroOffset list.span, init⟩] }
    else
      let (type, n) ← tableType f.span o.rest
      Form.noMore (o.rest.drop n)
      return { d with tables := d.tables ++ [type] }

/-- Bytes in a page of memory. -/
def pageSize : Nat := 65536

/-- `(memory …)`: a definition, one that its data sizes, or an inline import. -/
def addMemory (d : Draft) (f : Form) : Except Problem Draft := do
  let (o, d) ← opening .memory d f
  match o.imported with
  | some (moduleName, field) =>
    let (limits, n) ← limits f.span o.rest
    Form.noMore (o.rest.drop n)
    d.addImport ⟨moduleName, field, .memory limits⟩ f.span
  | none =>
    match o.rest.head?.filter (Form.isHeadedBy .dataKw) with
    | some list =>
      Form.noMore o.rest.tail
      let init ← Form.expectAllBytes list.args
      let pages := (init.length + pageSize - 1) / pageSize
      return { d with
        memories := d.memories ++ [⟨pages, some pages⟩]
        data := d.data ++ [⟨o.index, zeroOffset list.span, init⟩] }
    | none =>
      let (limits, n) ← limits f.span o.rest
      Form.noMore (o.rest.drop n)
      return { d with memories := d.memories ++ [limits] }

/-- `(global …)`: a definition or an inline import. -/
def addGlobal (spaces : Spaces) (d : Draft) (f : Form) : Except Problem Draft := do
  let (o, d) ← opening .global d f
  let type ← globalType f.span o.rest.head?
  match o.imported with
  | some (moduleName, field) =>
    Form.noMore o.rest.tail
    d.addImport ⟨moduleName, field, .global type⟩ f.span
  | none =>
    let (init, d) ← d.withTypes (Body.whole (constScope spaces) o.rest.tail)
    return { d with globals := d.globals ++ [⟨o.name, type, init⟩] }

/-! ## Exports, start and segments -/

/-- `(export "name" (kind ref))`. -/
def addExport (spaces : Spaces) (d : Draft) (f : Form) : Except Problem Draft := do
  let name ← (← Form.need .exportName f.span f.args[0]?).expectName
  let desc ← Form.need .exportDescriptor f.span f.args[1]?
  discard <| desc.expectList .exportDescriptor
  Form.noMore (f.args.drop 2)
  match Spaces.kindOf? desc.headKeyword? with
  | none => throw (desc.unexpected .exportDescriptor)
  | some kind =>
    let index ← (spaces.ofKind kind).resolve (.ofExtern kind) desc.span desc.args.head?
    Form.noMore desc.args.tail
    d.addExport ⟨name, kind, index⟩ f.span

/-- `(start ref)`. -/
def addStart (spaces : Spaces) (d : Draft) (f : Form) : Except Problem Draft := do
  if d.start.isSome then throw ⟨.severalStarts, f.span⟩
  let index ← spaces.funcs.resolve .func f.span f.args.head?
  Form.noMore f.args.tail
  return { d with start := some index }

/-- The table or memory a segment goes to, 0 if none is named, and how many forms it takes. -/
def target (space : Space) (names : Names) (items : List Form) : Except Problem (Nat × Nat) :=
  match items.head? with
  | some (.atom t) => return (← names.resolve space t.span (some (.atom t)), 1)
  | _ => .ok (0, 0)

/-- The offset of a segment, an `(offset …)` or a single folded instruction. -/
def offset (spaces : Spaces) (d : Draft) (span : Span) (item : Option Form) :
    Except Problem (List Instr × Draft) := do
  let f ← Form.need .offset span item
  discard <| f.expectList .offset
  let items := if f.isHeadedBy .offsetKw then f.args else [f]
  d.withTypes (Body.whole (constScope spaces) items)

/-- `(elem ref? offset ref*)`. -/
def addElem (spaces : Spaces) (d : Draft) (f : Form) : Except Problem Draft := do
  let (table, n) ← target .table spaces.tables f.args
  let (offset, d) ← offset spaces d f.span f.args[n]?
  let init ← (f.args.drop (n + 1)).mapM fun v => spaces.funcs.resolve .func f.span (some v)
  return { d with elems := d.elems ++ [⟨table, offset, init⟩] }

/-- `(data ref? offset string*)`. -/
def addData (spaces : Spaces) (d : Draft) (f : Form) : Except Problem Draft := do
  let (memory, n) ← target .memory spaces.memories f.args
  let (offset, d) ← offset spaces d f.span f.args[n]?
  let init ← Form.expectAllBytes (f.args.drop (n + 1))
  return { d with data := d.data ++ [⟨memory, offset, init⟩] }

/-! ## Any field -/

/-- Reads a field into a draft. Types are there already. -/
def add (spaces : Spaces) (d : Draft) (f : Form) : Except Problem Draft := do
  discard <| f.expectList .moduleField
  match f.headKeyword? with
  | some .typeKw => return d
  | some .importKw => addImport d f
  | some .funcKw => addFunc spaces d f
  | some .tableKw => addTable spaces d f
  | some .memoryKw => addMemory d f
  | some .globalKw => addGlobal spaces d f
  | some .exportKw => addExport spaces d f
  | some .startKw => addStart spaces d f
  | some .elemKw => addElem spaces d f
  | some .dataKw => addData spaces d f
  | _ => throw (f.unexpected .moduleField)

end Field

end WasmText
