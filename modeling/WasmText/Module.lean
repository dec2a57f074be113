import WasmText.Instr

/-!
# Modules

A module with every name resolved to an index. In the index space of each kind the imported entities
come first, in the order of the imports, and the defined ones after them.
-/

namespace WasmText

/-- A least and perhaps a greatest size. -/
structure Limits where
  min : Nat
  max : Option Nat
deriving DecidableEq, Repr

/-- `min = a, max = b`. -/
def Limits.text (l : Limits) : String :=
  "min = " ++ toString l.min ++
    match l.max with
    | some n => ", max = " ++ toString n
    | none => ""

structure TableType where
  limits : Limits
  elemType : ValType
deriving DecidableEq, Repr

structure GlobalType where
  type : ValType
  isMutable : Bool
deriving DecidableEq, Repr

/-- What an import stands for. -/
inductive ImportDesc
  | func (type : Nat)
  | table (type : TableType)
  | memory (limits : Limits)
  | global (type : GlobalType)
deriving DecidableEq, Repr

/-- What an import is imported as. -/
def ImportDesc.kind : ImportDesc → ExternKind
  | func _ => .func
  | table _ => .table
  | memory _ => .memory
  | global _ => .global

structure Import where
  moduleName : String
  field : String
  desc : ImportDesc
deriving DecidableEq, Repr

/-- A function: the index of its type, that type, and its locals after the parameters. -/
structure Func where
  name : Option String
  type : Nat
  sig : FuncType
  locals : List ValType
  body : List Instr
deriving Repr

structure Global where
  name : Option String
  type : GlobalType
  init : List Instr
deriving Repr

structure Export where
  name : String
  kind : ExternKind
  index : Nat
deriving DecidableEq, Repr

/-- Functions to be put into a table from an offset on. -/
structure Elem where
  table : Nat
  offset : List Instr
  init : List Nat
deriving Repr

/-- Bytes to be put into a memory from an offset on. -/
structure Data where
  memory : Nat
  offset : List Instr
  init : List UInt8
deriving Repr

structure Module where
  name : Option String
  types : List FuncType
  imports : List Import
  funcs : List Func
  tables : List TableType
  memories : List Limits
  globals : List Global
  exports : List Export
  start : Option Nat
  elems : List Elem
  data : List Data
deriving Repr

namespace Module

/-- The export with a name. -/
def export? (m : Module) (name : String) : Option Export := m.exports.find? (·.name == name)

/-- The number of imports of a kind. -/
def imported (m : Module) (kind : ExternKind) : Nat := m.imports.countP (·.desc.kind == kind)

/-- A defined function by its index among all functions. -/
def definedFunc? (m : Module) (index : Nat) : Option Func :=
  if m.imported .func ≤ index then m.funcs[index - m.imported .func]? else none

end Module

end WasmText
