/-!
# Types

Value and block types with their tags in the binary format, function signatures, and the four kinds
of entity that a module imports and exports. `any` is no part of the encoding: it stands for a type
not yet known.
-/

namespace WasmText

/-- A value, element or block type. -/
inductive ValType
  | i32 | i64 | f32 | f64 | anyfunc | func | void | any
deriving DecidableEq, Repr, Inhabited

namespace ValType

/-- Every type. -/
def all : List ValType := [i32, i64, f32, f64, anyfunc, func, void, any]

/-- The tag in the binary format. -/
def code : ValType → Int
  | i32 => -0x01
  | i64 => -0x02
  | f32 => -0x03
  | f64 => -0x04
  | anyfunc => -0x10
  | func => -0x20
  | void => -0x40
  | any => 0

def name : ValType → String
  | i32 => "i32"
  | i64 => "i64"
  | f32 => "f32"
  | f64 => "f64"
  | anyfunc => "anyfunc"
  | func => "func"
  | void => "void"
  | any => "any"

/-- The type with a given tag. -/
def ofCode? (n : Int) : Option ValType := all.find? (·.code == n)

/-- The type that a word of the text format names: a numeric type or `anyfunc`. -/
def ofName? (s : String) : Option ValType := [i32, i64, f32, f64, anyfunc].find? (·.name == s)

/-- Whether this is one of the four numeric types, those a value can have. -/
def isValue : ValType → Bool
  | i32 | i64 | f32 | f64 => true
  | _ => false

/-- Whether this is an integer type. -/
def isInt : ValType → Bool
  | i32 | i64 => true
  | _ => false

theorem ofCode?_code (t : ValType) : ofCode? t.code = some t := by cases t <;> decide

end ValType

/-- The kind of an import or export. -/
inductive ExternKind
  | func | table | memory | global
deriving DecidableEq, Repr, Inhabited

namespace ExternKind

/-- Every kind, in the order of the numbers. -/
def all : List ExternKind := [func, table, memory, global]

/-- The number in the binary format. -/
def code : ExternKind → Nat
  | func => 0
  | table => 1
  | memory => 2
  | global => 3

def name : ExternKind → String
  | func => "func"
  | table => "table"
  | memory => "memory"
  | global => "global"

end ExternKind

/-- A function signature. -/
structure FuncType where
  params : List ValType
  results : List ValType
deriving DecidableEq, Repr, Inhabited

namespace FuncType

/-- The first result, or `void`. -/
def result (t : FuncType) : ValType := t.results.head?.getD .void

/-- Type names separated by commas. -/
def names (ts : List ValType) : String := String.intercalate ", " (ts.map ValType.name)

/-- `(params) -> results`, with `nil` for no result. -/
def text (t : FuncType) : String :=
  "(" ++ names t.params ++ ") -> " ++ if t.results.isEmpty then "nil" else names t.results

end FuncType

end WasmText
