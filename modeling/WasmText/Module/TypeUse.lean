import WasmText.Module.Names

/-!
# Types and type uses

A module's types are those it defines, in order, and after them the signatures that functions and
indirect calls write without naming a type, each added once when it is first met.

A type use names a type, writes a signature, or does both, which must then agree.
-/

namespace WasmText

/-- The types of a module so far, with a name or `none` for each. -/
structure TypeTable where
  names : Names
  types : List FuncType
deriving DecidableEq, Repr

namespace TypeTable

/-- The index of the first type equal to a signature, which is added if there is none. -/
def findOrAdd (t : TypeTable) (sig : FuncType) : Nat × TypeTable :=
  match t.types.findIdx? (· == sig) with
  | some index => (index, t)
  | none => (t.names.length, ⟨t.names ++ [none], t.types ++ [sig]⟩)

end TypeTable

/-- A parameter: its type, its name, and the span to blame for the name. -/
structure Param where
  type : ValType
  name : Option String
  span : Span
deriving DecidableEq, Repr

/-! ## Signatures -/

namespace Signature

/-- The parameters of one `(param …)`: a named one, or any number without names. -/
def params (namesAllowed : Bool) (f : Form) : Except Problem (List Param) :=
  match f.args with
  | [] => .ok []
  | first :: rest =>
    match first.id? with
    | some name => do
      if !namesAllowed then throw ⟨.parameterName, first.span⟩
      let type ← (← Form.need .valueType f.span rest.head?).valueType
      Form.noMore rest.tail
      return [⟨type, some name, f.span⟩]
    | none => f.args.mapM fun g => return ⟨← g.valueType, none, g.span⟩

/-- The types of one `(result …)`. -/
def results (f : Form) : Except Problem (List ValType) := f.args.mapM Form.valueType

/-- The parameters and results at the front of some forms, and how many forms they take. -/
def read (namesAllowed : Bool) (items : List Form) :
    Except Problem (List Param × List ValType × Nat) := do
  let ps := items.takeWhile (Form.isHeadedBy .paramKw)
  let rs := (items.drop ps.length).takeWhile (Form.isHeadedBy .resultKw)
  let params ← List.flatten <$> ps.mapM (params namesAllowed)
  let types ← List.flatten <$> rs.mapM results
  if 1 < types.length then
    throw ⟨.severalResults, (rs.getLast?.map Form.span).getD .origin⟩
  return (params, types, ps.length + rs.length)

end Signature

/-- Reads a type definition's signature: `(type $name? (func param* result*))`. The outer `none`
stands for an empty form in place of the function type, which has no head that a message could
show. -/
def FuncType.ofDefinition? (f : Form) : Option (Except Problem FuncType) :=
  let items := f.args.drop (if (f.args.head?.bind Form.id?).isSome then 1 else 0)
  match items.head? with
  | none => some (.error ⟨.expected .funcForm Form.closingText, f.span⟩)
  | some (.atom t) => some (.error ((Form.atom t).unexpected .funcForm))
  | some (.list _ []) => none
  | some (.list span (head :: parts)) =>
    some do
      if head.keyword? ≠ some .funcKw then throw ⟨.expected .funcForm head.describe, span⟩
      Form.noMore items.tail
      let (params, results, n) ← Signature.read true parts
      Form.noMore (parts.drop n)
      return ⟨params.map Param.type, results⟩

/-! ## Type uses -/

/-- What a type use comes to: an index, its signature, and the parameters that get names. -/
structure TypeUse where
  index : Nat
  sig : FuncType
  params : List Param
deriving DecidableEq, Repr

/-- Reading with the type table at hand. -/
abbrev Elab := StateT TypeTable (Except Problem)

namespace TypeUse

/-- The index that a leading `(type …)` refers to. -/
def explicit? (table : TypeTable) (items : List Form) : Except Problem (Option (Nat × Span)) :=
  match items.head? with
  | some f =>
    if f.isHeadedBy .typeKw then do
      let index ← table.names.resolve .type f.span f.args.head?
      Form.noMore f.args.tail
      return some (index, f.span)
    else return none
  | none => return none

/-- The type use at the front of some forms, and how many forms it takes. -/
def read (namesAllowed : Bool) (items : List Form) : Elab (TypeUse × Nat) := do
  let table ← get
  match (← explicit? table items) with
  | some (index, span) =>
    let (params, results, n) ← Signature.read namesAllowed items.tail
    let sig : FuncType := ⟨params.map Param.type, results⟩
    match table.types[index]? with
    | none => throw ⟨.typeOutOfRange index, span⟩
    | some declared =>
      if n = 0 then
        return (⟨index, declared, declared.params.map (⟨·, none, span⟩)⟩, 1)
      else if declared ≠ sig then
        throw ⟨.signatureMismatch sig index declared, (items.tail.head?.map Form.span).getD span⟩
      else return (⟨index, declared, params⟩, n + 1)
  | none =>
    let (params, results, n) ← Signature.read namesAllowed items
    let sig : FuncType := ⟨params.map Param.type, results⟩
    let (index, table) := table.findOrAdd sig
    set table
    return (⟨index, sig, params⟩, n)

end TypeUse

end WasmText
