import WasmText.Form.Expect

/-!
# Names and indices

The entities of a space are numbered in the order they are declared, and some carry a name. A list
of their names, `none` for those without, holds both: an entity's index is its place.

The names of a module are collected before anything else is read, so that a field may refer to one
that comes after it.

Indices are counted here without a bound. A module has no more entities of a kind than it has fields
(`Spaces.length_ofKind_le`), so counters of 32 bits count the same while the fields fit into them.
-/

namespace WasmText

/-- The names of the entities of a space, by index. -/
abbrev Names := List (Option String)

namespace Names

/-- The names with one more entity. No two may share a name. -/
def declare (space : Space) (names : Names) (name : Option String) (span : Span) :
    Except Problem Names :=
  match name with
  | some n =>
    if names.contains (some n) then .error ⟨.duplicateName space n, span⟩
    else .ok (names ++ [name])
  | none => .ok (names ++ [name])

/-- The index of the entity with a name. -/
def indexOf? (names : Names) (name : String) : Option Nat := names.findIdx? (· == some name)

/-- The index that a name or a number refers to; `span` is the span of the form around it. -/
def resolve (space : Space) (names : Names) (span : Span) : Option Form → Except Problem Nat
  | none => .error ⟨.expected (.reference space) Form.closingText, span⟩
  | some f =>
    match f.id? with
    | some name =>
      match names.indexOf? name with
      | some index => .ok index
      | none => .error ⟨.undefined space name, f.span⟩
    | none =>
      match f.number? with
      | some t => do
        let index ← Form.natural t.text t.span
        if index < names.length then .ok index
        else .error ⟨.indexOutOfRange space index names.length, t.span⟩
      | none => .error (f.unexpected (.reference space))

end Names

/-- The names of every space of a module. -/
structure Spaces where
  types : Names
  funcs : Names
  tables : Names
  memories : Names
  globals : Names
deriving DecidableEq, Repr

namespace Spaces

def empty : Spaces := ⟨[], [], [], [], []⟩

/-- The names of the entities of an external kind. -/
def ofKind (s : Spaces) : ExternKind → Names
  | .func => s.funcs
  | .table => s.tables
  | .memory => s.memories
  | .global => s.globals

/-- The spaces with one more entity of an external kind. -/
def declareKind (s : Spaces) (kind : ExternKind) (name : Option String) (span : Span) :
    Except Problem Spaces := do
  let names ← (s.ofKind kind).declare (.ofExtern kind) name span
  match kind with
  | .func => return { s with funcs := names }
  | .table => return { s with tables := names }
  | .memory => return { s with memories := names }
  | .global => return { s with globals := names }

/-- The external kind that a keyword names. -/
def kindOf? : Option Keyword → Option ExternKind
  | some .funcKw => some .func
  | some .tableKw => some .table
  | some .memoryKw => some .memory
  | some .globalKw => some .global
  | _ => none

/-- What a field declares: a kind, `none` for a type, with the name and the span to blame. Fields
that are not well formed declare as much as can be told. -/
def declared? (f : Form) : Option (Option ExternKind × Option String × Span) :=
  match f.headKeyword? with
  | some .typeKw => some (none, f.args.head?.bind Form.id?, f.span)
  | some .importKw => do
    let desc ← f.args[2]?
    let kind ← kindOf? desc.headKeyword?
    return (some kind, desc.args.head?.bind Form.id?, desc.span)
  | word => do
    let kind ← kindOf? word
    return (some kind, f.args.head?.bind Form.id?, f.span)

/-- The spaces with what a field declares. -/
def declare (s : Spaces) (f : Form) : Except Problem Spaces :=
  match declared? f with
  | none => .ok s
  | some (none, name, span) => do
    return { s with types := ← s.types.declare .type name span }
  | some (some kind, name, span) => s.declareKind kind name span

/-- The names that the fields of a module declare. -/
def ofFields (fields : List Form) : Except Problem Spaces := fields.foldlM declare empty

end Spaces

end WasmText
