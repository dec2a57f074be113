import WasmText.Form.Reader
import WasmText.Module.Draft
import WasmText.Outcome

/-!
# Modules from forms

A module is read from its fields in three passes. The first collects the names of everything the
fields declare, the second reads the type definitions, and the third reads all other fields in
order. The first problem ends the module.

A source is a module if it is one `(module …)`, or fields without it. It is accepted if it makes a
module and nothing at all was found wrong with it.
-/

namespace WasmText

namespace Module

/-- The types that fields define, in order. -/
def typesOfFields (fields : List Form) : Except Failure (List FuncType) :=
  (fields.filter (Form.isHeadedBy .typeKw)).mapM fun f =>
    match FuncType.ofDefinition? f with
    | some type => Failure.lift type
    | none => .error .abandoned

/-- The module with the given fields. -/
def ofFields (name : Option String) (fields : List Form) : Except Failure Module := do
  let spaces ← Spaces.ofFields fields
  let types ← typesOfFields fields
  let draft := Draft.ofTypes ⟨spaces.types, types⟩
  let draft : Draft ← (fields.foldlM (Field.add spaces) draft : Except Problem Draft)
  return draft.toModule name

/-- The module of a `(module $name? field*)`. -/
def ofForm (f : Form) : Except Failure Module :=
  let (name, n) := Field.name f.args
  ofFields name (f.args.drop n)

/-- The module of a whole source. -/
def ofForms : List Form → Except Failure Module
  | [] => ofFields none []
  | [f] => if f.isHeadedBy .moduleKw then ofForm f else ofFields none [f]
  | f :: g :: fs =>
    if f.isHeadedBy .moduleKw then .error (.problem ⟨.severalModules, g.span⟩)
    else ofFields none (f :: g :: fs)

/-- Reads a source that holds one module. The whole source is one command. -/
def parse (src : Source) : Parsed Module :=
  let (forms, r) := (Reader.ofSource src).readCommand
  match ofForms forms with
  | .ok m =>
    ⟨src, if r.errors = 0 then .accepted m else .rejected r.errors, r.log.problems.toList⟩
  | .error (.problem p) =>
    let r := r.report p
    ⟨src, .rejected (max r.errors 1), r.log.problems.toList⟩
  | .error .abandoned => ⟨src, .abandoned, r.log.problems.toList⟩

end Module

end WasmText
