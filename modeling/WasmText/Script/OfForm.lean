import WasmText.Module.OfForms
import WasmText.Script

/-!
# Commands from forms

Each form of a script is a command of its own, but for module fields without a module around them,
of which a row makes one command. The text modules of a script are read as modules alone are, except
those asserted to be malformed: they are kept as they stand in the source.
-/

namespace WasmText

/-- A constant: `(i32.const 1)` and the like. -/
def Const.ofForm (f : Form) : Except Problem Const := do
  discard <| f.expectList .constant
  match f.headOpcode?.filter Opcode.isConst with
  | some op =>
    let value ← Immediate.const op f.span f.args.head?
    Form.noMore f.args.tail
    return value
  | none => throw (f.unexpected .constant)

namespace Action

/-- `(invoke $module? "name" const*)` or `(get $module? "name")`. -/
def ofForm (f : Form) : Except Problem Action := do
  discard <| f.expectList .action
  if f.headKeyword? ≠ some .invokeKw ∧ f.headKeyword? ≠ some .getKw then
    throw (f.unexpected .action)
  let (moduleName, n) := Field.name f.args
  let name ← (← Form.need .exportName f.span f.args[n]?).expectName
  let args := f.args.drop (n + 1)
  if f.headKeyword? = some .invokeKw then
    return .invoke moduleName name (← args.mapM Const.ofForm)
  else
    Form.noMore args
    return .get moduleName name

end Action

namespace ScriptModule

/-- A text of bytes that may be ill-formed. -/
def lossyText (bytes : List UInt8) : String := String.ofList (Utf8.decodeLossy bytes)

/-- `(module $name? binary string*)`, `(module $name? quote string*)`, or a text module. -/
def ofForm (f : Form) : Except Failure ScriptModule := do
  let (name, n) := Field.name f.args
  match f.args[n]?.bind Form.keyword? with
  | some .binaryKw => return .binary name (← Form.expectAllBytes (f.args.drop (n + 1)))
  | some .quoteKw => return .quote name (lossyText (← Form.expectAllBytes (f.args.drop (n + 1))))
  | _ => return .text (← Module.ofForm f)

/-- A form that has to be a module. -/
def ofNested (f : Form) : Except Failure ScriptModule :=
  if f.isHeadedBy .moduleKw then ofForm f else .error (.problem (f.unexpected .module))

/-- A form that has to be a module, which is not read if it is text. -/
def ofMalformed (src : Source) (f : Form) : Except Failure ScriptModule :=
  if f.isHeadedBy .moduleKw then
    match f.args[(Field.name f.args).2]?.bind Form.keyword? with
    | some .binaryKw | some .quoteKw => ofForm f
    | _ => .ok (.source (String.ofList ((src.slice? f.span).getD [])))
  else .error (.problem (f.unexpected .module))

end ScriptModule

namespace Command

/-- The message of an assertion, its last item. -/
def message (f : Form) : Except Problem String := do
  let bytes ← (← Form.need .string f.span f.args[1]?).expectBytes
  Form.noMore (f.args.drop 2)
  return ScriptModule.lossyText bytes

/-- The action of an assertion. -/
def action (f : Form) : Except Problem Action := do
  Action.ofForm (← Form.need .action f.span f.args[0]?)

/-- An assertion on a module: the module, then the message. -/
def onModule (make : ScriptModule → String → CommandKind)
    (read : Form → Except Failure ScriptModule) (f : Form) : Except Failure CommandKind := do
  let m ← read (← Form.need .module f.span f.args[0]?)
  return make m (← message f)

/-- `(register "name" $module?)`. -/
def register (f : Form) : Except Problem CommandKind := do
  let asName ← (← Form.need .string f.span f.args[0]?).expectName
  let (moduleName, n) := Field.name f.args.tail
  Form.noMore (f.args.drop (n + 1))
  return .register asName moduleName

/-- What a form that stands alone says. -/
def kindOf (src : Source) (f : Form) : Except Failure CommandKind := do
  discard <| f.expectList .command
  match f.headKeyword? with
  | some .moduleKw => return .module (← ScriptModule.ofForm f)
  | some .registerKw => register f
  | some .invokeKw | some .getKw => return .action (← Action.ofForm f)
  | some .assertReturnKw =>
    let a ← action f
    let expected : List Const ← ((f.args.drop 1).mapM Const.ofForm : Except Problem _)
    return .assertReturn a expected
  | some .assertReturnCanonicalNanKw =>
    let a ← action f
    Form.noMore (f.args.drop 1)
    return .assertReturnCanonicalNan a
  | some .assertReturnArithmeticNanKw =>
    let a ← action f
    Form.noMore (f.args.drop 1)
    return .assertReturnArithmeticNan a
  | some .assertTrapKw =>
    let inner ← Form.need .actionOrModule f.span f.args[0]?
    let text ← message f
    if inner.isHeadedBy .moduleKw then return .assertModuleTrap (← ScriptModule.ofForm inner) text
    else return .assertTrap (← Action.ofForm inner) text
  | some .assertExhaustionKw =>
    let a ← action f
    return .assertExhaustion a (← message f)
  | some .assertInvalidKw => onModule .assertInvalid ScriptModule.ofNested f
  | some .assertMalformedKw => onModule .assertMalformed (ScriptModule.ofMalformed src) f
  | some .assertUnlinkableKw => onModule .assertUnlinkable ScriptModule.ofNested f
  | some .assertUninstantiableKw => onModule .assertUninstantiable ScriptModule.ofNested f
  | _ => throw (.problem (f.unexpected .command))

/-- The command of a form that stands alone. -/
def ofForm (src : Source) (f : Form) : Except Failure Command :=
  return ⟨f.span, ← kindOf src f⟩

/-- The command of a row of module fields. -/
def ofFields (first : Form) (others : List Form) : Except Failure Command :=
  return ⟨first.span.join (others.getLast?.getD first).span,
    .module (.text (← Module.ofFields none (first :: others)))⟩

end Command

end WasmText
