import WasmText.Module

/-!
# Scripts

A script is a sequence of commands: modules, names under which later modules import them, actions on
their exports, and assertions on what an action or a module does. Commands run in order.
-/

namespace WasmText

/-- A module as a script gives it. -/
inductive ScriptModule
  | text (module : Module)
  /-- The bytes of a binary module. -/
  | binary (name : Option String) (data : List UInt8)
  /-- Text in string literals, for whoever runs the script to read. -/
  | quote (name : Option String) (text : String)
  /-- The source of a module that is asserted to be malformed, and so is not read. -/
  | source (text : String)
deriving Repr

/-- A use of an export, of a named module or of the last one. -/
inductive Action
  | invoke (moduleName : Option String) (name : String) (args : List Const)
  | get (moduleName : Option String) (name : String)
deriving DecidableEq, Repr

inductive CommandKind
  | module (module : ScriptModule)
  | register (asName : String) (moduleName : Option String)
  | action (action : Action)
  | assertReturn (action : Action) (expected : List Const)
  | assertReturnCanonicalNan (action : Action)
  | assertReturnArithmeticNan (action : Action)
  | assertTrap (action : Action) (message : String)
  | assertModuleTrap (module : ScriptModule) (message : String)
  | assertExhaustion (action : Action) (message : String)
  | assertInvalid (module : ScriptModule) (message : String)
  | assertMalformed (module : ScriptModule) (message : String)
  | assertUnlinkable (module : ScriptModule) (message : String)
  | assertUninstantiable (module : ScriptModule) (message : String)
deriving Repr

/-- A command and the span of its form, or of all its fields. -/
structure Command where
  span : Span
  kind : CommandKind
deriving Repr

structure Script where
  commands : List Command
deriving Repr

namespace ScriptModule

def name : ScriptModule → Option String
  | text m => m.name
  | binary name _ | quote name _ => name
  | source _ => none

/-- White space in Unicode. -/
def isWhite (c : Char) : Bool :=
  let n := c.toNat
  (0x9 ≤ n && n ≤ 0xD) || (0x2000 ≤ n && n ≤ 0x200A) ||
    [0x20, 0x85, 0xA0, 0x1680, 0x2028, 0x2029, 0x202F, 0x205F, 0x3000].contains n

/-- The text to read the module from, unless it is binary or read already. Quoted text is wrapped in
`(module …)` unless it starts like one after white space. -/
def wat? : ScriptModule → Option String
  | source s => some s
  | quote _ s =>
    if "(module".toList.isPrefixOf (s.toList.dropWhile isWhite) then some s
    else some ("(module " ++ s ++ ")")
  | text _ | binary .. => none

end ScriptModule

namespace Action

/-- The export's name. -/
def name : Action → String
  | invoke _ name _ | get _ name => name

end Action

namespace CommandKind

/-- The module that a command holds. -/
def module? : CommandKind → Option ScriptModule
  | module m | assertModuleTrap m _ | assertInvalid m _ | assertMalformed m _
  | assertUnlinkable m _ | assertUninstantiable m _ => some m
  | _ => none

/-- The action that a command holds. -/
def action? : CommandKind → Option Action
  | action a | assertReturn a _ | assertReturnCanonicalNan a | assertReturnArithmeticNan a
  | assertTrap a _ | assertExhaustion a _ => some a
  | _ => none

end CommandKind

end WasmText
