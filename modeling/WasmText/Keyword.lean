/-!
# Keywords

The words that head forms of modules and scripts, and those inside them that are no instruction.
Instruction words such as `block` and `end` are opcodes.
-/

namespace WasmText

/-- A structural keyword. -/
inductive Keyword
  | moduleKw | funcKw | paramKw | resultKw | localKw | typeKw | importKw | exportKw | tableKw
  | memoryKw | globalKw | mutKw | elemKw | dataKw | offsetKw | startKw | thenKw | binaryKw
  | quoteKw | registerKw | invokeKw | getKw | assertReturnKw | assertReturnCanonicalNanKw
  | assertReturnArithmeticNanKw | assertTrapKw | assertExhaustionKw | assertInvalidKw
  | assertMalformedKw | assertUnlinkableKw | assertUninstantiableKw
deriving DecidableEq, Repr, Inhabited

namespace Keyword

def name : Keyword → String
  | .moduleKw => "module"
  | .funcKw => "func"
  | .paramKw => "param"
  | .resultKw => "result"
  | .localKw => "local"
  | .typeKw => "type"
  | .importKw => "import"
  | .exportKw => "export"
  | .tableKw => "table"
  | .memoryKw => "memory"
  | .globalKw => "global"
  | .mutKw => "mut"
  | .elemKw => "elem"
  | .dataKw => "data"
  | .offsetKw => "offset"
  | .startKw => "start"
  | .thenKw => "then"
  | .binaryKw => "binary"
  | .quoteKw => "quote"
  | .registerKw => "register"
  | .invokeKw => "invoke"
  | .getKw => "get"
  | .assertReturnKw => "assert_return"
  | .assertReturnCanonicalNanKw => "assert_return_canonical_nan"
  | .assertReturnArithmeticNanKw => "assert_return_arithmetic_nan"
  | .assertTrapKw => "assert_trap"
  | .assertExhaustionKw => "assert_exhaustion"
  | .assertInvalidKw => "assert_invalid"
  | .assertMalformedKw => "assert_malformed"
  | .assertUnlinkableKw => "assert_unlinkable"
  | .assertUninstantiableKw => "assert_uninstantiable"

/-- Every keyword. -/
def all : List Keyword := [
  .moduleKw, .funcKw, .paramKw, .resultKw, .localKw, .typeKw, .importKw, .exportKw, .tableKw,
  .memoryKw, .globalKw, .mutKw, .elemKw, .dataKw, .offsetKw, .startKw, .thenKw, .binaryKw,
  .quoteKw, .registerKw, .invokeKw, .getKw, .assertReturnKw, .assertReturnCanonicalNanKw,
  .assertReturnArithmeticNanKw, .assertTrapKw, .assertExhaustionKw, .assertInvalidKw,
  .assertMalformedKw, .assertUnlinkableKw, .assertUninstantiableKw]

/-- The keyword that a word spells. -/
def ofName? (s : String) : Option Keyword := all.find? (·.name == s)

/-- Whether a form with this head is a field of a module. -/
def isField : Keyword → Bool
  | .typeKw | .importKw | .funcKw | .tableKw | .memoryKw | .globalKw | .exportKw | .startKw
  | .elemKw | .dataKw => true
  | _ => false

end Keyword

end WasmText
