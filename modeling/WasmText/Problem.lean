import WasmText.Numeral.Basic
import WasmText.Opcode
import WasmText.Source.Span

/-!
# Problems

A problem is a cause and the span it is about. Causes are of four kinds: a lexical one is about a
single token, a grammatical one about the shape of a form, one of resolution about a name or index,
and one of typing about immediates and operands. `Cause.message` words each of them.
-/

namespace WasmText

/-- The four kinds of cause. -/
inductive ProblemKind
  | lexical | grammar | resolution | typing
deriving DecidableEq, Repr, Inhabited

namespace ProblemKind

def text : ProblemKind → String
  | lexical => "lexical error"
  | grammar => "syntax error"
  | resolution => "resolution error"
  | typing => "type error"

end ProblemKind

/-- A family of numbered and named entities. -/
inductive Space
  | type | func | table | memory | global | localVar
deriving DecidableEq, Repr, Inhabited

namespace Space

/-- How a space is named in a message. -/
def name : Space → String
  | type => "type"
  | func => "function"
  | table => "table"
  | memory => "memory"
  | global => "global"
  | localVar => "local"

/-- The space that an external kind counts in. -/
def ofExtern : ExternKind → Space
  | .func => func
  | .table => table
  | .memory => memory
  | .global => global

end Space

/-! ## Lexical causes -/

/-- What is wrong with a token. -/
inductive LexCause
  | unexpectedCharacter (shown : String)
  | unknownOperator
  | unknownWord (text : String)
  | numeral (error : NumeralError)
  | emptyIdentifier
  | unterminatedComment
  | unterminatedString
  | unterminatedEscape
  | hexEscape
  | escape (c : Char)
  | unicodeBrace
  | unicodeForm
  | codePoint (digits : String)
  | encoding
deriving DecidableEq, Repr

namespace LexCause

def message : LexCause → String
  | unexpectedCharacter shown => "unexpected character " ++ shown
  | unknownOperator => "unknown operator"
  | unknownWord text => "unexpected keyword \"" ++ text ++ "\""
  | numeral error => error.message
  | emptyIdentifier => "expected identifier after '$'"
  | unterminatedComment => "unterminated block comment"
  | unterminatedString => "unterminated string literal"
  | unterminatedEscape => "unterminated escape sequence"
  | hexEscape => "invalid hex escape"
  | escape c => "invalid escape sequence \\" ++ c.toString
  | unicodeBrace => "expected '\x7b' after \\u"
  | unicodeForm => "malformed unicode escape"
  | codePoint digits => "invalid unicode code point " ++ digits
  | encoding => "invalid UTF-8 encoding"

end LexCause

/-! ## What a form should hold -/

/-- What is expected at a place in a form. -/
inductive Expectation
  | moduleField | funcForm | elemForm | thenForm | endWord | closing
  | valueType | globalType | anyfunc | natural | number | string | constant | list
  | moduleName | importName | exportName | importDescriptor | exportDescriptor
  | offset | instruction | operand | typeUse | label | reference (space : Space)
  | command | action | actionOrModule | module
deriving DecidableEq, Repr

namespace Expectation

def text : Expectation → String
  | moduleField => "a module field"
  | funcForm => "\"(func ...)\""
  | elemForm => "\"(elem ...)\""
  | thenForm => "\"(then ...)\""
  | endWord => "\"end\""
  | closing => "\")\""
  | valueType => "a value type"
  | globalType => "a global type"
  | anyfunc => "\"anyfunc\""
  | natural => "a natural number"
  | number => "a number"
  | string => "a string"
  | constant => "a constant"
  | list => "a list"
  | moduleName => "a module name"
  | importName => "an import name"
  | exportName => "an export name"
  | importDescriptor => "an import descriptor"
  | exportDescriptor => "an export descriptor"
  | offset => "an offset expression"
  | instruction => "an instruction"
  | operand => "a folded operand"
  | typeUse => "a type use"
  | label => "a label"
  | reference space => "a " ++ space.name ++ " index or name"
  | command => "a command"
  | action => "an action"
  | actionOrModule => "an action or module"
  | module => "a module"

end Expectation

/-! ## Causes -/

/-- Why something is refused. What was found is given as it is described in messages. -/
inductive Cause
  | lexical (cause : LexCause)
  -- the shape of forms
  | expected (what : Expectation) (found : String)
  | unexpected (found : String)
  | strayToken (text : String)
  | strayClosing
  | unclosed
  | formsTooDeep
  | instructionsTooDeep
  | severalModules
  | duplicateName (space : Space) (name : String)
  | duplicateExport (name : String)
  | importAfter (kind : ExternKind)
  | severalStarts
  | parameterName
  | elseWithoutIf
  | labelMismatch (found label : String)
  | unexpectedLabel (found : String)
  | encoding
  | natural (text : String)
  | numeral (error : NumeralError)
  -- names and indices
  | undefined (space : Space) (name : String)
  | undefinedLabel (name : String)
  | indexOutOfRange (space : Space) (index count : Nat)
  | typeOutOfRange (index : Nat)
  | labelOutOfRange (count : Nat)
  -- immediates and operands
  | severalResults
  | blockParameters
  | signatureMismatch (written : FuncType) (index : Nat) (declared : FuncType)
  | needsInteger (op : Opcode) (kind : NumeralKind) (text : String)
  | alignNotPower (align : Nat)
  | alignTooLarge (limit : Nat)
  | operandCount (op : Opcode) (arity found : Nat)
  | noValue (operand op : Opcode)
  /-- A cause that the library's user found and worded. -/
  | other (kind : ProblemKind) (message : String)
deriving DecidableEq, Repr

namespace Cause

def kind : Cause → ProblemKind
  | lexical _ => .lexical
  | undefined .. | undefinedLabel _ | indexOutOfRange .. | typeOutOfRange _ | labelOutOfRange _ =>
    .resolution
  | severalResults | blockParameters | signatureMismatch .. | needsInteger .. | alignNotPower _
  | alignTooLarge _ | operandCount .. | noValue .. => .typing
  | other kind _ => kind
  | _ => .grammar

def message : Cause → String
  | lexical cause => cause.message
  | expected what found => "expected " ++ what.text ++ ", found " ++ found
  | unexpected found => "unexpected " ++ found
  | strayToken text => "unexpected token \"" ++ text ++ "\", expected a form \"(...)\""
  | strayClosing => "unexpected \")\""
  | unclosed => "unexpected EOF, expected \")\""
  | formsTooDeep => "expressions nested too deeply"
  | instructionsTooDeep => "instructions nested too deeply"
  | severalModules => "expected a single module"
  | duplicateName space name => "duplicate " ++ space.name ++ " $" ++ name
  | duplicateExport name => "duplicate export \"" ++ name ++ "\""
  | importAfter kind => "import after " ++ (Space.ofExtern kind).name
  | severalStarts => "multiple start sections"
  | parameterName => "unexpected parameter name"
  | elseWithoutIf => "\"else\" without matching \"if\""
  | labelMismatch found label =>
    "mismatching label \"$" ++ found ++ "\", expected \"$" ++ label ++ "\""
  | unexpectedLabel found => "unexpected label \"$" ++ found ++ "\""
  | encoding => "invalid UTF-8 encoding"
  | natural text => "invalid natural number \"" ++ text ++ "\""
  | numeral error => error.message
  | undefined space name => "undefined " ++ space.name ++ " $" ++ name
  | undefinedLabel name => "undefined label $" ++ name
  | indexOutOfRange space index count =>
    space.name ++ " variable out of range: " ++ toString index ++ " (max " ++ toString count ++ ")"
  | typeOutOfRange index => "type variable out of range: " ++ toString index
  | labelOutOfRange count => "label variable out of range (max " ++ toString count ++ ")"
  | severalResults => "multiple result values are not supported"
  | blockParameters => "block parameters are not supported"
  | signatureMismatch written index declared =>
    "type mismatch: signature " ++ written.text ++ " does not match type " ++ toString index ++ " "
      ++ declared.text
  | needsInteger op kind text =>
    op.name ++ " requires an integer literal, found " ++ kind.text ++ " \"" ++ text ++ "\""
  | alignNotPower align => "alignment must be a power of two, found " ++ toString align
  | alignTooLarge limit =>
    "alignment must not be larger than natural alignment (" ++ toString limit ++ ")"
  | operandCount op arity found =>
    op.name ++ " expects " ++ toString arity ++ " operand(s), found " ++ toString found
  | noValue operand op =>
    "type mismatch: operand \"" ++ operand.name ++ "\" of \"" ++ op.name ++ "\" produces no value"
  | other _ message => message

end Cause

/-- A cause and where it was found. -/
structure Problem where
  cause : Cause
  span : Span
deriving DecidableEq, Repr

namespace Problem

def kind (p : Problem) : ProblemKind := p.cause.kind

/-- The words of a problem, without its place. -/
def message (p : Problem) : String := p.cause.message

/-- `line:column: message`. -/
def text (p : Problem) : String := p.span.text ++ ": " ++ p.message

/-- A lexical problem. -/
def lexical (cause : LexCause) (span : Span) : Problem := ⟨.lexical cause, span⟩

end Problem

end WasmText
