import WasmText.Form
import WasmText.Numeral.Bits
import WasmText.Text.Utf8

/-!
# What forms have to be

Small readers of forms that other readers are made of: an item that has to be there, a place where
nothing may follow, types, names and natural numbers. Each refusal says what was expected, and shows
the form found there or the closing parenthesis.
-/

namespace WasmText

namespace Form

/-- How the end of a list is shown. -/
def closingText : String := "\")\""

/-- An item that has to be there; `span` is its list's. -/
def need (what : Expectation) (span : Span) : Option Form → Except Problem Form
  | some f => .ok f
  | none => .error ⟨.expected what closingText, span⟩

/-- Nothing may follow in the list. -/
def noMore : List Form → Except Problem Unit
  | [] => .ok ()
  | f :: _ => .error (f.unexpected .closing)

/-- The items of a list after its head. -/
def args : Form → List Form
  | atom _ => []
  | list _ items => items.tail

/-- A type that values can have. -/
def valueType (f : Form) : Except Problem ValType :=
  match f.valType? with
  | some type =>
    if type.isValue then .ok type
    else .error ⟨.expected .valueType ("\"" ++ type.name ++ "\""), f.span⟩
  | none => .error (f.unexpected .valueType)

/-- The bytes of a form that has to be a string. -/
def expectBytes (f : Form) : Except Problem (List UInt8) :=
  match f.bytes? with
  | some bytes => .ok bytes
  | none => .error (f.unexpected .string)

/-- The bytes of several strings. -/
def expectAllBytes (fs : List Form) : Except Problem (List UInt8) :=
  List.flatten <$> fs.mapM expectBytes

/-- A string that has to be well-formed text. -/
def expectName (f : Form) : Except Problem String := do
  match Utf8.decode? (← f.expectBytes) with
  | some cs => .ok (String.ofList cs)
  | none => .error ⟨.encoding, f.span⟩

/-- A natural number below `2 ^ 32`, decimal or hexadecimal and without sign. -/
def naturalOfText? (text : String) : Option Nat :=
  if text.toList.head? = some '+' ∨ text.toList.head? = some '-' then none
  else
    match Numeral.ofText text with
    | .ok n => n.toI32.toOption.map BitVec.toNat
    | .error _ => none

/-- The natural number that a text at a span has to be. -/
def natural (text : String) (span : Span) : Except Problem Nat :=
  match naturalOfText? text with
  | some n => .ok n
  | none => .error ⟨.natural text, span⟩

/-- The token of a number. -/
def number? : Form → Option Token
  | atom t =>
    match t.kind with
    | .number _ => some t
    | _ => none
  | list .. => none

/-- Whether this is a name or an integer, as references are written. -/
def isReference : Form → Bool
  | atom ⟨.id _, _, _⟩ | atom ⟨.number .int, _, _⟩ => true
  | _ => false

end Form

end WasmText
