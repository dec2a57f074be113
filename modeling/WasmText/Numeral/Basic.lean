import WasmText.ValType

/-!
# Numerals

A numeral is an optional sign before `inf`, `nan`, `nan:0x` with a payload, or a number: a whole
part, a fraction after a point and an exponent, the last two optional. Numbers are decimal, or
hexadecimal after `0x`; an exponent is always written in decimal digits. One underscore may stand
between two digits of a run, and only there.

`Reading.ofText?` takes a numeral apart; `Numeral.ofText` keeps its text and says which kind it is,
so that whoever uses the number decides what to make of it.
-/

namespace WasmText

/-- What a numeral denotes, as far as its form tells. -/
inductive NumeralKind
  | int | float | hexFloat | inf | nan
deriving DecidableEq, Repr, Inhabited

namespace NumeralKind

/-- The kind in words. -/
def text : NumeralKind → String
  | int => "integer"
  | float => "float"
  | hexFloat => "hex float"
  | inf => "infinity"
  | nan => "nan"

end NumeralKind

/-- Why a text gives no numeral, or a numeral no bit pattern. -/
inductive NumeralError
  | malformed (text : String)
  | nanPayload (text : String)
  | outOfRange (text : String) (type : ValType)
  | notInteger (text : String) (kind : NumeralKind)
deriving DecidableEq, Repr

namespace NumeralError

def message : NumeralError → String
  | malformed text => "malformed number \"" ++ text ++ "\""
  | nanPayload text => "invalid NaN payload in \"" ++ text ++ "\""
  | outOfRange text type => "constant out of range for " ++ type.name ++ ": \"" ++ text ++ "\""
  | notInteger text kind => "expected an integer, found " ++ kind.text ++ " \"" ++ text ++ "\""

end NumeralError

/-! ## Digits -/

namespace Digit

/-- The value of a digit in a base up to sixteen. -/
def value? (base : Nat) (c : Char) : Option Nat :=
  let v? :=
    if '0' ≤ c ∧ c ≤ '9' then some (c.toNat - '0'.toNat)
    else if 'a' ≤ c ∧ c ≤ 'f' then some (c.toNat - 'a'.toNat + 10)
    else if 'A' ≤ c ∧ c ≤ 'F' then some (c.toNat - 'A'.toNat + 10)
    else none
  v?.filter (· < base)

/-- The digits that go on a run, and the text after it. -/
def more (base : Nat) : List Char → List Nat × List Char
  | [] => ([], [])
  | [c] =>
    match value? base c with
    | some d => ([d], [])
    | none => ([], [c])
  | c :: c₂ :: cs =>
    match value? base c with
    | some d => let (ds, rest) := more base (c₂ :: cs); (d :: ds, rest)
    | none =>
      match value? base c₂ with
      | some d =>
        if c = '_' then let (ds, rest) := more base cs; (d :: ds, rest) else ([], c :: c₂ :: cs)
      | none => ([], c :: c₂ :: cs)

/-- The longest run of digits at the front of a text, and the text after it. -/
def run? (base : Nat) : List Char → Option (List Nat × List Char)
  | [] => none
  | c :: cs => (value? base c).map fun d => let (ds, rest) := more base cs; (d :: ds, rest)

/-- The number that digits write, most significant first. -/
def toNat (base : Nat) (ds : List Nat) : Nat := ds.foldl (fun n d => n * base + d) 0

/-- A text without its underscores. -/
def plain (cs : List Char) : List Char := cs.filter (· != '_')

end Digit

/-! ## The parts of a numeral -/

/-- An exponent as written. -/
structure Exponent where
  negative : Bool
  digits : List Nat
deriving DecidableEq, Repr

/-- A magnitude under the exponent's sign. -/
def Exponent.signed (e : Exponent) (n : Nat) : Int := if e.negative then -n else n

/-- The exponent's value. -/
def Exponent.toInt (e : Exponent) : Int := e.signed (Digit.toNat 10 e.digits)

/-- A numeral without its sign. A point with no digit after it leaves an empty fraction. -/
inductive Magnitude
  | inf
  | nan (payload : Option (List Nat))
  | number (hex : Bool) (whole : List Nat) (fraction : Option (List Nat))
      (exponent : Option Exponent)
deriving DecidableEq, Repr

namespace Magnitude

/-- The base of a number's digits. -/
def base (hex : Bool) : Nat := if hex then 16 else 10

/-- Whether a character starts an exponent. -/
def isMark (hex : Bool) (c : Char) : Bool :=
  if hex then c == 'p' || c == 'P' else c == 'e' || c == 'E'

/-- Whether a sign is a minus, and the text after it. -/
def sign : List Char → Bool × List Char
  | '-' :: cs => (true, cs)
  | '+' :: cs => (false, cs)
  | cs => (false, cs)

/-- The fraction, if a point comes next, and the text after it. -/
def fraction (hex : Bool) : List Char → Option (List Nat) × List Char
  | '.' :: cs =>
    match Digit.run? (base hex) cs with
    | some (ds, rest) => (some ds, rest)
    | none => (some [], cs)
  | cs => (none, cs)

/-- The exponent, if its mark comes next, and the text after it; `none` if no digit follows. -/
def exponent? (hex : Bool) : List Char → Option (Option Exponent × List Char)
  | [] => some (none, [])
  | c :: cs =>
    if isMark hex c then
      let (negative, ds) := sign cs
      (Digit.run? 10 ds).map fun (ds, rest) => (some ⟨negative, ds⟩, rest)
    else some (none, c :: cs)

/-- A whole text as a number, after `0x` if hexadecimal. -/
def number? (hex : Bool) (cs : List Char) : Option Magnitude := do
  let (whole, cs) ← Digit.run? (base hex) cs
  let (frac, cs) := fraction hex cs
  let (exp, cs) ← exponent? hex cs
  if cs.isEmpty then some (.number hex whole frac exp) else none

/-- A whole text as a numeral without sign. -/
def ofChars? : List Char → Option Magnitude
  | ['i', 'n', 'f'] => some .inf
  | ['n', 'a', 'n'] => some (.nan none)
  | 'n' :: 'a' :: 'n' :: ':' :: '0' :: 'x' :: cs =>
    match Digit.run? 16 cs with
    | some (ds, []) => some (.nan (some ds))
    | _ => none
  | '0' :: 'x' :: cs => number? true cs
  | cs => number? false cs

/-- A number is an integer when it has neither point nor exponent. -/
def kind : Magnitude → NumeralKind
  | inf => .inf
  | nan _ => .nan
  | number _ _ none none => .int
  | number hex _ _ _ => if hex then .hexFloat else .float

end Magnitude

/-- A numeral taken apart. -/
structure Reading where
  negative : Bool
  magnitude : Magnitude
deriving DecidableEq, Repr

namespace Reading

def ofChars? (cs : List Char) : Option Reading :=
  let (negative, body) := Magnitude.sign cs
  (Magnitude.ofChars? body).map fun m => ⟨negative, m⟩

/-- The parts of a text that is a numeral. -/
def ofText? (text : String) : Option Reading := ofChars? text.toList

end Reading

/-- A numeral: its text as written, and its kind. -/
structure Numeral where
  kind : NumeralKind
  text : String
deriving DecidableEq, Repr

namespace Numeral

/-- The numeral that a text is. -/
def ofText (text : String) : Except NumeralError Numeral :=
  match Reading.ofText? text with
  | some r => .ok ⟨r.magnitude.kind, text⟩
  | none => .error (.malformed text)

/-- Whether a minus sign is written. -/
def isNegative (n : Numeral) : Bool := n.text.toList.head? == some '-'

end Numeral

end WasmText
