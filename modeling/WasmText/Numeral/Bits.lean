import WasmText.Numeral.FloatReader

/-!
# Bit patterns of numerals

An integer numeral has a pattern of 32 or 64 bits when its value fits the signed or the unsigned
range. Its digits are read into a word of 64 bits, where each product and each sum is checked, and
the word is compared with the bounds before it is narrowed or negated.

Any numeral has a floating-point pattern unless it rounds to infinity or its NaN payload does not
fit. A pattern is put together from a sign, an exponent and a mantissa. Numbers are left to a
`FloatReader`, which is given their text without sign and underscores, a hexadecimal one always with
an exponent; what it refuses counts as a NaN, and only finite patterns are answered.
-/

namespace WasmText

/-! ## Words -/

namespace Word

/-- The product of two words, if it fits. -/
def mul? (a b : UInt64) : Option UInt64 :=
  if a.toNat * b.toNat < UInt64.size then some (a * b) else none

/-- The sum of two words, if it fits. -/
def add? (a b : UInt64) : Option UInt64 :=
  if a.toNat + b.toNat < UInt64.size then some (a + b) else none

/-- A word as one of half the size, if it fits. -/
def narrow? (a : UInt64) : Option UInt32 :=
  if a.toNat < UInt32.size then some a.toUInt32 else none

/-- The word with one more digit. -/
def push? (base : Nat) (a : UInt64) (c : Char) : Option UInt64 := do
  let d ← Digit.value? base c
  let product ← mul? a (UInt64.ofNat base)
  add? product (UInt64.ofNat d)

/-- The word that a text writes in a base, behind a plus sign or none. There is none without a
digit, with a character that is no digit, or if the number does not fit. -/
def ofChars? (base : Nat) (cs : List Char) : Option UInt64 :=
  let digits := match cs with
    | '+' :: ds => ds
    | ds => ds
  if digits.isEmpty then none else digits.foldlM (push? base) 0

end Word

/-! ## Integers -/

namespace Numeral

/-- The magnitude of an integer without sign and underscores. -/
def magnitude? : List Char → Option UInt64
  | '0' :: 'x' :: cs => Word.ofChars? 16 cs
  | cs => Word.ofChars? 10 cs

/-- The sign and magnitude of an integer numeral. -/
def intParts (n : Numeral) (type : ValType) : Except NumeralError (Bool × UInt64) :=
  if n.kind ≠ .int then .error (.notInteger n.text n.kind)
  else
    let (negative, body) := Magnitude.sign n.text.toList
    match magnitude? (Digit.plain body) with
    | some m => .ok (negative, m)
    | none => .error (.outOfRange n.text type)

/-- The two's complement pattern of an `i32`. -/
def toI32 (n : Numeral) : Except NumeralError (BitVec 32) := do
  let (negative, m) ← n.intParts .i32
  if negative then
    if (1 : UInt64) <<< 31 < m then .error (.outOfRange n.text .i32) else .ok (-m.toUInt32).toBitVec
  else
    match Word.narrow? m with
    | some m => .ok m.toBitVec
    | none => .error (.outOfRange n.text .i32)

/-- The two's complement pattern of an `i64`. -/
def toI64 (n : Numeral) : Except NumeralError (BitVec 64) := do
  let (negative, m) ← n.intParts .i64
  if negative then
    if (1 : UInt64) <<< 63 < m then .error (.outOfRange n.text .i64) else .ok (-m).toBitVec
  else .ok m.toBitVec

end Numeral

/-! ## Floating point -/

namespace BinaryFormat

variable (f : BinaryFormat)

/-- The sign alone. -/
def signMask : BitVec f.width := BitVec.twoPow f.width (f.width - 1)

/-- The exponent of infinity and the NaNs. -/
def exponentMask : BitVec f.width := BitVec.ofNat f.width f.infinity

/-- The leading bit of the mantissa, which makes a NaN quiet. -/
def quietMask : BitVec f.width := BitVec.ofNat f.width f.quiet

/-- The greatest mantissa. -/
def mantissaMask : UInt64 := UInt64.ofNat (f.leastNormal - 1)

/-- The quiet NaN without sign. -/
def nan : BitVec f.width := f.exponentMask ||| f.quietMask

/-- Whether a pattern is below infinity, its sign left aside. -/
def isFinite (bits : BitVec f.width) : Bool := (bits.setWidth (f.width - 1)).toNat < f.infinity

end BinaryFormat

/-- A hexadecimal number with an exponent, zero if it has none. -/
def FloatReader.withExponent (clean : List Char) : List Char :=
  if clean.any (fun c => c == 'p' || c == 'P') then clean else clean ++ ['p', '0']

/-- The pattern of a number without sign and underscores; what is refused is a NaN. -/
def FloatReader.number {f : BinaryFormat} (reader : FloatReader f) (clean : List Char) :
    BitVec f.width :=
  match clean with
  | '0' :: 'x' :: _ => (reader.hexadecimal (String.ofList (withExponent clean))).getD f.nan
  | _ => (reader.decimal (String.ofList clean)).getD f.nan

namespace Numeral

/-- The payload of a NaN, if one is written; it must not be zero and must fit the mantissa. -/
def nanPayload (n : Numeral) (body : List Char) (mantissa : UInt64) :
    Except NumeralError (Option UInt64) :=
  match body with
  | 'n' :: 'a' :: 'n' :: ':' :: '0' :: 'x' :: cs =>
    match Word.ofChars? 16 (Digit.plain cs) with
    | none => .error (.nanPayload n.text)
    | some payload =>
      if payload = 0 ∨ mantissa < payload then .error (.nanPayload n.text) else .ok (some payload)
  | _ => .ok none

/-- The floating-point pattern of a numeral. -/
def floatBits (n : Numeral) (f : BinaryFormat) (type : ValType) (reader : FloatReader f) :
    Except NumeralError (BitVec f.width) :=
  let (negative, body) := Magnitude.sign n.text.toList
  let sign := if negative then f.signMask else 0
  match n.kind with
  | .inf => .ok (sign ||| f.exponentMask)
  | .nan => do
    match ← n.nanPayload body f.mantissaMask with
    | none => .ok (sign ||| f.exponentMask ||| f.quietMask)
    | some payload => .ok (sign ||| f.exponentMask ||| payload.toBitVec.setWidth f.width)
  | .int | .float | .hexFloat =>
    let value := reader.number (Digit.plain body)
    if f.isFinite value then .ok (sign ||| value) else .error (.outOfRange n.text type)

/-- The pattern of an `f32`. -/
def toF32 (n : Numeral) (reader : FloatReader .binary32 := .standard .binary32) :
    Except NumeralError (BitVec 32) := n.floatBits .binary32 .f32 reader

/-- The pattern of an `f64`. -/
def toF64 (n : Numeral) (reader : FloatReader .binary64 := .standard .binary64) :
    Except NumeralError (BitVec 64) := n.floatBits .binary64 .f64 reader

end Numeral

end WasmText
