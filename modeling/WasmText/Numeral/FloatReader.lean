import WasmText.Numeral.Basic
import WasmText.Numeral.Rounding

/-!
# Readers of floating-point numbers

How the digits of a floating-point number become a pattern is not settled here. A `FloatReader` does
that, with one function for decimal texts and one for hexadecimal ones, and whoever converts a
numeral names the reader. The texts that it is given have neither a sign nor underscores.

`FloatReader.rounding` is a reader to run the library with. It rounds to the nearest value, ties to
even, with two rules of its own for hexadecimal texts: their exponent must fit 64 signed bits, also
before a zero, and a magnitude below the least normal value that rounds up to it is given one and a
half times that value. `FloatReader.standard` reads the digits of a decimal exponent until it
reaches `65536`, so that `1e655360` is read as `1e65536`: a difference only where a fraction of
about as many digits stands before it.
-/

namespace WasmText

/-- What reads numbers in a format, decimal and hexadecimal; `none` where it refuses a text. -/
structure FloatReader (f : BinaryFormat) where
  decimal : String → Option (BitVec f.width)
  hexadecimal : String → Option (BitVec f.width)

namespace BinaryFormat

variable (f : BinaryFormat)

/-- The pattern of `m * b ^ e`, where `m < b ^ size`. An exponent beyond the format's settles the
answer by itself, and the power is not computed. -/
def ofScaled (m b size : Nat) (e : Int) : Nat :=
  if m = 0 then 0
  else if f.exponents ≤ e then f.infinity
  else if e + size ≤ -f.exponents then 0
  else (Ratio.ofPower m b e).toPattern f

/-- The pattern of a decimal number. -/
def ofDecimal (whole fraction : List Nat) (e : Int) : Nat :=
  f.ofScaled (Digit.toNat 10 (whole ++ fraction)) 10 (whole.length + fraction.length)
    (e - fraction.length)

/-- Whether `m * 2 ^ e` is below the least normal value. -/
def isSubnormal (m : Nat) (e : Int) : Bool := (m.log2 : Int) + e < f.leastExponent

/-- The pattern of a hexadecimal number: rounding up to the least normal value lands halfway to the
next power of two. -/
def ofHex (whole fraction : List Nat) (e : Int) : Nat :=
  let m := Digit.toNat 16 (whole ++ fraction)
  let e := e - 4 * fraction.length
  let bits := f.ofScaled m 2 (4 * (whole.length + fraction.length)) e
  if bits = f.leastNormal ∧ f.isSubnormal m e then bits + f.quiet else bits

end BinaryFormat

namespace Exponent

/-- Whether an exponent fits 64 signed bits. -/
def fits (e : Int) : Bool := -0x8000000000000000 ≤ e && e < 0x8000000000000000

/-- The exponent's value when its digits are read only until they reach a limit: the digits left
over then do not count. -/
def toIntUntil (limit : Nat) (e : Exponent) : Int :=
  e.signed (e.digits.foldl (fun n d => if n < limit then n * 10 + d else n) 0)

end Exponent

namespace FloatReader

/-- The reader that rounds to the nearest value, where a decimal exponent has the value that
`exponentOfTen` gives it. -/
def rounding (f : BinaryFormat) (exponentOfTen : Exponent → Int) : FloatReader f where
  decimal text :=
    match Reading.ofText? text with
    | some ⟨negative, .number false whole fraction exponent⟩ =>
      let bits := f.ofDecimal whole (fraction.getD []) (exponent.elim 0 exponentOfTen)
      some (f.withSign negative (min bits f.infinity))
    | _ => none
  hexadecimal text :=
    match Reading.ofText? text with
    | some ⟨negative, .number true whole fraction (some e)⟩ =>
      if Exponent.fits e.toInt then
        some (f.withSign negative (min (f.ofHex whole (fraction.getD []) e.toInt) f.infinity))
      else none
    | _ => none

/-- The reader that conversions use if none is named. -/
def standard (f : BinaryFormat) : FloatReader f := rounding f (Exponent.toIntUntil 0x10000)

end FloatReader

end WasmText
