/-!
# Rounding to a binary format

An exact ratio of natural numbers goes to the nearest value of a binary interchange format, to the
one with an even significand from halfway. All is counted in steps: the values of a format between
two powers of two lie one step apart, and below the least normal value the step stays what it is
there. So the bit pattern of a magnitude is the number of steps above the place where its step size
starts, and a significand that rounds up to the next power of two carries into the exponent by
itself.
-/

namespace WasmText

/-- A binary interchange format: the bits of the significand, the leading one among them, and the
bits of the exponent. -/
structure BinaryFormat where
  precision : Nat
  exponentBits : Nat
deriving DecidableEq, Repr

namespace BinaryFormat

def binary32 : BinaryFormat := ⟨24, 8⟩

def binary64 : BinaryFormat := ⟨53, 11⟩

variable (f : BinaryFormat)

/-- The bits of a value: the leading one is not stored, the sign is. -/
def width : Nat := f.precision + f.exponentBits

/-- The exponent of two of the least normal value. -/
def leastExponent : Int := 2 - Nat.pow 2 (f.exponentBits - 1)

/-- The exponent of two of the least step. -/
def leastStep : Int := f.leastExponent - (f.precision - 1)

/-- The pattern of the least normal value. -/
def leastNormal : Nat := Nat.pow 2 (f.precision - 1)

/-- The number of patterns of the exponent. -/
def exponents : Nat := Nat.pow 2 f.exponentBits

/-- The pattern of infinity. -/
def infinity : Nat := (f.exponents - 1) * f.leastNormal

/-- The significand of the canonical NaN: its leading stored bit. -/
def quiet : Nat := Nat.pow 2 (f.precision - 2)

/-- A pattern with the sign bit in front. -/
def withSign (negative : Bool) (magnitude : Nat) : BitVec f.width :=
  BitVec.ofNat f.width ((if negative then Nat.pow 2 (f.width - 1) else 0) + magnitude)

end BinaryFormat

/-- The ratio of two natural numbers; the divisor is positive where a value is meant. -/
structure Ratio where
  num : Nat
  den : Nat
deriving DecidableEq, Repr

namespace Ratio

/-- `m` times a power of `b`. -/
def ofPower (m b : Nat) (e : Int) : Ratio :=
  if 0 ≤ e then ⟨m * Nat.pow b e.toNat, 1⟩ else ⟨m, Nat.pow b (-e).toNat⟩

/-- The ratio in units of `2 ^ q`. -/
def inUnits (v : Ratio) (q : Int) : Ratio :=
  if 0 ≤ q then ⟨v.num, v.den * Nat.pow 2 q.toNat⟩ else ⟨v.num * Nat.pow 2 (-q).toNat, v.den⟩

/-- The nearest natural number, the even one of two. -/
def round (v : Ratio) : Nat :=
  let n := v.num / v.den
  let r := v.num % v.den
  if 2 * r < v.den then n else if v.den < 2 * r then n + 1 else n + n % 2

/-- The exponent of the greatest power of two that is no larger. -/
def log2 (v : Ratio) : Int :=
  let guess : Int := v.num.log2 - v.den.log2
  let u := v.inUnits guess
  if u.den ≤ u.num then guess else guess - 1

/-- The exponent of two of the step at a ratio. -/
def step (v : Ratio) (f : BinaryFormat) : Int :=
  max (v.log2 - (f.precision - 1)) f.leastStep

/-- The pattern that a ratio rounds to; at or past `infinity` if it overflows. -/
def toPattern (v : Ratio) (f : BinaryFormat) : Nat :=
  if v.num = 0 then 0
  else
    let q := v.step f
    (q - f.leastStep).toNat * f.leastNormal + (v.inUnits q).round

end Ratio

end WasmText
