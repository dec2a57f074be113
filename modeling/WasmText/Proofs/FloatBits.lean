import WasmText.Proofs.FloatReaders

/-!
# Putting a pattern together

Signs, exponents and mantissas do not overlap, so putting them together adds their numbers
(`BinaryFormat.or_signMask`, `BinaryFormat.or_exponentMask`). A number has the pattern that its
reader gives for it, under the sign of its text, if that is finite (`Numeral.floatBits_number`).
`Numeral.Converts` says what a conversion may answer for a value.
-/

namespace WasmText

open Digit (plain)

namespace BinaryFormat

variable {f : BinaryFormat} {p : Nat}

/-! ## Masks -/

/-- Infinity is the last exponent's first pattern. -/
theorem infinity_add_leastNormal (hf : f.Sound) :
    f.infinity + f.leastNormal = 2 ^ (f.width - 1) := by
  have hprecision := hf.precision
  rw [infinity, width, exponents, leastNormal, Nat.pow_eq, Nat.pow_eq,
    show f.precision + f.exponentBits - 1 = f.exponentBits + (f.precision - 1) by omega, pow_add,
    ← Nat.succ_mul, Nat.succ_eq_add_one, Nat.sub_add_cancel Nat.one_le_two_pow]

/-- Half of all patterns have a sign. -/
theorem two_pow_width (hf : f.Sound) : 2 ^ f.width = 2 * 2 ^ (f.width - 1) := by
  have hprecision := hf.precision
  rw [← pow_succ', Nat.sub_add_cancel (by rw [width]; omega)]

/-- A sign is the highest bit of a pattern. -/
theorem toNat_withSign (hf : f.Sound) (negative : Bool) (hp : p < 2 ^ (f.width - 1)) :
    (f.withSign negative p).toNat = (if negative then 2 ^ (f.width - 1) else 0) + p := by
  have hwidth := two_pow_width hf
  rw [withSign, BitVec.toNat_ofNat, Nat.pow_eq]
  apply Nat.mod_eq_of_lt
  split <;> omega

theorem toNat_ofNat_of_lt (hf : f.Sound) (hp : p < 2 ^ (f.width - 1)) :
    (BitVec.ofNat f.width p).toNat = p := by
  have hwidth := two_pow_width hf
  rw [BitVec.toNat_ofNat]
  exact Nat.mod_eq_of_lt (by omega)

/-- A sign stands above every other pattern. -/
theorem or_signMask (hf : f.Sound) (negative : Bool) (hp : p < 2 ^ (f.width - 1)) :
    (if negative then f.signMask else 0) ||| BitVec.ofNat f.width p = f.withSign negative p := by
  have hwidth := two_pow_width hf
  apply BitVec.eq_of_toNat_eq
  rw [toNat_withSign hf negative hp, BitVec.toNat_or, toNat_ofNat_of_lt hf hp]
  cases negative with
  | true =>
    have hsign : f.signMask.toNat = 2 ^ (f.width - 1) * 1 := by
      rw [signMask, BitVec.toNat_twoPow, Nat.mul_one]
      exact Nat.mod_eq_of_lt (by omega)
    rw [if_pos rfl, if_pos rfl, hsign, ← Nat.two_pow_add_eq_or_of_lt hp, Nat.mul_one]
  | false => simp

/-- The exponent of ones stands above every mantissa. -/
theorem or_exponentMask (hf : f.Sound) (hp : p < f.leastNormal) :
    f.exponentMask ||| BitVec.ofNat f.width p = BitVec.ofNat f.width (f.infinity + p) := by
  have hroom := infinity_add_leastNormal hf
  have hleast : f.leastNormal = 2 ^ (f.precision - 1) := Nat.pow_eq ..
  apply BitVec.eq_of_toNat_eq
  rw [exponentMask, BitVec.toNat_or, toNat_ofNat_of_lt hf (by omega),
    toNat_ofNat_of_lt hf (by omega), toNat_ofNat_of_lt hf (by omega), infinity, Nat.mul_comm,
    hleast]
  exact (Nat.two_pow_add_eq_or_of_lt (hleast ▸ hp) _).symm

/-- The payload of a quiet pattern is one of its fraction. -/
theorem quiet_lt (hf : f.Sound) : 0 < f.quiet ∧ f.quiet < f.leastNormal := by
  have hprecision := hf.precision
  rw [quiet, leastNormal, Nat.pow_eq, Nat.pow_eq]
  exact ⟨by positivity, Nat.pow_lt_pow_right (by decide) (by omega)⟩

/-- The masks of the two formats. -/
example : binary32.signMask.toNat = 0x80000000 ∧ binary32.exponentMask.toNat = 0x7f800000 ∧
    binary32.quietMask.toNat = 0x00400000 ∧ binary32.mantissaMask = 0x007fffff := by
  decide +kernel

/-- A pattern is finite when it is less than that of infinity. -/
theorem isFinite_iff (hf : f.Sound) (hp : p < 2 ^ (f.width - 1)) :
    f.isFinite (BitVec.ofNat f.width p) = true ↔ p < f.infinity := by
  rw [isFinite, decide_eq_true_iff, BitVec.toNat_setWidth, toNat_ofNat_of_lt hf hp,
    Nat.mod_eq_of_lt hp]

theorem nan_eq (hf : f.Sound) : f.nan = BitVec.ofNat f.width (f.infinity + f.quiet) :=
  or_exponentMask hf (quiet_lt hf).2

/-- The pattern that stands for no number is not finite. -/
theorem not_isFinite_nan (hf : f.Sound) : ¬ f.isFinite f.nan = true := by
  have hroom := infinity_add_leastNormal hf
  have hquiet := quiet_lt hf
  rw [nan_eq hf, isFinite_iff hf (by omega)]
  omega

end BinaryFormat

/-! ## Numbers -/

namespace Numeral

/-- What a conversion to `w` bits answers for a number of magnitude `v`: out of range from the
limit on, and below it a pattern as it should be, under the sign that the text has. -/
structure Converts {w : Nat} (text : String) (type : ValType) (limit v : ℚ) (right : Nat → Prop)
    (answer : Except NumeralError (BitVec w)) : Prop where
  outOfRange : answer = .error (.outOfRange text type) ↔ limit ≤ v
  inRange : v < limit → ∃ p bits, answer = .ok bits ∧ right p ∧
    bits.toNat = (if text.toList.head? = some '-' then 2 ^ (w - 1) else 0) + p

variable {f : BinaryFormat} {reader : FloatReader f} {text text' : String}
  {kind kind' : NumeralKind} {type : ValType} {negative hex : Bool} {whole : List Nat}
  {fraction : Option (List Nat)} {exponent : Option Exponent} {body : List Char}

/-- A number is neither infinite nor without a value. -/
theorem number_kind (h : (Magnitude.number hex whole fraction exponent).kind = kind) :
    kind ≠ .inf ∧ kind ≠ .nan := by
  subst h
  unfold Magnitude.kind
  split
  · next heq => cases heq
  · next heq => cases heq
  · decide
  · split <;> decide

/-- A number is answered as its reader reads it, if that is finite. -/
theorem floatBits_number (h : Magnitude.Writes body kind (.number hex whole fraction exponent))
    (hsign : Magnitude.sign text.toList = (negative, body)) (f : BinaryFormat) (type : ValType)
    (reader : FloatReader f) :
    floatBits ⟨kind, text⟩ f type reader =
      if f.isFinite (reader.number (plain body)) then
        .ok ((if negative then f.signMask else 0) ||| reader.number (plain body))
      else .error (.outOfRange text type) := by
  obtain ⟨hinf, hnan⟩ := number_kind (Magnitude.kind_of_writes h)
  rw [floatBits, hsign]
  cases kind with
  | int | float | hexFloat => rfl
  | inf => exact absurd rfl hinf
  | nan => exact absurd rfl hnan

/-- A conversion is right if what its reader reads is. -/
theorem converts_of_number (hf : f.Sound) {p : Nat} {v limit : ℚ} {right : Nat → Prop}
    (h : Reading.Writes text.toList kind ⟨negative, .number hex whole fraction exponent⟩)
    (hbody : Magnitude.Writes body kind (.number hex whole fraction exponent))
    (hsign : Magnitude.sign text.toList = (negative, body))
    (hread : reader.number (plain body) = BitVec.ofNat f.width p)
    (hp : p ≤ f.infinity) (hlimit : f.infinity ≤ p ↔ limit ≤ v)
    (hright : p < f.infinity → right p) :
    Converts text type limit v right (floatBits ⟨kind, text⟩ f type reader) := by
  have hroom := BinaryFormat.infinity_add_leastNormal hf
  have hlt : p < 2 ^ (f.width - 1) := by
    have hpos := f.leastNormal_pos
    omega
  have hanswer := floatBits_number hbody hsign f type reader
  rw [hread, BinaryFormat.or_signMask hf _ hlt,
    if_congr (BinaryFormat.isFinite_iff hf hlt) rfl rfl] at hanswer
  rw [hanswer]
  constructor
  · rw [← hlimit, ← not_lt]
    split <;> simp [*]
  · intro hv
    have hfinite : p < f.infinity := by
      rw [← not_le, hlimit, not_le]
      exact hv
    refine ⟨p, f.withSign negative p, if_pos hfinite, hright hfinite, ?_⟩
    rw [BinaryFormat.toNat_withSign hf negative hlt]
    simp only [← Reading.negative_iff_of_writes h]

/-- What a reader refuses is out of range. -/
theorem floatBits_of_refused (hf : f.Sound)
    (hbody : Magnitude.Writes body kind (.number hex whole fraction exponent))
    (hsign : Magnitude.sign text.toList = (negative, body))
    (hread : reader.number (plain body) = f.nan) (type : ValType) :
    floatBits ⟨kind, text⟩ f type reader = .error (.outOfRange text type) := by
  rw [floatBits_number hbody hsign, hread, if_neg (BinaryFormat.not_isFinite_nan hf)]

/-- Numbers of one sign that are read alike have the same pattern, or none. -/
theorem floatBits_toOption_congr {exponent' : Option Exponent} {body' : List Char}
    (h : Magnitude.Writes body kind (.number hex whole fraction exponent))
    (hsign : Magnitude.sign text.toList = (negative, body))
    (h' : Magnitude.Writes body' kind' (.number hex whole fraction exponent'))
    (hsign' : Magnitude.sign text'.toList = (negative, body'))
    (hread : reader.number (plain body') = reader.number (plain body)) (type : ValType) :
    (floatBits ⟨kind', text'⟩ f type reader).toOption =
      (floatBits ⟨kind, text⟩ f type reader).toOption := by
  rw [floatBits_number h hsign, floatBits_number h' hsign', hread]
  split <;> rfl

/-- Underscores do not matter. -/
theorem floatBits_plain
    (h : Reading.Writes text.toList kind ⟨negative, .number hex whole fraction exponent⟩)
    (f : BinaryFormat) (type : ValType) (reader : FloatReader f) :
    (floatBits ⟨kind, String.ofList (plain text.toList)⟩ f type reader).toOption =
      (floatBits ⟨kind, text⟩ f type reader).toOption := by
  obtain ⟨body, hbody, hsign, hplain⟩ := h.exists_body
  refine floatBits_toOption_congr hbody hsign hbody.filter ?_ (by rw [Digit.plain_plain]) type
  rw [String.toList_ofList, hplain]

end Numeral

end WasmText
