import WasmText.Proofs.CheckedWords
import WasmText.Proofs.DecimalPatterns
import WasmText.Proofs.HexPatterns

/-!
# Signs, infinities and NaNs

A floating-point pattern is a sign, an exponent and a mantissa. An exponent of ones is kept for
infinity, whose mantissa is zero, and for the NaNs, whose mantissa is not; every other exponent is
that of a finite number. A conversion answers with a pattern of the class that the numeral's kind
says, under the sign that its text starts with, and the payload of a NaN is the one that is written
(`Numeral.Shaped`).
-/

namespace WasmText

/-! ## The fields of a pattern -/

namespace FloatPattern

variable {w : Nat} (e m : Nat) (bits : BitVec w)

/-- The exponent: `e` bits above those of the mantissa. -/
def exponent : BitVec e := bits.extractLsb' m e

/-- The mantissa: the lowest `m` bits. -/
def mantissa : BitVec m := bits.extractLsb' 0 m

/-- The exponent is all ones, and the mantissa zero. -/
def IsInfinity : Prop := exponent e m bits = BitVec.allOnes e ∧ mantissa m bits = 0

/-- The exponent is all ones, and the mantissa is not zero. -/
def IsNan : Prop := exponent e m bits = BitVec.allOnes e ∧ mantissa m bits ≠ 0

/-- The exponent is not all ones. -/
def IsFinite : Prop := exponent e m bits ≠ BitVec.allOnes e

end FloatPattern

namespace BinaryFormat

open FloatPattern

variable {f : BinaryFormat} {p : Nat}

/-- The fields of a pattern below a sign. -/
theorem fields_withSign (hf : f.Sound) (negative : Bool) (hp : p < 2 ^ (f.width - 1)) :
    (f.withSign negative p).msb = negative ∧
      (exponent f.exponentBits (f.precision - 1) (f.withSign negative p)).toNat =
        p / f.leastNormal ∧
      (mantissa (f.precision - 1) (f.withSign negative p)).toNat = p % f.leastNormal := by
  have hprecision := hf.precision
  have hleast : 2 ^ (f.precision - 1) = f.leastNormal := (Nat.pow_eq ..).symm
  have hpos := f.leastNormal_pos
  have hhalf : 2 ^ (f.width - 1) = f.leastNormal * 2 ^ f.exponentBits := by
    rw [← hleast, ← pow_add, width]
    congr 1
    omega
  have hbits : (f.withSign negative p).toNat =
      p + f.leastNormal * (2 ^ f.exponentBits * if negative then 1 else 0) := by
    rw [toNat_withSign hf negative hp, hhalf]
    cases negative <;> simp [Nat.add_comm]
  refine ⟨?_, ?_, ?_⟩
  · rw [BitVec.msb_eq_decide, toNat_withSign hf negative hp]
    cases negative <;> simp [hp]
  · rw [exponent, BitVec.extractLsb'_toNat, Nat.shiftRight_eq_div_pow, hbits, hleast,
      Nat.add_mul_div_left _ _ hpos, Nat.add_mul_mod_self_left]
    exact Nat.mod_eq_of_lt (Nat.div_lt_of_lt_mul (hhalf ▸ hp))
  · rw [mantissa, BitVec.extractLsb'_toNat, Nat.shiftRight_zero, hbits, hleast,
      Nat.add_mul_mod_self_left]

/-- The classes of patterns follow one another below the sign: the finite ones, infinity and the
NaNs. -/
theorem class_withSign (hf : f.Sound) (negative : Bool) (hp : p < 2 ^ (f.width - 1)) :
    (IsInfinity f.exponentBits (f.precision - 1) (f.withSign negative p) ↔ p = f.infinity) ∧
    (IsNan f.exponentBits (f.precision - 1) (f.withSign negative p) ↔ f.infinity < p) ∧
    (IsFinite f.exponentBits (f.precision - 1) (f.withSign negative p) ↔ p < f.infinity) := by
  obtain ⟨-, hexponent, hmantissa⟩ := fields_withSign hf negative hp
  have hpos := f.leastNormal_pos
  rw [← infinity_add_leastNormal hf] at hp
  -- an exponent of ones means infinity or more, and the mantissa is then the excess
  have hones : exponent f.exponentBits (f.precision - 1) (f.withSign negative p) =
      BitVec.allOnes f.exponentBits ↔ f.infinity ≤ p := by
    have hlast : p / f.leastNormal < f.exponents - 1 + 1 := by
      rw [Nat.div_lt_iff_lt_mul hpos, Nat.succ_mul]
      exact hp
    rw [← BitVec.toNat_inj, hexponent, BitVec.toNat_allOnes, infinity, ← Nat.le_div_iff_mul_le hpos,
      exponents, Nat.pow_eq]
    rw [exponents, Nat.pow_eq] at hlast
    omega
  have hzero : f.infinity ≤ p →
      (mantissa (f.precision - 1) (f.withSign negative p) = 0 ↔ p = f.infinity) := by
    intro hle
    obtain ⟨r, rfl⟩ := Nat.exists_eq_add_of_le hle
    rw [← BitVec.toNat_inj, hmantissa, infinity, Nat.mul_add_mod_self_right,
      Nat.mod_eq_of_lt (by omega)]
    simp
  rw [IsInfinity, IsNan, IsFinite, ne_eq, ne_eq, hones]
  refine ⟨?_, ?_, not_le⟩
  · constructor
    · rintro ⟨hle, h⟩
      exact (hzero hle).mp h
    · rintro rfl
      exact ⟨le_rfl, (hzero le_rfl).mpr rfl⟩
  · constructor
    · rintro ⟨hle, h⟩
      rw [hzero hle] at h
      omega
    · intro hlt
      rw [hzero hlt.le]
      omega

end BinaryFormat

/-! ## Conversions -/

/-- Some characters write a NaN, bare or with a payload. -/
inductive WritesNan : List Char → Option Nat → Prop
  | bare {ss : List Char} {negative : Bool} (hsign : WritesSign ss negative) :
      WritesNan (ss ++ "nan".toList) none
  | payload {ss cs : List Char} {negative : Bool} {ds : List Nat} (hsign : WritesSign ss negative)
      (h : Digit.Writes 16 cs ds) :
      WritesNan (ss ++ ("nan:0x".toList ++ cs)) (some (Digit.number 16 ds))

namespace Reading

variable {cs : List Char} {r : Reading}

/-- A numeral of the kind is written as a NaN. -/
theorem exists_of_nan (h : Writes cs .nan r) :
    ∃ negative ds, r = ⟨negative, .nan ds⟩ ∧ WritesNan cs (ds.map (Digit.number 16)) := by
  generalize hkind : NumeralKind.nan = kind at h
  obtain ⟨hsign, h⟩ := h
  cases h with
  | nan => exact ⟨_, none, rfl, .bare hsign⟩
  | payload h => exact ⟨_, some _, rfl, .payload hsign h⟩
  | inf => cases hkind
  | decimal | hexadecimal => split at hkind <;> cases hkind

end Reading

/-- A NaN is a numeral of the kind. -/
theorem WritesNan.exists_writes {cs : List Char} {payload : Option Nat} (h : WritesNan cs payload) :
    ∃ negative ds, Reading.Writes cs .nan ⟨negative, .nan ds⟩ ∧
      ds.map (Digit.number 16) = payload := by
  cases h with
  | bare hsign => exact ⟨_, none, .mk hsign .nan, rfl⟩
  | payload hsign h => exact ⟨_, some _, .mk hsign (.payload h), rfl⟩

namespace Magnitude

variable {body : List Char} {kind : NumeralKind} {ds : List Nat}

theorem Writes.eq_of_bare (h : Writes body kind (.nan none)) : body = "nan".toList := by
  cases h
  rfl

theorem Writes.exists_of_payload (h : Writes body kind (.nan (some ds))) :
    ∃ cs, body = "nan:0x".toList ++ cs ∧ Digit.Writes 16 cs ds := by
  cases h with
  | payload h => exact ⟨_, rfl, h⟩

end Magnitude

namespace Numeral

open FloatPattern

/-- What a conversion to `e` bits of exponent and `m` bits of mantissa answers for a text of some
kind. -/
structure Shaped {w : Nat} (e m : Nat) (text : String) (kind : NumeralKind)
    (answer : Except NumeralError (BitVec w)) : Prop where
  sign : ∀ bits, answer = .ok bits → (bits.msb = true ↔ text.toList.head? = some '-')
  infinity : ∀ bits, answer = .ok bits → (IsInfinity e m bits ↔ kind = .inf)
  nan : ∀ bits, answer = .ok bits → (IsNan e m bits ↔ kind = .nan)
  finite : ∀ bits, answer = .ok bits → (IsFinite e m bits ↔ kind ≠ .inf ∧ kind ≠ .nan)
  answered : kind = .inf → ∃ bits, answer = .ok bits
  written : kind = .nan ↔ ∃ payload, WritesNan text.toList payload
  bare : WritesNan text.toList none →
    ∃ bits, answer = .ok bits ∧ (mantissa m bits).toNat = 2 ^ (m - 1)
  payload : ∀ P, WritesNan text.toList (some P) →
    if 1 ≤ P ∧ P < 2 ^ m then ∃ bits, answer = .ok bits ∧ (mantissa m bits).toNat = P
    else answer = .error (.nanPayload text)

variable {f : BinaryFormat} {reader : FloatReader f} {text : String} {kind : NumeralKind}
  {r : Reading} {type : ValType} {negative : Bool} {cs : List Char} {ds : List Nat}

/-! ## Infinities and NaNs -/

theorem floatBits_inf (hf : f.Sound) (hsign : Magnitude.sign text.toList = (negative, cs)) :
    floatBits ⟨.inf, text⟩ f type reader = .ok (f.withSign negative f.infinity) := by
  have hroom := BinaryFormat.infinity_add_leastNormal hf
  have hpos := f.leastNormal_pos
  rw [floatBits, hsign]
  exact congrArg Except.ok (BinaryFormat.or_signMask hf negative (by omega))

theorem floatBits_nan (hf : f.Sound)
    (hsign : Magnitude.sign text.toList = (negative, "nan".toList)) :
    floatBits ⟨.nan, text⟩ f type reader =
      .ok (f.withSign negative (f.infinity + f.quiet)) := by
  have hroom := BinaryFormat.infinity_add_leastNormal hf
  have hquiet := BinaryFormat.quiet_lt hf
  rw [floatBits, hsign, ← BinaryFormat.or_signMask hf negative (by omega),
    ← BinaryFormat.or_exponentMask hf hquiet.2, ← BitVec.or_assoc]
  rfl

/-- A payload is read into a word, and refused if it does not fit that word or the mantissa. -/
theorem nanPayload_of_writes (h : Digit.Writes 16 cs ds) (mantissa : UInt64) :
    nanPayload ⟨.nan, text⟩ ("nan:0x".toList ++ cs) mantissa =
      if 1 ≤ Digit.number 16 ds ∧ Digit.number 16 ds ≤ mantissa.toNat then
        .ok (some (UInt64.ofNat (Digit.number 16 ds)))
      else .error (.nanPayload text) := by
  have hword (w : UInt64) : Word.ofChars? 16 (Digit.plain cs) = some w ↔
      w.toNat = Digit.number 16 ds := Word.ofChars?_iff (by decide) h
  have hbody : "nan:0x".toList ++ cs = 'n' :: 'a' :: 'n' :: ':' :: '0' :: 'x' :: cs := rfl
  rw [hbody, nanPayload]
  cases hread : Word.ofChars? 16 (Digit.plain cs) with
  | none =>
    dsimp only
    rw [if_neg]
    rintro ⟨-, hle⟩
    obtain ⟨w, hw⟩ := Word.exists_toNat (hle.trans_lt mantissa.toNat_lt_size)
    rw [(hword w).mpr hw] at hread
    cases hread
  | some payload =>
    have hpayload := (hword payload).mp hread
    dsimp only
    rw [← hpayload, UInt64.ofNat_toNat]
    have hrefused : payload = 0 ∨ mantissa < payload ↔
        ¬ (1 ≤ payload.toNat ∧ payload.toNat ≤ mantissa.toNat) := by
      rw [← UInt64.toNat_inj, UInt64.lt_iff_toNat_lt, UInt64.toNat_zero]
      omega
    rw [if_congr hrefused rfl rfl, ite_not]

theorem floatBits_payload (hf : f.Sound) (hmask : f.mantissaMask.toNat + 1 = f.leastNormal)
    (h : Digit.Writes 16 cs ds)
    (hsign : Magnitude.sign text.toList = (negative, "nan:0x".toList ++ cs)) :
    floatBits ⟨.nan, text⟩ f type reader =
      if 1 ≤ Digit.number 16 ds ∧ Digit.number 16 ds < f.leastNormal then
        .ok (f.withSign negative (f.infinity + Digit.number 16 ds))
      else .error (.nanPayload text) := by
  have hroom := BinaryFormat.infinity_add_leastNormal hf
  have hiff : 1 ≤ Digit.number 16 ds ∧ Digit.number 16 ds ≤ f.mantissaMask.toNat ↔
      1 ≤ Digit.number 16 ds ∧ Digit.number 16 ds < f.leastNormal := by omega
  rw [floatBits, hsign]
  dsimp only
  rw [nanPayload_of_writes h, if_congr hiff rfl rfl]
  by_cases hfits : 1 ≤ Digit.number 16 ds ∧ Digit.number 16 ds < f.leastNormal
  · rw [if_pos hfits, if_pos hfits, ← BinaryFormat.or_signMask hf negative (by omega),
      ← BinaryFormat.or_exponentMask hf hfits.2, ← BitVec.or_assoc]
    have hsize : Digit.number 16 ds < UInt64.size := by
      have hlt := f.mantissaMask.toNat_lt_size
      omega
    have hpayload : (UInt64.ofNat (Digit.number 16 ds)).toBitVec.setWidth f.width =
        BitVec.ofNat f.width (Digit.number 16 ds) := by
      rw [← BitVec.ofNat_toNat, UInt64.toNat_toBitVec, UInt64.toNat_ofNat_of_lt' hsize]
    rw [← hpayload]
    rfl
  · rw [if_neg hfits, if_neg hfits]
    rfl

/-! ## The class of a pattern -/

/-- What is read for a number is a pattern without sign. -/
theorem exists_number_eq (hf : f.Sound) (hdecimal : reader.RoundsDecimals)
    (hhexadecimal : reader.ReadsHexadecimals) {hex : Bool} {whole : List Nat}
    {fraction : Option (List Nat)} {exponent : Option Exponent} {clean : List Char}
    (h : Magnitude.Writes clean kind (.number hex whole fraction exponent))
    (hplain : '_' ∉ clean) :
    ∃ p < 2 ^ (f.width - 1), reader.number clean = BitVec.ofNat f.width p := by
  have hroom := BinaryFormat.infinity_add_leastNormal hf
  have hquiet := BinaryFormat.quiet_lt hf
  cases hex with
  | false =>
    obtain ⟨p, hp, hread⟩ := hdecimal (String.ofList clean) kind whole fraction exponent
      (by rwa [String.toList_ofList]) (by rwa [String.toList_ofList])
    have hle := hp.le_infinity
    refine ⟨p, by omega, ?_⟩
    rw [FloatReader.number_decimal reader h, hread, Option.getD_some]
  | true =>
    have hhex := FloatReader.isHexadecimal_withExponent h hplain
    rw [FloatReader.number_hexadecimal reader h]
    by_cases hin : -2 ^ 63 ≤ (exponent.getD ⟨false, [0]⟩).written ∧
        (exponent.getD ⟨false, [0]⟩).written < 2 ^ 63
    · obtain ⟨p, hread, hle, -⟩ := hhexadecimal.exists_pattern hf hhex hin
      rw [hread, Option.getD_some]
      exact ⟨p, by omega, rfl⟩
    · rw [hhexadecimal.refused _ _ _ _ hhex hin, Option.getD_none]
      exact ⟨_, by omega, BinaryFormat.nan_eq hf⟩

/-- The pattern below the sign comes before, at or after infinity as the kind says. -/
theorem exists_of_floatBits (hf : f.Sound) (hmask : f.mantissaMask.toNat + 1 = f.leastNormal)
    (hdecimal : reader.RoundsDecimals) (hhexadecimal : reader.ReadsHexadecimals)
    {bits : BitVec f.width} (h : Reading.Writes text.toList kind r)
    (hok : floatBits ⟨kind, text⟩ f type reader = .ok bits) :
    ∃ p, bits = f.withSign r.negative p ∧ p < 2 ^ (f.width - 1) ∧
      (p = f.infinity ↔ kind = .inf) ∧ (f.infinity < p ↔ kind = .nan) := by
  have hroom := BinaryFormat.infinity_add_leastNormal hf
  have hquiet := BinaryFormat.quiet_lt hf
  obtain ⟨negative, m⟩ := r
  obtain ⟨body, hbody, hsign, -⟩ := h.exists_body
  dsimp only at hbody hsign ⊢
  cases m with
  | inf =>
    cases hbody
    cases (floatBits_inf hf hsign).symm.trans hok
    exact ⟨f.infinity, rfl, by omega, by simp, by simp⟩
  | nan payload =>
    cases hbody with
    | nan =>
      cases (floatBits_nan hf hsign).symm.trans hok
      exact ⟨f.infinity + f.quiet, rfl, by omega, by simp; omega, by simp; omega⟩
    | @payload cs ds hds =>
      rw [floatBits_payload hf hmask hds hsign] at hok
      split at hok
      · cases hok
        exact ⟨f.infinity + Digit.number 16 ds, rfl, by omega, by simp; omega, by simp; omega⟩
      · cases hok
  | number hex whole fraction exponent =>
    obtain ⟨hinf, hnan⟩ := number_kind (Magnitude.kind_of_writes hbody)
    obtain ⟨p, hp, hread⟩ := exists_number_eq hf hdecimal hhexadecimal hbody.filter
      (Digit.underscore_notMem_plain body)
    rw [floatBits_number hbody hsign, hread, BinaryFormat.or_signMask hf negative hp] at hok
    split at hok
    · next hfinite =>
      cases hok
      have hlt := (BinaryFormat.isFinite_iff hf hp).mp hfinite
      exact ⟨p, rfl, hp, iff_of_false hlt.ne hinf, iff_of_false hlt.not_gt hnan⟩
    · cases hok

/-- A pattern is of the class that the kind says. -/
theorem class_of_floatBits (hf : f.Sound) (hmask : f.mantissaMask.toNat + 1 = f.leastNormal)
    (hdecimal : reader.RoundsDecimals) (hhexadecimal : reader.ReadsHexadecimals)
    {bits : BitVec f.width} (h : Reading.Writes text.toList kind r)
    (hok : floatBits ⟨kind, text⟩ f type reader = .ok bits) :
    bits.msb = r.negative ∧
      (IsInfinity f.exponentBits (f.precision - 1) bits ↔ kind = .inf) ∧
      (IsNan f.exponentBits (f.precision - 1) bits ↔ kind = .nan) ∧
      (IsFinite f.exponentBits (f.precision - 1) bits ↔ kind ≠ .inf ∧ kind ≠ .nan) := by
  obtain ⟨p, rfl, hp, hinf, hnan⟩ := exists_of_floatBits hf hmask hdecimal hhexadecimal h hok
  obtain ⟨hinfinity, hnans, hfinite⟩ := BinaryFormat.class_withSign hf r.negative hp
  refine ⟨(BinaryFormat.fields_withSign hf r.negative hp).1, hinfinity.trans hinf,
    hnans.trans hnan, hfinite.trans ?_⟩
  rw [ne_eq, ne_eq, ← hinf, ← hnan]
  omega

/-- What a pattern has past infinity is its mantissa. -/
theorem mantissa_withSign (hf : f.Sound) (negative : Bool) {p : Nat} (hp : p < f.leastNormal) :
    (mantissa (f.precision - 1) (f.withSign negative (f.infinity + p))).toNat = p := by
  have hroom := BinaryFormat.infinity_add_leastNormal hf
  rw [(BinaryFormat.fields_withSign hf negative (by omega)).2.2, BinaryFormat.infinity,
    Nat.mul_add_mod_self_right, Nat.mod_eq_of_lt hp]

/-- What is written as a NaN is of that kind. -/
theorem kind_of_writesNan {payload : Option Nat} (h : Reading.Writes text.toList kind r)
    (hnan : WritesNan text.toList payload) : kind = .nan := by
  obtain ⟨negative, ds, hwrites, -⟩ := hnan.exists_writes
  have hsame := (Reading.ofText_of_writes h).symm.trans (Reading.ofText_of_writes hwrites)
  exact congrArg Numeral.kind (Except.ok.inj hsame)

/-- A conversion has the sign, the class and the payload that are written. -/
theorem shaped (hf : f.Sound) (hmask : f.mantissaMask.toNat + 1 = f.leastNormal)
    (hdecimal : reader.RoundsDecimals) (hhexadecimal : reader.ReadsHexadecimals) (type : ValType)
    (h : Reading.Writes text.toList kind r) :
    Shaped f.exponentBits (f.precision - 1) text kind (floatBits ⟨kind, text⟩ f type reader) where
  sign bits hok := by
    rw [(class_of_floatBits hf hmask hdecimal hhexadecimal h hok).1,
      Reading.negative_iff_of_writes h]
  infinity bits hok := (class_of_floatBits hf hmask hdecimal hhexadecimal h hok).2.1
  nan bits hok := (class_of_floatBits hf hmask hdecimal hhexadecimal h hok).2.2.1
  finite bits hok := (class_of_floatBits hf hmask hdecimal hhexadecimal h hok).2.2.2
  answered := by
    rintro rfl
    obtain ⟨body, -, hsign, -⟩ := h.exists_body
    exact ⟨_, floatBits_inf hf hsign⟩
  written := by
    constructor
    · rintro rfl
      obtain ⟨negative, ds, rfl, hnan⟩ := Reading.exists_of_nan h
      exact ⟨_, hnan⟩
    · rintro ⟨payload, hnan⟩
      exact kind_of_writesNan h hnan
  bare hbare := by
    obtain rfl := kind_of_writesNan h hbare
    obtain ⟨negative, ds, hwrites, hds⟩ := hbare.exists_writes
    obtain rfl := Option.map_eq_none_iff.mp hds
    obtain ⟨body, hbody, hsign, -⟩ := hwrites.exists_body
    rw [hbody.eq_of_bare] at hsign
    refine ⟨_, floatBits_nan hf hsign, ?_⟩
    rw [mantissa_withSign hf negative (BinaryFormat.quiet_lt hf).2, BinaryFormat.quiet, Nat.pow_eq,
      Nat.sub_sub]
  payload P hpayload := by
    obtain rfl := kind_of_writesNan h hpayload
    obtain ⟨negative, ds, hwrites, hds⟩ := hpayload.exists_writes
    obtain ⟨ds, rfl, rfl⟩ := Option.map_eq_some_iff.mp hds
    obtain ⟨body, hbody, hsign, -⟩ := hwrites.exists_body
    have hpow : 2 ^ (f.precision - 1) = f.leastNormal := (Nat.pow_eq ..).symm
    obtain ⟨cs, rfl, hdigits⟩ := hbody.exists_of_payload
    rw [floatBits_payload hf hmask hdigits hsign, hpow]
    split
    · next hfits => exact ⟨_, rfl, mantissa_withSign hf negative hfits.2⟩
    · rfl

/-- A conversion that succeeds has the sign of its text, and gives infinity, a NaN or a finite
pattern as the kind says. Infinities always have a pattern. A bare NaN is the quiet one, and one
with a payload has it as its mantissa, if it is not zero and has room. What readers refuse or read
as infinite is never answered. -/
theorem special_patterns (reader32 : FloatReader .binary32) (reader64 : FloatReader .binary64)
    (hdecimal32 : reader32.RoundsDecimals) (hhexadecimal32 : reader32.ReadsHexadecimals)
    (hdecimal64 : reader64.RoundsDecimals) (hhexadecimal64 : reader64.ReadsHexadecimals)
    (text : String) (n : Numeral) (h : ofText text = .ok n) :
    Shaped 8 23 text n.kind (toF32 n reader32) ∧ Shaped 11 52 text n.kind (toF64 n reader64) := by
  obtain ⟨kind, text'⟩ := n
  obtain ⟨htext, r, hr⟩ := ofText_eq_ok_iff.mp h
  obtain rfl : text' = text := htext
  exact ⟨shaped BinaryFormat.sound_binary32 (by decide +kernel) hdecimal32 hhexadecimal32 .f32 hr,
    shaped BinaryFormat.sound_binary64 (by decide +kernel) hdecimal64 hhexadecimal64 .f64 hr⟩

/-- A payload of 24 bits has no room in 23, and has in 52. -/
theorem special_patterns_payload :
    toF32 ⟨.nan, "-nan:0x80_0000"⟩ = .error (.nanPayload "-nan:0x80_0000") ∧
      ∃ bits, toF64 ⟨.nan, "-nan:0x80_0000"⟩ = .ok bits ∧ bits.msb = true ∧ IsNan 11 52 bits ∧
        (mantissa 52 bits).toNat = 0x800000 := by
  have hread : Reading.ofText? "-nan:0x80_0000" =
      some ⟨true, .nan (some [8, 0, 0, 0, 0, 0])⟩ := by
    decide +kernel
  have hwrites := Reading.ofChars?_eq_some_iff.mp hread
  obtain ⟨h32, h64⟩ := special_patterns (.rounding .binary32 Exponent.toInt)
    (.rounding .binary64 Exponent.toInt)
    (FloatReader.rounding_roundsDecimals BinaryFormat.sound_binary32)
    (FloatReader.rounding_readsHexadecimals BinaryFormat.sound_binary32 _)
    (FloatReader.rounding_roundsDecimals BinaryFormat.sound_binary64)
    (FloatReader.rounding_readsHexadecimals BinaryFormat.sound_binary64 _)
    _ _ (Reading.ofText_of_writes hwrites)
  obtain ⟨negative, ds, hds, hnan⟩ := Reading.exists_of_nan hwrites
  cases hds
  have hsmall := h32.payload _ hnan
  have hlarge := h64.payload _ hnan
  rw [if_neg (by decide)] at hsmall
  rw [if_pos (by decide)] at hlarge
  obtain ⟨bits, hbits, hmantissa⟩ := hlarge
  exact ⟨hsmall, bits, hbits, (h64.sign _ hbits).mpr (by decide +kernel),
    (h64.nan _ hbits).mpr rfl, hmantissa⟩

end Numeral

end WasmText
