import WasmText.Proofs.FloatBits

/-!
# Hexadecimal numbers round correctly but for one interval

A hexadecimal number whose exponent fits 64 signed bits is converted to the finite pattern nearest
to its value, as a decimal one is. The exception are the values below the least normal one that
round up to it: they are given the pattern halfway to the next power of two
(`BinaryFormat.ofHex_spec`). An exponent of zero may be left out (`Numeral.hexadecimal_converts`).
-/

namespace WasmText

namespace BinaryFormat

variable {f : BinaryFormat} {v : ℚ} {p : Nat} {whole fraction : List Nat}

/-! ## The interval below the least normal value -/

/-- The least normal value is the power of two that normal values start with. -/
theorem value_leastNormal (hf : f.Sound) : f.value f.leastNormal = 2 ^ f.leastExponent := by
  have hvalue : f.value (0 * f.leastNormal + f.leastNormal) =
      f.leastNormal * 2 ^ (f.leastStep + (0 : ℕ)) := value_step (.inl rfl) (by omega)
  rw [Nat.zero_mul, Nat.zero_add, cast_leastNormal hf, ← zpow_add₀ (by norm_num)] at hvalue
  rw [hvalue, leastStep]
  congr 1
  push_cast
  ring

/-- A number is subnormal when it is less than the least normal value. -/
theorem isSubnormal_iff {m : Nat} (hm : 0 < m) (e : ℤ) :
    f.isSubnormal m e = true ↔ m * (2 : ℚ) ^ e < 2 ^ f.leastExponent := by
  obtain ⟨hlo, hhi⟩ := Ratio.log2_bounds hm
  have hpos : (0 : ℚ) < 2 ^ e := by positivity
  rw [isSubnormal, decide_eq_true_iff]
  constructor
  · intro h
    calc m * (2 : ℚ) ^ e < 2 ^ ((m.log2 : ℤ) + 1) * 2 ^ e := by gcongr
      _ = 2 ^ ((m.log2 : ℤ) + 1 + e) := by rw [← zpow_add₀ (by norm_num)]
      _ ≤ 2 ^ f.leastExponent := zpow_le_zpow_right₀ (by norm_num) (by omega)
  · intro h
    by_contra hge
    have hle : (2 : ℚ) ^ f.leastExponent ≤ m * 2 ^ e :=
      calc (2 : ℚ) ^ f.leastExponent ≤ 2 ^ ((m.log2 : ℤ) + e) :=
            zpow_le_zpow_right₀ (by norm_num) (by omega)
        _ = 2 ^ (m.log2 : ℤ) * 2 ^ e := by rw [← zpow_add₀ (by norm_num)]
        _ ≤ m * 2 ^ e := by gcongr
    linarith

/-- The magnitudes just below the least normal value. -/
def RoundsToNormal (f : BinaryFormat) (v : ℚ) : Prop :=
  f.normalLimit ≤ v ∧ v < 2 ^ f.leastExponent

/-- The pattern at hand where a number carries to a normal one is finite. -/
theorem leastNormal_quiet_lt (hf : f.Sound) : f.leastNormal + f.quiet < f.infinity := by
  obtain ⟨half, hexponents, hhalf, -⟩ := exists_half hf
  have hN := f.leastNormal_pos
  have hquiet : f.quiet ≤ f.leastNormal := Nat.pow_le_pow_right (by decide) (by omega)
  have hinfinity : 3 * f.leastNormal ≤ f.infinity := Nat.mul_le_mul_right _ (by omega)
  omega

/-- The pattern that a format gives a hexadecimal number of magnitude `v`: the nearest one, but for
the magnitudes just below the least normal value. -/
def HexPattern (f : BinaryFormat) (v : ℚ) (p : Nat) : Prop :=
  (f.RoundsToNormal v → p = f.leastNormal + f.quiet) ∧ (¬ f.RoundsToNormal v → f.Nearest v p)

/-- A number in the interval rounds to the least normal value. -/
theorem Rounds.eq_leastNormal (hf : f.Sound) (h : f.Rounds v p) (hv : f.RoundsToNormal v) :
    p = f.leastNormal := by
  have hge := (leastNormal_le_iff hf h).mpr hv.1
  have hle := h.le_of_lt_value (hv.2.trans_eq (value_leastNormal hf).symm)
  omega

/-- Every number rounds to some pattern. -/
theorem exists_rounds (hf : f.Sound) {m b : Nat} (hb : 0 < b) (e : ℤ) :
    ∃ p, f.Rounds (m * (b : ℚ) ^ e) p := by
  obtain ⟨hvalue, hden⟩ := Ratio.value_ofPower m hb e
  have hrounds := Ratio.toPattern_rounds hf hden
  rw [hvalue] at hrounds
  exact ⟨_, hrounds⟩

/-- The interval is what carries into the least normal value. -/
theorem carriesToNormal_iff (hf : f.Sound) (hv : ∃ p, f.Rounds v p) :
    f.CarriesToNormal v ↔ f.RoundsToNormal v := by
  obtain ⟨p, hp⟩ := hv
  constructor
  · rintro ⟨-, hlt, hrounds⟩
    exact ⟨(leastNormal_le_iff hf hrounds).mp le_rfl, hlt⟩
  · intro h
    refine ⟨?_, h.2, (hp.eq_leastNormal hf h) ▸ hp⟩
    have hprecision := hf.precision
    have hstep : (2 : ℚ) ^ (f.leastStep - 1) ≤ 2 ^ (f.leastExponent - 1) :=
      zpow_le_zpow_right₀ (by norm_num) (by rw [leastStep]; omega)
    have hhalf : (2 : ℚ) ^ f.leastExponent = 2 * 2 ^ (f.leastExponent - 1) := by
      rw [← zpow_one_add₀ (by norm_num), add_sub_cancel]
    have hlo := h.1
    rw [normalLimit] at hlo
    linarith

/-- Of the numbers that round to the least normal value those below it are given another pattern. -/
theorem ofHex_spec (hf : f.Sound) (hwhole : ∀ d ∈ whole, d < 16)
    (hfraction : ∀ d ∈ fraction, d < 16) (e : ℤ) :
    (f.RoundsToNormal (Digit.exact 16 2 whole fraction e) →
      f.ofHex whole fraction e = f.leastNormal + f.quiet) ∧
    (¬ f.RoundsToNormal (Digit.exact 16 2 whole fraction e) →
      f.Fits (Digit.exact 16 2 whole fraction e) (f.ofHex whole fraction e)) := by
  have hlt : Digit.toNat 16 (whole ++ fraction) < 2 ^ (4 * (whole.length + fraction.length)) := by
    rw [pow_mul]
    exact Digit.toNat_append_lt (by decide) hwhole hfraction
  have hfits := ofScaled_fits hf le_rfl hlt (e - 4 * fraction.length)
  rw [Digit.exact_eq (by decide : 2 ^ 4 = 16) (by decide)]
  rw [ofHex]
  push_cast at hfits ⊢
  generalize hm : Digit.toNat 16 (whole ++ fraction) = m at hfits ⊢
  generalize hbits : f.ofScaled m 2 (4 * (whole.length + fraction.length))
    (e - 4 * fraction.length) = bits at hfits ⊢
  have hnormal := leastNormal_quiet_lt hf
  -- zero has another pattern than the least normal value
  have hpos : bits = f.leastNormal → 0 < m := by
    rintro rfl
    by_contra hzero
    have hN := f.leastNormal_pos
    rw [ofScaled, if_pos (by omega)] at hbits
    omega
  constructor
  · intro hin
    obtain ⟨q, hq, hbits'⟩ := hfits
    have hleast := hq.eq_leastNormal hf hin
    obtain rfl : bits = f.leastNormal := by omega
    rw [if_pos ⟨rfl, (isSubnormal_iff (hpos rfl) _).mpr hin.2⟩]
  · intro hout
    rw [if_neg]
    · exact hfits
    · rintro ⟨rfl, hsub⟩
      exact hout ⟨(leastNormal_le_iff hf (hfits.rounds (by omega))).mp le_rfl,
        (isSubnormal_iff (hpos rfl) _).mp hsub⟩

theorem hexPattern_binary32 (v : ℚ) : binary32.HexPattern v = fun p =>
    ((2 : ℚ) ^ (-126 : ℤ) - 2 ^ (-150 : ℤ) ≤ v ∧ v < 2 ^ (-126 : ℤ) → p = 0x00c00000) ∧
    (¬ ((2 : ℚ) ^ (-126 : ℤ) - 2 ^ (-150 : ℤ) ≤ v ∧ v < 2 ^ (-126 : ℤ)) →
      binary32.Nearest v p) := rfl

theorem hexPattern_binary64 (v : ℚ) : binary64.HexPattern v = fun p =>
    ((2 : ℚ) ^ (-1022 : ℤ) - 2 ^ (-1075 : ℤ) ≤ v ∧ v < 2 ^ (-1022 : ℤ) →
      p = 0x0018000000000000) ∧
    (¬ ((2 : ℚ) ^ (-1022 : ℤ) - 2 ^ (-1075 : ℤ) ≤ v ∧ v < 2 ^ (-1022 : ℤ)) →
      binary64.Nearest v p) := rfl

end BinaryFormat

/-! ## Readers -/

namespace FloatReader

variable {f : BinaryFormat} {text : String} {whole : List Nat} {fraction : Option (List Nat)}
  {exponent : Exponent}

/-- What is written carries to a normal number when its value rounds to one. -/
theorem carriesToNormal_exact_iff (hf : f.Sound) (whole fraction : List Nat) (e : ℤ) :
    f.CarriesToNormal (Digit.exact 16 2 whole fraction e) ↔
      f.RoundsToNormal (Digit.exact 16 2 whole fraction e) := by
  rw [Digit.exact_eq (by decide : 2 ^ 4 = 16) (by decide)]
  exact BinaryFormat.carriesToNormal_iff hf (BinaryFormat.exists_rounds hf (by decide) _)

/-- Exponents are kept in 64 bits. -/
theorem fits_iff (e : ℤ) : Exponent.fits e = true ↔ -2 ^ 63 ≤ e ∧ e < 2 ^ 63 := by
  rw [Exponent.fits, Bool.and_eq_true, decide_eq_true_iff, decide_eq_true_iff]
  norm_num

/-- A text without sign is read as its digits say. -/
theorem rounding_hexadecimal (f : BinaryFormat) (exponentOfTen : Exponent → ℤ)
    (h : IsHexadecimal text whole fraction exponent) :
    (rounding f exponentOfTen).hexadecimal text =
      if Exponent.fits exponent.written = true then
        some (BitVec.ofNat f.width
          (min (f.ofHex whole (fraction.getD []) exponent.written) f.infinity))
      else none := by
  have hwrites : Reading.Writes text.toList .hexFloat
      ⟨false, .number true whole fraction (some exponent)⟩ :=
    show Reading.Writes ([] ++ text.toList) _ _ from .mk .none h.writes
  simp only [rounding, Reading.ofText?_of_writes hwrites, BinaryFormat.withSign,
    Bool.false_eq_true, if_false, Nat.zero_add, exponent.toInt_eq_written]

theorem rounding_readsHexadecimals (hf : f.Sound) (exponentOfTen : Exponent → ℤ) :
    (rounding f exponentOfTen).ReadsHexadecimals := by
  have hspec {text : String} {whole : List Nat} {fraction : Option (List Nat)}
      {exponent : Exponent} (h : IsHexadecimal text whole fraction exponent) :=
    BinaryFormat.ofHex_spec hf (Reading.Writes.mk .none h.writes).digits_lt.1
      (Reading.Writes.mk .none h.writes).digits_lt.2 exponent.written
  constructor
  · intro text whole fraction exponent h hout
    rw [rounding_hexadecimal f exponentOfTen h, if_neg (mt (fits_iff _).mp hout)]
  · intro text whole fraction exponent h hin hcarries
    rw [carriesToNormal_exact_iff hf] at hcarries
    refine ⟨_, ((hspec h).2 hcarries).isRounding, ?_⟩
    rw [rounding_hexadecimal f exponentOfTen h, if_pos ((fits_iff _).mpr hin)]
  · intro text whole fraction exponent h hin hcarries
    rw [carriesToNormal_exact_iff hf] at hcarries
    have hnormal := BinaryFormat.leastNormal_quiet_lt hf
    rw [rounding_hexadecimal f exponentOfTen h, if_pos ((fits_iff _).mpr hin), (hspec h).1 hcarries,
      Nat.min_eq_left hnormal.le]

/-- What a reader that follows the law reads is the pattern of the magnitude, or infinity's. -/
theorem ReadsHexadecimals.exists_pattern (hf : f.Sound) {reader : FloatReader f}
    (hreader : reader.ReadsHexadecimals) (h : IsHexadecimal text whole fraction exponent)
    (hin : -2 ^ 63 ≤ exponent.written ∧ exponent.written < 2 ^ 63) :
    let v := Digit.exact 16 2 whole (fraction.getD []) exponent.written
    ∃ p, reader.hexadecimal text = some (BitVec.ofNat f.width p) ∧ p ≤ f.infinity ∧
      (f.infinity ≤ p ↔ f.limit ≤ v) ∧ (p < f.infinity → f.HexPattern v p) := by
  intro v
  have hiff : f.CarriesToNormal v ↔ f.RoundsToNormal v := carriesToNormal_exact_iff hf ..
  by_cases hcarries : f.CarriesToNormal v
  · have hnormal := BinaryFormat.leastNormal_quiet_lt hf
    refine ⟨_, hreader.carries _ _ _ _ h hin hcarries, hnormal.le, ?_, fun _ =>
      ⟨fun _ => rfl, fun hout => absurd (hiff.mp hcarries) hout⟩⟩
    rw [← BinaryFormat.infinity_le_iff hf hcarries.2.2]
    omega
  · obtain ⟨p, hp, hread⟩ := hreader.rounds _ _ _ _ h hin hcarries
    exact ⟨p, hread, hp.le_infinity, hp.infinity_le_iff hf, fun hlt =>
      ⟨fun hnormal => absurd (hiff.mpr hnormal) hcarries, fun _ => (hp.rounds hlt).nearest hlt⟩⟩

end FloatReader

/-! ## Conversions -/

namespace Numeral

variable {f : BinaryFormat} {reader : FloatReader f} {text : String} {kind : NumeralKind}
  {negative : Bool} {whole : List Nat} {fraction : Option (List Nat)} {exponent : Option Exponent}

/-- An exponent that is not written is zero. -/
theorem written_getD (exponent : Option Exponent) :
    (exponent.getD ⟨false, [0]⟩).written = exponent.elim 0 Exponent.written := by
  cases exponent <;> rfl

theorem converts_hexadecimal (hf : f.Sound) (hreader : reader.ReadsHexadecimals)
    (h : Reading.Writes text.toList kind ⟨negative, .number true whole fraction exponent⟩)
    (hin : -2 ^ 63 ≤ exponent.elim 0 Exponent.written ∧ exponent.elim 0 Exponent.written < 2 ^ 63)
    (type : ValType) :
    Converts text type f.limit
      (Digit.exact 16 2 whole (fraction.getD []) (exponent.elim 0 Exponent.written))
      (f.HexPattern (Digit.exact 16 2 whole (fraction.getD []) (exponent.elim 0 Exponent.written)))
      (floatBits ⟨kind, text⟩ f type reader) := by
  obtain ⟨body, hbody, hsign, -⟩ := h.exists_body
  have hhex := FloatReader.isHexadecimal_withExponent hbody.filter
    (Digit.underscore_notMem_plain body)
  rw [← written_getD] at hin ⊢
  obtain ⟨p, hread, hp, hlimit, hpattern⟩ := hreader.exists_pattern hf hhex hin
  refine converts_of_number hf h hbody hsign ?_ hp hlimit hpattern
  rw [FloatReader.number_hexadecimal reader hbody.filter, hread, Option.getD_some]

/-- A conversion fails where the exponent is too large to be read. -/
theorem floatBits_of_large_exponent (hf : f.Sound) (hreader : reader.ReadsHexadecimals)
    (h : Reading.Writes text.toList kind ⟨negative, .number true whole fraction exponent⟩)
    (hout : ¬ (-2 ^ 63 ≤ exponent.elim 0 Exponent.written ∧
      exponent.elim 0 Exponent.written < 2 ^ 63)) (type : ValType) :
    floatBits ⟨kind, text⟩ f type reader = .error (.outOfRange text type) := by
  obtain ⟨body, hbody, hsign, -⟩ := h.exists_body
  have hhex := FloatReader.isHexadecimal_withExponent hbody.filter
    (Digit.underscore_notMem_plain body)
  rw [← written_getD] at hout
  refine floatBits_of_refused hf hbody hsign ?_ type
  rw [FloatReader.number_hexadecimal reader hbody.filter, hreader.refused _ _ _ _ hhex hout,
    Option.getD_none]

/-- A hexadecimal number without exponent may be given the exponent zero, behind the same sign. -/
theorem exists_body_append {cs : List Char}
    (h : Reading.Writes cs kind ⟨negative, .number true whole fraction none⟩) :
    ∃ body, Magnitude.Writes body kind (.number true whole fraction none) ∧
      Magnitude.sign cs = (negative, body) ∧
      Magnitude.sign (cs ++ ['p', '0']) = (negative, body ++ ['p', '0']) ∧
      Reading.Writes (cs ++ ['p', '0']) .hexFloat
        ⟨negative, .number true whole fraction (some ⟨false, [0]⟩)⟩ := by
  obtain ⟨hsign, h⟩ := h
  have hzero := FloatReader.withExponent_writes h
  rw [FloatReader.withExponent_of_none h] at hzero
  rw [List.append_assoc]
  exact ⟨_, h, sign_of_writes hsign h.head_ne_sign, sign_of_writes hsign hzero.head_ne_sign,
    .mk hsign hzero⟩

/-- The two are handed to the reader alike. -/
theorem number_append_exponent (reader : FloatReader f) {body : List Char}
    (h : Magnitude.Writes body kind (.number true whole fraction none)) :
    reader.number (Digit.plain (body ++ ['p', '0'])) = reader.number (Digit.plain body) := by
  have hzero := FloatReader.withExponent_writes h.filter
  rw [FloatReader.withExponent_of_none h.filter] at hzero
  have hplain : Digit.plain (body ++ ['p', '0']) = Digit.plain body ++ ['p', '0'] := by
    rw [Digit.plain_append]
    rfl
  have hsame : FloatReader.withExponent (Digit.plain body ++ ['p', '0']) =
      Digit.plain body ++ ['p', '0'] := if_pos (by simp)
  rw [hplain, FloatReader.number_hexadecimal reader hzero, hsame,
    FloatReader.number_hexadecimal reader h.filter, FloatReader.withExponent_of_none h.filter]

theorem floatBits_append_exponent
    (h : Reading.Writes text.toList kind ⟨negative, .number true whole fraction none⟩)
    (f : BinaryFormat) (type : ValType) (reader : FloatReader f) :
    ofText (text ++ "p0") = .ok ⟨.hexFloat, text ++ "p0"⟩ ∧
      (floatBits ⟨.hexFloat, text ++ "p0"⟩ f type reader).toOption =
        (floatBits ⟨kind, text⟩ f type reader).toOption := by
  obtain ⟨body, hbody, hsign, hsign', hwrites⟩ := exists_body_append h
  have htext : (text ++ "p0").toList = text.toList ++ ['p', '0'] := String.toList_append
  rw [← htext] at hsign' hwrites
  obtain ⟨body', hbody', hsign'', -⟩ := hwrites.exists_body
  obtain rfl : body ++ ['p', '0'] = body' := (Prod.mk.inj (hsign'.symm.trans hsign'')).2
  exact ⟨Reading.ofText_of_writes hwrites, floatBits_toOption_congr hbody hsign hbody' hsign'
    (number_append_exponent reader hbody) type⟩

/-- A hexadecimal number whose exponent fits 64 signed bits is converted in each format to the
finite pattern nearest to its value, ties going to the even one, with the sign of the text, but for
the values just below the least normal one. It is out of range just if it rounds past the greatest
value, or if its exponent does not fit. Neither its underscores nor an exponent of zero matter. All
that is asked of the readers of the two formats is their law for texts without sign and underscores
and with an exponent. -/
theorem hexadecimal_converts (reader32 : FloatReader .binary32) (reader64 : FloatReader .binary64)
    (h32 : reader32.ReadsHexadecimals) (h64 : reader64.ReadsHexadecimals) (text : String)
    (kind : NumeralKind) (negative : Bool) (whole : List Nat) (fraction : Option (List Nat))
    (exponent : Option Exponent)
    (h : Reading.Writes text.toList kind ⟨negative, .number true whole fraction exponent⟩) :
    let e := exponent.elim 0 Exponent.written
    let v := Digit.exact 16 2 whole (fraction.getD []) e
    let plain := String.ofList (text.toList.filter (· != '_'))
    ofText text = .ok ⟨kind, text⟩ ∧
    (¬ (-2 ^ 63 ≤ e ∧ e < 2 ^ 63) →
      toF32 ⟨kind, text⟩ reader32 = .error (.outOfRange text .f32) ∧
      toF64 ⟨kind, text⟩ reader64 = .error (.outOfRange text .f64)) ∧
    (-2 ^ 63 ≤ e ∧ e < 2 ^ 63 →
      Converts text .f32 (2 ^ 128 - 2 ^ 103) v
        (fun p =>
          ((2 : ℚ) ^ (-126 : ℤ) - 2 ^ (-150 : ℤ) ≤ v ∧ v < 2 ^ (-126 : ℤ) → p = 0x00c00000) ∧
          (¬ ((2 : ℚ) ^ (-126 : ℤ) - 2 ^ (-150 : ℤ) ≤ v ∧ v < 2 ^ (-126 : ℤ)) →
            BinaryFormat.binary32.Nearest v p))
        (toF32 ⟨kind, text⟩ reader32) ∧
      Converts text .f64 (2 ^ 1024 - 2 ^ 970) v
        (fun p =>
          ((2 : ℚ) ^ (-1022 : ℤ) - 2 ^ (-1075 : ℤ) ≤ v ∧ v < 2 ^ (-1022 : ℤ) →
            p = 0x0018000000000000) ∧
          (¬ ((2 : ℚ) ^ (-1022 : ℤ) - 2 ^ (-1075 : ℤ) ≤ v ∧ v < 2 ^ (-1022 : ℤ)) →
            BinaryFormat.binary64.Nearest v p))
        (toF64 ⟨kind, text⟩ reader64)) ∧
    (ofText plain = .ok ⟨kind, plain⟩ ∧
      (toF32 ⟨kind, plain⟩ reader32).toOption = (toF32 ⟨kind, text⟩ reader32).toOption ∧
      (toF64 ⟨kind, plain⟩ reader64).toOption = (toF64 ⟨kind, text⟩ reader64).toOption) ∧
    (exponent = none →
      ofText (text ++ "p0") = .ok ⟨.hexFloat, text ++ "p0"⟩ ∧
      (toF32 ⟨.hexFloat, text ++ "p0"⟩ reader32).toOption =
        (toF32 ⟨kind, text⟩ reader32).toOption ∧
      (toF64 ⟨.hexFloat, text ++ "p0"⟩ reader64).toOption =
        (toF64 ⟨kind, text⟩ reader64).toOption) := by
  intro e v plain
  refine ⟨Reading.ofText_of_writes h, ?_, ?_,
    ⟨Reading.ofText_plain h, floatBits_plain h _ _ _, floatBits_plain h _ _ _⟩, ?_⟩
  · intro hout
    exact ⟨floatBits_of_large_exponent BinaryFormat.sound_binary32 h32 h hout .f32,
      floatBits_of_large_exponent BinaryFormat.sound_binary64 h64 h hout .f64⟩
  · intro hin
    rw [← BinaryFormat.hexPattern_binary32, ← BinaryFormat.hexPattern_binary64,
      ← BinaryFormat.limit_binary32, ← BinaryFormat.limit_binary64]
    exact ⟨converts_hexadecimal BinaryFormat.sound_binary32 h32 h hin .f32,
      converts_hexadecimal BinaryFormat.sound_binary64 h64 h hin .f64⟩
  · rintro rfl
    obtain ⟨hnumeral, hbits⟩ := floatBits_append_exponent h .binary32 .f32 reader32
    exact ⟨hnumeral, hbits, (floatBits_append_exponent h .binary64 .f64 reader64).2⟩

/-- A value just below the least normal one is given half as much again. -/
theorem hexadecimal_converts_below_normal :
    toF32 ⟨.hexFloat, "-0x0.ffff_ffffp-126"⟩ (.standard .binary32) = .ok 0x80c00000 := by
  have hread : Reading.ofText? "-0x0.ffff_ffffp-126" =
      some ⟨true, .number true [0] (some (List.replicate 8 15)) (some ⟨true, [1, 2, 6]⟩)⟩ := by
    decide +kernel
  have hwrites := Reading.ofChars?_eq_some_iff.mp hread
  obtain ⟨-, -, hconverts, -⟩ := hexadecimal_converts (.standard .binary32) (.standard .binary64)
    (FloatReader.rounding_readsHexadecimals BinaryFormat.sound_binary32 _)
    (FloatReader.rounding_readsHexadecimals BinaryFormat.sound_binary64 _) _ _ _ _ _ _ hwrites
  have hexponent : (some ⟨true, [1, 2, 6]⟩ : Option Exponent).elim 0 Exponent.written = -126 := by
    decide
  have hvalue : Digit.exact 16 2 [0] ((some (List.replicate 8 15)).getD []) (-126) =
      (2 ^ 32 - 1) / 2 ^ 32 * 2 ^ (-126 : ℤ) := by
    norm_num [Digit.exact, Digit.number, Nat.ofDigits, List.replicate]
  rw [hexponent, hvalue] at hconverts
  obtain ⟨p, bits, hbits, ⟨hpattern, -⟩, hsign⟩ := (hconverts (by norm_num)).1.inRange (by norm_num)
  have hp : p = 0x00c00000 := hpattern ⟨by norm_num, by norm_num⟩
  have hhead : "-0x0.ffff_ffffp-126".toList.head? = some '-' := by decide +kernel
  rw [if_pos hhead, hp] at hsign
  refine hbits.trans (congrArg Except.ok ?_)
  exact BitVec.eq_of_toNat_eq hsign

end Numeral

end WasmText
