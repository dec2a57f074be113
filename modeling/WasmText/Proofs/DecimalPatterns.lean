import WasmText.Proofs.FloatBits

/-!
# Decimal numbers round correctly

A decimal number is converted to the finite pattern nearest to its value, and is out of range where
the greatest value and the infinity after it are equally near (`Numeral.decimal_converts`), by any
reader that rounds correctly. There is such a reader (`FloatReader.rounding_roundsDecimals`). The
standard one reads an exponent only until it reaches `65536`. That is the exponent itself below ten
times as much, and for any number that is not almost as long it makes no difference
(`FloatReader.standard_isRounding`).
-/

namespace WasmText

/-! ## Rounding readers -/

namespace BinaryFormat

variable {f : BinaryFormat} {whole fraction : List Nat}

theorem ofDecimal_fits (hf : f.Sound) (hwhole : ∀ d ∈ whole, d < 10)
    (hfraction : ∀ d ∈ fraction, d < 10) (e : ℤ) :
    f.Fits (Digit.exact 10 10 whole fraction e) (f.ofDecimal whole fraction e) := by
  have hlt : Digit.toNat 10 (whole ++ fraction) < 10 ^ (whole.length + fraction.length) :=
    Digit.toNat_append_lt (by decide) hwhole hfraction
  have hfits := ofScaled_fits hf (by decide) hlt (e - fraction.length)
  rw [Digit.exact_eq (pow_one 10) (by decide), Nat.cast_one, one_mul]
  exact hfits

end BinaryFormat

namespace FloatReader

variable {f : BinaryFormat} {text : String} {kind : NumeralKind} {whole : List Nat}
  {fraction : Option (List Nat)} {exponent : Option Exponent}

/-- A text without sign is read as its digits say. -/
theorem rounding_decimal (f : BinaryFormat) (exponentOfTen : Exponent → ℤ)
    (h : Magnitude.Writes text.toList kind (.number false whole fraction exponent)) :
    (rounding f exponentOfTen).decimal text = some (BitVec.ofNat f.width
      (min (f.ofDecimal whole (fraction.getD []) (exponent.elim 0 exponentOfTen)) f.infinity)) := by
  have hwrites : Reading.Writes text.toList kind ⟨false, .number false whole fraction exponent⟩ :=
    show Reading.Writes ([] ++ text.toList) _ _ from .mk .none h
  simp only [rounding, Reading.ofText?_of_writes hwrites, BinaryFormat.withSign,
    Bool.false_eq_true, if_false, Nat.zero_add]

theorem rounding_isRounding (hf : f.Sound) {exponentOfTen : Exponent → ℤ}
    (h : Magnitude.Writes text.toList kind (.number false whole fraction exponent))
    (hexponent : f.ofDecimal whole (fraction.getD []) (exponent.elim 0 exponentOfTen) =
      f.ofDecimal whole (fraction.getD []) (exponent.elim 0 Exponent.written)) :
    ∃ p, f.IsRounding
        (Digit.exact 10 10 whole (fraction.getD []) (exponent.elim 0 Exponent.written)) p ∧
      (rounding f exponentOfTen).decimal text = some (BitVec.ofNat f.width p) := by
  have hdigits := (Reading.Writes.mk .none h).digits_lt
  have hfits := BinaryFormat.ofDecimal_fits hf hdigits.1 hdigits.2
    (exponent.elim 0 Exponent.written)
  refine ⟨_, hfits.isRounding, ?_⟩
  rw [rounding_decimal f exponentOfTen h, hexponent]

theorem rounding_roundsDecimals (hf : f.Sound) : (rounding f Exponent.toInt).RoundsDecimals := by
  intro text kind whole fraction exponent h _
  refine rounding_isRounding hf h ?_
  cases exponent with
  | none => rfl
  | some e => rw [Option.elim_some, Option.elim_some, e.toInt_eq_written]

end FloatReader

/-! ## The standard reader -/

namespace Exponent

variable {e : Exponent}

/-- Digits are read up to a limit either all of them, or until some number from the limit on, which
digits are left over after. -/
theorem foldl_until (limit : Nat) (ds : List Nat) :
    ds.foldl (fun n d => if n < limit then n * 10 + d else n) 0 = Digit.toNat 10 ds ∨
      limit ≤ ds.foldl (fun n d => if n < limit then n * 10 + d else n) 0 ∧
        ds.foldl (fun n d => if n < limit then n * 10 + d else n) 0 * 10 ≤ Digit.toNat 10 ds := by
  induction ds using List.reverseRecOn with
  | nil => exact .inl rfl
  | append_singleton ds d ih =>
    have hall : Digit.toNat 10 (ds ++ [d]) = Digit.toNat 10 ds * 10 + d := by
      rw [Digit.toNat, List.foldl_append]
      rfl
    simp only [List.foldl_append, List.foldl_cons, List.foldl_nil, hall]
    generalize ds.foldl (fun n d => if n < limit then n * 10 + d else n) 0 = n at ih ⊢
    -- past the limit no digit is read any more
    split <;> omega

theorem toIntUntil_eq_written (limit : Nat) (h : Digit.number 10 e.digits < 10 * limit) :
    e.toIntUntil limit = e.written := by
  rw [← toInt_eq_written, toIntUntil, toInt]
  rw [← Digit.toNat_eq_number] at h
  rcases foldl_until limit e.digits with heq | ⟨hge, hle⟩
  · rw [heq]
  · omega

/-- An exponent that is not read to the end is large, as written and as read. -/
theorem toIntUntil_large (limit : Nat) (h : 10 * limit ≤ Digit.number 10 e.digits) :
    limit ≤ e.toIntUntil limit ∧ limit ≤ e.written ∨
      e.toIntUntil limit ≤ -limit ∧ e.written ≤ -limit := by
  rw [toIntUntil, signed, written]
  rw [← Digit.toNat_eq_number] at h ⊢
  have hge := foldl_until limit e.digits
  generalize e.digits.foldl (fun n d => if n < limit then n * 10 + d else n) 0 = n at hge ⊢
  split <;> omega

end Exponent

namespace BinaryFormat

variable {f : BinaryFormat} {whole fraction : List Nat}

/-- Where a number has fewer digits than a large exponent has room for, the exponent alone settles
the pattern. -/
theorem ofDecimal_congr (hf : f.exponents ≤ 2048) {e e' : ℤ}
    (hdigits : whole.length + fraction.length ≤ 63488)
    (h : 65536 ≤ e ∧ 65536 ≤ e' ∨ e ≤ -65536 ∧ e' ≤ -65536) :
    f.ofDecimal whole fraction e = f.ofDecimal whole fraction e' := by
  have hlarge (e : ℤ) (he : 65536 ≤ e) : (f.exponents : ℤ) ≤ e - fraction.length := by omega
  have hsmall (e : ℤ) (he : e ≤ -65536) : ¬ (f.exponents : ℤ) ≤ e - fraction.length ∧
      e - fraction.length + (whole.length + fraction.length : ℕ) ≤ -f.exponents := by
    push_cast
    omega
  unfold ofDecimal ofScaled
  rcases h with ⟨he, he'⟩ | ⟨he, he'⟩
  · rw [if_pos (hlarge e he), if_pos (hlarge e' he')]
  · rw [if_neg (hsmall e he).1, if_neg (hsmall e' he').1, if_pos (hsmall e he).2,
      if_pos (hsmall e' he').2]

end BinaryFormat

namespace FloatReader

variable {f : BinaryFormat} {text : String} {kind : NumeralKind} {whole : List Nat}
  {fraction : Option (List Nat)} {exponent : Option Exponent}

/-- The standard reader rounds a decimal number correctly if its exponent is read to the end, or if
it has fewer digits than the exponent has room for. -/
theorem standard_isRounding (hf : f.Sound) (hexponents : f.exponents ≤ 2048)
    (h : Magnitude.Writes text.toList kind (.number false whole fraction exponent))
    (hread : ∀ e ∈ exponent, Digit.number 10 e.digits < 655360 ∨
      whole.length + (fraction.getD []).length ≤ 63488) :
    ∃ p, f.IsRounding
        (Digit.exact 10 10 whole (fraction.getD []) (exponent.elim 0 Exponent.written)) p ∧
      (standard f).decimal text = some (BitVec.ofNat f.width p) := by
  refine rounding_isRounding hf h ?_
  cases exponent with
  | none => rfl
  | some e =>
    dsimp only [Option.elim_some]
    by_cases hsmall : Digit.number 10 e.digits < 655360
    · rw [Exponent.toIntUntil_eq_written _ hsmall]
    · have hshort := (hread e rfl).resolve_left hsmall
      exact BinaryFormat.ofDecimal_congr hexponents hshort
        (Exponent.toIntUntil_large 0x10000 (not_lt.mp hsmall))

end FloatReader

/-! ## Conversions -/

namespace Numeral

variable {f : BinaryFormat} {text : String} {kind : NumeralKind}

theorem converts_decimal (hf : f.Sound) {reader : FloatReader f} (hreader : reader.RoundsDecimals)
    {negative : Bool} {whole : List Nat} {fraction : Option (List Nat)} {exponent : Option Exponent}
    (h : Reading.Writes text.toList kind ⟨negative, .number false whole fraction exponent⟩)
    (type : ValType) :
    Converts text type f.limit
      (Digit.exact 10 10 whole (fraction.getD []) (exponent.elim 0 Exponent.written))
      (f.Nearest (Digit.exact 10 10 whole (fraction.getD []) (exponent.elim 0 Exponent.written)))
      (floatBits ⟨kind, text⟩ f type reader) := by
  obtain ⟨body, hbody, hsign, -⟩ := h.exists_body
  have hclean := hbody.filter
  obtain ⟨p, hp, hread⟩ := hreader (String.ofList (Digit.plain body)) kind whole fraction exponent
    (by rwa [String.toList_ofList])
    (by rw [String.toList_ofList]; exact Digit.underscore_notMem_plain body)
  refine converts_of_number hf h hbody hsign ?_ hp.le_infinity (hp.infinity_le_iff hf)
    fun hlt => (hp.rounds hlt).nearest hlt
  rw [FloatReader.number_decimal reader hclean, hread, Option.getD_some]

/-- A decimal number is converted in each format to the finite pattern nearest to its value, ties
going to the even one, with the sign of the text. It is out of range just if it rounds past the
greatest value, and its underscores say nothing. All that is asked of the readers of the two formats
is that they round correctly what they are given. -/
theorem decimal_converts (reader32 : FloatReader .binary32) (reader64 : FloatReader .binary64)
    (h32 : reader32.RoundsDecimals) (h64 : reader64.RoundsDecimals) (text : String)
    (kind : NumeralKind) (negative : Bool) (whole : List Nat) (fraction : Option (List Nat))
    (exponent : Option Exponent)
    (h : Reading.Writes text.toList kind ⟨negative, .number false whole fraction exponent⟩) :
    let v := Digit.exact 10 10 whole (fraction.getD []) (exponent.elim 0 Exponent.written)
    let plain := String.ofList (text.toList.filter (· != '_'))
    ofText text = .ok ⟨kind, text⟩ ∧
    Converts text .f32 (2 ^ 128 - 2 ^ 103) v (BinaryFormat.binary32.Nearest v)
      (toF32 ⟨kind, text⟩ reader32) ∧
    Converts text .f64 (2 ^ 1024 - 2 ^ 970) v (BinaryFormat.binary64.Nearest v)
      (toF64 ⟨kind, text⟩ reader64) ∧
    ofText plain = .ok ⟨kind, plain⟩ ∧
    (toF32 ⟨kind, plain⟩ reader32).toOption = (toF32 ⟨kind, text⟩ reader32).toOption ∧
    (toF64 ⟨kind, plain⟩ reader64).toOption = (toF64 ⟨kind, text⟩ reader64).toOption := by
  intro v plain
  refine ⟨Reading.ofText_of_writes h, ?_, ?_, Reading.ofText_plain h, floatBits_plain h _ _ _,
    floatBits_plain h _ _ _⟩
  · rw [← BinaryFormat.limit_binary32]
    exact converts_decimal BinaryFormat.sound_binary32 h32 h .f32
  · rw [← BinaryFormat.limit_binary64]
    exact converts_decimal BinaryFormat.sound_binary64 h64 h .f64

/-- Halfway between two values of 24 bits the even one is nearest. -/
theorem decimal_converts_halfway :
    toF32 ⟨.float, "-1_6777217e0"⟩ (.rounding .binary32 Exponent.toInt) = .ok 0xcb800000 ∧
      BinaryFormat.binary32.Nearest 16777217 0x4b800000 := by
  have hread : Reading.ofText? "-1_6777217e0" =
      some ⟨true, .number false [1, 6, 7, 7, 7, 2, 1, 7] none (some ⟨false, [0]⟩)⟩ := by
    decide +kernel
  have hwrites := Reading.ofChars?_eq_some_iff.mp hread
  obtain ⟨-, h32, -⟩ := decimal_converts (.rounding .binary32 Exponent.toInt)
    (.rounding .binary64 Exponent.toInt)
    (FloatReader.rounding_roundsDecimals BinaryFormat.sound_binary32)
    (FloatReader.rounding_roundsDecimals BinaryFormat.sound_binary64) _ _ _ _ _ _ hwrites
  have hvalue : Digit.exact 10 10 [1, 6, 7, 7, 7, 2, 1, 7] [] 0 = 16777217 := by
    norm_num [Digit.exact, Digit.number, Nat.ofDigits]
  have hanswer : toF32 ⟨.float, "-1_6777217e0"⟩ (.rounding .binary32 Exponent.toInt) =
      .ok 0xcb800000 := by
    decide +kernel
  have hlt : Digit.exact 10 10 [1, 6, 7, 7, 7, 2, 1, 7] [] 0 < 2 ^ 128 - 2 ^ 103 := by
    rw [hvalue]
    norm_num
  obtain ⟨p, bits, hbits, hnearest, hsign⟩ := h32.inRange hlt
  obtain rfl : (0xcb800000 : BitVec 32) = bits := Except.ok.inj (hanswer.symm.trans hbits)
  have hp : p = 0x4b800000 := by
    have hhead : "-1_6777217e0".toList.head? = some '-' := by decide +kernel
    rw [if_pos hhead] at hsign
    have hnat : (0xcb800000 : BitVec 32).toNat = 3414163456 := rfl
    omega
  have hzero : (some ⟨false, [0]⟩ : Option Exponent).elim 0 Exponent.written = 0 := by decide
  refine ⟨hanswer, ?_⟩
  rw [hp, Option.getD_none, hzero, hvalue] at hnearest
  exact hnearest

end Numeral

end WasmText
