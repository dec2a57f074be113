import WasmText.Numeral.FloatReader
import WasmText.Proofs.BinaryValues

/-!
# Rounding gives the nearest pattern

The ratio that a number is computed as has the number's value (`Ratio.value_ofPower`). Its greatest
power of two gives the size of a step, the steps below the ratio are counted with a remainder, and
the remainder decides between two adjacent patterns: so the pattern is the nearest one
(`Ratio.toPattern_rounds`). A power whose exponent settles the answer is not computed, and
`BinaryFormat.ofScaled_spec` says that the answer is right in these cases as well.
-/

namespace WasmText

namespace Ratio

variable {v : Ratio} {f : BinaryFormat}

/-- The number that a ratio is. -/
def value (v : Ratio) : ℚ := v.num / v.den

theorem two_zpow_pos (q : ℤ) : (0 : ℚ) < 2 ^ q := by positivity

/-- A ratio of a number and a power is worth their product. -/
theorem value_ofPower (m : Nat) {b : Nat} (hb : 0 < b) (e : ℤ) :
    (ofPower m b e).value = m * (b : ℚ) ^ e ∧ 0 < (ofPower m b e).den := by
  have hb' : (b : ℚ) ≠ 0 := by positivity
  unfold ofPower
  split
  · next he =>
    obtain ⟨n, rfl⟩ := Int.eq_ofNat_of_zero_le he
    refine ⟨?_, Nat.one_pos⟩
    simp [value]
  · next he =>
    obtain ⟨n, rfl⟩ : ∃ n : Nat, e = -n := ⟨(-e).toNat, by omega⟩
    refine ⟨?_, Nat.pow_pos hb⟩
    simp [value, div_eq_mul_inv]

/-- A ratio in units of a power of two is worth so many of them. -/
theorem value_inUnits (v : Ratio) (hden : 0 < v.den) (q : ℤ) :
    (v.inUnits q).value = v.value / 2 ^ q ∧ 0 < (v.inUnits q).den := by
  unfold inUnits
  split
  · next hq =>
    obtain ⟨n, rfl⟩ := Int.eq_ofNat_of_zero_le hq
    refine ⟨?_, Nat.mul_pos hden (Nat.pow_pos (by decide))⟩
    simp [value, div_div]
  · next hq =>
    obtain ⟨n, rfl⟩ : ∃ n : Nat, q = -n := ⟨(-q).toNat, by omega⟩
    refine ⟨?_, hden⟩
    simp [value, mul_div_right_comm]

/-! ## The greatest power of two -/

/-- A number is between the power of two of its logarithm and the next. -/
theorem log2_bounds {n : Nat} (hn : 0 < n) :
    (2 : ℚ) ^ (n.log2 : ℤ) ≤ n ∧ (n : ℚ) < 2 ^ ((n.log2 : ℤ) + 1) := by
  have hlo : 2 ^ n.log2 ≤ n := Nat.log2_self_le hn.ne'
  have hhi : n < 2 ^ (n.log2 + 1) := Nat.lt_log2_self
  constructor
  · exact_mod_cast hlo
  · exact_mod_cast hhi

theorem le_num_iff (hden : 0 < v.den) : v.den ≤ v.num ↔ 1 ≤ v.value := by
  have hden' : (0 : ℚ) < v.den := by exact_mod_cast hden
  rw [value, one_le_div₀ hden', Nat.cast_le]

/-- The guess from the two lengths is too large by one, or right. -/
theorem log2_spec (hnum : 0 < v.num) (hden : 0 < v.den) :
    2 ^ v.log2 ≤ v.value ∧ v.value < 2 ^ (v.log2 + 1) := by
  have hden' : (0 : ℚ) < v.den := by exact_mod_cast hden
  obtain ⟨hnlo, hnhi⟩ := log2_bounds hnum
  obtain ⟨hdlo, hdhi⟩ := log2_bounds hden
  have hsplit (a b : ℤ) : (2 : ℚ) ^ (a - b) * 2 ^ b = 2 ^ a := by
    rw [← zpow_add₀ (by norm_num), sub_add_cancel]
  have hvalue : v.value * v.den = v.num := div_mul_cancel₀ _ hden'.ne'
  -- as lengths are exact up to a factor of two, the value is less than two binades off
  generalize hguess : (v.num.log2 : ℤ) - v.den.log2 = guess
  have habove : v.value < 2 ^ (guess + 1) := by
    rw [value, div_lt_iff₀ hden']
    calc (v.num : ℚ) < 2 ^ ((v.num.log2 : ℤ) + 1) := hnhi
      _ = 2 ^ (guess + 1) * 2 ^ (v.den.log2 : ℤ) := by
        rw [← zpow_add₀ (by norm_num), ← hguess]
        congr 1
        ring
      _ ≤ 2 ^ (guess + 1) * v.den := by gcongr
  have hbelow : 2 ^ (guess - 1) ≤ v.value := by
    rw [value, le_div_iff₀ hden']
    calc (2 : ℚ) ^ (guess - 1) * v.den ≤ 2 ^ (guess - 1) * 2 ^ ((v.den.log2 : ℤ) + 1) := by gcongr
      _ = 2 ^ (v.num.log2 : ℤ) := by
        rw [← zpow_add₀ (by norm_num), ← hguess]
        congr 1
        ring
      _ ≤ v.num := hnlo
  obtain ⟨hunits, hunitsDen⟩ := v.value_inUnits hden guess
  have hiff : (v.inUnits guess).den ≤ (v.inUnits guess).num ↔ 2 ^ guess ≤ v.value := by
    rw [le_num_iff hunitsDen, hunits, one_le_div₀ (two_zpow_pos guess)]
  simp only [log2, hguess, hiff]
  split
  · next hle => exact ⟨hle, habove⟩
  · next hlt =>
    rw [sub_add_cancel]
    exact ⟨hbelow, not_le.mp hlt⟩

/-! ## Rounding to a whole number of steps -/

/-- A ratio lies between two whole numbers, and comparing twice its remainder with its divisor says
which one is nearer. -/
theorem round_spec (hden : 0 < v.den) : ∃ n : Nat, (n : ℚ) ≤ v.value ∧ v.value < n + 1 ∧
    (v.round = n ∧ v.value - n < n + 1 - v.value ∨
      v.round = n + 1 ∧ n + 1 - v.value < v.value - n ∨
      v.round = n + n % 2 ∧ v.value - n = n + 1 - v.value) := by
  have hden' : (0 : ℚ) < v.den := by exact_mod_cast hden
  have hmod : v.num % v.den < v.den := Nat.mod_lt _ hden
  have hmod' : ((v.num % v.den : ℕ) : ℚ) < v.den := by exact_mod_cast hmod
  have hvalue : v.value = (v.num / v.den : ℕ) + (v.num % v.den : ℕ) / (v.den : ℚ) := by
    have hnum : (v.num : ℚ) = v.den * (v.num / v.den : ℕ) + (v.num % v.den : ℕ) := by
      exact_mod_cast (Nat.div_add_mod v.num v.den).symm
    rw [value, hnum]
    field_simp
  -- the quotient is the lower neighbour, and the remainder is how far above it the ratio is
  refine ⟨v.num / v.den, ?_, ?_, ?_⟩
  · rw [hvalue]
    linarith [div_nonneg (Nat.cast_nonneg (v.num % v.den)) hden'.le]
  · rw [hvalue]
    linarith [(div_lt_one hden').mpr hmod']
  rw [hvalue]
  unfold round
  dsimp only
  split
  · next h =>
    have h' : (2 : ℚ) * (v.num % v.den : ℕ) < v.den := by exact_mod_cast h
    refine .inl ⟨rfl, ?_⟩
    have hhalf : (v.num % v.den : ℕ) / (v.den : ℚ) < 1 / 2 := by
      rw [div_lt_iff₀ hden']
      linarith
    linarith
  split
  · next h =>
    have h' : (v.den : ℚ) < 2 * (v.num % v.den : ℕ) := by exact_mod_cast h
    refine .inr (.inl ⟨rfl, ?_⟩)
    have hhalf : 1 / 2 < (v.num % v.den : ℕ) / (v.den : ℚ) := by
      rw [lt_div_iff₀ hden']
      linarith
    linarith
  · next hge hle =>
    have h : (2 : ℚ) * (v.num % v.den : ℕ) = v.den := by exact_mod_cast (by omega)
    refine .inr (.inr ⟨rfl, ?_⟩)
    have hhalf : (v.num % v.den : ℕ) / (v.den : ℚ) = 1 / 2 := by
      rw [div_eq_iff hden'.ne']
      linarith
    linarith

/-! ## The pattern -/

/-- A ratio has fewer steps than two significands have, and above the least step at least as many as
one has. -/
theorem step_spec (hf : f.Sound) (hnum : 0 < v.num) (hden : 0 < v.den) :
    f.leastStep ≤ v.step f ∧ v.value / 2 ^ v.step f < 2 * f.leastNormal ∧
      (v.step f = f.leastStep ∨ f.leastNormal ≤ v.value / 2 ^ v.step f) := by
  obtain ⟨hlo, hhi⟩ := log2_spec hnum hden
  have hN := BinaryFormat.cast_leastNormal hf
  have hlow : f.leastStep ≤ v.step f := le_max_right _ _
  have hstep : v.log2 - (f.precision - 1) ≤ v.step f := le_max_left _ _
  refine ⟨hlow, ?_, ?_⟩
  · rw [div_lt_iff₀ (two_zpow_pos _), hN]
    calc v.value < 2 ^ (v.log2 + 1) := hhi
      _ ≤ 2 ^ ((1 : ℤ) + ((f.precision - 1) + v.step f)) :=
        zpow_le_zpow_right₀ (by norm_num) (by omega)
      _ = 2 * 2 ^ ((f.precision : ℤ) - 1) * 2 ^ v.step f := by
        rw [zpow_add₀ (by norm_num), zpow_add₀ (by norm_num), zpow_one, mul_assoc]
  · rcases le_or_gt (v.log2 - (f.precision - 1)) f.leastStep with h | h
    · exact .inl (max_eq_right h)
    · have heq : v.step f = v.log2 - (f.precision - 1) := max_eq_left h.le
      refine .inr ?_
      rw [le_div_iff₀ (two_zpow_pos _), hN, heq, ← zpow_add₀ (by norm_num)]
      calc (2 : ℚ) ^ ((f.precision : ℤ) - 1 + (v.log2 - (f.precision - 1))) = 2 ^ v.log2 := by
            congr 1
            ring
        _ ≤ v.value := hlo

/-- The pattern of a ratio is the nearest one. -/
theorem toPattern_rounds (hf : f.Sound) (hden : 0 < v.den) : f.Rounds v.value (v.toPattern f) := by
  rcases Nat.eq_zero_or_pos v.num with hzero | hnum
  · have hv : v.value = 0 := by rw [value, hzero, Nat.cast_zero, zero_div]
    rw [toPattern, if_pos hzero, hv]
    exact f.rounds_zero
  obtain ⟨hlow, habove, hbelow⟩ := step_spec hf hnum hden
  obtain ⟨hunits, hunitsDen⟩ := v.value_inUnits hden (v.step f)
  obtain ⟨n, hle, hlt, hround⟩ := round_spec hunitsDen
  obtain ⟨k, hk⟩ := Int.eq_ofNat_of_zero_le (sub_nonneg.mpr hlow)
  have hstep : v.step f = f.leastStep + k := by omega
  rw [hunits] at hle hlt hround
  have hn : n < 2 * f.leastNormal := by exact_mod_cast hle.trans_lt habove
  have hkn : k = 0 ∨ f.leastNormal ≤ n := by
    rcases hbelow with heq | hge
    · exact .inl (by omega)
    · have hcast : (f.leastNormal : ℚ) < (n + 1 : ℕ) := by
        push_cast
        exact hge.trans_lt hlt
      exact .inr (Nat.lt_succ_iff.mp (by exact_mod_cast hcast))
  have hrounds := BinaryFormat.rounds_of_steps hf hn hkn hle hlt hround
  rw [← hstep, div_mul_cancel₀ _ (two_zpow_pos _).ne'] at hrounds
  rw [toPattern, if_neg hnum.ne']
  dsimp only
  rw [hk, Int.toNat_natCast]
  exact hrounds

end Ratio

namespace BinaryFormat

variable {f : BinaryFormat} {v : ℚ} {p : Nat}

/-! ## Where the format ends -/

/-- From here on numbers round past the greatest finite value. -/
def limit (f : BinaryFormat) : ℚ :=
  2 ^ 2 ^ (f.exponentBits - 1) - 2 ^ ((2 ^ (f.exponentBits - 1) : ℕ) - (f.precision + 1 : ℤ))

/-- From here on numbers below the least normal value round up to it. -/
def normalLimit (f : BinaryFormat) : ℚ := 2 ^ f.leastExponent - 2 ^ (f.leastStep - 1)

/-- The exponents of a format come in two halves. -/
theorem exists_half (hf : f.Sound) : ∃ h : Nat, f.exponents = 2 * h ∧ 2 ≤ h ∧
    2 ^ (f.exponentBits - 1) = h ∧ f.leastExponent = 2 - h := by
  have hbits := hf.exponentBits
  refine ⟨2 ^ (f.exponentBits - 1), ?_, ?_, rfl, ?_⟩
  · rw [exponents, Nat.pow_eq, ← pow_succ', Nat.sub_add_cancel (by omega)]
  · exact Nat.le_self_pow (by omega) 2
  · rw [leastExponent, Nat.pow_eq]

/-- A number rounds to infinity or past it just if it is at the limit or past it. -/
theorem infinity_le_iff (hf : f.Sound) (h : f.Rounds v p) : f.infinity ≤ p ↔ f.limit ≤ v := by
  obtain ⟨half, hexponents, hhalf, hpow, hleast⟩ := exists_half hf
  have hN := f.leastNormal_pos
  have heven := leastNormal_even hf
  obtain ⟨j, rfl⟩ : ∃ j, half = j + 2 := ⟨half - 2, by omega⟩
  -- the greatest finite pattern and the one after it are a step apart
  have hgreatest : f.infinity = (2 * j + 1) * f.leastNormal + (2 * f.leastNormal - 1) + 1 := by
    rw [infinity, hexponents, show 2 * (j + 2) - 1 = 2 * j + 1 + 2 by omega, Nat.add_mul,
      Nat.add_assoc, Nat.sub_add_cancel (by omega)]
  have hodd : ((2 * j + 1) * f.leastNormal + (2 * f.leastNormal - 1)) % 2 = 1 := by
    rw [Nat.add_mod, Nat.mul_mod, heven]
    omega
  have hmiddle : (f.value ((2 * j + 1) * f.leastNormal + (2 * f.leastNormal - 1)) +
      f.value ((2 * j + 1) * f.leastNormal + (2 * f.leastNormal - 1) + 1)) / 2 = f.limit := by
    have hstep : f.leastStep + (2 * j + 1 : ℕ) = (j + 2 : ℕ) - (f.precision : ℤ) := by
      rw [leastStep, hleast]
      push_cast
      ring
    rw [value_middle (by omega) (by omega), limit, hpow, hstep, Nat.cast_sub (by omega)]
    push_cast
    rw [sub_add_cancel, cast_leastNormal hf, mul_assoc, ← zpow_add₀ (by norm_num),
      ← zpow_one_add₀ (by norm_num), ← zpow_natCast]
    congr 2
    · push_cast
      ring
    · ring
  rw [hgreatest, Nat.succ_le_iff, h.lt_iff hodd, hmiddle]

/-- A number rounds to a normal one exactly when it is closer to these than to subnormal ones. -/
theorem leastNormal_le_iff (hf : f.Sound) (h : f.Rounds v p) :
    f.leastNormal ≤ p ↔ f.normalLimit ≤ v := by
  have hN := f.leastNormal_pos
  have heven := leastNormal_even hf
  have hmiddle : (f.value (0 * f.leastNormal + (f.leastNormal - 1)) +
      f.value (0 * f.leastNormal + (f.leastNormal - 1) + 1)) / 2 = f.normalLimit := by
    rw [value_middle (.inl rfl) (by omega), normalLimit, Nat.cast_sub hN, cast_leastNormal hf]
    push_cast
    rw [sub_add_cancel, ← zpow_add₀ (by norm_num), add_zero]
    congr 2
    rw [leastStep]
    ring
  rw [← hmiddle, ← h.lt_iff (by omega)]
  omega

/-! ## Scaled numbers -/

/-- A pattern is right for a number: the nearest one, or some pattern from infinity on where the
nearest one is there. -/
def Fits (f : BinaryFormat) (v : ℚ) (bits : Nat) : Prop :=
  ∃ p, f.Rounds v p ∧ (bits = p ∨ f.infinity ≤ p ∧ f.infinity ≤ bits)

/-- A pattern is infinite exactly when its number is past the limit. -/
theorem Fits.infinity_le_iff (hf : f.Sound) {v : ℚ} {bits : Nat} (h : f.Fits v bits) :
    f.infinity ≤ bits ↔ f.limit ≤ v := by
  obtain ⟨p, hp, hbits⟩ := h
  rw [← BinaryFormat.infinity_le_iff hf hp]
  omega

/-- A pattern that fits and is finite is what its number rounds to. -/
theorem Fits.rounds {v : ℚ} {bits : Nat} (h : f.Fits v bits) (hbits : bits < f.infinity) :
    f.Rounds v bits := by
  obtain ⟨p, hp, rfl | ⟨-, hge⟩⟩ := h
  · exact hp
  · omega

/-- A number below half the least value rounds to zero. -/
theorem rounds_tiny (h0 : 0 ≤ v) (hv : v < 2 ^ (f.leastStep - 1)) : f.Rounds v 0 := by
  have hN := f.leastNormal_pos
  have hmiddle := f.value_middle (.inl rfl) (show 0 < 2 * f.leastNormal by omega)
  simp only [Nat.zero_mul, Nat.cast_zero, zero_add, add_zero, one_mul,
    zpow_sub_one₀ (two_ne_zero : (2 : ℚ) ≠ 0)] at hmiddle hv
  have hzero := f.value_zero
  have hpos : (0 : ℚ) < 2 ^ f.leastStep := by positivity
  exact rounds_below (by linarith) (by linarith) (.inl (by linarith))

/-- The limit is no more than the power of two above all finite values. -/
theorem limit_le (hf : f.Sound) : f.limit ≤ 2 ^ f.exponents := by
  obtain ⟨half, hexponents, -, hpow, -⟩ := exists_half hf
  have hpos : (0 : ℚ) < 2 ^ ((2 ^ (f.exponentBits - 1) : ℕ) - (f.precision + 1 : ℤ)) := by
    positivity
  have hle : (2 : ℚ) ^ 2 ^ (f.exponentBits - 1) ≤ 2 ^ f.exponents :=
    pow_le_pow_right₀ (by norm_num) (by omega)
  rw [limit]
  linarith

theorem limit_binary32 : binary32.limit = 2 ^ 128 - 2 ^ 103 := by
  norm_num [limit, binary32]

theorem limit_binary64 : binary64.limit = 2 ^ 1024 - 2 ^ 970 := by
  norm_num [limit, binary64]

/-- A power of two past the greatest value is past it as a power of a greater base as well. -/
theorem limit_le_scaled (hf : f.Sound) {m b : Nat} {e : ℤ} (hb : 2 ≤ b) (hm : m ≠ 0)
    (he : f.exponents ≤ e) : f.limit ≤ m * (b : ℚ) ^ e := by
  have hm1 : (1 : ℚ) ≤ m := by exact_mod_cast Nat.one_le_iff_ne_zero.mpr hm
  obtain ⟨n, rfl⟩ := Int.eq_ofNat_of_zero_le ((Int.natCast_nonneg _).trans he)
  have hn : f.exponents ≤ n := by exact_mod_cast he
  rw [zpow_natCast]
  calc f.limit ≤ 2 ^ f.exponents := limit_le hf
    _ ≤ 2 ^ n := pow_le_pow_right₀ (by norm_num) hn
    _ ≤ (b : ℚ) ^ n := by exact_mod_cast Nat.pow_le_pow_left hb n
    _ ≤ m * (b : ℚ) ^ n := le_mul_of_one_le_left (by positivity) hm1

/-- A power of two below half the least value is below it as a power of a greater base as well. -/
theorem scaled_lt (hf : f.Sound) {m b size : Nat} {e : ℤ} (hb : 2 ≤ b) (hm : m < b ^ size)
    (he : e + size ≤ -f.exponents) : m * (b : ℚ) ^ e < 2 ^ (f.leastStep - 1) := by
  have hb' : (2 : ℚ) ≤ b := by exact_mod_cast hb
  have hm' : (m : ℚ) < (b : ℚ) ^ (size : ℤ) := by exact_mod_cast hm
  obtain ⟨n, hn⟩ : ∃ n : Nat, e + size = -n := ⟨(-(e + size)).toNat, by omega⟩
  obtain ⟨half, hexponents, -, hpow, hleast⟩ := exists_half hf
  have hreach := hf.reach
  calc m * (b : ℚ) ^ e < (b : ℚ) ^ (size : ℤ) * (b : ℚ) ^ e := by gcongr
    _ = (b : ℚ) ^ (-n : ℤ) := by rw [← zpow_add₀ (by positivity), ← hn, add_comm]
    _ ≤ 2 ^ (-n : ℤ) := by
      rw [zpow_neg, zpow_neg, zpow_natCast, zpow_natCast]
      gcongr
    _ ≤ 2 ^ (f.leastStep - 1) := by
      refine zpow_le_zpow_right₀ (by norm_num) ?_
      rw [leastStep, hleast]
      omega

/-- The two exponents that settle the answer settle it as the power would. -/
theorem ofScaled_fits (hf : f.Sound) {m b size : Nat} (hb : 2 ≤ b) (hm : m < b ^ size) (e : ℤ) :
    f.Fits (m * (b : ℚ) ^ e) (f.ofScaled m b size e) := by
  obtain ⟨hvalue, hden⟩ := Ratio.value_ofPower m (by omega : 0 < b) e
  have hrounds := Ratio.toPattern_rounds hf hden
  rw [hvalue] at hrounds
  unfold ofScaled
  split
  · next hzero =>
    subst hzero
    rw [Nat.cast_zero, zero_mul]
    exact ⟨0, f.rounds_zero, .inl rfl⟩
  next hne =>
  split
  · next he =>
    have hinfinity := (infinity_le_iff hf hrounds).mpr (limit_le_scaled hf hb hne he)
    exact ⟨_, hrounds, .inr ⟨hinfinity, le_rfl⟩⟩
  split
  · next he =>
    have hpow : 0 ≤ m * (b : ℚ) ^ e := by positivity
    exact ⟨0, rounds_tiny hpow (scaled_lt hf hb hm he), .inl rfl⟩
  · exact ⟨_, hrounds, .inl rfl⟩

end BinaryFormat

end WasmText
