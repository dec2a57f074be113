import Mathlib.Algebra.Order.Field.Power
import Mathlib.Algebra.Order.Ring.Abs
import Mathlib.Data.Rat.Cast.Order
import Mathlib.Tactic.FieldSimp
import Mathlib.Tactic.Linarith
import Mathlib.Tactic.NormNum
import Mathlib.Tactic.Positivity
import Mathlib.Tactic.Ring
import WasmText.Numeral.Rounding

/-!
# The values of bit patterns

Each pattern without sign stands for a magnitude (`BinaryFormat.value`): a significand of the
format's precision times a power of two, or below the least normal value a shorter significand at
the least step. The magnitudes grow with their patterns, also past infinity, where the exponent goes
on. `BinaryFormat.Nearest` says that a finite pattern is the nearest to a number, ties going to the
even pattern; `BinaryFormat.Nearest.unique` says that this determines it.
-/

namespace WasmText

namespace BinaryFormat

variable {f : BinaryFormat} {p : Nat} {v : ℚ}

/-- A format has at least two bits of significand and two of exponent, and its exponents reach
further than its significand. -/
structure Sound (f : BinaryFormat) : Prop where
  precision : 2 ≤ f.precision
  exponentBits : 2 ≤ f.exponentBits
  reach : f.precision ≤ 2 ^ (f.exponentBits - 1) + 2

theorem sound_binary32 : binary32.Sound := ⟨by decide, by decide, by decide⟩

theorem sound_binary64 : binary64.Sound := ⟨by decide, by decide, by decide⟩

/-! ## Values -/

/-- The magnitude that a pattern without sign stands for: the bits of its exponent say by which
power of two its significand counts, and a zero exponent that the significand is short. -/
def value (f : BinaryFormat) (p : Nat) : ℚ :=
  let exponent := p / f.leastNormal
  let fraction := p % f.leastNormal
  if exponent = 0 then fraction * 2 ^ f.leastStep
  else (f.leastNormal + fraction) * 2 ^ (f.leastStep + (exponent - 1 : ℕ))

theorem leastNormal_pos (f : BinaryFormat) : 0 < f.leastNormal := Nat.pow_pos (by decide)

/-- The value of a pattern by its exponent and its fraction. -/
theorem value_fields {e t : Nat} (ht : t < f.leastNormal) :
    f.value (e * f.leastNormal + t) =
      if e = 0 then (t : ℚ) * 2 ^ f.leastStep
      else (f.leastNormal + t) * 2 ^ (f.leastStep + (e - 1 : ℕ)) := by
  have hdiv : (e * f.leastNormal + t) / f.leastNormal = e := by
    rw [Nat.mul_comm, Nat.mul_add_div f.leastNormal_pos, Nat.div_eq_of_lt ht, Nat.add_zero]
  have hmod : (e * f.leastNormal + t) % f.leastNormal = t := by
    rw [Nat.mul_comm, Nat.mul_add_mod, Nat.mod_eq_of_lt ht]
  rw [value, hdiv, hmod]

/-- A pattern counts the steps on from the place where its step size starts. -/
theorem value_step {k r : Nat} (hk : k = 0 ∨ f.leastNormal ≤ r) (hr : r ≤ 2 * f.leastNormal) :
    f.value (k * f.leastNormal + r) = r * 2 ^ (f.leastStep + k) := by
  by_cases hshort : r < f.leastNormal
  · obtain rfl : k = 0 := by omega
    rw [value_fields hshort]
    simp
  by_cases hlong : r < 2 * f.leastNormal
  · obtain ⟨t, rfl⟩ : ∃ t, r = f.leastNormal + t := ⟨r - f.leastNormal, by omega⟩
    have hfields : k * f.leastNormal + (f.leastNormal + t) = (k + 1) * f.leastNormal + t := by ring
    rw [hfields, value_fields (by omega), if_neg (by omega), Nat.add_sub_cancel]
    push_cast
    rfl
  · -- the significand has carried into the exponent
    obtain rfl : r = 2 * f.leastNormal := by omega
    have hfields : k * f.leastNormal + 2 * f.leastNormal = (k + 2) * f.leastNormal + 0 := by ring
    rw [hfields, value_fields f.leastNormal_pos, if_neg (by omega),
      show k + 2 - 1 = k + 1 from rfl]
    push_cast
    rw [← add_assoc, zpow_add_one₀ (by norm_num : (2 : ℚ) ≠ 0)]
    ring

/-- Every pattern is some steps on from where its step size starts, with room for one more. -/
theorem exists_step (f : BinaryFormat) (p : Nat) :
    ∃ k r, p = k * f.leastNormal + r ∧ (k = 0 ∨ f.leastNormal ≤ r) ∧ r < 2 * f.leastNormal := by
  have hN := f.leastNormal_pos
  by_cases hp : p < f.leastNormal
  · exact ⟨0, p, by omega, .inl rfl, by omega⟩
  · have hmod : p % f.leastNormal < f.leastNormal := Nat.mod_lt p hN
    have hdiv : 1 ≤ p / f.leastNormal := (Nat.one_le_div_iff hN).mpr (by omega)
    refine ⟨p / f.leastNormal - 1, f.leastNormal + p % f.leastNormal, ?_, by omega, by omega⟩
    have hsplit : p / f.leastNormal * f.leastNormal + p % f.leastNormal = p := by
      rw [Nat.mul_comm]
      exact Nat.div_add_mod p f.leastNormal
    rw [← Nat.add_assoc, Nat.sub_one_mul, Nat.sub_add_cancel (Nat.le_mul_of_pos_left _ hdiv)]
    exact hsplit.symm

/-- Patterns are in the order of their values. -/
theorem value_strictMono (f : BinaryFormat) : StrictMono f.value := by
  refine strictMono_nat_of_lt_succ fun p => ?_
  obtain ⟨k, r, rfl, hk, hr⟩ := f.exists_step p
  rw [Nat.add_assoc, value_step hk (by omega), value_step (by omega) (by omega)]
  have hstep : (0 : ℚ) < 2 ^ (f.leastStep + k) := by positivity
  push_cast
  nlinarith

theorem value_zero (f : BinaryFormat) : f.value 0 = 0 := by
  have hzero : f.value (0 * f.leastNormal + 0) = (0 : ℕ) * 2 ^ (f.leastStep + (0 : ℕ)) :=
    value_step (.inl rfl) (by omega)
  simpa using hzero

/-- The least normal pattern is even. -/
theorem leastNormal_even (hf : f.Sound) : f.leastNormal % 2 = 0 := by
  obtain ⟨n, hn⟩ : ∃ n, f.precision - 1 = n + 1 := ⟨f.precision - 2, by have := hf.precision; omega⟩
  rw [leastNormal, hn, Nat.pow_eq, pow_succ, Nat.mul_mod_left]

theorem cast_leastNormal (hf : f.Sound) : (f.leastNormal : ℚ) = 2 ^ ((f.precision : ℤ) - 1) := by
  rw [leastNormal, Nat.pow_eq, Nat.cast_pow, Nat.cast_ofNat, ← zpow_natCast,
    Nat.cast_sub (by have := hf.precision; omega), Nat.cast_one]

/-- Halfway between a pattern and the next one. -/
theorem value_middle {k r : Nat} (hk : k = 0 ∨ f.leastNormal ≤ r) (hr : r < 2 * f.leastNormal) :
    (f.value (k * f.leastNormal + r) + f.value (k * f.leastNormal + r + 1)) / 2 =
      (r + 1) * 2 ^ (f.leastStep + k) - 2 ^ (f.leastStep + k - 1) := by
  rw [Nat.add_assoc, value_step hk (by omega), value_step (by omega) (by omega),
    zpow_sub_one₀ (by norm_num)]
  push_cast
  ring

/-! ## The nearest pattern -/

/-- The finite pattern nearest to a number, the even one of two. -/
structure Nearest (f : BinaryFormat) (v : ℚ) (p : Nat) : Prop where
  finite : p < f.infinity
  closest : ∀ q < f.infinity, |v - f.value p| ≤ |v - f.value q|
  even : ∀ q < f.infinity, q ≠ p → |v - f.value q| = |v - f.value p| → p % 2 = 0

/-- The pattern nearest to a number among all, as if the exponent had no end. -/
structure Rounds (f : BinaryFormat) (v : ℚ) (p : Nat) : Prop where
  closest : ∀ q, |v - f.value p| ≤ |v - f.value q|
  even : ∀ q, q ≠ p → |v - f.value q| = |v - f.value p| → p % 2 = 0

/-- What a number rounds to is nearest to it. -/
theorem Rounds.nearest (h : f.Rounds v p) (hp : p < f.infinity) : f.Nearest v p :=
  ⟨hp, fun q _ => h.closest q, fun q _ => h.even q⟩

/-- On the left of a number the greatest value is the nearest one. -/
theorem dist_left {n q : Nat} (hv : f.value n ≤ v) (hq : q ≤ n) :
    v - f.value n ≤ |v - f.value q| ∧ (|v - f.value q| = v - f.value n → q = n) := by
  have hle : f.value q ≤ f.value n := f.value_strictMono.monotone hq
  rw [abs_of_nonneg (show 0 ≤ v - f.value q by linarith)]
  refine ⟨by linarith, fun heq => ?_⟩
  have hvalue : f.value q = f.value n := by linarith
  exact f.value_strictMono.injective hvalue

/-- On the right of a number the least value is the nearest one. -/
theorem dist_right {n q : Nat} (hv : v ≤ f.value n) (hq : n ≤ q) :
    f.value n - v ≤ |v - f.value q| ∧ (|v - f.value q| = f.value n - v → q = n) := by
  have hle : f.value n ≤ f.value q := f.value_strictMono.monotone hq
  rw [abs_of_nonpos (show v - f.value q ≤ 0 by linarith)]
  refine ⟨by linarith, fun heq => ?_⟩
  have hvalue : f.value q = f.value n := by linarith
  exact f.value_strictMono.injective hvalue

/-- Two nearest patterns of a number would be even, and one between them nearer. -/
theorem Nearest.unique {q : Nat} (hp : f.Nearest v p) (hq : f.Nearest v q) : p = q := by
  wlog hlt : p < q generalizing p q
  · by_contra hne
    exact hne (this hq hp (by omega)).symm
  exfalso
  have hdist : |v - f.value q| = |v - f.value p| :=
    le_antisymm (hq.closest p hp.finite) (hp.closest q hq.finite)
  have hpeven := hp.even q hq.finite (by omega) hdist
  have hqeven := hq.even p hp.finite (by omega) hdist.symm
  -- both are even, so the next pattern after `p` lies strictly between them
  have hfinite : p + 1 < f.infinity := by have := hq.finite; omega
  have hleft : f.value p < f.value (p + 1) := f.value_strictMono (by omega)
  have hright : f.value (p + 1) < f.value q := f.value_strictMono (by omega)
  have hmiddle : v - f.value q = -(v - f.value p) := by
    rcases abs_eq_abs.mp hdist with heq | heq
    · linarith
    · exact heq
  have hcloser : |v - f.value (p + 1)| < |v - f.value p| := by
    rw [abs_of_nonneg (show 0 ≤ v - f.value p by linarith)]
    exact abs_lt.mpr ⟨by linarith, by linarith⟩
  exact absurd (hp.closest (p + 1) hfinite) (not_le.mpr hcloser)

/-- A number between two adjacent values rounds to the lower one if that is nearer, or halfway and
even. -/
theorem rounds_below {n : Nat} (hlo : f.value n ≤ v) (hhi : v < f.value (n + 1))
    (hnear : v - f.value n < f.value (n + 1) - v ∨
      v - f.value n = f.value (n + 1) - v ∧ n % 2 = 0) : f.Rounds v n := by
  have hself : |v - f.value n| = v - f.value n := abs_of_nonneg (by linarith)
  refine ⟨fun q => ?_, fun q hne hdist => ?_⟩
  · rw [hself]
    by_cases hq : q ≤ n
    · exact (dist_left hlo hq).1
    · have hright := (dist_right hhi.le (show n + 1 ≤ q by omega)).1
      rcases hnear with h | h <;> linarith
  · rw [hself] at hdist
    by_cases hq : q ≤ n
    · exact absurd ((dist_left hlo hq).2 hdist) hne
    · have hright := (dist_right hhi.le (show n + 1 ≤ q by omega)).1
      rcases hnear with h | h
      · linarith
      · exact h.2

/-- A number rounds up when the next value is nearer, or as near and even. -/
theorem rounds_above {n : Nat} (hlo : f.value n ≤ v) (hhi : v < f.value (n + 1))
    (hnear : f.value (n + 1) - v < v - f.value n ∨
      v - f.value n = f.value (n + 1) - v ∧ (n + 1) % 2 = 0) : f.Rounds v (n + 1) := by
  have hself : |v - f.value (n + 1)| = f.value (n + 1) - v := by
    rw [abs_of_nonpos (by linarith), neg_sub]
  refine ⟨fun q => ?_, fun q hne hdist => ?_⟩
  · rw [hself]
    by_cases hq : n + 1 ≤ q
    · exact (dist_right hhi.le hq).1
    · have hleft := (dist_left hlo (show q ≤ n by omega)).1
      rcases hnear with h | h <;> linarith
  · rw [hself] at hdist
    by_cases hq : n + 1 ≤ q
    · exact absurd ((dist_right hhi.le hq).2 hdist) hne
    · have hleft := (dist_left hlo (show q ≤ n by omega)).1
      rcases hnear with h | h
      · linarith
      · exact h.2

theorem rounds_zero (f : BinaryFormat) : f.Rounds 0 0 := by
  have hnext : f.value 0 < f.value (0 + 1) := f.value_strictMono (by omega)
  have hzero := f.value_zero
  exact rounds_below (by linarith) (by linarith) (.inl (by linarith))

/-- The number nearest to `u` steps is at the nearest number of steps. -/
theorem rounds_of_steps (hf : f.Sound) {k n r : Nat} {u : ℚ} (hn : n < 2 * f.leastNormal)
    (hkn : k = 0 ∨ f.leastNormal ≤ n) (hle : n ≤ u) (hlt : u < n + 1)
    (hround : r = n ∧ u - n < n + 1 - u ∨ r = n + 1 ∧ n + 1 - u < u - n ∨
      r = n + n % 2 ∧ u - n = n + 1 - u) :
    f.Rounds (u * 2 ^ (f.leastStep + k)) (k * f.leastNormal + r) := by
  have hpow : (0 : ℚ) < 2 ^ (f.leastStep + k) := by positivity
  have hvalue : f.value (k * f.leastNormal + n) = n * 2 ^ (f.leastStep + k) :=
    value_step hkn (by omega)
  have hnext : f.value (k * f.leastNormal + n + 1) = (n + 1) * 2 ^ (f.leastStep + k) := by
    rw [Nat.add_assoc, value_step (by omega) (by omega)]
    push_cast
    rfl
  have hparity : (k * f.leastNormal + n) % 2 = n % 2 := by
    rw [Nat.add_mod, Nat.mul_mod, leastNormal_even hf, Nat.mul_zero, Nat.zero_mod, Nat.zero_add,
      Nat.mod_mod]
  generalize (2 : ℚ) ^ (f.leastStep + k) = s at *
  have hlo : f.value (k * f.leastNormal + n) ≤ u * s := by
    rw [hvalue]
    gcongr
  have hhi : u * s < f.value (k * f.leastNormal + n + 1) := by
    rw [hnext]
    gcongr
  -- comparing distances in steps is comparing them
  have hleft : u * s - f.value (k * f.leastNormal + n) = (u - n) * s := by
    rw [hvalue]
    ring
  have hright : f.value (k * f.leastNormal + n + 1) - u * s = (n + 1 - u) * s := by
    rw [hnext]
    ring
  rcases hround with ⟨rfl, hd⟩ | ⟨rfl, hd⟩ | ⟨rfl, hd⟩
  · refine rounds_below hlo hhi (.inl ?_)
    rw [hleft, hright]
    gcongr
  · rw [← Nat.add_assoc]
    refine rounds_above hlo hhi (.inl ?_)
    rw [hleft, hright]
    gcongr
  · have htie : u * s - f.value (k * f.leastNormal + n) =
        f.value (k * f.leastNormal + n + 1) - u * s := by rw [hleft, hright, hd]
    rcases Nat.mod_two_eq_zero_or_one n with heven | hodd
    · rw [heven, Nat.add_zero]
      exact rounds_below hlo hhi (.inr ⟨htie, by omega⟩)
    · rw [hodd, ← Nat.add_assoc]
      exact rounds_above hlo hhi (.inr ⟨htie, by omega⟩)

/-- The numbers that round to an even pattern or past it start halfway from the pattern before. -/
theorem Rounds.lt_iff (h : f.Rounds v p) {n : Nat} (hodd : n % 2 = 1) :
    n < p ↔ (f.value n + f.value (n + 1)) / 2 ≤ v := by
  have hlt : f.value n < f.value (n + 1) := f.value_strictMono (by omega)
  constructor
  · intro hp
    by_contra hv
    rw [not_le] at hv
    -- the pattern `n` would be nearer
    have hle : f.value (n + 1) ≤ f.value p := f.value_strictMono.monotone hp
    have hcloser : |v - f.value n| < |v - f.value p| := by
      rw [abs_of_nonpos (show v - f.value p ≤ 0 by linarith)]
      exact abs_lt.mpr ⟨by linarith, by linarith⟩
    exact absurd (h.closest n) (not_le.mpr hcloser)
  · intro hv
    by_contra hp
    have hle : f.value p ≤ f.value n := f.value_strictMono.monotone (by omega)
    have hclosest := h.closest (n + 1)
    rcases abs_cases (v - f.value (n + 1)) with ⟨h₂, -⟩ | ⟨h₂, -⟩
    · rw [abs_of_nonneg (by linarith)] at hclosest
      linarith
    · rw [abs_of_nonneg (by linarith), h₂] at hclosest
      -- so the number is halfway, and `p` is the odd one of the two
      have heq : f.value p = f.value n := by linarith
      have hpn : p = n := f.value_strictMono.injective heq
      subst hpn
      have heven := h.even (p + 1) (by omega) (by rw [h₂, abs_of_nonneg (by linarith)]; linarith)
      omega

/-- A number rounds to no pattern past a value that it is less than. -/
theorem Rounds.le_of_lt_value (h : f.Rounds v p) {n : Nat} (hv : v < f.value n) : p ≤ n := by
  by_contra hp
  have hlt : f.value n < f.value p := f.value_strictMono (by omega)
  have hclosest := h.closest n
  rw [abs_of_nonpos (by linarith), abs_of_nonpos (by linarith)] at hclosest
  linarith

end BinaryFormat

end WasmText
