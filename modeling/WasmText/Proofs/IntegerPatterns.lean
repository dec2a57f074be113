import WasmText.Proofs.CheckedWords

/-!
# The patterns of integers

An integer is written as a sign or none and a run of digits, decimal or hexadecimal
(`WritesInteger`). In 32 or 64 bits it has a pattern just if its value fits the signed or the
unsigned range, and the pattern is then the value modulo `2 ^ 32` or `2 ^ 64`, however many digits
were written (`Numeral.patterns_of_writes`). Numerals of the other kinds have none. No step on the
way wraps (`Numeral.Unwrapped`). `Numeral.integer_patterns` says all of it.
-/

namespace WasmText

/-- The integer with a sign and a magnitude. -/
def signed (negative : Bool) (m : ℕ) : ℤ := if negative then -m else m

/-- Some characters write an integer. -/
inductive WritesInteger : List Char → ℤ → Prop
  | decimal {ss cs : List Char} {negative : Bool} {ds : List Nat} (hsign : WritesSign ss negative)
      (h : Digit.Writes 10 cs ds) : WritesInteger (ss ++ cs) (signed negative (Digit.number 10 ds))
  | hexadecimal {ss cs : List Char} {negative : Bool} {ds : List Nat}
      (hsign : WritesSign ss negative) (h : Digit.Writes 16 cs ds) :
      WritesInteger (ss ++ ("0x".toList ++ cs)) (signed negative (Digit.number 16 ds))

namespace Reading

variable {cs : List Char} {negative hex : Bool} {whole : List Nat} {z : ℤ} {r : Reading}

/-- A numeral that is an integer has neither a fraction nor an exponent. -/
theorem exists_of_int (h : Writes cs .int r) :
    ∃ negative hex whole, r = ⟨negative, .number hex whole none none⟩ := by
  have hkind := kind_of_writes h
  obtain ⟨negative, m⟩ := r
  unfold Magnitude.kind at hkind
  dsimp only at hkind
  split at hkind
  · cases hkind
  · cases hkind
  · exact ⟨negative, _, _, rfl⟩
  · split at hkind <;> cases hkind

/-- An integer is worth what its digits and its sign say. -/
theorem Writes.integer (h : Writes cs .int ⟨negative, .number hex whole none none⟩) :
    WritesInteger cs (signed negative (Digit.number (Magnitude.base hex) whole)) := by
  obtain ⟨hsign, h⟩ := h
  cases hex with
  | false =>
    generalize hm : Magnitude.number false whole none none = m at h
    generalize NumeralKind.int = kind at h
    cases h with
    | decimal hwhole hfraction hexponent =>
      cases hm
      cases hfraction
      cases hexponent
      rw [List.nil_append, List.append_nil]
      exact .decimal hsign hwhole
    | inf | nan | payload | hexadecimal => cases hm
  | true =>
    generalize hm : Magnitude.number true whole none none = m at h
    generalize NumeralKind.int = kind at h
    cases h with
    | hexadecimal hwhole hfraction hexponent =>
      cases hm
      cases hfraction
      cases hexponent
      rw [List.nil_append, List.append_nil]
      exact .hexadecimal hsign hwhole
    | inf | nan | payload | decimal => cases hm

end Reading

/-- An integer is a numeral of its kind. -/
theorem WritesInteger.exists_writes {cs : List Char} {z : ℤ} (h : WritesInteger cs z) :
    ∃ negative hex whole, Reading.Writes cs .int ⟨negative, .number hex whole none none⟩ ∧
      z = signed negative (Digit.number (Magnitude.base hex) whole) := by
  cases h with
  | @decimal ss cs negative ds hsign h =>
    have hexponent : Magnitude.WritesExponent ['e', 'E'] [] none := .none
    have hnumber := Magnitude.Writes.decimal h .none hexponent
    rw [List.nil_append, List.append_nil] at hnumber
    exact ⟨negative, false, ds, .mk hsign hnumber, rfl⟩
  | @hexadecimal ss cs negative ds hsign h =>
    have hexponent : Magnitude.WritesExponent ['p', 'P'] [] none := .none
    have hnumber := Magnitude.Writes.hexadecimal h .none hexponent
    rw [List.nil_append, List.append_nil] at hnumber
    exact ⟨negative, true, ds, .mk hsign hnumber, rfl⟩

namespace Numeral

variable {text : String} {negative hex : Bool} {whole : List Nat} {w : Nat}

/-- The pattern of an integer modulo `2 ^ w`. -/
def wrapped (w : Nat) (z : ℤ) : BitVec w := BitVec.ofNat w (z % 2 ^ w).toNat

/-- What a conversion to `w` bits answers for an integer: its pattern if it fits the signed or the
unsigned range, else that it is out of range. -/
def integerAnswer (w : Nat) (text : String) (type : ValType) (z : ℤ) :
    Except NumeralError (BitVec w) :=
  if -2 ^ (w - 1) ≤ z ∧ z < 2 ^ w then .ok (wrapped w z) else .error (.outOfRange text type)

theorem ofInt_eq_wrapped (w : Nat) (z : ℤ) : BitVec.ofInt w z = wrapped w z := by
  apply BitVec.eq_of_toNat_eq
  rw [wrapped, BitVec.toNat_ofInt, BitVec.toNat_ofNat, Nat.mod_eq_of_lt]
  · push_cast
    rfl
  · have hlt : z % 2 ^ w < 2 ^ w := Int.emod_lt_of_pos z (by positivity)
    have hnonneg : 0 ≤ z % 2 ^ w := Int.emod_nonneg z (by positivity)
    rw [Int.toNat_lt hnonneg]
    exact_mod_cast hlt

/-! ## Magnitudes -/

/-- The word that an integer without sign is read into is its magnitude. -/
theorem magnitude?_iff {body : List Char} {m : UInt64}
    (h : Magnitude.Writes body .int (.number hex whole none none)) :
    magnitude? (Digit.plain body) = some m ↔ m.toNat = Digit.number (Magnitude.base hex) whole := by
  have hplain := h.filter
  generalize hkind : NumeralKind.int = kind at h
  cases h with
  | decimal hwhole hfraction hexponent =>
    cases hfraction
    cases hexponent
    simp only [List.append_nil] at hplain ⊢
    rw [magnitude?]
    · exact Word.ofChars?_iff (by decide) hwhole
    · exact hplain.ne_zero_x
  | hexadecimal hwhole hfraction hexponent =>
    cases hfraction
    cases hexponent
    simp only [List.append_nil] at hplain ⊢
    exact Word.ofChars?_iff (by decide) hwhole

/-- An integer has a sign and a magnitude just if the magnitude fits a word. -/
theorem intParts_of_writes
    (h : Reading.Writes text.toList .int ⟨negative, .number hex whole none none⟩) (type : ValType) :
    (∃ m, intParts ⟨.int, text⟩ type = .ok (negative, m) ∧
      m.toNat = Digit.number (Magnitude.base hex) whole) ∨
    intParts ⟨.int, text⟩ type = .error (.outOfRange text type) ∧
      2 ^ 64 ≤ Digit.number (Magnitude.base hex) whole := by
  obtain ⟨body, hbody, hsign, -⟩ := h.exists_body
  rw [intParts, if_neg (by simp)]
  dsimp only
  rw [hsign]
  dsimp only
  cases hm : magnitude? (Digit.plain body) with
  | some m => exact .inl ⟨m, rfl, (magnitude?_iff hbody).mp hm⟩
  | none =>
    refine .inr ⟨rfl, ?_⟩
    by_contra hlt
    obtain ⟨m, hm'⟩ := Word.exists_toNat (not_le.mp hlt)
    rw [(magnitude?_iff hbody).mpr hm'] at hm
    cases hm

/-! ## Both widths -/

theorem wrapped_natCast (w n : Nat) : wrapped w n = BitVec.ofNat w n := by
  rw [← ofInt_eq_wrapped, BitVec.ofInt_natCast]

theorem wrapped_neg (w n : Nat) : wrapped w (-n) = -BitVec.ofNat w n := by
  rw [← ofInt_eq_wrapped, BitVec.ofInt_neg, BitVec.ofInt_natCast]

theorem toBitVec_eq_ofNat (m : UInt64) :
    m.toBitVec = BitVec.ofNat 64 m.toNat ∧ m.toUInt32.toBitVec = BitVec.ofNat 32 m.toNat := by
  rw [← UInt64.toNat_toBitVec, BitVec.ofNat_toNat, BitVec.ofNat_toNat, BitVec.setWidth_eq,
    UInt64.toBitVec_toUInt32]
  exact ⟨rfl, rfl⟩

/-- A magnitude is compared with the bounds as the integer should be. -/
theorem toI32_of_intParts {m : UInt64} (h : intParts ⟨.int, text⟩ .i32 = .ok (negative, m)) :
    toI32 ⟨.int, text⟩ = integerAnswer 32 text .i32 (signed negative m.toNat) := by
  have hbound : ((1 : UInt64) <<< 31).toNat = 2 ^ 31 := by decide
  have hsize : UInt32.size = 2 ^ 32 := rfl
  rw [toI32, h, integerAnswer]
  change (if negative = true then _ else _) = _
  cases negative with
  | true =>
    simp only [if_true, UInt64.lt_iff_toNat_lt, hbound, signed]
    rw [wrapped_neg, UInt32.toBitVec_neg, (toBitVec_eq_ofNat m).2]
    split
    · rw [if_neg (by omega)]
    · rw [if_pos (by omega)]
  | false =>
    simp only [Bool.false_eq_true, if_false, Word.narrow?, hsize, signed]
    rw [wrapped_natCast, ← (toBitVec_eq_ofNat m).2]
    by_cases hm : m.toNat < 2 ^ 32
    · rw [if_pos hm, if_pos (by omega)]
    · rw [if_neg hm, if_neg (by omega)]

theorem toI64_of_intParts {m : UInt64} (h : intParts ⟨.int, text⟩ .i64 = .ok (negative, m)) :
    toI64 ⟨.int, text⟩ = integerAnswer 64 text .i64 (signed negative m.toNat) := by
  have hbound : ((1 : UInt64) <<< 63).toNat = 2 ^ 63 := by decide
  have hm := m.toNat_lt
  rw [toI64, h, integerAnswer]
  change (if negative = true then _ else _) = _
  cases negative with
  | true =>
    simp only [if_true, UInt64.lt_iff_toNat_lt, hbound, signed]
    rw [wrapped_neg, UInt64.toBitVec_neg, (toBitVec_eq_ofNat m).1]
    split
    · rw [if_neg (by omega)]
    · rw [if_pos (by omega)]
  | false =>
    simp only [Bool.false_eq_true, if_false, signed]
    rw [if_pos (by omega), wrapped_natCast, (toBitVec_eq_ofNat m).1]

/-- A magnitude that fits no word is out of every range up to its size. -/
theorem integerAnswer_of_le {m : Nat} (hw : w ≤ 64) (hm : 2 ^ 64 ≤ m) (type : ValType) :
    integerAnswer w text type (signed negative m) = .error (.outOfRange text type) := by
  have hrange : (2 : ℤ) ^ w ≤ 2 ^ 64 := pow_le_pow_right₀ (by norm_num) hw
  have hhalf : (2 : ℤ) ^ (w - 1) < 2 ^ 64 := pow_lt_pow_right₀ (by norm_num) (by omega)
  rw [integerAnswer, signed, if_neg]
  split <;> omega

/-- An integer of any length has the patterns of its value, or none. -/
theorem patterns_of_writes
    (h : Reading.Writes text.toList .int ⟨negative, .number hex whole none none⟩) :
    toI32 ⟨.int, text⟩ =
      integerAnswer 32 text .i32 (signed negative (Digit.number (Magnitude.base hex) whole)) ∧
    toI64 ⟨.int, text⟩ =
      integerAnswer 64 text .i64 (signed negative (Digit.number (Magnitude.base hex) whole)) := by
  constructor
  · rcases intParts_of_writes h .i32 with ⟨m, hm, hvalue⟩ | ⟨herror, hlarge⟩
    · rw [toI32_of_intParts hm, hvalue]
    · rw [toI32, herror, integerAnswer_of_le (by decide) hlarge]
      rfl
  · rcases intParts_of_writes h .i64 with ⟨m, hm, hvalue⟩ | ⟨herror, hlarge⟩
    · rw [toI64_of_intParts hm, hvalue]
    · rw [toI64, herror, integerAnswer_of_le (by decide) hlarge]
      rfl

/-- A natural number below `2 ^ 32` is its own pattern. -/
theorem integerAnswer_natural {n : Nat} (text : String) (hn : n < 2 ^ 32) :
    integerAnswer 32 text .i32 n = .ok (BitVec.ofNat 32 n) := by
  rw [integerAnswer, if_pos (by omega), wrapped_natCast]

/-! ## No step wraps -/

/-- What a pattern is made of is exact: the word that is read is the magnitude, narrowing it leaves
it as it is, and negating it gives the negative as a signed number. -/
structure Unwrapped (n : Numeral) (z : ℤ) : Prop where
  read : ∀ type negative m, n.intParts type = .ok (negative, m) → signed negative m.toNat = z
  narrowed : ∀ negative m bits, n.intParts .i32 = .ok (negative, m) → n.toI32 = .ok bits →
    m.toUInt32.toNat = m.toNat
  negated32 : ∀ m bits, n.intParts .i32 = .ok (true, m) → n.toI32 = .ok bits → bits.toInt = z
  negated64 : ∀ m bits, n.intParts .i64 = .ok (true, m) → n.toI64 = .ok bits → bits.toInt = z

theorem integerAnswer_eq_ok {type : ValType} {z : ℤ} {bits : BitVec w}
    (h : integerAnswer w text type z = .ok bits) :
    (-2 ^ (w - 1) ≤ z ∧ z < 2 ^ w) ∧ bits = wrapped w z := by
  rw [integerAnswer] at h
  split at h
  · next hrange => exact ⟨hrange, (Except.ok.inj h).symm⟩
  · cases h

/-- The pattern of a number that is not positive is that number as a signed one. -/
theorem toInt_of_integerAnswer {type : ValType} {z : ℤ} {bits : BitVec w} (hw : 0 < w)
    (h : integerAnswer w text type z = .ok bits) (hz : z ≤ 0) : bits.toInt = z := by
  obtain ⟨⟨hlo, -⟩, rfl⟩ := integerAnswer_eq_ok h
  have hpos : (0 : ℤ) < 2 ^ (w - 1) := by positivity
  rw [← ofInt_eq_wrapped, BitVec.toInt_ofInt_eq_self hw hlo (by omega)]

theorem unwrapped_of_writes
    (h : Reading.Writes text.toList .int ⟨negative, .number hex whole none none⟩) :
    Unwrapped ⟨.int, text⟩ (signed negative (Digit.number (Magnitude.base hex) whole)) := by
  obtain ⟨h32, h64⟩ := patterns_of_writes h
  have hread (type : ValType) (negative' : Bool) (m : UInt64)
      (hm : intParts ⟨.int, text⟩ type = .ok (negative', m)) :
      negative' = negative ∧ m.toNat = Digit.number (Magnitude.base hex) whole := by
    rcases intParts_of_writes h type with ⟨m', hm', hvalue⟩ | ⟨herror, -⟩
    · obtain ⟨rfl, rfl⟩ := Prod.mk.inj (Except.ok.inj (hm'.symm.trans hm))
      exact ⟨rfl, hvalue⟩
    · cases herror.symm.trans hm
  have hnegative (m : Nat) : signed true m ≤ 0 := by
    rw [signed, if_pos rfl]
    omega
  constructor
  · intro type negative' m hm
    obtain ⟨rfl, hvalue⟩ := hread type negative' m hm
    rw [hvalue]
  · intro negative' m bits hm hbits
    obtain ⟨rfl, hvalue⟩ := hread .i32 negative' m hm
    obtain ⟨⟨hlo, hhi⟩, -⟩ := integerAnswer_eq_ok (h32.symm.trans hbits)
    rw [UInt64.toNat_toUInt32, hvalue, Nat.mod_eq_of_lt]
    cases negative' with
    | true =>
      simp only [signed, if_true] at hlo
      omega
    | false =>
      simp only [signed, Bool.false_eq_true, if_false] at hhi
      omega
  · intro m bits hm hbits
    obtain ⟨rfl, -⟩ := hread .i32 true m hm
    exact toInt_of_integerAnswer (by decide) (h32.symm.trans hbits) (hnegative _)
  · intro m bits hm hbits
    obtain ⟨rfl, -⟩ := hread .i64 true m hm
    exact toInt_of_integerAnswer (by decide) (h64.symm.trans hbits) (hnegative _)

/-- A numeral is an integer just if its text writes one, however long. Its patterns are then those
of the integer modulo `2 ^ 32` and `2 ^ 64`, in the ranges that the signed and the unsigned numbers
share, and outside them there is none. Numerals of the other kinds are refused. Nothing wraps or is
cut off on the way: after each digit the word is the number so far, and what is made of it is exact
too. -/
theorem integer_patterns (text : String) (n : Numeral) (h : ofText text = .ok n) :
    (n.kind = .int ↔ ∃ z, WritesInteger text.toList z) ∧
    (∀ z, WritesInteger text.toList z →
      toI32 n = (if -2 ^ 31 ≤ z ∧ z < 2 ^ 32 then .ok (BitVec.ofNat 32 (z % 2 ^ 32).toNat)
        else .error (.outOfRange text .i32)) ∧
      toI64 n = (if -2 ^ 63 ≤ z ∧ z < 2 ^ 64 then .ok (BitVec.ofNat 64 (z % 2 ^ 64).toNat)
        else .error (.outOfRange text .i64)) ∧ n.Unwrapped z) ∧
    (n.kind ≠ .int →
      toI32 n = .error (.notInteger text n.kind) ∧ toI64 n = .error (.notInteger text n.kind)) ∧
    (∀ base cs ds w, base ≤ 16 → List.Forall₂ (Digit.IsDigit base) cs ds →
      cs.foldlM (Word.push? base) 0 = some w → w.toNat = Digit.number base ds) := by
  obtain ⟨kind, text'⟩ := n
  obtain ⟨htext, r, hr⟩ := ofText_eq_ok_iff.mp h
  obtain rfl : text' = text := htext
  have hint {z : ℤ} (hz : WritesInteger text'.toList z) : kind = .int ∧
      toI32 ⟨.int, text'⟩ = integerAnswer 32 text' .i32 z ∧
      toI64 ⟨.int, text'⟩ = integerAnswer 64 text' .i64 z ∧ Unwrapped ⟨.int, text'⟩ z := by
    obtain ⟨negative, hex, whole, hwrites, rfl⟩ := hz.exists_writes
    have hsame := Except.ok.inj (h.symm.trans (Reading.ofText_of_writes hwrites))
    obtain ⟨h32, h64⟩ := patterns_of_writes hwrites
    exact ⟨congrArg Numeral.kind hsame, h32, h64, unwrapped_of_writes hwrites⟩
  refine ⟨⟨?_, fun ⟨z, hz⟩ => (hint hz).1⟩, ?_, ?_, ?_⟩
  · rintro rfl
    obtain ⟨negative, hex, whole, rfl⟩ := Reading.exists_of_int hr
    exact ⟨_, hr.integer⟩
  · intro z hz
    obtain ⟨rfl, hanswers⟩ := hint hz
    exact hanswers
  · intro hkind
    have hrefused (type : ValType) :
        intParts ⟨kind, text'⟩ type = .error (.notInteger text' kind) := if_pos hkind
    rw [toI32, toI64, hrefused, hrefused]
    exact ⟨rfl, rfl⟩
  · intro base cs ds w hbase hdigits hw
    simpa using (Word.foldlM_push?_iff hbase hdigits).mp hw

/-- The least signed number of 32 bits with more digits than it needs, the number below it, a
number that needs 65 bits, and one that is no integer. -/
theorem integer_patterns_least :
    toI32 ⟨.int, "-0x0000_8000_0000"⟩ = .ok 0x80000000 ∧
      toI32 ⟨.int, "-2147483649"⟩ = .error (.outOfRange "-2147483649" .i32) ∧
      toI64 ⟨.int, "-2147483649"⟩ = .ok 0xffffffff7fffffff ∧
      toI64 ⟨.int, "0x1_0000_0000_0000_0000"⟩ =
        .error (.outOfRange "0x1_0000_0000_0000_0000" .i64) ∧
      toI32 ⟨.float, "1.0"⟩ = .error (.notInteger "1.0" .float) := by
  have hleast : Reading.ofText? "-0x0000_8000_0000" =
      some ⟨true, .number true [0, 0, 0, 0, 8, 0, 0, 0, 0, 0, 0, 0] none none⟩ := by
    decide +kernel
  have hbelow : Reading.ofText? "-2147483649" =
      some ⟨true, .number false [2, 1, 4, 7, 4, 8, 3, 6, 4, 9] none none⟩ := by
    decide +kernel
  have hlarge : Reading.ofText? "0x1_0000_0000_0000_0000" =
      some ⟨false, .number true (1 :: List.replicate 16 0) none none⟩ := by
    decide +kernel
  have hfloat : ofText "1.0" = .ok ⟨.float, "1.0"⟩ := by decide +kernel
  have hleast := Reading.ofChars?_eq_some_iff.mp hleast
  have hbelow := Reading.ofChars?_eq_some_iff.mp hbelow
  have hlarge := Reading.ofChars?_eq_some_iff.mp hlarge
  have hleast' := (integer_patterns _ _ (Reading.ofText_of_writes hleast)).2.1 _ hleast.integer
  have hbelow' := (integer_patterns _ _ (Reading.ofText_of_writes hbelow)).2.1 _ hbelow.integer
  have hlarge' := (integer_patterns _ _ (Reading.ofText_of_writes hlarge)).2.1 _ hlarge.integer
  exact ⟨hleast'.1.trans (if_pos (by decide)), hbelow'.1.trans (if_neg (by decide)),
    hbelow'.2.1.trans (if_pos (by decide)), hlarge'.2.1.trans (if_neg (by decide)),
    ((integer_patterns _ _ hfloat).2.2.1 (by decide)).1⟩

end Numeral

end WasmText
