import WasmText.Proofs.NearestPattern
import WasmText.Proofs.NumeralGrammar

/-!
# What numbers are worth

A number has an exact value, given by its digits and its exponent alone (`Digit.exact`). The sign is
the text's first character, and what is behind it tells by its first two characters whether it is
hexadecimal. An underscore says nothing: without its underscores a numeral has the same reading
(`Reading.Writes.filter`).
-/

namespace WasmText

/-! ## Exact values -/

namespace Digit

variable {base scale c : Nat} {cs : List Char} {whole fraction ds : List Nat}

/-- The value of digits before and after a point, scaled by a power. -/
def exact (base scale : Nat) (whole fraction : List Nat) (e : ℤ) : ℚ :=
  (number base whole + number base fraction / base ^ fraction.length) * (scale : ℚ) ^ e

/-- Digits after a point are digits before it with a smaller exponent. -/
theorem exact_eq (hscale : scale ^ c = base) (hpos : 0 < scale) (whole fraction : List Nat)
    (e : ℤ) : exact base scale whole fraction e =
      toNat base (whole ++ fraction) * (scale : ℚ) ^ (e - c * fraction.length) := by
  have hscale' : (scale : ℚ) ≠ 0 := by positivity
  have hpow : (base : ℚ) ^ fraction.length = (scale : ℚ) ^ ((c * fraction.length : ℕ) : ℤ) := by
    rw [← hscale, zpow_natCast, pow_mul, Nat.cast_pow]
  have hne : (base : ℚ) ^ fraction.length ≠ 0 := by
    rw [hpow]
    positivity
  rw [toNat_eq_number, number_append, exact, zpow_sub₀ hscale', ← Nat.cast_mul, ← hpow]
  push_cast
  field_simp

theorem Writes.lt (h : Writes base cs ds) : ∀ d ∈ ds, d < base := by
  induction h with
  | one h => simpa using h.2
  | next h _ ih | apart h _ ih => exact List.forall_mem_cons.mpr ⟨h.2, ih⟩

/-- Digits are worth less than the power of their base. -/
theorem toNat_lt (hbase : 2 ≤ base) (h : ∀ d ∈ ds, d < base) :
    toNat base ds < base ^ ds.length := by
  rw [toNat_eq_number, number, ← List.length_reverse]
  exact Nat.ofDigits_lt_base_pow_length (by omega) fun d hd => h d (List.mem_reverse.mp hd)

theorem toNat_append_lt (hbase : 2 ≤ base) (hwhole : ∀ d ∈ whole, d < base)
    (hfraction : ∀ d ∈ fraction, d < base) :
    toNat base (whole ++ fraction) < base ^ (whole.length + fraction.length) := by
  rw [← List.length_append]
  refine toNat_lt hbase fun d hd => ?_
  rcases List.mem_append.mp hd with hd | hd
  · exact hwhole d hd
  · exact hfraction d hd

end Digit

/-- The exponent that is written. -/
def Exponent.written (e : Exponent) : ℤ :=
  if e.negative then -(Digit.number 10 e.digits : ℤ) else Digit.number 10 e.digits

/-- An exponent is worth what is written. -/
theorem Exponent.toInt_eq_written (e : Exponent) : e.toInt = e.written := by
  rw [toInt, signed, Digit.toNat_eq_number, written]

theorem Magnitude.WritesFraction.lt {base : Nat} {fs : List Char} {fraction : Option (List Nat)}
    (h : WritesFraction base fs fraction) : ∀ d ∈ fraction.getD [], d < base := by
  cases h with
  | none | point => exact fun _ hd => nomatch hd
  | digits h => exact h.lt

/-- The digits of a number are below its base. -/
theorem Reading.Writes.digits_lt {cs : List Char} {kind : NumeralKind} {negative hex : Bool}
    {whole : List Nat} {fraction : Option (List Nat)} {exponent : Option Exponent}
    (h : Reading.Writes cs kind ⟨negative, .number hex whole fraction exponent⟩) :
    (∀ d ∈ whole, d < Magnitude.base hex) ∧ ∀ d ∈ fraction.getD [], d < Magnitude.base hex := by
  obtain ⟨-, h⟩ := h
  cases h with
  | decimal hwhole hfraction | hexadecimal hwhole hfraction => exact ⟨hwhole.lt, hfraction.lt⟩

/-! ## Underscores -/

namespace Digit

theorem plain_append (cs ds : List Char) : plain (cs ++ ds) = plain cs ++ plain ds :=
  List.filter_append ..

/-- What is no underscore stays. -/
theorem plain_cons {c : Char} (hc : c ≠ '_') (cs : List Char) : plain (c :: cs) = c :: plain cs :=
  List.filter_cons_of_pos (bne_iff_ne.mpr hc)

theorem Writes.filter {base : Nat} {cs : List Char} {ds : List Nat} (h : Writes base cs ds) :
    Writes base (plain cs) ds := by
  have hkeep {c : Char} {d : Nat} (cs : List Char) (hc : IsDigit base c d) :
      plain (c :: cs) = c :: plain cs := plain_cons (hc.ne (by decide)) cs
  induction h with
  | one h =>
    rw [hkeep _ h]
    exact .one h
  | next h _ ih =>
    rw [hkeep _ h]
    exact .next h ih
  | apart h _ ih =>
    rw [hkeep _ h, plain, List.filter_cons_of_neg (by decide)]
    exact .next h ih

end Digit

open Digit (plain plain_append plain_cons)

theorem WritesSign.filter {ss : List Char} {negative : Bool} (h : WritesSign ss negative) :
    plain ss = ss := by
  cases h <;> rfl

namespace Magnitude

theorem WritesFraction.filter {base : Nat} {fs : List Char} {fraction : Option (List Nat)}
    (h : WritesFraction base fs fraction) :
    WritesFraction base (plain fs) fraction ∧ (plain fs = [] ↔ fs = []) := by
  cases h with
  | none => exact ⟨.none, Iff.rfl⟩
  | point => exact ⟨.point, by decide⟩
  | digits h =>
    rw [plain_cons (by decide)]
    exact ⟨.digits h.filter, by simp⟩

theorem WritesExponent.filter {marks es : List Char} {exponent : Option Exponent}
    (hmarks : '_' ∉ marks) (h : WritesExponent marks es exponent) :
    WritesExponent marks (plain es) exponent ∧ (plain es = [] ↔ es = []) := by
  cases h with
  | none => exact ⟨.none, Iff.rfl⟩
  | some hmark hsign h =>
    rw [plain_cons (fun heq => hmarks (heq ▸ hmark)), plain_append, hsign.filter]
    exact ⟨.some hmark hsign h.filter, by simp⟩

theorem Writes.filter {cs : List Char} {kind : NumeralKind} {m : Magnitude}
    (h : Writes cs kind m) : Writes (plain cs) kind m := by
  cases h with
  | inf => exact .inf
  | nan => exact .nan
  | payload h =>
    rw [plain_append]
    exact .payload h.filter
  | decimal hwhole hfraction hexponent =>
    obtain ⟨hfraction', hfs⟩ := hfraction.filter
    obtain ⟨hexponent', hes⟩ := hexponent.filter (by decide)
    have hplain := Writes.decimal hwhole.filter hfraction' hexponent'
    simp only [hfs, hes] at hplain
    rwa [plain_append, plain_append]
  | hexadecimal hwhole hfraction hexponent =>
    obtain ⟨hfraction', hfs⟩ := hfraction.filter
    obtain ⟨hexponent', hes⟩ := hexponent.filter (by decide)
    have hplain := Writes.hexadecimal hwhole.filter hfraction' hexponent'
    simp only [hfs, hes] at hplain
    rwa [plain_append, plain_append, plain_append]

end Magnitude

/-- Without its underscores a text has the same reading. -/
theorem Reading.Writes.filter {cs : List Char} {kind : NumeralKind} {r : Reading}
    (h : Writes cs kind r) : Writes (plain cs) kind r := by
  obtain ⟨hsign, h⟩ := h
  rw [plain_append, hsign.filter]
  exact .mk hsign h.filter

/-- No underscore is left. -/
theorem Digit.underscore_notMem_plain (cs : List Char) : '_' ∉ plain cs := by
  intro hmem
  cases (List.mem_filter.mp hmem).2

/-- What has no underscores stays as it is. -/
theorem Digit.plain_of_notMem {cs : List Char} (h : '_' ∉ cs) : plain cs = cs :=
  List.filter_eq_self.mpr fun _ hc => bne_iff_ne.mpr fun heq => h (heq ▸ hc)

@[simp] theorem Digit.plain_plain (cs : List Char) : plain (plain cs) = plain cs :=
  plain_of_notMem (underscore_notMem_plain cs)

/-! ## Numerals without sign -/

namespace Magnitude

variable {cs : List Char} {kind : NumeralKind} {whole : List Nat} {fraction : Option (List Nat)}
  {exponent : Option Exponent}

/-- A decimal number does not start like a hexadecimal one. -/
theorem Writes.ne_zero_x (h : Writes cs kind (.number false whole fraction exponent))
    (rest : List Char) : cs ≠ '0' :: 'x' :: rest := by
  rintro rfl
  have hnumber : number? true rest = some (.number false whole fraction exponent) :=
    ofChars?_of_writes h
  obtain ⟨_, _, _, _, _, _, _, _, _, _, heq⟩ := exists_of_number? hnumber
  cases heq

/-- A hexadecimal magnitude is written with its prefix. -/
theorem Writes.exists_zero_x (h : Writes cs kind (.number true whole fraction exponent)) :
    ∃ rest, cs = '0' :: 'x' :: rest := by
  cases h with
  | hexadecimal => exact ⟨_, rfl⟩

end Magnitude

namespace Reading

variable {text : String} {kind : NumeralKind} {r : Reading}

/-- A numeral is its sign and a numeral without sign, and underscores are in the latter. -/
theorem Writes.exists_body {cs : List Char} (h : Writes cs kind r) :
    ∃ body, Magnitude.Writes body kind r.magnitude ∧ Magnitude.sign cs = (r.negative, body) ∧
      Magnitude.sign (plain cs) = (r.negative, plain body) := by
  obtain ⟨hsign, h⟩ := h
  refine ⟨_, h, sign_of_writes hsign h.head_ne_sign, ?_⟩
  rw [plain_append, hsign.filter]
  exact sign_of_writes hsign h.filter.head_ne_sign

/-- Text that the grammar writes is read as it is written. -/
theorem ofText?_of_writes (h : Writes text.toList kind r) : ofText? text = some r :=
  ofChars?_eq_some_iff.mpr (kind_of_writes h ▸ h)

theorem ofText_of_writes (h : Writes text.toList kind r) :
    Numeral.ofText text = .ok ⟨kind, text⟩ :=
  Numeral.ofText_eq_ok_iff.mpr ⟨rfl, r, h⟩

/-- The sign is the first character. -/
theorem negative_iff_of_writes (h : Writes text.toList kind r) :
    r.negative = true ↔ text.toList.head? = some '-' := by
  generalize text.toList = cs at h
  obtain ⟨hsign, h⟩ := h
  cases hsign with
  | plus => simp
  | minus => simp
  | none =>
    rw [List.nil_append]
    constructor
    · rintro ⟨⟩
    · intro hhead
      exact absurd rfl (h.head_ne_sign _ hhead).1

/-- A text without its underscores is a numeral of the same kind. -/
theorem ofText_plain (h : Writes text.toList kind r) :
    Numeral.ofText (String.ofList (plain text.toList)) =
      .ok ⟨kind, String.ofList (plain text.toList)⟩ := by
  refine ofText_of_writes (r := r) ?_
  rw [String.toList_ofList]
  exact h.filter

end Reading

end WasmText
