import WasmText.Numeral.Bits
import WasmText.Proofs.NumeralValues

/-!
# What readers of floating-point numbers do

A number is handed to a reader without its sign and its underscores, and a hexadecimal one never
without an exponent (`FloatReader.withExponent_writes`). The laws of readers speak of such texts
only. A decimal text is rounded correctly (`FloatReader.RoundsDecimals`). So is a hexadecimal one
whose exponent fits 64 signed bits, but for the magnitudes that are rounded up to the least normal
value (`FloatReader.ReadsHexadecimals`).
-/

namespace WasmText

open Digit (plain)

/-! ## Laws -/

namespace BinaryFormat

variable {f : BinaryFormat} {v : ℚ} {p : Nat}

/-- The pattern that a magnitude rounds to: the nearest one as if the exponent had no end, or
infinity's where that one is past the finite patterns. -/
def IsRounding (f : BinaryFormat) (v : ℚ) (p : Nat) : Prop :=
  ∃ q, f.Rounds v q ∧ p = min q f.infinity

/-- Rounding goes no further than infinity. -/
theorem IsRounding.le_infinity (h : f.IsRounding v p) : p ≤ f.infinity := by
  obtain ⟨q, -, rfl⟩ := h
  exact min_le_right q f.infinity

/-- What rounds to infinity is past the limit. -/
theorem IsRounding.infinity_le_iff (hf : f.Sound) (h : f.IsRounding v p) :
    f.infinity ≤ p ↔ f.limit ≤ v := by
  obtain ⟨q, hq, rfl⟩ := h
  rw [← BinaryFormat.infinity_le_iff hf hq, le_min_iff]
  exact and_iff_left le_rfl

/-- What rounds to a finite pattern rounds to it as long as exponents are unbounded. -/
theorem IsRounding.rounds (h : f.IsRounding v p) (hp : p < f.infinity) : f.Rounds v p := by
  obtain ⟨q, hq, rfl⟩ := h
  rw [min_eq_left_iff.mpr (by omega)]
  exact hq

/-- A pattern that fits is what is rounded to, infinity standing for all that is larger. -/
theorem Fits.isRounding (h : f.Fits v p) : f.IsRounding v (min p f.infinity) := by
  obtain ⟨q, hq, rfl | ⟨hinf, hp⟩⟩ := h
  · exact ⟨p, hq, rfl⟩
  · exact ⟨q, hq, by omega⟩

end BinaryFormat

namespace BinaryFormat

/-- A magnitude in the binade below the least normal value that is rounded up to this value. -/
def CarriesToNormal (f : BinaryFormat) (v : ℚ) : Prop :=
  2 ^ (f.leastExponent - 1) ≤ v ∧ v < 2 ^ f.leastExponent ∧ f.Rounds v f.leastNormal

end BinaryFormat

namespace FloatReader

variable {f : BinaryFormat}

/-- Decimal numbers without sign and underscores are rounded correctly. -/
def RoundsDecimals (reader : FloatReader f) : Prop :=
  ∀ text kind whole fraction exponent,
    Magnitude.Writes text.toList kind (.number false whole fraction exponent) →
    '_' ∉ text.toList →
    ∃ p, f.IsRounding
        (Digit.exact 10 10 whole (fraction.getD []) (exponent.elim 0 Exponent.written)) p ∧
      reader.decimal text = some (BitVec.ofNat f.width p)

/-- A text is a hexadecimal number with an exponent, and has neither sign nor underscores. -/
structure IsHexadecimal (text : String) (whole : List Nat) (fraction : Option (List Nat))
    (exponent : Exponent) : Prop where
  writes : Magnitude.Writes text.toList .hexFloat (.number true whole fraction (some exponent))
  plain : '_' ∉ text.toList

/-- Hexadecimal numbers without sign and underscores are refused if their exponent does not fit 64
signed bits. If it does they are rounded correctly, with one exception: a magnitude of the binade
below the least normal value that is rounded up to this value is read as half as much again. -/
structure ReadsHexadecimals (reader : FloatReader f) : Prop where
  refused : ∀ text whole fraction exponent, IsHexadecimal text whole fraction exponent →
    ¬ (-2 ^ 63 ≤ exponent.written ∧ exponent.written < 2 ^ 63) → reader.hexadecimal text = none
  rounds : ∀ text whole fraction exponent, IsHexadecimal text whole fraction exponent →
    -2 ^ 63 ≤ exponent.written ∧ exponent.written < 2 ^ 63 →
    ¬ f.CarriesToNormal (Digit.exact 16 2 whole (fraction.getD []) exponent.written) →
    ∃ p, f.IsRounding (Digit.exact 16 2 whole (fraction.getD []) exponent.written) p ∧
      reader.hexadecimal text = some (BitVec.ofNat f.width p)
  carries : ∀ text whole fraction exponent, IsHexadecimal text whole fraction exponent →
    -2 ^ 63 ≤ exponent.written ∧ exponent.written < 2 ^ 63 →
    f.CarriesToNormal (Digit.exact 16 2 whole (fraction.getD []) exponent.written) →
    reader.hexadecimal text = some (BitVec.ofNat f.width (f.leastNormal + f.quiet))

/-! ## What is handed to a reader -/

variable {clean : List Char} {kind : NumeralKind} {whole : List Nat} {fraction : Option (List Nat)}
  {exponent : Option Exponent}

/-- The text of a decimal is given to the decimal reader. -/
theorem number_decimal (reader : FloatReader f)
    (h : Magnitude.Writes clean kind (.number false whole fraction exponent)) :
    reader.number clean = (reader.decimal (String.ofList clean)).getD f.nan := by
  rw [number]
  exact h.ne_zero_x

/-- The text of a hexadecimal is given to the hexadecimal reader, with an exponent. -/
theorem number_hexadecimal (reader : FloatReader f)
    (h : Magnitude.Writes clean kind (.number true whole fraction exponent)) :
    reader.number clean =
      (reader.hexadecimal (String.ofList (withExponent clean))).getD f.nan := by
  obtain ⟨rest, rfl⟩ := h.exists_zero_x
  rfl

/-- What is not a digit is not in a number that has no exponent. -/
theorem any_mark_iff {ws fs es : List Char} (hwhole : Digit.Writes 16 ws whole)
    (hfraction : Magnitude.WritesFraction 16 fs fraction)
    (hexponent : Magnitude.WritesExponent ['p', 'P'] es exponent) :
    ("0x".toList ++ (ws ++ (fs ++ es))).any (fun c => c == 'p' || c == 'P') = true ↔
      exponent ≠ none := by
  have hdigits {cs : List Char} {ds : List Nat} (h : Digit.Writes 16 cs ds) :
      cs.any (fun c => c == 'p' || c == 'P') = false := by
    have hne {c : Char} {d : Nat} (h : Digit.IsDigit 16 c d) : (c == 'p' || c == 'P') = false := by
      rw [Bool.or_eq_false_iff, beq_eq_false_iff_ne, beq_eq_false_iff_ne]
      exact ⟨h.ne (by decide), h.ne (by decide)⟩
    induction h with
    | one h => rw [List.any_cons, hne h]; rfl
    | next h _ ih => rw [List.any_cons, hne h, ih]; rfl
    | apart h _ ih => rw [List.any_cons, hne h, List.any_cons, ih]; rfl
  have hpoint : fs.any (fun c => c == 'p' || c == 'P') = false := by
    cases hfraction with
    | none | point => rfl
    | digits h => rw [List.any_cons, hdigits h]; rfl
  rw [List.any_append, List.any_append, List.any_append, hdigits hwhole, hpoint]
  cases hexponent with
  | none => decide
  | some hmark =>
    rcases List.mem_cons.mp hmark with rfl | hmark
    · simp
    · simp [List.mem_singleton.mp hmark]

/-- Without an exponent one of 0 is put at the end. -/
theorem withExponent_of_none
    (h : Magnitude.Writes clean kind (.number true whole fraction none)) :
    withExponent clean = clean ++ ['p', '0'] := by
  cases h with
  | hexadecimal hwhole hfraction hexponent =>
    exact if_neg fun hany => (any_mark_iff hwhole hfraction hexponent).mp hany rfl

/-- A hexadecimal number is handed over with its exponent, or with a zero for one. -/
theorem withExponent_writes
    (h : Magnitude.Writes clean kind (.number true whole fraction exponent)) :
    Magnitude.Writes (withExponent clean) .hexFloat
      (.number true whole fraction (some (exponent.getD ⟨false, [0]⟩))) := by
  cases exponent with
  | none =>
    rw [withExponent_of_none h]
    cases h with
    | hexadecimal hwhole hfraction hexponent =>
      cases hexponent
      rw [List.append_nil, List.append_assoc, List.append_assoc]
      have hzero : Digit.Writes 10 ['0'] [0] := .one (Digit.value?_eq_some_iff.mp (by decide))
      have hnumber := Magnitude.Writes.hexadecimal hwhole hfraction
        (.some (show 'p' ∈ ['p', 'P'] from List.mem_cons_self) .none hzero)
      rwa [if_neg (by simp)] at hnumber
  | some exponent =>
    cases h with
    | hexadecimal hwhole hfraction hexponent =>
      rw [withExponent, if_pos ((any_mark_iff hwhole hfraction hexponent).mpr nofun)]
      have hnumber := Magnitude.Writes.hexadecimal hwhole hfraction hexponent
      rwa [if_neg (by cases hexponent; simp)] at hnumber

/-- With an exponent the text is one that the reader knows. -/
theorem isHexadecimal_withExponent
    (h : Magnitude.Writes clean kind (.number true whole fraction exponent))
    (hplain : '_' ∉ clean) : IsHexadecimal (String.ofList (withExponent clean)) whole fraction
      (exponent.getD ⟨false, [0]⟩) := by
  constructor
  · rw [String.toList_ofList]
    exact withExponent_writes h
  · rw [String.toList_ofList, withExponent]
    split
    · exact hplain
    · simp [hplain]

end FloatReader

end WasmText
