import Mathlib.Data.Nat.Digits.Lemmas
import Mathlib.Tactic.Ring
import WasmText.Numeral.Basic

/-!
# Digits

The digits of every base up to sixteen stand in one table, and a character has the value in a base
that the table gives it (`Digit.value?_eq_some_iff`). A row of digits writes a number, the most
significant first, and that number is what reading the row answers (`Digit.toNat_eq_number`).
-/

namespace WasmText.Digit

variable {base d : Nat} {c : Char}

/-- The digits and their values. -/
def table : List (Char × Nat) :=
  "0123456789".toList.zipIdx ++ ("abcdef".toList.zipIdx 10 ++ "ABCDEF".toList.zipIdx 10)

/-- A character is a digit in a base up to sixteen. -/
def IsDigit (base : Nat) (c : Char) (d : Nat) : Prop := (c, d) ∈ table ∧ d < base

theorem toNat_ofNat_of_lt {n : Nat} (h : n < 128) : (Char.ofNat n).toNat = n := by
  rw [Char.ofNat, dif_pos (.inl (by omega))]
  rfl

theorem mem_row_iff {lo n k : Nat} (hbound : lo + n ≤ 128) :
    (c, d) ∈ (List.range n).map (fun i => (Char.ofNat (lo + i), k + i)) ↔
      lo ≤ c.toNat ∧ c.toNat < lo + n ∧ d = k + (c.toNat - lo) := by
  rw [List.mem_map]
  constructor
  · rintro ⟨i, hi, heq⟩
    have hi : i < n := List.mem_range.mp hi
    obtain ⟨rfl, rfl⟩ := Prod.mk.inj heq
    rw [toNat_ofNat_of_lt (by omega)]
    omega
  · rintro ⟨hlo, hhi, rfl⟩
    refine ⟨c.toNat - lo, List.mem_range.mpr (by omega), ?_⟩
    rw [Nat.add_sub_cancel' hlo, Char.ofNat_toNat]

/-- The table is three rows of adjacent characters. -/
theorem table_eq : table =
    (List.range 10).map (fun i => (Char.ofNat (48 + i), 0 + i)) ++
      ((List.range 6).map (fun i => (Char.ofNat (97 + i), 10 + i)) ++
        (List.range 6).map (fun i => (Char.ofNat (65 + i), 10 + i))) := by decide

theorem value?_eq_some_iff : value? base c = some d ↔ IsDigit base c d := by
  have hle (a b : Char) : a ≤ b ↔ a.toNat ≤ b.toNat := Iff.rfl
  rw [value?, Option.filter_eq_some_iff, decide_eq_true_eq, IsDigit, table_eq]
  refine and_congr_left fun _ => ?_
  simp only [List.mem_append, mem_row_iff (show 48 + 10 ≤ 128 by decide),
    mem_row_iff (show 97 + 6 ≤ 128 by decide), mem_row_iff (show 65 + 6 ≤ 128 by decide), hle,
    show '0'.toNat = 48 from rfl, show '9'.toNat = 57 from rfl, show 'a'.toNat = 97 from rfl,
    show 'f'.toNat = 102 from rfl, show 'A'.toNat = 65 from rfl, show 'F'.toNat = 70 from rfl]
  split
  · rw [Option.some.injEq]; omega
  split
  · rw [Option.some.injEq]; omega
  split
  · rw [Option.some.injEq]; omega
  · simp only [reduceCtorEq, false_iff]; omega

theorem value?_eq_none_iff : value? base c = none ↔ ∀ d, ¬ IsDigit base c d := by
  simp only [Option.eq_none_iff_forall_ne_some, ne_eq, value?_eq_some_iff]

/-- The decimal digits are the first row of the table. -/
theorem IsDigit.decimal_range (h : IsDigit 10 c d) : ('0' ≤ c && c ≤ '9') = true := by
  have hrow : ∀ p ∈ table, p.2 < 10 → ('0' ≤ p.1 && p.1 ≤ '9') = true := by decide
  exact hrow (c, d) h.1 h.2

/-- No digit is one of the other characters of a numeral. -/
theorem IsDigit.ne (h : IsDigit base c d) {b : Char} (hb : ∀ p ∈ table, p.1 ≠ b) : c ≠ b :=
  hb (c, d) h.1

/-! ## Numbers -/

/-- The number that a row of digits writes. -/
def number (base : Nat) (ds : List Nat) : Nat := Nat.ofDigits base ds.reverse

theorem number_append (base : Nat) (whole fraction : List Nat) :
    number base (whole ++ fraction) =
      number base whole * base ^ fraction.length + number base fraction := by
  rw [number, List.reverse_append, Nat.ofDigits_append, List.length_reverse, number, number]
  ring

theorem toNat_eq_number (base : Nat) (ds : List Nat) : toNat base ds = number base ds := by
  induction ds using List.reverseRecOn with
  | nil => rfl
  | append_singleton ds d ih =>
    rw [number_append, ← ih, toNat, List.foldl_append]
    simp [toNat, number]

end WasmText.Digit
