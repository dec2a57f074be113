import WasmText.Numeral.Bits
import WasmText.Proofs.NumeralValues

/-!
# Numbers in a word

Digits are read into a word of 64 bits one after another, and a step answers just if its product and
its sum fit. So the word is exact at every digit: it is the number that the digits so far write
(`Word.foldlM_push?_iff`), and a text has a word just if the number that it writes fits
(`Word.ofChars?_iff`).
-/

namespace WasmText

namespace Digit

variable {base : Nat} {cs : List Char} {ds : List Nat}

/-- Without underscores a run is one digit a character. -/
theorem Writes.forall₂ (h : Writes base cs ds) : List.Forall₂ (IsDigit base) (plain cs) ds := by
  have hkeep {c : Char} {d : Nat} (cs : List Char) (hc : IsDigit base c d) :
      plain (c :: cs) = c :: plain cs := plain_cons (hc.ne (by decide)) cs
  induction h with
  | one h =>
    rw [hkeep _ h]
    exact .cons h .nil
  | next h _ ih =>
    rw [hkeep _ h]
    exact .cons h ih
  | apart h _ ih =>
    rw [hkeep _ h, plain, List.filter_cons_of_neg (by decide)]
    exact .cons h ih

theorem number_cons (base d : Nat) (ds : List Nat) :
    number base (d :: ds) = d * base ^ ds.length + number base ds := by
  rw [← List.singleton_append, number_append]
  simp [number]

end Digit

namespace Word

variable {base d : Nat} {a b w : UInt64} {c : Char} {cs : List Char} {ds : List Nat}

/-! ## One step -/

theorem mul?_iff : mul? a b = some w ↔ w.toNat = a.toNat * b.toNat := by
  have hw : w.toNat < UInt64.size := w.toNat_lt_size
  rw [mul?]
  split
  · next hfits =>
    rw [Option.some.injEq, ← UInt64.toNat_inj, UInt64.toNat_mul, Nat.mod_eq_of_lt hfits]
    exact eq_comm
  · exact iff_of_false nofun (by omega)

theorem add?_iff : add? a b = some w ↔ w.toNat = a.toNat + b.toNat := by
  have hw : w.toNat < UInt64.size := w.toNat_lt_size
  rw [add?]
  split
  · next hfits =>
    rw [Option.some.injEq, ← UInt64.toNat_inj, UInt64.toNat_add, Nat.mod_eq_of_lt hfits]
    exact eq_comm
  · exact iff_of_false nofun (by omega)

/-- A number that fits is that of a word. -/
theorem exists_toNat {n : Nat} (h : n < UInt64.size) : ∃ w : UInt64, w.toNat = n :=
  ⟨UInt64.ofNat n, UInt64.toNat_ofNat_of_lt' h⟩

theorem push?_iff (hbase : base ≤ 16) (h : Digit.IsDigit base c d) :
    push? base a c = some w ↔ w.toNat = a.toNat * base + d := by
  have hsize : 16 < UInt64.size := by decide
  have hlt : d < base := h.2
  have hbase' : (UInt64.ofNat base).toNat = base := UInt64.toNat_ofNat_of_lt' (by omega)
  have hd : (UInt64.ofNat d).toNat = d := UInt64.toNat_ofNat_of_lt' (by omega)
  rw [push?, Digit.value?_eq_some_iff.mpr h]
  simp only [Option.bind_eq_bind, Option.bind_some, Option.bind_eq_some_iff, mul?_iff, add?_iff,
    hbase', hd]
  constructor
  · rintro ⟨product, hproduct, hsum⟩
    rw [hsum, hproduct]
  · intro hsum
    have hw : w.toNat < UInt64.size := w.toNat_lt_size
    obtain ⟨product, hproduct⟩ := exists_toNat (show a.toNat * base < UInt64.size by omega)
    exact ⟨product, hproduct, hproduct ▸ hsum⟩

/-! ## A run of digits -/

/-- At every digit the word is the number that the digits so far write. -/
theorem foldlM_push?_iff (hbase : base ≤ 16) (h : List.Forall₂ (Digit.IsDigit base) cs ds) :
    cs.foldlM (push? base) a = some w ↔
      w.toNat = a.toNat * base ^ ds.length + Digit.number base ds := by
  induction h generalizing a with
  | nil =>
    rw [List.foldlM_nil, Option.pure_def, Option.some.injEq, ← UInt64.toNat_inj, eq_comm]
    simp [Digit.number]
  | @cons c d cs ds hd _ ih =>
    have hpow : 0 < base ^ ds.length := Nat.pow_pos (Nat.zero_lt_of_lt hd.2)
    have hsplit (n : Nat) : n * base ^ (d :: ds).length + Digit.number base (d :: ds) =
        (n * base + d) * base ^ ds.length + Digit.number base ds := by
      rw [Digit.number_cons, List.length_cons]
      ring
    rw [List.foldlM_cons, Option.bind_eq_bind, Option.bind_eq_some_iff, hsplit]
    simp only [push?_iff hbase hd, ih]
    constructor
    · rintro ⟨b, hb, hw⟩
      rw [hw, hb]
    · intro hw
      -- the number so far is no larger than the whole one
      have hle : a.toNat * base + d ≤ (a.toNat * base + d) * base ^ ds.length :=
        Nat.le_mul_of_pos_right _ hpow
      have hlt : w.toNat < UInt64.size := w.toNat_lt_size
      obtain ⟨b, hb⟩ := exists_toNat (show a.toNat * base + d < UInt64.size by omega)
      exact ⟨b, hb, hb ▸ hw⟩

/-- Digits have a word just if their number fits, and it is that number. -/
theorem ofChars?_iff (hbase : base ≤ 16) (h : Digit.Writes base cs ds) :
    ofChars? base (Digit.plain cs) = some w ↔ w.toNat = Digit.number base ds := by
  have hdigits := h.forall₂
  have hfold := foldlM_push?_iff (a := 0) (w := w) hbase hdigits
  rw [UInt64.toNat_zero, Nat.zero_mul, Nat.zero_add] at hfold
  generalize Digit.plain cs = clean at hdigits hfold
  -- a run of digits is not empty and does not start with a plus sign
  cases hdigits with
  | nil => cases h
  | @cons c d cs' ds' hd _ =>
    have hplus : c ≠ '+' := hd.ne (by decide)
    rw [← hfold, ofChars?]
    · exact Iff.rfl
    · exact fun _ heq => hplus (List.cons.inj heq).1

end Word

end WasmText
