import WasmText.Form.Expect
import WasmText.Proofs.IntegerPatterns

/-!
# Decimal numerals of numbers

The decimal numeral of a number is a row of digits without sign, point or underscore. It is lexed as
an integer (`Lexeme.spelledBy_toString`), and as a natural number of 32 bits it is read as the
number again (`Form.natural_toString`).
-/

namespace WasmText

/-! ## Rows of digits -/

namespace Digit

variable {c : Char} {cs : List Char}

theorem range_of_isDigit (h : c.isDigit = true) : '0' ≤ c ∧ c ≤ '9' := by
  simpa [Char.isDigit, Char.le_def] using h

/-- A digit has its value. -/
theorem value?_of_isDigit (h : c.isDigit = true) : value? 10 c = some (c.toNat - '0'.toNat) := by
  have hrange := range_of_isDigit h
  have hlt : c.toNat - '0'.toNat < 10 := by
    have hle : c.toNat ≤ '9'.toNat := hrange.2
    have hnine : '9'.toNat = '0'.toNat + 9 := rfl
    omega
  rw [value?, if_pos hrange, Option.filter_some, if_pos (decide_eq_true hlt)]

/-- A run of digits without underscores is read to its end. -/
theorem more_of_isDigit (h : ∀ c ∈ cs, c.isDigit = true) :
    more 10 cs = (cs.map fun c => c.toNat - '0'.toNat, []) := by
  induction cs with
  | nil => rfl
  | cons c cs ih =>
    have hc := value?_of_isDigit (h c List.mem_cons_self)
    have hcs := ih fun d hd => h d (List.mem_cons_of_mem c hd)
    cases cs with
    | nil => rw [more, hc]; rfl
    | cons d cs => rw [more, hc]; dsimp only; rw [hcs]; rfl

/-- A row of digits is read to its end. -/
theorem run?_of_isDigit (hne : cs ≠ []) (h : ∀ c ∈ cs, c.isDigit = true) :
    run? 10 cs = some (cs.map fun c => c.toNat - '0'.toNat, []) := by
  obtain ⟨c, cs, rfl⟩ := List.exists_cons_of_ne_nil hne
  rw [run?, value?_of_isDigit (h c List.mem_cons_self),
    more_of_isDigit fun d hd => h d (List.mem_cons_of_mem c hd)]
  rfl

/-- The digits of a number are worth that number. -/
theorem toNat_toDigits (n : Nat) :
    toNat 10 ((Nat.toDigits 10 n).map fun c => c.toNat - '0'.toNat) = n := by
  rw [toNat, List.foldl_map]
  simp only [Nat.mul_comm _ 10]
  rw [← Nat.ofDigitChars_eq_foldl]
  exact Nat.ofDigitChars_ten_toDigits

/-! ## The characters of a numeral -/

theorem toList_toString (n : Nat) : (toString n).toList = Nat.toDigits 10 n := by
  rw [Nat.toString_eq_ofList_toDigits, String.toList_ofList]

theorem isDigit_of_mem_toString {n : Nat} (h : c ∈ (toString n).toList) : c.isDigit = true :=
  Nat.isDigit_of_mem_toDigits (by decide) (by decide) (toList_toString n ▸ h)

theorem exists_toList_toString (n : Nat) :
    ∃ c cs, (toString n).toList = c :: cs ∧ c.isDigit = true := by
  obtain ⟨c, cs, hcs⟩ := List.exists_cons_of_ne_nil (l := Nat.toDigits 10 n) Nat.toDigits_ne_nil
  rw [← toList_toString] at hcs
  exact ⟨c, cs, hcs, isDigit_of_mem_toString (hcs ▸ List.mem_cons_self)⟩

end Digit

open Digit

/-! ## What the numeral is read as -/

namespace Magnitude

theorem sign_of_isDigit {c : Char} {cs : List Char} (h : c.isDigit = true) :
    sign (c :: cs) = (false, c :: cs) := by
  unfold sign
  split
  · next heq => cases heq; cases h
  · next heq => cases heq; cases h
  · rfl

/-- No other way to read a numeral starts with two digits or with one and nothing after it. -/
theorem ofChars?_of_isDigit {cs : List Char} (hne : cs ≠ []) (h : ∀ c ∈ cs, c.isDigit = true) :
    ofChars? cs = some (.number false (cs.map fun c => c.toNat - '0'.toNat) none none) := by
  have hnot (c : Char) (hc : c.isDigit = false) : c ∉ cs := by
    intro hmem
    rw [h c hmem] at hc
    cases hc
  have hrun : Digit.run? (base false) cs = _ := run?_of_isDigit hne h
  unfold ofChars?
  split
  · exact absurd List.mem_cons_self (hnot 'i' rfl)
  · exact absurd List.mem_cons_self (hnot 'n' rfl)
  · exact absurd List.mem_cons_self (hnot 'n' rfl)
  · exact absurd (List.mem_cons_of_mem _ List.mem_cons_self) (hnot 'x' rfl)
  · simp [number?, hrun, fraction, exponent?]

end Magnitude

/-- The digits of a number are read as its digits. -/
theorem Reading.ofText?_toString (n : Nat) : ∃ ds, Digit.toNat 10 ds = n ∧
    ofText? (toString n) = some ⟨false, .number false ds none none⟩ := by
  obtain ⟨c, cs, hcs, hc⟩ := exists_toList_toString n
  have hdigits : ∀ c ∈ (toString n).toList, c.isDigit = true := fun c => isDigit_of_mem_toString
  have hread := Magnitude.ofChars?_of_isDigit (by simp) hdigits
  refine ⟨_, toNat_toDigits n, ?_⟩
  rw [← toList_toString, ofText?, ofChars?]
  rw [hcs] at hread ⊢
  rw [Magnitude.sign_of_isDigit hc]
  dsimp only
  rw [hread]
  rfl

/-- A number that is written in digits is an integer. -/
theorem Numeral.ofText_toString (n : Nat) : ofText (toString n) = .ok ⟨.int, toString n⟩ := by
  obtain ⟨ds, -, hds⟩ := Reading.ofText?_toString n
  rw [ofText, hds]
  rfl

/-- Its value is that number, when it fits. -/
theorem Numeral.toI32_toString {n : Nat} (h : n < Nat.pow 2 32) :
    (⟨.int, toString n⟩ : Numeral).toI32 = .ok (BitVec.ofNat 32 n) := by
  obtain ⟨ds, hn, hds⟩ := Reading.ofText?_toString n
  have hwrites := Reading.ofChars?_eq_some_iff.mp hds
  have hvalue : signed false (Digit.number (Magnitude.base false) ds) = n := by
    rw [← Digit.toNat_eq_number]
    exact congrArg Nat.cast hn
  rw [(patterns_of_writes hwrites).1, hvalue, integerAnswer_natural _ h]

/-- A number of 32 bits is read from its decimal numeral. -/
theorem Form.natural_toString {n : Nat} (h : n < Nat.pow 2 32) (span : Span) :
    natural (toString n) span = .ok n := by
  obtain ⟨c, cs, hcs, hc⟩ := exists_toList_toString n
  have hsign :
      ¬((toString n).toList.head? = some '+' ∨ (toString n).toList.head? = some '-') := by
    rw [hcs]
    rintro (heq | heq) <;> cases heq <;> cases hc
  have hvalue : naturalOfText? (toString n) = some n := by
    rw [naturalOfText?, if_neg hsign, Numeral.ofText_toString]
    dsimp only
    rw [Numeral.toI32_toString h]
    simpa [Except.toOption] using Nat.mod_eq_of_lt h
  rw [natural, hvalue]

/-! ## How the numeral is lexed -/

namespace Lexeme

theorem isIdChar_of_isDigit {c : Char} (h : c.isDigit = true) : isIdChar c = true := by
  simp [isIdChar, range_of_isDigit h]

/-- The digits of a number are lexed as an integer. -/
theorem word_toString (n : Nat) : word (toString n).toList = .ok (.number .int) := by
  obtain ⟨c, cs, hcs, hc⟩ := exists_toList_toString n
  have hnumeric : looksNumeric (toString n).toList = true := by
    rw [hcs, looksNumeric, Magnitude.sign_of_isDigit hc]
    split
    · rfl
    · rfl
    · next heq =>
      cases heq
      simp [range_of_isDigit hc]
    · next heq => cases heq
  rw [word, if_pos hnumeric, String.ofList_toList, Numeral.ofText_toString]

/-- The numeral is lexed as an integer, whatever may follow it. -/
theorem spelledBy_toString (n : Nat) : (TokenKind.number .int).SpelledBy (toString n).toList := by
  obtain ⟨c, cs, hcs, hc⟩ := exists_toList_toString n
  have hword := word_toString n
  rw [hcs] at hword ⊢
  refine spelledBy_word ?_ (fun d hd => isIdChar_of_isDigit ?_) hword
  · rintro rfl
    cases hc
  · exact isDigit_of_mem_toString (hcs ▸ hd)

end Lexeme

end WasmText
