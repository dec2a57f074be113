import WasmText.Proofs.Digits
import WasmText.Proofs.Relexing

/-!
# The grammar of numerals

Which texts are numerals, as a relation: `Reading.Writes` says that some characters write a sign
and a magnitude, and of which kind the numeral is. The parts of a numeral are read front to back,
each as far as it goes, so two things have to be shown of every part: what is read is written so,
and what is written so is read, because what may follow it does not go on with it
(`Digit.Stops`). `Numeral.ofText_grammar` joins them, and says of a word that it is lexed as a
number of some kind just if it is a numeral of that kind.
-/

namespace WasmText

/-! ## The grammar -/

namespace Digit

/-- Some characters write a run of digits: one underscore may stand between two of them. -/
inductive Writes (base : Nat) : List Char → List Nat → Prop
  | one {c : Char} {d : Nat} (h : IsDigit base c d) : Writes base [c] [d]
  | next {c : Char} {d : Nat} {cs : List Char} {ds : List Nat} (h : IsDigit base c d)
      (hrest : Writes base cs ds) : Writes base (c :: cs) (d :: ds)
  | apart {c : Char} {d : Nat} {cs : List Char} {ds : List Nat} (h : IsDigit base c d)
      (hrest : Writes base cs ds) : Writes base (c :: '_' :: cs) (d :: ds)

end Digit

/-- A sign or none, and whether it is a minus. -/
inductive WritesSign : List Char → Bool → Prop
  | none : WritesSign [] false
  | plus : WritesSign ['+'] false
  | minus : WritesSign ['-'] true

namespace Magnitude

/-- A fraction or none; a point may have no digit after it. -/
inductive WritesFraction (base : Nat) : List Char → Option (List Nat) → Prop
  | none : WritesFraction base [] none
  | point : WritesFraction base ['.'] (some [])
  | digits {cs : List Char} {ds : List Nat} (h : Digit.Writes base cs ds) :
      WritesFraction base ('.' :: cs) (some ds)

/-- An exponent or none: a mark, a sign and decimal digits. -/
inductive WritesExponent (marks : List Char) : List Char → Option Exponent → Prop
  | none : WritesExponent marks [] none
  | some {mark : Char} {ss cs : List Char} {negative : Bool} {ds : List Nat} (hmark : mark ∈ marks)
      (hsign : WritesSign ss negative) (h : Digit.Writes 10 cs ds) :
      WritesExponent marks (mark :: (ss ++ cs)) (some ⟨negative, ds⟩)

/-- Some characters write a numeral without sign, of a kind. -/
inductive Writes : List Char → NumeralKind → Magnitude → Prop
  | inf : Writes "inf".toList .inf .inf
  | nan : Writes "nan".toList .nan (.nan none)
  | payload {cs : List Char} {ds : List Nat} (h : Digit.Writes 16 cs ds) :
      Writes ("nan:0x".toList ++ cs) .nan (.nan (some ds))
  | decimal {ws fs es : List Char} {whole : List Nat} {fraction : Option (List Nat)}
      {exponent : Option Exponent} (hwhole : Digit.Writes 10 ws whole)
      (hfraction : WritesFraction 10 fs fraction)
      (hexponent : WritesExponent ['e', 'E'] es exponent) :
      Writes (ws ++ (fs ++ es)) (if fs = [] ∧ es = [] then .int else .float)
        (.number false whole fraction exponent)
  | hexadecimal {ws fs es : List Char} {whole : List Nat} {fraction : Option (List Nat)}
      {exponent : Option Exponent} (hwhole : Digit.Writes 16 ws whole)
      (hfraction : WritesFraction 16 fs fraction)
      (hexponent : WritesExponent ['p', 'P'] es exponent) :
      Writes ("0x".toList ++ (ws ++ (fs ++ es))) (if fs = [] ∧ es = [] then .int else .hexFloat)
        (.number true whole fraction exponent)

end Magnitude

/-- Some characters write a numeral of a kind. -/
inductive Reading.Writes : List Char → NumeralKind → Reading → Prop
  | mk {ss cs : List Char} {negative : Bool} {kind : NumeralKind} {m : Magnitude}
      (hsign : WritesSign ss negative) (h : Magnitude.Writes cs kind m) :
      Writes (ss ++ cs) kind ⟨negative, m⟩

/-! ## Digits -/

namespace Digit

variable {base d : Nat} {c : Char} {cs rest : List Char} {ds : List Nat}

/-- Digits start with a digit. -/
theorem Writes.exists_head (h : Writes base cs ds) :
    ∃ c d, cs.head? = some c ∧ IsDigit base c d := by
  cases h with
  | one h | next h | apart h => exact ⟨_, _, rfl, h⟩

/-! ## Reading a run of digits -/

/-- Nothing at the front of a text goes on with a run of digits. -/
def Stops (base : Nat) (rest : List Char) : Prop :=
  ∀ c ∈ rest.head?, c ≠ '_' ∧ ∀ d, ¬ IsDigit base c d

theorem Stops.nil : Stops base [] := by
  rintro c ⟨⟩

/-- No digits are read where they stop. -/
theorem more_of_stops (h : Stops base rest) : more base rest = ([], rest) := by
  fun_cases more base rest with
  | case1 => rfl
  | case2 c d hd => exact absurd (value?_eq_some_iff.mp hd) ((h c rfl).2 d)
  | case3 => rfl
  | case4 c c₂ cs d hd => exact absurd (value?_eq_some_iff.mp hd) ((h c rfl).2 d)
  | case5 c₂ cs => exact absurd rfl (h '_' rfl).1
  | case6 | case7 => rfl

theorem run?_of_stops (h : Stops base rest) : run? base rest = none := by
  obtain _ | ⟨c, cs⟩ := rest
  · rfl
  · rw [run?, value?_eq_none_iff.mpr (h c rfl).2]
    rfl

/-- A run in front of a text is read as more of a run. -/
theorem more_of_run? (h : run? base cs = some (ds, rest)) : more base cs = (ds, rest) := by
  obtain _ | ⟨c, cs⟩ := cs
  · cases h
  · obtain ⟨d, hd, heq⟩ := Option.map_eq_some_iff.mp h
    cases cs with
    | nil => rw [more, hd]; exact heq
    | cons c₂ cs => rw [more, hd]; exact heq

theorem value?_underscore : value? base '_' = none :=
  value?_eq_none_iff.mpr fun _ h => h.ne (by decide) rfl

/-- An underscore in front of a run goes on with the run before it. -/
theorem more_of_run?_apart (h : run? base cs = some (ds, rest)) :
    more base ('_' :: cs) = (ds, rest) := by
  obtain _ | ⟨c, cs⟩ := cs
  · cases h
  · obtain ⟨d, hd, heq⟩ := Option.map_eq_some_iff.mp h
    rw [more, value?_underscore, hd]
    exact heq

/-- Digits are read up to where they stop, underscores between them left out. -/
theorem run?_of_writes (h : Writes base cs ds) (hrest : Stops base rest) :
    run? base (cs ++ rest) = some (ds, rest) := by
  induction h with
  | one h =>
    rw [List.singleton_append, run?, value?_eq_some_iff.mpr h, more_of_stops hrest]
    rfl
  | next h _ ih =>
    rw [List.cons_append, run?, value?_eq_some_iff.mpr h, more_of_run? ih]
    rfl
  | apart h _ ih =>
    rw [List.cons_append, List.cons_append, run?, value?_eq_some_iff.mpr h, more_of_run?_apart ih]
    rfl

/-- What is read after a digit is a run together with the digit. -/
theorem exists_of_more (hc : IsDigit base c d) (h : more base cs = (ds, rest)) :
    ∃ body, cs = body ++ rest ∧ Writes base (c :: body) (d :: ds) := by
  fun_induction more base cs generalizing c d ds with
  | case1 | case3 | case6 | case7 =>
    cases h
    exact ⟨[], rfl, .one hc⟩
  | case2 c₂ d₂ hd₂ =>
    cases h
    exact ⟨[c₂], rfl, .next hc (.one (value?_eq_some_iff.mp hd₂))⟩
  | case4 c₂ c₃ cs d₂ hd₂ ds₂ rest₂ heq ih =>
    cases h
    obtain ⟨body, hbody, hwrites⟩ := ih (value?_eq_some_iff.mp hd₂) heq
    exact ⟨c₂ :: body, by rw [hbody]; rfl, .next hc hwrites⟩
  | case5 c₂ cs d₂ hd₂ ds₂ rest₂ heq hnone ih =>
    cases h
    obtain ⟨body, hbody, hwrites⟩ := ih (value?_eq_some_iff.mp hd₂) heq
    exact ⟨'_' :: c₂ :: body, by rw [hbody]; rfl, .apart hc hwrites⟩

/-- What is read as digits is written as digits. -/
theorem exists_of_run? (h : run? base cs = some (ds, rest)) :
    ∃ body, cs = body ++ rest ∧ Writes base body ds := by
  obtain _ | ⟨c, cs⟩ := cs
  · cases h
  · obtain ⟨d, hd, heq⟩ := Option.map_eq_some_iff.mp h
    cases heq
    obtain ⟨body, hbody, hwrites⟩ := exists_of_more (value?_eq_some_iff.mp hd) rfl
    exact ⟨c :: body, by rw [List.cons_append, ← hbody], hwrites⟩

end Digit

open Digit

/-! ## Signs -/

/-- A sign is read off what is not itself one. -/
theorem sign_of_writes {ss cs : List Char} {negative : Bool} (hsign : WritesSign ss negative)
    (hcs : ∀ c ∈ cs.head?, c ≠ '-' ∧ c ≠ '+') : Magnitude.sign (ss ++ cs) = (negative, cs) := by
  cases hsign with
  | plus | minus => rfl
  | none =>
    rw [List.nil_append]
    unfold Magnitude.sign
    split
    · exact absurd rfl (hcs '-' rfl).1
    · exact absurd rfl (hcs '+' rfl).2
    · rfl

theorem exists_sign (cs : List Char) :
    ∃ ss, cs = ss ++ (Magnitude.sign cs).2 ∧ WritesSign ss (Magnitude.sign cs).1 := by
  fun_cases Magnitude.sign cs with
  | case1 cs => exact ⟨['-'], rfl, .minus⟩
  | case2 cs => exact ⟨['+'], rfl, .plus⟩
  | case3 => exact ⟨[], rfl, .none⟩

namespace Magnitude

/-! ## Fractions and exponents -/

/-- The marks of an exponent. -/
def marks (hex : Bool) : List Char := if hex then ['p', 'P'] else ['e', 'E']

variable {hex : Bool} {c : Char} {cs rest fs es : List Char} {fraction : Option (List Nat)}
  {exponent : Option Exponent} {ds : List Nat}

/-- A letter marks an exponent in its base. -/
theorem isMark_iff : isMark hex c = true ↔ c ∈ marks hex := by
  cases hex <;> simp [isMark, marks]

/-- An exponent's mark is neither an underscore, a point nor a digit in the number's base. -/
theorem mark_facts (h : c ∈ marks hex) :
    c ≠ '_' ∧ c ≠ '.' ∧ ∀ d, ¬ IsDigit (base hex) c d := by
  rw [← value?_eq_none_iff]
  cases hex with
  | false =>
    obtain rfl | rfl : c = 'e' ∨ c = 'E' := by simpa [marks] using h
    all_goals decide
  | true =>
    obtain rfl | rfl : c = 'p' ∨ c = 'P' := by simpa [marks] using h
    all_goals decide

/-- An exponent stops the digits before it, since its mark is no digit. -/
theorem WritesExponent.stops (h : WritesExponent (marks hex) es exponent) :
    Stops (base hex) es := by
  cases h with
  | none => exact .nil
  | some hmark =>
    rintro c ⟨⟩
    have hfacts := mark_facts hmark
    exact ⟨hfacts.1, hfacts.2.2⟩

/-- What follows the whole part of a number does not go on with it. -/
theorem stops_of_writes (hfraction : WritesFraction (base hex) fs fraction)
    (hexponent : WritesExponent (marks hex) es exponent) : Stops (base hex) (fs ++ es) := by
  have hpoint (rest : List Char) : Stops (base hex) ('.' :: rest) := by
    rintro c ⟨⟩
    exact ⟨by decide, fun _ h => h.ne (by decide) rfl⟩
  cases hfraction with
  | none => exact hexponent.stops
  | point | digits => exact hpoint _

/-- A fraction is read as it is written. -/
theorem fraction_of_writes (hfraction : WritesFraction (base hex) fs fraction)
    (hexponent : WritesExponent (marks hex) es exponent) :
    Magnitude.fraction hex (fs ++ es) = (fraction, es) := by
  cases hfraction with
  | none =>
    rw [List.nil_append]
    unfold Magnitude.fraction
    split
    · -- an exponent does not start with a point
      cases hexponent with
      | some hmark => exact absurd rfl (mark_facts hmark).2.1
    · rfl
  | point =>
    rw [List.singleton_append, Magnitude.fraction, run?_of_stops hexponent.stops]
  | digits h =>
    rw [List.cons_append, Magnitude.fraction, run?_of_writes h hexponent.stops]

/-- What is read as a fraction is written as one, and there may be none. -/
theorem exists_fraction (hex : Bool) (cs : List Char) :
    ∃ fs, cs = fs ++ (Magnitude.fraction hex cs).2 ∧
      WritesFraction (base hex) fs (Magnitude.fraction hex cs).1 := by
  fun_cases Magnitude.fraction hex cs with
  | case1 cs ds rest hrun =>
    obtain ⟨body, rfl, hbody⟩ := exists_of_run? hrun
    exact ⟨'.' :: body, rfl, .digits hbody⟩
  | case2 cs => exact ⟨['.'], rfl, .point⟩
  | case3 => exact ⟨[], rfl, .none⟩

/-- A run of digits starts with no sign. -/
theorem head_ne_sign_of_writes {base : Nat} (h : Digit.Writes base cs ds) :
    ∀ c ∈ cs.head?, c ≠ '-' ∧ c ≠ '+' := by
  intro c hc
  obtain ⟨c', d, hc', hd⟩ := h.exists_head
  obtain rfl : c' = c := Option.some.inj (hc'.symm.trans hc)
  exact ⟨hd.ne (by decide), hd.ne (by decide)⟩

/-- An exponent is read as it is written, up to the end. -/
theorem exponent?_of_writes (h : WritesExponent (marks hex) es exponent) :
    exponent? hex es = some (exponent, []) := by
  cases h with
  | none => rfl
  | @some mark ss cs negative ds hmark hsign h =>
    have hrun : run? 10 (cs ++ []) = some (ds, []) := run?_of_writes h .nil
    rw [List.append_nil] at hrun
    rw [exponent?, if_pos (isMark_iff.mpr hmark), sign_of_writes hsign (head_ne_sign_of_writes h)]
    dsimp only
    rw [hrun]
    rfl

/-- What is read as an exponent is written as one. -/
theorem exists_of_exponent? (h : exponent? hex cs = some (exponent, rest)) :
    ∃ es, cs = es ++ rest ∧ WritesExponent (marks hex) es exponent := by
  obtain _ | ⟨c, cs⟩ := cs
  · cases h
    exact ⟨[], rfl, .none⟩
  by_cases hmark : isMark hex c = true
  · rw [exponent?, if_pos hmark] at h
    obtain ⟨ss, hss, hsign⟩ := exists_sign cs
    rcases hcs : sign cs with ⟨negative, cs'⟩
    rw [hcs] at h hss hsign
    obtain ⟨⟨ds, rest⟩, hrun, heq⟩ := Option.map_eq_some_iff.mp h
    cases heq
    obtain ⟨body, rfl, hwrites⟩ := exists_of_run? hrun
    refine ⟨c :: (ss ++ body), ?_, .some (isMark_iff.mp hmark) hsign hwrites⟩
    rw [hss, List.cons_append, List.append_assoc]
  · rw [exponent?, if_neg hmark] at h
    cases h
    exact ⟨[], rfl, .none⟩

/-! ## Numbers -/

/-- A number is read as it is written: its whole digits, its fraction and its exponent. -/
theorem number?_of_writes {ws : List Char} {whole : List Nat}
    (hwhole : Digit.Writes (base hex) ws whole) (hfraction : WritesFraction (base hex) fs fraction)
    (hexponent : WritesExponent (marks hex) es exponent) :
    number? hex (ws ++ (fs ++ es)) = some (.number hex whole fraction exponent) := by
  rw [number?, run?_of_writes hwhole (stops_of_writes hfraction hexponent)]
  dsimp only [Option.bind_eq_bind, Option.bind_some]
  rw [fraction_of_writes hfraction hexponent]
  dsimp only
  rw [exponent?_of_writes hexponent]
  rfl

/-- What is read as a number is written as one. -/
theorem exists_of_number? {m : Magnitude} (h : number? hex cs = some m) :
    ∃ ws fs es whole fraction exponent, cs = ws ++ (fs ++ es) ∧
      Digit.Writes (base hex) ws whole ∧ WritesFraction (base hex) fs fraction ∧
      WritesExponent (marks hex) es exponent ∧ m = .number hex whole fraction exponent := by
  obtain ⟨⟨whole, cs₁⟩, hrun, hrest⟩ := Option.bind_eq_some_iff.mp h
  obtain ⟨ws, rfl, hwhole⟩ := exists_of_run? hrun
  obtain ⟨fs, hfs, hfraction⟩ := exists_fraction hex cs₁
  dsimp only at hrest
  rcases hcs : Magnitude.fraction hex cs₁ with ⟨fraction, cs₂⟩
  rw [hcs] at hrest hfs hfraction
  obtain ⟨⟨exponent, cs₃⟩, hexp, hend⟩ := Option.bind_eq_some_iff.mp hrest
  obtain ⟨es, rfl, hexponent⟩ := exists_of_exponent? hexp
  dsimp only at hend
  split at hend
  · next hempty =>
    -- nothing is left of the text
    obtain rfl : cs₃ = [] := List.isEmpty_iff.mp hempty
    cases hend
    refine ⟨ws, fs, es, whole, fraction, exponent, ?_, hwhole, hfraction, hexponent, rfl⟩
    rw [hfs, List.append_nil]
  · cases hend

/-! ## Numerals without sign -/

/-- No decimal number goes on with `x` after its first digit. -/
theorem number?_false_of_zero_x (cs : List Char) : number? false ('0' :: 'x' :: cs) = none := by
  have hstops : Stops (base false) ('x' :: cs) := by
    rintro c ⟨⟩
    exact ⟨by decide, value?_eq_none_iff.mp (by decide)⟩
  have hrun : run? (base false) ('0' :: 'x' :: cs) = some ([0], 'x' :: cs) :=
    run?_of_writes (.one (value?_eq_some_iff.mp (by decide))) hstops
  have hfraction : Magnitude.fraction false ('x' :: cs) = (none, 'x' :: cs) := rfl
  have hexponent : exponent? false ('x' :: cs) = some (none, 'x' :: cs) := rfl
  rw [number?, hrun]
  dsimp only [Option.bind_eq_bind, Option.bind_some]
  rw [hfraction]
  dsimp only
  rw [hexponent]
  rfl

/-- A text that starts like no other numeral is read as a decimal number. -/
theorem ofChars?_of_number? {m : Magnitude} (hhead : ∃ c d, cs.head? = some c ∧ IsDigit 10 c d)
    (h : number? false cs = some m) : ofChars? cs = some m := by
  obtain ⟨c, d, hc, hd⟩ := hhead
  unfold ofChars?
  split
  · cases hc
    exact absurd rfl (hd.ne (by decide))
  · cases hc
    exact absurd rfl (hd.ne (by decide))
  · cases hc
    exact absurd rfl (hd.ne (by decide))
  · rw [number?_false_of_zero_x] at h
    cases h
  · exact h

/-- A magnitude is read as it is written. -/
theorem ofChars?_of_writes {kind : NumeralKind} {m : Magnitude} (h : Writes cs kind m) :
    ofChars? cs = some m := by
  cases h with
  | inf | nan => rfl
  | @payload cs ds h =>
    have hrun : run? 16 (cs ++ []) = some (ds, []) := run?_of_writes h .nil
    rw [List.append_nil] at hrun
    show ofChars? ('n' :: 'a' :: 'n' :: ':' :: '0' :: 'x' :: cs) = _
    rw [ofChars?, hrun]
  | decimal hwhole hfraction hexponent =>
    obtain ⟨c, d, hc, hd⟩ := hwhole.exists_head
    refine ofChars?_of_number? ⟨c, d, ?_, hd⟩ (number?_of_writes hwhole hfraction hexponent)
    rw [List.head?_append, hc]
    rfl
  | @hexadecimal ws fs es whole fraction exponent hwhole hfraction hexponent =>
    have hnumber : number? true (ws ++ (fs ++ es)) = some (.number true whole fraction exponent) :=
      number?_of_writes hwhole hfraction hexponent
    exact hnumber

/-- A number has neither point nor exponent just if none is written. -/
theorem kind_number {base : Nat} {marks : List Char} {whole : List Nat}
    (hfraction : WritesFraction base fs fraction) (hexponent : WritesExponent marks es exponent) :
    kind (.number hex whole fraction exponent) =
      if fs = [] ∧ es = [] then .int else if hex then .hexFloat else .float := by
  cases hfraction with
  | none => cases hexponent <;> rfl
  | point | digits => rfl

theorem kind_of_writes {kind : NumeralKind} {m : Magnitude} (h : Writes cs kind m) :
    m.kind = kind := by
  cases h with
  | inf | nan | payload => rfl
  | decimal hwhole hfraction hexponent | hexadecimal hwhole hfraction hexponent =>
    exact kind_number hfraction hexponent

/-- What is read as a magnitude is written as one of its kind. -/
theorem writes_of_ofChars? {m : Magnitude} (h : ofChars? cs = some m) : Writes cs m.kind m := by
  unfold ofChars? at h
  split at h
  · cases h
    exact .inf
  · cases h
    exact .nan
  · split at h
    · next hrun =>
      cases h
      obtain ⟨body, rfl, hbody⟩ := exists_of_run? hrun
      rw [List.append_nil]
      exact .payload hbody
    · cases h
  · obtain ⟨ws, fs, es, whole, fraction, exponent, rfl, hwhole, hfraction, hexponent, rfl⟩ :=
      exists_of_number? h
    rw [kind_number hfraction hexponent]
    exact .hexadecimal hwhole hfraction hexponent
  · obtain ⟨ws, fs, es, whole, fraction, exponent, rfl, hwhole, hfraction, hexponent, rfl⟩ :=
      exists_of_number? h
    rw [kind_number hfraction hexponent]
    exact .decimal hwhole hfraction hexponent

/-- A numeral without sign starts with a digit, with `nan` or is `inf`. -/
theorem Writes.cases_head {kind : NumeralKind} {m : Magnitude} (h : Writes cs kind m) :
    cs = "inf".toList ∨ (∃ tail, cs = "nan".toList ++ tail) ∨
      ∃ c d, cs.head? = some c ∧ IsDigit 10 c d := by
  cases h with
  | inf => exact .inl rfl
  | nan => exact .inr (.inl ⟨[], rfl⟩)
  | @payload cs => exact .inr (.inl ⟨":0x".toList ++ cs, rfl⟩)
  | decimal hwhole =>
    obtain ⟨c, d, hc, hd⟩ := hwhole.exists_head
    refine .inr (.inr ⟨c, d, ?_, hd⟩)
    rw [List.head?_append, hc]
    rfl
  | hexadecimal => exact .inr (.inr ⟨'0', 0, rfl, value?_eq_some_iff.mp (by decide)⟩)

/-- A magnitude starts with no sign, so a sign before it is read as one. -/
theorem Writes.head_ne_sign {kind : NumeralKind} {m : Magnitude} (h : Writes cs kind m) :
    ∀ c ∈ cs.head?, c ≠ '-' ∧ c ≠ '+' := by
  intro c hc
  rcases h.cases_head with rfl | ⟨tail, rfl⟩ | ⟨c', d, hc', hd⟩
  · cases hc
    decide
  · cases hc
    decide
  · obtain rfl : c' = c := Option.some.inj (hc'.symm.trans hc)
    exact ⟨hd.ne (by decide), hd.ne (by decide)⟩

end Magnitude

/-! ## Numerals -/

namespace Reading

/-- A numeral is read exactly where it is written. -/
theorem ofChars?_eq_some_iff {cs : List Char} {r : Reading} :
    ofChars? cs = some r ↔ Writes cs r.magnitude.kind r := by
  constructor
  · intro h
    obtain ⟨ss, hss, hsign⟩ := exists_sign cs
    rw [ofChars?] at h
    rcases hcs : Magnitude.sign cs with ⟨negative, body⟩
    rw [hcs] at h hss hsign
    obtain ⟨m, hm, rfl⟩ := Option.map_eq_some_iff.mp h
    rw [hss]
    exact .mk hsign (Magnitude.writes_of_ofChars? hm)
  · rintro ⟨hsign, hm⟩
    rw [ofChars?, sign_of_writes hsign hm.head_ne_sign]
    dsimp only
    rw [Magnitude.ofChars?_of_writes hm]
    rfl

theorem kind_of_writes {cs : List Char} {kind : NumeralKind} {r : Reading}
    (h : Writes cs kind r) : r.magnitude.kind = kind := by
  cases h with
  | mk _ hm => exact Magnitude.kind_of_writes hm

end Reading

namespace Numeral

variable {text : String} {kind : NumeralKind}

/-- Text is a numeral exactly where the grammar writes it. -/
theorem ofText_eq_ok_iff {n : Numeral} :
    ofText text = .ok n ↔ n.text = text ∧ ∃ r, Reading.Writes text.toList n.kind r := by
  unfold ofText
  split
  · next r hr =>
    have hwrites := Reading.ofChars?_eq_some_iff.mp hr
    constructor
    · rintro ⟨⟩
      exact ⟨rfl, r, hwrites⟩
    · rintro ⟨rfl, r', hr'⟩
      -- a text is read in one way only
      have hread : Reading.ofText? n.text = some r' :=
        Reading.ofChars?_eq_some_iff.mpr (Reading.kind_of_writes hr' ▸ hr')
      obtain rfl : r = r' := Option.some.inj (hr.symm.trans hread)
      rw [Reading.kind_of_writes hr']
  · next hnone =>
    constructor
    · rintro ⟨⟩
    · rintro ⟨rfl, r', hr'⟩
      have hread : Reading.ofText? n.text = some r' :=
        Reading.ofChars?_eq_some_iff.mpr (Reading.kind_of_writes hr' ▸ hr')
      rw [hnone] at hread
      cases hread

theorem ofText_eq_error (h : ¬ ∃ kind r, Reading.Writes text.toList kind r) :
    ofText text = .error (.malformed text) := by
  cases htext : ofText text with
  | error e =>
    unfold ofText at htext
    split at htext
    · cases htext
    · exact htext.symm
  | ok n =>
    obtain ⟨-, r, hr⟩ := ofText_eq_ok_iff.mp htext
    exact absurd ⟨n.kind, r, hr⟩ h

end Numeral

/-! ## Words -/

namespace Lexeme

/-- What the grammar writes looks like a numeral, and so is read as one. -/
theorem looksNumeric_of_writes {cs : List Char} {kind : NumeralKind} {r : Reading}
    (h : Reading.Writes cs kind r) : looksNumeric cs = true := by
  obtain ⟨hsign, hm⟩ := h
  rw [looksNumeric, sign_of_writes hsign hm.head_ne_sign]
  dsimp only
  rcases hm.cases_head with rfl | ⟨tail, rfl⟩ | ⟨c, d, hc, hd⟩
  · rfl
  · rfl
  · split
    · rfl
    · rfl
    · cases hc
      exact hd.decimal_range
    · cases hc

theorem word_eq_number_iff {cs : List Char} {kind : NumeralKind} :
    word cs = .ok (.number kind) ↔
      Numeral.ofText (String.ofList cs) = .ok ⟨kind, String.ofList cs⟩ := by
  unfold word
  dsimp only
  by_cases hlooks : looksNumeric cs = true
  · rw [if_pos hlooks]
    cases htext : Numeral.ofText (String.ofList cs) with
    | error e => simp
    | ok n =>
      have hn := (Numeral.ofText_eq_ok_iff.mp htext).1
      obtain ⟨kind', text⟩ := n
      subst hn
      simp
  · rw [if_neg hlooks]
    constructor
    · intro h
      repeat' split at h
      all_goals cases h
    · intro h
      obtain ⟨-, r, hr⟩ := Numeral.ofText_eq_ok_iff.mp h
      rw [String.toList_ofList] at hr
      exact absurd (looksNumeric_of_writes hr) hlooks

/-- A word is one lexeme, and is taken whole also where it is refused. -/
theorem read_word {c : Char} {cs : List Char} (hc : c ≠ '$')
    (hid : ∀ d ∈ c :: cs, isIdChar d = true) :
    (read c cs).size = cs.length + 1 ∧
      ∀ kind, (read c cs).result = .ok kind ↔ word (c :: cs) = .ok kind := by
  have hchar : isIdChar c = true := hid c List.mem_cons_self
  have hnot (d : Char) (hd : isIdChar d = false) : c ≠ d := by
    rintro rfl
    rw [hchar] at hd
    cases hd
  have htake : (c :: cs).takeWhile isIdChar = c :: cs := by
    rw [List.takeWhile_eq_self_iff]
    exact hid
  have hsize : toBoundary (c :: cs) (c :: cs).length = (c :: cs).length := by
    rw [toBoundary, List.drop_length]
    rfl
  rw [read, if_neg (hnot _ (by decide)), if_neg (hnot _ (by decide)), if_neg (hnot _ (by decide)),
    if_neg hc, if_pos hchar]
  dsimp only
  rw [htake]
  cases word (c :: cs) with
  | error cause =>
    refine ⟨hsize, fun kind => ?_⟩
    constructor
    · intro h
      cases h
    · intro h
      cases h
  | ok kind =>
    dsimp only [bounded]
    rw [if_pos hsize]
    exact ⟨rfl, fun _ => by simp only [Except.ok.injEq]⟩

end Lexeme

namespace Source

/-- The items of a source that is one word. -/
theorem items_word {src : Source} {c : Char} {cs : List Char} (htext : src.chars = c :: cs)
    (hc : c ≠ '$') (hid : ∀ d ∈ c :: cs, Lexeme.isIdChar d = true) :
    src.items = Item.ofLexeme .start (c :: cs) (Lexeme.read c cs).result := by
  have hboundary : Lexeme.isBoundary c = false := by
    refine Bool.eq_false_iff.mpr fun h => ?_
    have hchar := hid c List.mem_cons_self
    rw [Lexeme.not_isIdChar_of_isBoundary h] at hchar
    cases hchar
  have hgap : Lexeme.gap (c :: cs) = .done := by
    rw [Lexeme.gap_of_no_comment]
    · have hblank : ¬ Lexeme.isBlank c = true := fun h => by
        rw [Lexeme.isBoundary_of_isBlank h] at hboundary
        cases hboundary
      rw [if_neg hblank]
    · -- neither character of a comment's start stands in a word
      intro rest _
      constructor
      · rintro rfl
        cases hboundary
      · rintro rfl
        cases hboundary
  rw [items, htext, Item.ofChars_lexeme .start hgap, (Lexeme.read_word hc hid).1,
    Nat.add_sub_cancel, List.take_length, List.drop_length, Item.ofChars, List.append_nil]

/-- Lexing a word gives a number just if the word is a numeral, and then gives nothing else. -/
theorem number_mem_tokens_iff {src : Source} {c : Char} {cs : List Char}
    (htext : src.chars = c :: cs) (hc : c ≠ '$') (hid : ∀ d ∈ c :: cs, Lexeme.isIdChar d = true)
    (kind : NumeralKind) :
    ((∃ t, .ok t ∈ src.tokens ∧ t.kind = .number kind) ↔
      Numeral.ofText src.text = .ok ⟨kind, src.text⟩) ∧
    (Numeral.ofText src.text = .ok ⟨kind, src.text⟩ →
      src.tokens = [.ok ⟨.number kind, ⟨src.text, 0⟩, Pos.start.spanTo src.finish⟩,
        .ok (.eof src.finish)]) := by
  have hitems := items_word htext hc hid
  have hofList : String.ofList (c :: cs) = src.text := by
    rw [← htext, chars, String.ofList_toList]
  have hread : (Lexeme.read c cs).result = .ok (.number kind) ↔
      Numeral.ofText src.text = .ok ⟨kind, src.text⟩ := by
    rw [(Lexeme.read_word hc hid).2, Lexeme.word_eq_number_iff, hofList]
  have hwhole (h : Numeral.ofText src.text = .ok ⟨kind, src.text⟩) :
      src.tokens = [.ok ⟨.number kind, ⟨src.text, 0⟩, Pos.start.spanTo src.finish⟩,
        .ok (.eof src.finish)] := by
    have hkind : TokenKind.number kind ≠ .reserved := by simp
    rw [tokens, hitems, hread.mpr h, Item.ofLexeme_ok hkind, hofList, ← htext]
    rfl
  refine ⟨⟨?_, fun h => ?_⟩, hwhole⟩
  · rintro ⟨t, ht, hkind⟩
    rcases List.mem_append.mp ht with ht | ht
    · rw [hitems] at ht
      exact hread.mp (hkind ▸ (Item.exists_of_mem_ofLexeme ht).1)
    · obtain rfl : t = .eof src.finish := by simpa using ht
      cases hkind
  · rw [hwhole h]
    exact ⟨_, List.mem_cons_self, rfl⟩

end Source

/-- A text is a numeral of a kind just if the grammar writes it so, with the text kept; every other
text is malformed. A word alone is lexed as a number of a kind just if it is a numeral of it. -/
theorem Numeral.ofText_grammar (text : String) :
    (∀ n, Numeral.ofText text = .ok n ↔ n.text = text ∧ ∃ r, Reading.Writes text.toList n.kind r) ∧
    ((¬ ∃ kind r, Reading.Writes text.toList kind r) →
      Numeral.ofText text = .error (.malformed text)) ∧
    (text ≠ "" → (∀ c ∈ text.toList, Lexeme.isIdChar c = true) → text.toList.head? ≠ some '$' →
      ∀ file kind,
        ((∃ t, .ok t ∈ (Source.mk file text).tokens ∧ t.kind = .number kind) ↔
          Numeral.ofText text = .ok ⟨kind, text⟩) ∧
        (Numeral.ofText text = .ok ⟨kind, text⟩ →
          (Source.mk file text).tokens =
            [.ok ⟨.number kind, ⟨text, 0⟩, Pos.start.spanTo (Source.mk file text).finish⟩,
              .ok (.eof (Source.mk file text).finish)])) := by
  refine ⟨fun n => ofText_eq_ok_iff, ofText_eq_error, fun hne hid hhead file kind => ?_⟩
  rcases hcs : text.toList with _ | ⟨c, cs⟩
  · exact absurd (String.toList_eq_nil_iff.mp hcs) hne
  · rw [hcs] at hid hhead
    have hc : c ≠ '$' := fun h => hhead (by rw [h]; rfl)
    have hchars : (Source.mk file text).chars = c :: cs := hcs
    exact Source.number_mem_tokens_iff hchars hc hid kind

/-- A signed hexadecimal word with a fraction and an exponent, and a word that a second underscore
spoils. -/
theorem Numeral.ofText_grammar_words :
    (∃ t, .ok t ∈ (Source.mk "t" "-0x1_f.8p-3").tokens ∧ t.kind = .number .hexFloat) ∧
      Numeral.ofText "1__0" = .error (.malformed "1__0") := by
  have hread : Numeral.ofText "-0x1_f.8p-3" = .ok ⟨.hexFloat, "-0x1_f.8p-3"⟩ := by decide +kernel
  have hgrammar := Numeral.ofText_grammar "-0x1_f.8p-3"
  have hnone : Numeral.ofText "1__0" = .error (.malformed "1__0") := by decide +kernel
  have hid : "-0x1_f.8p-3".toList.all Lexeme.isIdChar = true := by decide +kernel
  have hhead : "-0x1_f.8p-3".toList.head? ≠ some '$' := by decide +kernel
  have hword := hgrammar.2.2 (by simp) (List.all_eq_true.mp hid) hhead "t" .hexFloat
  refine ⟨hword.1.mpr hread, (Numeral.ofText_grammar "1__0").2.1 ?_⟩
  rintro ⟨kind, r, hr⟩
  have hok := ((Numeral.ofText_grammar "1__0").1 ⟨kind, "1__0"⟩).mpr ⟨rfl, r, hr⟩
  rw [hnone] at hok
  cases hok

end WasmText
