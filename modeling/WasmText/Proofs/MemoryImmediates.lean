import WasmText.Instr.Immediate
import WasmText.Proofs.IntegerPatterns
import WasmText.Proofs.WellFormed

/-!
# Offsets and alignments of memory accesses

A load or store may be followed by an offset and an alignment, tokens that write a natural number
behind an equals sign (`Token.HasValue`). `Immediate.Leads` finds them at the front of a row of
forms. Each gives a number that it may or a problem, and `Immediate.memArg_exact` says that the
reader answers with just that. An alignment is a power of two, so the number that asks for the
natural one is refused where it is written.
-/

namespace WasmText

/-! ## Natural numbers -/

/-- Some characters write a natural number, decimal or hexadecimal and without sign. -/
structure WritesNatural (cs : List Char) (n : Nat) : Prop where
  integer : WritesInteger cs n
  unsigned : ∀ c ∈ cs.head?, c ≠ '+' ∧ c ≠ '-'

/-- What has no minus sign is not negative. -/
theorem WritesInteger.nonneg {cs : List Char} {z : ℤ} (h : WritesInteger cs z)
    (hhead : ∀ c ∈ cs.head?, c ≠ '-') : 0 ≤ z := by
  cases h with
  | decimal hsign | hexadecimal hsign =>
    cases hsign with
    | none | plus => exact Int.natCast_nonneg _
    | minus => exact absurd rfl (hhead '-' rfl)

namespace Numeral

variable {text : String} {n : Nat} {z : ℤ}

/-- A text that writes an integer is a numeral with the pattern of that integer. -/
theorem toI32_of_writesInteger (h : WritesInteger text.toList z) :
    ofText text = .ok ⟨.int, text⟩ ∧ toI32 ⟨.int, text⟩ = integerAnswer 32 text .i32 z := by
  obtain ⟨negative, hex, whole, hwrites, rfl⟩ := h.exists_writes
  exact ⟨Reading.ofText_of_writes hwrites, (patterns_of_writes hwrites).1⟩

/-- Only integers have a pattern. -/
theorem exists_writesInteger {m : Numeral} {b : BitVec 32} (h : ofText text = .ok m)
    (hbits : toI32 m = .ok b) : ∃ z, WritesInteger text.toList z := by
  obtain ⟨kind, text'⟩ := m
  obtain ⟨-, r, hr⟩ := ofText_eq_ok_iff.mp h
  have hkind : kind = .int := by
    by_contra hne
    rw [toI32, intParts, if_pos hne] at hbits
    cases hbits
  subst hkind
  obtain ⟨negative, hex, whole, rfl⟩ := Reading.exists_of_int hr
  exact ⟨_, hr.integer⟩

end Numeral

namespace Form

variable {text : String} {n : Nat}

/-- The natural numbers that are read are those that are written, up to 32 bits. -/
theorem naturalOfText?_eq_some_iff :
    naturalOfText? text = some n ↔ WritesNatural text.toList n ∧ n < 2 ^ 32 := by
  -- a sign is refused before the number is looked at
  by_cases hsign : text.toList.head? = some '+' ∨ text.toList.head? = some '-'
  · rw [naturalOfText?, if_pos hsign]
    refine ⟨nofun, fun h => ?_⟩
    rcases hsign with hsign | hsign
    · exact absurd rfl (h.1.unsigned _ hsign).1
    · exact absurd rfl (h.1.unsigned _ hsign).2
  have hhead : ∀ c ∈ text.toList.head?, c ≠ '+' ∧ c ≠ '-' := by
    intro c hc
    rw [not_or] at hsign
    exact ⟨fun h => hsign.1 (h ▸ hc), fun h => hsign.2 (h ▸ hc)⟩
  rw [naturalOfText?, if_neg hsign]
  constructor
  · intro h
    cases htext : Numeral.ofText text with
    | error e =>
      rw [htext] at h
      cases h
    | ok m =>
      rw [htext] at h
      obtain ⟨b, hbits, rfl⟩ := Success.of_map_toOption h
      obtain ⟨z, hz⟩ := Numeral.exists_writesInteger htext hbits
      obtain ⟨k, rfl⟩ := Int.eq_ofNat_of_zero_le (hz.nonneg fun c hc => (hhead c hc).2)
      obtain ⟨hnumeral, hanswer⟩ := Numeral.toI32_of_writesInteger hz
      obtain rfl := Except.ok.inj (hnumeral.symm.trans htext)
      have hlt : k < 2 ^ 32 := by
        by_contra hge
        rw [hanswer, Numeral.integerAnswer, if_neg (by omega)] at hbits
        cases hbits
      rw [hanswer, Numeral.integerAnswer_natural text hlt] at hbits
      rw [← Except.ok.inj hbits, BitVec.toNat_ofNat, Nat.mod_eq_of_lt hlt]
      exact ⟨⟨hz, hhead⟩, hlt⟩
  · rintro ⟨h, hlt⟩
    obtain ⟨hnumeral, hanswer⟩ := Numeral.toI32_of_writesInteger h.integer
    rw [hnumeral]
    dsimp only
    rw [hanswer, Numeral.integerAnswer_natural text hlt]
    exact congrArg some (Nat.mod_eq_of_lt hlt)

end Form

/-! ## Tokens with a value -/

namespace Immediate

/-- The text behind the first equals sign of a text, or all of it if there is none. -/
inductive Value : List Char → List Char → Prop
  | behind {key value : List Char} (h : '=' ∉ key) : Value (key ++ '=' :: value) value
  | whole {text : List Char} (h : '=' ∉ text) : Value text text

/-- There is one such text, which is found. -/
theorem value_iff {text : String} {value : List Char} :
    Value text.toList value ↔ value = (afterEquals text).toList := by
  have hkey (cs : List Char) (h : '=' ∉ cs) : ∀ c ∈ cs, (c != '=') = true := by
    intro c hc
    exact bne_iff_ne.mpr fun heq => h (heq ▸ hc)
  constructor
  · intro h
    generalize hcs : text.toList = cs at h
    cases h with
    | @behind key value h =>
      have hdrop : text.toList.dropWhile (· != '=') = '=' :: value := by
        rw [hcs]
        refine Lexeme.dropWhile_stretch (hkey key h) ?_
        rintro c ⟨⟩
        rfl
      rw [afterEquals, hdrop, String.toList_ofList]
    | whole h =>
      have hdrop : text.toList.dropWhile (· != '=') = [] := by
        rw [hcs, List.dropWhile_eq_nil_iff]
        exact hkey value h
      rw [afterEquals, hdrop, hcs]
  · rintro rfl
    have htake : '=' ∉ text.toList.takeWhile (· != '=') := by
      intro h
      exact absurd (List.mem_takeWhile_imp h) (by decide)
    have hall : text.toList.takeWhile (· != '=') ++ text.toList.dropWhile (· != '=') =
        text.toList := List.takeWhile_append_dropWhile
    have hhead := List.head?_dropWhile_not (· != '=') text.toList
    rw [afterEquals]
    rcases hdrop : text.toList.dropWhile (· != '=') with _ | ⟨c, value⟩
    · rw [hdrop, List.append_nil] at hall
      rw [hall] at htake
      exact .whole htake
    · rw [hdrop] at hhead hall
      obtain rfl : c = '=' := by simpa using hhead
      rw [← hall]
      dsimp only
      rw [String.toList_ofList]
      exact .behind htake

end Immediate

/-- Behind the equals sign of a token stands a natural number of 32 bits. -/
def Token.HasValue (t : Token) (n : Nat) : Prop :=
  ∃ value, Immediate.Value t.text.toList value ∧ WritesNatural value n ∧ n < 2 ^ 32

namespace Immediate

variable {t : Token} {op : Opcode} {items rest : List Form} {n : Nat}

/-- The value of a keyed immediate is what its text says behind the equals sign. -/
theorem hasValue_iff : t.HasValue n ↔ Form.naturalOfText? (afterEquals t.text) = some n := by
  rw [Token.HasValue, Form.naturalOfText?_eq_some_iff]
  constructor
  · rintro ⟨value, hvalue, h⟩
    rw [value_iff.mp hvalue] at h
    exact h
  · intro h
    exact ⟨_, value_iff.mpr rfl, h⟩

/-- A token has one value at most. -/
theorem hasValue_unique {m : Nat} (hn : t.HasValue n) (hm : t.HasValue m) : n = m := by
  rw [hasValue_iff] at hn hm
  exact Option.some.inj (hn.symm.trans hm)

/-- An immediate with a value is read as that value. -/
theorem natural_eq_ok_iff :
    Form.natural (afterEquals t.text) t.span = .ok n ↔ t.HasValue n := by
  rw [hasValue_iff, Form.natural]
  cases Form.naturalOfText? (afterEquals t.text) with
  | none => exact ⟨nofun, nofun⟩
  | some m => rw [Except.ok.injEq, Option.some.injEq]

/-- An immediate without one is refused by its text. -/
theorem natural_eq_error (h : ∀ n, ¬ t.HasValue n) :
    Form.natural (afterEquals t.text) t.span = .error ⟨.natural (afterEquals t.text), t.span⟩ := by
  rw [Form.natural]
  cases hvalue : Form.naturalOfText? (afterEquals t.text) with
  | none => rfl
  | some m => exact absurd (hasValue_iff.mpr hvalue) (h m)

/-! ## Offset and alignment -/

/-- The immediate of a kind at the front of some forms, if there is one, and the forms after it. -/
inductive Leads (kind : TokenKind) : List Form → Option Token → List Form → Prop
  | absent {items : List Form} (h : ∀ t, items.head? = some (.atom t) → t.kind ≠ kind) :
    Leads kind items none items
  | present {t : Token} {rest : List Form} (h : t.kind = kind) :
    Leads kind (.atom t :: rest) (some t) rest

/-- A keyed immediate leads or there is none. -/
theorem exists_leads (kind : TokenKind) (items : List Form) :
    ∃ t? rest, Leads kind items t? rest := by
  by_cases h : ∃ t, items.head? = some (.atom t) ∧ t.kind = kind
  · obtain ⟨t, hhead, hkind⟩ := h
    obtain ⟨rest, rfl⟩ := List.head?_eq_some_iff.mp hhead
    exact ⟨some t, rest, .present hkind⟩
  · exact ⟨none, items, .absent fun t hhead hkind => h ⟨t, hhead, hkind⟩⟩

namespace Leads

variable {kind : TokenKind} {t? : Option Token}

/-- The immediate that leads is the one that is looked for. -/
theorem keyed?_eq (h : Leads kind items t? rest) : keyed? kind items.head? = t? := by
  cases h with
  | present hkind => exact if_pos hkind
  | absent hkind =>
    match items with
    | [] | .list _ _ :: _ => rfl
    | .atom t :: rest => exact if_neg (hkind t rfl)

/-- The items behind it are what is left. -/
theorem drop_eq (h : Leads kind items t? rest) : items.drop t?.toList.length = rest := by
  cases h <;> rfl

end Leads

/-- The offset that an immediate gives, which is 0 if it is missing. -/
def GivesOffset : Option Token → Nat → Prop
  | none, n => n = 0
  | some t, n => t.HasValue n

/-- An alignment that may be written for an instruction. -/
def MayAlign (op : Opcode) (n : Nat) : Prop := n.isPowerOfTwo ∧ n ≤ op.access

/-- The alignment that an immediate gives, which is the bytes accessed if it is missing. -/
def GivesAlign (op : Opcode) : Option Token → Nat → Prop
  | none, n => n = op.access
  | some t, n => t.HasValue n ∧ MayAlign op n

/-- Behind the equals sign of an immediate stands no number of 32 bits. -/
def Unreadable : Option Token → Problem → Prop
  | none, _ => False
  | some t, p => (∀ n, ¬ t.HasValue n) ∧ p = ⟨.natural (afterEquals t.text), t.span⟩

/-- An immediate gives a number that is no alignment for an instruction: the first objection is
that it is no power of two, the second one that it is too large. -/
def Misaligned (op : Opcode) : Option Token → Problem → Prop
  | none, _ => False
  | some t, p => ∃ n, t.HasValue n ∧
    (¬ n.isPowerOfTwo ∧ p = ⟨.alignNotPower n, t.span⟩ ∨
      n.isPowerOfTwo ∧ op.access < n ∧ p = ⟨.alignTooLarge op.access, t.span⟩)

end Immediate

namespace Opcode

/-- Memory is accessed in powers of two. -/
theorem naturalAlign_eq_access (op : Opcode) : op.naturalAlign = op.access := by
  cases op <;> rfl

theorem isPowerOfTwo_eq_true_iff {n : Nat} : isPowerOfTwo n = true ↔ n.isPowerOfTwo := by
  refine ⟨isPowerOfTwo_iff, ?_⟩
  rintro ⟨k, rfl⟩
  rw [isPowerOfTwo, Bool.and_eq_true, bne_iff_ne, beq_iff_eq]
  exact ⟨(Nat.two_pow_pos k).ne', congrArg (2 ^ ·) Nat.log2_two_pow⟩

/-- The number that asks for the natural alignment may not be written. -/
theorem not_mayAlign_useNatural (op : Opcode) : ¬ Immediate.MayAlign op useNatural := by
  intro h
  exact ne_useNatural (isPowerOfTwo_eq_true_iff.mpr h.1) rfl

end Opcode

namespace Immediate

variable {t : Token} {t? : Option Token} {op : Opcode} {items rest : List Form} {a n : Nat}
  {p : Problem}

/-! ## What is read of each -/

/-- An offset that is given is read. -/
theorem offset_of_gives (hleads : Leads .offsetEq items t? rest) (h : GivesOffset t? a) :
    offset items = .ok (a, t?.toList.length) := by
  rw [offset, hleads.keyed?_eq]
  cases t? with
  | none =>
    obtain rfl : a = 0 := h
    rfl
  | some t =>
    dsimp only
    rw [natural_eq_ok_iff.mpr h]
    rfl

/-- An offset without a value is refused. -/
theorem offset_of_unreadable (hleads : Leads .offsetEq items t? rest) (h : Unreadable t? p) :
    offset items = .error p := by
  rw [offset, hleads.keyed?_eq]
  cases t? with
  | none => exact h.elim
  | some t =>
    dsimp only
    rw [natural_eq_error h.1, h.2]
    rfl

/-- An offset is given or has no value. -/
theorem gives_or_unreadable (t? : Option Token) :
    (∃ a, GivesOffset t? a) ∨ ∃ p, Unreadable t? p := by
  cases t? with
  | none => exact .inl ⟨0, rfl⟩
  | some t =>
    by_cases h : ∃ n, t.HasValue n
    · exact .inl h
    · exact .inr ⟨_, not_exists.mp h, rfl⟩

/-- An alignment that is given is read. -/
theorem align_of_gives (hleads : Leads .alignEq items t? rest) (h : GivesAlign op t? a) :
    align op items = .ok (a, t?.toList.length) := by
  rw [align, hleads.keyed?_eq]
  cases t? with
  | none =>
    obtain rfl : a = op.access := h
    dsimp only
    rw [Opcode.naturalAlign_eq_access]
    rfl
  | some t =>
    obtain ⟨hvalue, hpower, hle⟩ := h
    have hpower := Opcode.isPowerOfTwo_eq_true_iff.mpr hpower
    have haligned : op.isAligned a = true := by
      rw [Opcode.isAligned, hpower, Opcode.naturalAlign_eq_access, Bool.true_and,
        decide_eq_true hle, Bool.or_true]
    dsimp only
    rw [natural_eq_ok_iff.mpr hvalue]
    show (if !Opcode.isPowerOfTwo a then _ else _) = _
    -- the number is not the one that would be replaced
    rw [hpower, haligned, Opcode.resolveAlign, if_neg (Opcode.ne_useNatural hpower)]
    rfl

/-- An alignment without a value is refused. -/
theorem align_of_unreadable (hleads : Leads .alignEq items t? rest) (h : Unreadable t? p) :
    align op items = .error p := by
  rw [align, hleads.keyed?_eq]
  cases t? with
  | none => exact h.elim
  | some t =>
    dsimp only
    rw [natural_eq_error h.1, h.2]
    rfl

/-- An alignment that is no power of two, or too large, is refused. -/
theorem align_of_misaligned (hleads : Leads .alignEq items t? rest) (h : Misaligned op t? p) :
    align op items = .error p := by
  rw [align, hleads.keyed?_eq]
  cases t? with
  | none => exact h.elim
  | some t =>
    obtain ⟨n, hvalue, h⟩ := h
    dsimp only
    rw [natural_eq_ok_iff.mpr hvalue]
    show (if !Opcode.isPowerOfTwo n then _ else _) = _
    rcases h with ⟨hpower, rfl⟩ | ⟨hpower, hlt, rfl⟩
    · rw [Bool.eq_false_iff.mpr (mt Opcode.isPowerOfTwo_eq_true_iff.mp hpower)]
      rfl
    · have hpower := Opcode.isPowerOfTwo_eq_true_iff.mpr hpower
      have haligned : op.isAligned n = false := by
        rw [Opcode.isAligned, hpower, beq_false_of_ne (Opcode.ne_useNatural hpower),
          Opcode.naturalAlign_eq_access, decide_eq_false (Nat.not_le.mpr hlt)]
        rfl
      rw [hpower, haligned, Opcode.naturalAlign_eq_access]
      rfl

/-- An alignment is given, has no value, or is misaligned. -/
theorem gives_or_misaligned (op : Opcode) (t? : Option Token) :
    (∃ a, GivesAlign op t? a) ∨ ∃ p, Unreadable t? p ∨ Misaligned op t? p := by
  cases t? with
  | none => exact .inl ⟨op.access, rfl⟩
  | some t =>
    by_cases h : ∃ n, t.HasValue n
    · obtain ⟨n, hvalue⟩ := h
      by_cases hpower : n.isPowerOfTwo
      · by_cases hle : n ≤ op.access
        · exact .inl ⟨n, hvalue, hpower, hle⟩
        · exact .inr ⟨_, .inr ⟨n, hvalue, .inr ⟨hpower, Nat.not_le.mp hle, rfl⟩⟩⟩
      · exact .inr ⟨_, .inr ⟨n, hvalue, .inl ⟨hpower, rfl⟩⟩⟩
    · exact .inr ⟨_, .inl ⟨not_exists.mp h, rfl⟩⟩

theorem Unreadable.kind {t? : Option Token} (h : Unreadable t? p) : p.kind = .grammar := by
  cases t? with
  | none => exact h.elim
  | some t =>
    rw [h.2]
    rfl

theorem Misaligned.kind {t? : Option Token} (h : Misaligned op t? p) : p.kind = .typing := by
  cases t? with
  | none => exact h.elim
  | some t =>
    obtain ⟨n, -, h⟩ := h
    rcases h with ⟨-, rfl⟩ | ⟨-, -, rfl⟩ <;> rfl

/-! ## Both at once -/

section Both

variable {offset? align? : Option Token} {mid : List Form} {m : Nat}

/-- An offset and an alignment that are given are read one after the other. -/
theorem memArg_of_gives (hoffset : Leads .offsetEq items offset? mid)
    (halign : Leads .alignEq mid align? rest) (ha : GivesOffset offset? a)
    (hm : GivesAlign op align? m) :
    memArg op items = .ok (⟨m, a⟩, offset?.toList.length + align?.toList.length) := by
  rw [memArg, Success.bind_of (offset_of_gives hoffset ha)]
  dsimp only
  rw [hoffset.drop_eq, Success.bind_of (align_of_gives halign hm)]
  rfl

/-- An offset without a value is refused before the alignment is looked at. -/
theorem memArg_of_unreadable (hoffset : Leads .offsetEq items offset? mid)
    (h : Unreadable offset? p) : memArg op items = .error p := by
  rw [memArg, offset_of_unreadable hoffset h]
  rfl

/-- An alignment is refused behind an offset that is given. -/
theorem memArg_of_misaligned (hoffset : Leads .offsetEq items offset? mid)
    (halign : Leads .alignEq mid align? rest) (ha : GivesOffset offset? a)
    (h : Unreadable align? p ∨ Misaligned op align? p) : memArg op items = .error p := by
  have hp : align op mid = .error p := by
    rcases h with h | h
    · exact align_of_unreadable halign h
    · exact align_of_misaligned halign h
  rw [memArg, Success.bind_of (offset_of_gives hoffset ha)]
  dsimp only
  rw [hoffset.drop_eq, hp]
  rfl

end Both

/-- At the front of every row of forms stands an offset or none, and then an alignment or none. They
are accepted just if each gives a number that it may, and exactly they are taken; the problem is
with the grammar if a number is unreadable, and with the types if it is no alignment for the
instruction. The number that asks for the natural alignment is none. -/
theorem memArg_exact (op : Opcode) (items : List Form) :
    ∃ offset? align? mid rest, Leads .offsetEq items offset? mid ∧ Leads .alignEq mid align? rest ∧
      (∀ arg n, memArg op items = .ok (arg, n) ↔ GivesOffset offset? arg.offset ∧
        GivesAlign op align? arg.align ∧ n = offset?.toList.length + align?.toList.length) ∧
      (∀ p, memArg op items = .error p ↔ Unreadable offset? p ∨
        (∃ a, GivesOffset offset? a) ∧ (Unreadable align? p ∨ Misaligned op align? p)) ∧
      (∀ p, Unreadable offset? p ∨ Unreadable align? p → p.kind = .grammar) ∧
      (∀ p, Misaligned op align? p → p.kind = .typing) ∧
      (∀ t, align? = some t → t.HasValue Opcode.useNatural →
        ∀ arg n, memArg op items ≠ .ok (arg, n)) := by
  obtain ⟨offset?, mid, hoffset⟩ := exists_leads .offsetEq items
  obtain ⟨align?, rest, halign⟩ := exists_leads .alignEq mid
  -- what is there gives numbers or a problem, and the reader answers with either
  have hanswer : (∃ a m, GivesOffset offset? a ∧ GivesAlign op align? m) ∨
      ∃ p, Unreadable offset? p ∨
        (∃ a, GivesOffset offset? a) ∧ (Unreadable align? p ∨ Misaligned op align? p) := by
    rcases gives_or_unreadable offset? with ⟨a, ha⟩ | ⟨p, hp⟩
    · rcases gives_or_misaligned op align? with ⟨m, hm⟩ | ⟨p, hp⟩
      · exact .inl ⟨a, m, ha, hm⟩
      · exact .inr ⟨p, .inr ⟨⟨a, ha⟩, hp⟩⟩
    · exact .inr ⟨p, .inl hp⟩
  have herror (p : Problem) (h : Unreadable offset? p ∨
      (∃ a, GivesOffset offset? a) ∧ (Unreadable align? p ∨ Misaligned op align? p)) :
      memArg op items = .error p := by
    rcases h with h | ⟨⟨a, ha⟩, h⟩
    · exact memArg_of_unreadable hoffset h
    · exact memArg_of_misaligned hoffset halign ha h
  have hok (arg : MemArg) (n : Nat) (h : memArg op items = .ok (arg, n)) :
      GivesOffset offset? arg.offset ∧ GivesAlign op align? arg.align ∧
        n = offset?.toList.length + align?.toList.length := by
    rcases hanswer with ⟨a, m, ha, hm⟩ | ⟨p, hp⟩
    · have hgiven := memArg_of_gives hoffset halign ha hm
      obtain ⟨rfl, rfl⟩ := Prod.mk.inj (Except.ok.inj (hgiven.symm.trans h))
      exact ⟨ha, hm, rfl⟩
    · cases (herror p hp).symm.trans h
  refine ⟨offset?, align?, mid, rest, hoffset, halign, fun arg n => ⟨hok arg n, ?_⟩,
    fun p => ⟨fun h => ?_, herror p⟩, ?_, fun p => Misaligned.kind, ?_⟩
  · rintro ⟨ha, hm, rfl⟩
    exact memArg_of_gives hoffset halign ha hm
  · rcases hanswer with ⟨a, m, ha, hm⟩ | ⟨q, hq⟩
    · cases (memArg_of_gives hoffset halign ha hm).symm.trans h
    · obtain rfl := Except.error.inj ((herror q hq).symm.trans h)
      exact hq
  · rintro p (h | h)
    · exact h.kind
    · exact h.kind
  · rintro t rfl hvalue arg n h
    obtain ⟨hgiven, hmay⟩ := (hok arg n h).2.1
    rw [hasValue_unique hgiven hvalue] at hmay
    exact Opcode.not_mayAlign_useNatural op hmay

/-- Digits may stand apart, and an alignment may be smaller than what is accessed but not the number
that asks for the natural one. -/
example :
    let word (kind : TokenKind) (text : String) : Form := .atom ⟨kind, ⟨text, 0⟩, default⟩
    (memArg .i32Load [word .offsetEq "offset=0x1_0", word .alignEq "align=2"]).toOption =
        some (⟨2, 16⟩, 2) ∧
      (memArg .i32Load [word .alignEq "align=4294967295"]).toOption = none := by
  decide +kernel

end Immediate

end WasmText
