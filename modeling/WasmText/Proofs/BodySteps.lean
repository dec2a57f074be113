import WasmText.Proofs.Immediates

/-!
# What the readers of bodies answer

A body is read by functions that call each other. For each of them there is a relation with one
case for each way in which it succeeds, which names what the functions it calls have answered
(`SequenceAs`, `FlatBlockAs`, `OtherArmAs`, `FoldedAs`, `OperandsAs`, `ConditionalAs`). A reader
answers what its relation allows and nothing else, so what is proved of bodies by going through
these cases has no need to open the readers. The readers go down in the size of the forms they are
given, and so does what is proved along with them.
-/

namespace WasmText

open Form

/-! ## What the scope inside is -/

namespace Labels

/-- An `else` needs the first arm of a conditional on top, and replaces it. -/
theorem enterElse_eq_ok_iff {ls ls' : Labels} {span : Span} :
    ls.enterElse span = .ok ls' ↔ ∃ name sig outer,
      ls = ⟨.ifArm, name, sig⟩ :: outer ∧ ls' = ⟨.elseArm, name, sig⟩ :: outer := by
  unfold enterElse
  split
  · next name sig outer =>
    refine ⟨fun h => ⟨name, sig, outer, rfl, (Except.ok.inj h).symm⟩, ?_⟩
    rintro ⟨name', sig', outer', heq, rfl⟩
    cases heq
    rfl
  · next hno =>
    refine ⟨nofun, ?_⟩
    rintro ⟨name, sig, outer, rfl, -⟩
    exact absurd rfl (hno name sig outer)

end Labels

namespace Scope

variable {sc inner : Scope} {span : Span}

/-- One level deeper there is nothing else that changes. -/
theorem descend_eq_ok_iff :
    sc.descend span = .ok inner ↔
      sc.depth < maxNesting ∧ inner = { sc with depth := sc.depth + 1 } := by
  unfold descend
  split
  · next hdeep => exact ⟨nofun, fun h => absurd h.1 (Nat.not_lt.mpr hdeep)⟩
  · next hroom =>
    refine ⟨fun h => ⟨Nat.lt_of_not_le hroom, (Except.ok.inj h).symm⟩, ?_⟩
    rintro ⟨-, rfl⟩
    rfl

/-- The other arm has the label of the first. -/
theorem enterElse_eq_ok_iff :
    sc.enterElse span = .ok inner ↔
      ∃ name sig outer, sc.labels = ⟨.ifArm, name, sig⟩ :: outer ∧
        inner = { sc with labels := ⟨.elseArm, name, sig⟩ :: outer } := by
  constructor
  · intro h
    obtain ⟨labels, hlabels, h⟩ := Success.of_bind h
    obtain ⟨name, sig, outer, hinner, rfl⟩ := Labels.enterElse_eq_ok_iff.mp hlabels
    exact ⟨name, sig, outer, hinner, (Success.of_pure h).symm⟩
  · rintro ⟨name, sig, outer, hinner, rfl⟩
    exact Success.bind_of (Labels.enterElse_eq_ok_iff.mpr ⟨name, sig, outer, hinner, rfl⟩)

end Scope

namespace BlockKind

/-- Three opcodes open a block. -/
theorem ofOpcode?_eq_some_iff {op : Opcode} {kind : BlockKind} :
    ofOpcode? op = some kind ↔
      op = .block ∧ kind = .block ∨ op = .loop ∧ kind = .loop ∨ op = .ifOp ∧ kind = .cond := by
  constructor
  · intro h
    unfold ofOpcode? at h
    split at h
    · exact .inl ⟨rfl, (Option.some.inj h).symm⟩
    · exact .inr (.inl ⟨rfl, (Option.some.inj h).symm⟩)
    · exact .inr (.inr ⟨rfl, (Option.some.inj h).symm⟩)
    · cases h
  · rintro (⟨rfl, rfl⟩ | ⟨rfl, rfl⟩ | ⟨rfl, rfl⟩) <;> rfl

theorem eq_ifOp_of_cond {op : Opcode} (h : ofOpcode? op = some cond) : op = .ifOp := by
  obtain ⟨-, ⟨⟩⟩ | ⟨-, ⟨⟩⟩ | ⟨rfl, -⟩ := ofOpcode?_eq_some_iff.mp h
  rfl

/-- A block's word is no delimiter. -/
theorem ne_of_ofOpcode? {op : Opcode} {kind : BlockKind} (h : ofOpcode? op = some kind) :
    op ≠ .endOp ∧ op ≠ .elseOp := by
  obtain ⟨rfl, -⟩ | ⟨rfl, -⟩ | ⟨rfl, -⟩ := ofOpcode?_eq_some_iff.mp h <;>
    exact ⟨by simp, by simp⟩

end BlockKind

/-! ## Around the body of a block -/

namespace Block

variable {items : List Form} {name : Option String} {type : ValType} {span : Span} {n : Nat}

/-- How the result type of a block is read: it is written bare, or in a `(result …)` of one type at
most. -/
inductive SigAs (items : List Form) : ValType → Nat → Prop
  | none (hvalue : ∀ f ∈ items.head?, f.valType? = none)
    (hresult : ∀ f ∈ items.head?, f.headKeyword? ≠ some .resultKw) : SigAs items .void 0
  | bare {f : Form} {type : ValType} (hf : items.head? = some f) (hvalue : f.valType?.isSome)
    (htype : f.valueType = .ok type) : SigAs items type 1
  | empty {f : Form} (hf : items.head? = some f) (hresult : f.headKeyword? = some .resultKw)
    (hargs : f.args = []) : SigAs items .void 1
  | result {f g : Form} {type : ValType} (hf : items.head? = some f)
    (hresult : f.headKeyword? = some .resultKw) (hargs : f.args = [g])
    (htype : g.valueType = .ok type) : SigAs items type 1

/-- What is read as the type of a block is a type, a `result`, or nothing. -/
theorem sigAs_of_sig (h : sig items = .ok (type, n)) : SigAs items type n := by
  unfold sig at h
  split at h
  · next hnil =>
    obtain ⟨rfl, rfl⟩ := Prod.mk.inj (Except.ok.inj h)
    exact .none (by simp [hnil]) (by simp [hnil])
  · next f hf =>
    split at h
    · next hvalue =>
      obtain ⟨type, htype, h⟩ := Success.of_bind h
      obtain ⟨rfl, rfl⟩ := Prod.mk.inj (Success.of_pure h)
      exact .bare hf (by simp [hvalue]) htype
    · next hvalue =>
      split at h
      · next hresult =>
        split at h
        · next hargs =>
          obtain ⟨rfl, rfl⟩ := Prod.mk.inj (Except.ok.inj h)
          exact .empty hf hresult hargs
        · next g hargs =>
          obtain ⟨type, htype, h⟩ := Success.of_bind h
          obtain ⟨rfl, rfl⟩ := Prod.mk.inj (Success.of_pure h)
          exact .result hf hresult hargs htype
        · cases h
      · cases h
      · next hresult _ =>
        obtain ⟨rfl, rfl⟩ := Prod.mk.inj (Except.ok.inj h)
        exact .none (by simp [hf, hvalue]) (by simpa [hf] using hresult)

/-- A header takes the label, and the type after it. -/
theorem takes_of_header (h : header items = .ok (name, type, n)) :
    ∃ m, name = items.head?.bind Form.id? ∧ n = (if name.isSome then 1 else 0) + m ∧
      sig (items.drop (if name.isSome then 1 else 0)) = .ok (type, m) := by
  unfold header at h
  obtain ⟨⟨type, m⟩, hsig, h⟩ := Success.of_bind h
  obtain ⟨rfl, heq⟩ := Prod.mk.inj (Success.of_pure h)
  obtain ⟨rfl, rfl⟩ := Prod.mk.inj heq
  exact ⟨m, rfl, rfl, hsig⟩

/-- A label that is repeated is the block's. -/
theorem takes_of_repeatedLabel (h : repeatedLabel name items = .ok n) :
    n = 0 ∨ n = 1 ∧ ∃ f, items.head? = some f ∧ f.id?.isSome ∧ f.id? = name := by
  unfold repeatedLabel at h
  split at h
  · exact .inl (Except.ok.inj h).symm
  · next f hf =>
    split at h
    · exact .inl (Except.ok.inj h).symm
    · next found expected hid =>
      split at h
      · next heq =>
        refine .inr ⟨(Except.ok.inj h).symm, f, hf, by simp [hid], ?_⟩
        rw [hid, heq]
      · cases h
    · cases h

/-- A flat block ends at an `end` with its label or none. -/
theorem takes_of_flatEnd (h : flatEnd name span items = .ok n) :
    ∃ f rest m, items = f :: rest ∧ f.opcode? = some .endOp ∧ n = 1 + m ∧
      repeatedLabel name rest = .ok m := by
  unfold flatEnd at h
  split at h
  · cases h
  · next f rest =>
    split at h
    · next hend =>
      obtain ⟨m, hlabel, h⟩ := Success.of_bind h
      exact ⟨f, rest, m, rfl, hend, (Success.of_pure h).symm, hlabel⟩
    · cases h

end Block

namespace Body

theorem kind_of_opcode? {a : Token} {op : Opcode} (h : (Form.atom a).opcode? = some op) :
    a.kind = .opcode op := by
  obtain ⟨kind, text, span⟩ := a
  cases kind with
  | opcode op' => rw [Option.some.inj h]
  | _ => cases h

/-- Nothing is left over at the end of a body. -/
theorem eq_nil_of_finish {items : List Form} (h : finish items = .ok ()) : items = [] := by
  unfold finish at h
  split at h
  · rfl
  · cases h

/-! ## Sequences -/

/-- How the instructions at the front of some forms are read. -/
inductive SequenceAs (sc : Scope) (t : TypeTable) :
    List Form → List Instr → Nat → TypeTable → Prop
  | nil : SequenceAs sc t [] [] 0 t
  /-- An `end` or `else` is left for whoever asked for the instructions. -/
  | delimiter {a : Token} {rest : List Form}
    (hword : a.kind = .opcode .elseOp ∨ a.kind = .opcode .endOp) :
    SequenceAs sc t (.atom a :: rest) [] 0 t
  | folded {place : Span} {inside rest : List Form} {front others : List Instr} {m : Nat}
    {s t' : TypeTable} (hfront : (folded sc (.list place inside)).run t = .ok (front, s))
    (hothers : (sequence sc rest).run s = .ok ((others, m), t')) :
    SequenceAs sc t (.list place inside :: rest) (front ++ others) (m + 1) t'
  | block {a : Token} {rest : List Form} {op : Opcode} {kind : BlockKind} {i : Instr}
    {others : List Instr} {k m : Nat} {s t' : TypeTable} (hop : a.kind = .opcode op)
    (hkind : BlockKind.ofOpcode? op = some kind)
    (hflat : (flat sc kind a.span rest).run t = .ok ((i, k), s))
    (hothers : (sequence sc (rest.drop k)).run s = .ok ((others, m), t')) :
    SequenceAs sc t (.atom a :: rest) (i :: others) (k + m + 1) t'
  | plain {a : Token} {rest : List Form} {op : Opcode} {p : Plain} {others : List Instr} {k m : Nat}
    {s t' : TypeTable} (hop : a.kind = .opcode op) (hend : op ≠ .endOp) (helse : op ≠ .elseOp)
    (hplain : BlockKind.ofOpcode? op = none)
    (hread : (Plain.read sc op a.span rest).run t = .ok ((p, k), s))
    (hothers : (sequence sc (rest.drop k)).run s = .ok ((others, m), t')) :
    SequenceAs sc t (.atom a :: rest) (.plain p a.span :: others) (k + m + 1) t'

/-- A sequence that is read is read step by step. -/
theorem sequenceAs_of_run {sc : Scope} {items : List Form} {t t' : TypeTable} {is : List Instr}
    {n : Nat} (h : (sequence sc items).run t = .ok ((is, n), t')) :
    SequenceAs sc t items is n t' := by
  match items with
  | [] =>
    rw [sequence] at h
    obtain ⟨rfl, rfl, rfl⟩ := Success.of_run_pure_pair h
    exact .nil
  | .list place inside :: rest =>
    rw [sequence] at h
    obtain ⟨front, s, hfront, h⟩ := Success.of_run_bind h
    obtain ⟨⟨others, m⟩, s', hothers, h⟩ := Success.of_run_bind h
    obtain ⟨rfl, rfl, rfl⟩ := Success.of_run_pure_pair h
    exact .folded hfront hothers
  | .atom a :: rest =>
    rw [sequence] at h
    split at h
    · next hend =>
      obtain ⟨rfl, rfl, rfl⟩ := Success.of_run_pure_pair h
      exact .delimiter (.inr hend)
    · next helse =>
      obtain ⟨rfl, rfl, rfl⟩ := Success.of_run_pure_pair h
      exact .delimiter (.inl helse)
    · next op hend helse hop =>
      split at h
      · next kind hkind =>
        obtain ⟨⟨i, k⟩, s, hflat, h⟩ := Success.of_run_bind h
        obtain ⟨⟨others, m⟩, s', hothers, h⟩ := Success.of_run_bind h
        obtain ⟨rfl, rfl, rfl⟩ := Success.of_run_pure_pair h
        exact .block hop hkind hflat hothers
      · next hplain =>
        obtain ⟨⟨p, k⟩, s, hread, h⟩ := Success.of_run_bind h
        obtain ⟨⟨others, m⟩, s', hothers, h⟩ := Success.of_run_bind h
        obtain ⟨rfl, rfl, rfl⟩ := Success.of_run_pure_pair h
        have hend : op ≠ .endOp := by rintro rfl; exact hend rfl
        have helse : op ≠ .elseOp := by rintro rfl; exact helse rfl
        exact .plain hop hend helse hplain hread hothers
    · cases h

/-- The instruction words `else` and `end` end a sequence. -/
theorem sequence_delimiter {sc : Scope} {f : Form}
    (h : f.opcode? = some .elseOp ∨ f.opcode? = some .endOp)
    (rest : List Form) : sequence sc (f :: rest) = pure ([], 0) := by
  obtain ⟨⟨kind, text, span⟩⟩ | ⟨span, inside⟩ := f
  · cases kind with
    | opcode op =>
      simp only [Form.opcode?, Option.some.injEq] at h
      rcases h with rfl | rfl <;> rw [sequence]
    | _ => simp [Form.opcode?] at h
  · simp [Form.opcode?] at h

/-- Any other word starts an instruction. -/
theorem sequence_word {sc : Scope} {a : Token} {op : Opcode} (hop : a.kind = .opcode op)
    (hend : op ≠ .endOp) (helse : op ≠ .elseOp) (rest : List Form) :
    sequence sc (.atom a :: rest) =
      match BlockKind.ofOpcode? op with
      | some kind => do
        let (i, n) ← flat sc kind a.span rest
        let (others, m) ← sequence sc (rest.drop n)
        return (i :: others, n + m + 1)
      | none => do
        let (p, n) ← Plain.read sc op a.span rest
        let (others, m) ← sequence sc (rest.drop n)
        return (.plain p a.span :: others, n + m + 1) := by
  rw [sequence, hop]
  split
  · next heq => exact absurd (TokenKind.opcode.inj heq) hend
  · next heq => exact absurd (TokenKind.opcode.inj heq) helse
  · next heq =>
    obtain rfl := TokenKind.opcode.inj heq
    rfl
  · next hother => exact absurd rfl (hother op)

/-- `SequenceAs` holds of nothing but what is read. -/
theorem run_of_sequenceAs {sc : Scope} {items : List Form} {t t' : TypeTable} {is : List Instr}
    {n : Nat} (h : SequenceAs sc t items is n t') :
    (sequence sc items).run t = .ok ((is, n), t') := by
  cases h with
  | nil =>
    rw [sequence]
    rfl
  | delimiter hword =>
    rw [sequence_delimiter (hword.imp opcode?_of_kind opcode?_of_kind)]
    rfl
  | folded hfront hothers =>
    rw [sequence, Success.run_bind hfront, Success.run_bind hothers]
    rfl
  | block hop hkind hflat hothers =>
    obtain ⟨hend, helse⟩ := BlockKind.ne_of_ofOpcode? hkind
    rw [sequence_word hop hend helse, hkind]
    dsimp only
    rw [Success.run_bind hflat, Success.run_bind hothers]
    rfl
  | plain hop hend helse hplain hread hothers =>
    rw [sequence_word hop hend helse, hplain]
    dsimp only
    rw [Success.run_bind hread, Success.run_bind hothers]
    rfl

/-! ## Flat blocks -/

/-- How a flat block is read: its header, its body, its other arm and its `end` take the forms one
after the other. -/
inductive FlatBlockAs (sc : Scope) (kind : BlockKind) (place : Span) (t : TypeTable)
    (items : List Form) : Instr → Nat → TypeTable → Prop
  | block {deeper : Scope} {name : Option String} {sig : ValType} {body elseBody : List Instr}
    {k m j last : Nat} {s t' : TypeTable} (hheader : Block.header items = .ok (name, sig, k))
    (hdeeper : sc.descend place = .ok deeper)
    (hbody : (sequence (deeper.enter kind.label name sig) (items.drop k)).run t =
      .ok ((body, m), s))
    (helse : (otherArm (deeper.enter kind.label name sig) kind name (items.drop (k + m))).run s =
      .ok ((elseBody, j), t'))
    (hlast : Block.flatEnd name place (items.drop (k + m + j)) = .ok last) :
    FlatBlockAs sc kind place t items (kind.toInstr name sig body elseBody place)
      (k + m + j + last) t'

/-- A flat block that is read has its header, its body, its second arm and its end. -/
theorem flatBlockAs_of_run {sc : Scope} {kind : BlockKind} {place : Span} {items : List Form}
    {t t' : TypeTable} {i : Instr} {n : Nat}
    (h : (flat sc kind place items).run t = .ok ((i, n), t')) :
    FlatBlockAs sc kind place t items i n t' := by
  rw [flat] at h
  obtain ⟨⟨name, sig, k⟩, hheader, h⟩ := Success.of_run_lift h
  obtain ⟨deeper, hdeeper, h⟩ := Success.of_run_lift h
  obtain ⟨⟨body, m⟩, s, hbody, h⟩ := Success.of_run_bind h
  obtain ⟨⟨elseBody, j⟩, s', helse, h⟩ := Success.of_run_bind h
  obtain ⟨last, hlast, h⟩ := Success.of_run_lift h
  obtain ⟨rfl, rfl, rfl⟩ := Success.of_run_pure_pair h
  exact .block hheader hdeeper hbody helse hlast

/-- A flat block with its header, its body, its second arm and its end is read. -/
theorem run_of_flatBlockAs {sc : Scope} {kind : BlockKind} {place : Span} {items : List Form}
    {t t' : TypeTable} {i : Instr} {n : Nat} (h : FlatBlockAs sc kind place t items i n t') :
    (flat sc kind place items).run t = .ok ((i, n), t') := by
  obtain ⟨hheader, hdeeper, hbody, helse, hlast⟩ := h
  rw [flat, Success.run_lift hheader]
  dsimp only
  rw [Success.run_lift hdeeper, Success.run_bind hbody, Success.run_bind helse,
    Success.run_lift hlast]
  rfl

/-- How the other arm of a flat block is read. Only a conditional has one. -/
inductive OtherArmAs (sc : Scope) (kind : BlockKind) (name : Option String) (t : TypeTable) :
    List Form → List Instr → Nat → TypeTable → Prop
  | none {items : List Form} (hno : items.head?.bind Form.opcode? ≠ some .elseOp) :
    OtherArmAs sc kind name t items [] 0 t
  | arm {f : Form} {rest : List Form} {other : Scope} {body : List Instr} {k m : Nat}
    {t' : TypeTable} (hcond : kind = .cond) (hword : f.opcode? = some .elseOp)
    (hlabel : Block.repeatedLabel name rest = .ok k) (hother : sc.enterElse f.span = .ok other)
    (hbody : (sequence other (rest.drop k)).run t = .ok ((body, m), t')) :
    OtherArmAs sc kind name t (f :: rest) body (1 + k + m) t'

/-- What is read as a second arm is one behind an `else`, or there is none. -/
theorem otherArmAs_of_run {sc : Scope} {kind : BlockKind} {name : Option String}
    {items : List Form} {t t' : TypeTable} {is : List Instr} {n : Nat}
    (h : (otherArm sc kind name items).run t = .ok ((is, n), t')) :
    OtherArmAs sc kind name t items is n t' := by
  match items with
  | [] =>
    rw [otherArm] at h
    obtain ⟨rfl, rfl, rfl⟩ := Success.of_run_pure_pair h
    exact .none (by simp)
  | f :: rest =>
    rw [otherArm] at h
    split at h
    · next hword =>
      dsimp only at h
      split at h
      · cases h
      · next hcond =>
        obtain ⟨k, hlabel, h⟩ := Success.of_run_lift h
        obtain ⟨other, hother, h⟩ := Success.of_run_lift h
        obtain ⟨⟨body, m⟩, s, hbody, h⟩ := Success.of_run_bind h
        obtain ⟨rfl, rfl, rfl⟩ := Success.of_run_pure_pair h
        exact .arm (Decidable.not_not.mp hcond) hword hlabel hother hbody
    · next hno =>
      obtain ⟨rfl, rfl, rfl⟩ := Success.of_run_pure_pair h
      exact .none hno

/-- A second arm behind an `else` is read, and so is none. -/
theorem run_of_otherArmAs {sc : Scope} {kind : BlockKind} {name : Option String}
    {items : List Form} {t t' : TypeTable} {is : List Instr} {n : Nat}
    (h : OtherArmAs sc kind name t items is n t') :
    (otherArm sc kind name items).run t = .ok ((is, n), t') := by
  cases h with
  | none hno =>
    cases items with
    | nil =>
      rw [otherArm]
      rfl
    | cons f rest =>
      have hword : f.opcode? ≠ some .elseOp := hno
      rw [otherArm, if_neg hword]
      rfl
  | arm hcond hword hlabel hother hbody =>
    rw [otherArm, if_pos hword]
    dsimp only
    rw [if_neg (not_not.mpr hcond), Success.run_lift hlabel, Success.run_lift hother,
      Success.run_bind hbody]
    rfl

/-! ## Folded instructions -/

/-- How a folded instruction is read, by the word at its head. -/
inductive FoldedAs (sc : Scope) (t : TypeTable) : Form → List Instr → TypeTable → Prop
  | plain {deeper : Scope} {place : Span} {a : Token} {rest : List Form} {op : Opcode} {p : Plain}
    {n : Nat} {s t' : TypeTable} {groups : List (List Instr)}
    (hdeeper : sc.descend place = .ok deeper) (hop : a.kind = .opcode op) (hend : op ≠ .endOp)
    (helse : op ≠ .elseOp) (hplain : BlockKind.ofOpcode? op = none)
    (hread : (Plain.read deeper op place rest).run t = .ok ((p, n), s))
    (hgroups : (operands deeper (rest.drop n)).run s = .ok (groups, t'))
    (hcheck : Operand.check op p groups place = .ok ()) :
    FoldedAs sc t (.list place (.atom a :: rest)) (groups.flatten ++ [.plain p place]) t'
  | cond {deeper : Scope} {place : Span} {a : Token} {rest : List Form} {op : Opcode}
    {name : Option String} {sig : ValType} {n : Nat} {is : List Instr} {t' : TypeTable}
    (hdeeper : sc.descend place = .ok deeper) (hop : a.kind = .opcode op)
    (hcond : BlockKind.ofOpcode? op = some .cond)
    (hheader : Block.header rest = .ok (name, sig, n))
    (harms : (conditional deeper name sig place (rest.drop n)).run t = .ok (is, t')) :
    FoldedAs sc t (.list place (.atom a :: rest)) is t'
  | block {deeper : Scope} {place : Span} {a : Token} {rest : List Form} {op : Opcode}
    {kind : BlockKind} {name : Option String} {sig : ValType} {n : Nat} {body : List Instr}
    {t' : TypeTable} (hdeeper : sc.descend place = .ok deeper) (hop : a.kind = .opcode op)
    (hkind : BlockKind.ofOpcode? op = some kind) (hcond : kind ≠ .cond)
    (hheader : Block.header rest = .ok (name, sig, n))
    (hbody : (whole (deeper.enter kind.label name sig) (rest.drop n)).run t = .ok (body, t')) :
    FoldedAs sc t (.list place (.atom a :: rest)) [kind.toInstr name sig body [] place] t'

/-- A folded instruction that is read is a plain one with operands, a block or a conditional. -/
theorem foldedAs_of_run {sc : Scope} {f : Form} {t t' : TypeTable} {is : List Instr}
    (h : (folded sc f).run t = .ok (is, t')) : FoldedAs sc t f is t' := by
  rw [folded.eq_def] at h
  obtain ⟨deeper, hdeeper, h⟩ := Success.of_run_lift h
  match f with
  | .atom _ | .list _ [] | .list _ (.list _ _ :: _) => cases h
  | .list place (.atom a :: rest) =>
    simp only [List.drop_succ_cons, List.drop_zero] at h
    split at h
    · cases h
    · cases h
    · cases h
    · next op hend helse hhead =>
      have hop : a.kind = .opcode op := kind_of_opcode? hhead
      split at h
      · next hplain =>
        obtain ⟨⟨p, n⟩, s, hread, h⟩ := Success.of_run_bind h
        obtain ⟨groups, s', hgroups, h⟩ := Success.of_run_bind h
        obtain ⟨_, hcheck, h⟩ := Success.of_run_lift h
        obtain ⟨rfl, rfl⟩ := Success.of_run_pure h
        exact .plain hdeeper hop hend helse hplain hread hgroups hcheck
      · next hcond =>
        obtain ⟨⟨name, sig, n⟩, hheader, h⟩ := Success.of_run_lift h
        exact .cond hdeeper hop hcond hheader h
      · next kind hcond hkind =>
        obtain ⟨⟨name, sig, n⟩, hheader, h⟩ := Success.of_run_lift h
        obtain ⟨body, s, hbody, h⟩ := Success.of_run_bind h
        obtain ⟨rfl, rfl⟩ := Success.of_run_pure h
        exact .block hdeeper hop hkind hcond hheader hbody

/-- A folded instruction is read by what its word is. -/
theorem folded_word {sc : Scope} {place : Span} {head : Form} {op : Opcode}
    (hhead : head.opcode? = some op) (hend : op ≠ .endOp) (helse : op ≠ .elseOp)
    (rest : List Form) :
    folded sc (.list place (head :: rest)) = do
      let sc ← sc.descend place
      match BlockKind.ofOpcode? op with
      | none => do
        let (p, n) ← Plain.read sc op place rest
        let groups ← operands sc (rest.drop n)
        Operand.check op p groups place
        return groups.flatten ++ [.plain p place]
      | some .cond => do
        let (name, sig, n) ← (Block.header rest : Except _ _)
        conditional sc name sig place (rest.drop n)
      | some kind => do
        let (name, sig, n) ← (Block.header rest : Except _ _)
        let body ← whole (sc.enter kind.label name sig) (rest.drop n)
        return [kind.toInstr name sig body [] place] := by
  rw [folded.eq_def]
  simp only [List.head?_cons, Option.bind_some, hhead, List.drop_succ_cons, List.drop_zero]
  rfl

/-- `FoldedAs` holds of nothing but what is read. -/
theorem run_of_foldedAs {sc : Scope} {f : Form} {t t' : TypeTable} {is : List Instr}
    (h : FoldedAs sc t f is t') : (folded sc f).run t = .ok (is, t') := by
  cases h with
  | plain hdeeper hop hend helse hplain hread hgroups hcheck =>
    rw [folded_word (opcode?_of_kind hop) hend helse, Success.run_lift hdeeper, hplain]
    dsimp only
    rw [Success.run_bind hread, Success.run_bind hgroups, Success.run_lift hcheck]
    rfl
  | cond hdeeper hop hcond hheader harms =>
    obtain ⟨hend, helse⟩ := BlockKind.ne_of_ofOpcode? hcond
    rw [folded_word (opcode?_of_kind hop) hend helse, Success.run_lift hdeeper, hcond]
    dsimp only
    rw [Success.run_lift hheader]
    exact harms
  | @block _ _ _ _ _ kind _ _ _ _ _ hdeeper hop hkind hcond hheader hbody =>
    obtain ⟨hend, helse⟩ := BlockKind.ne_of_ofOpcode? hkind
    rw [folded_word (opcode?_of_kind hop) hend helse, Success.run_lift hdeeper, hkind]
    cases kind with
    | cond => exact absurd rfl hcond
    | block | loop =>
      dsimp only
      rw [Success.run_lift hheader, Success.run_bind hbody]
      rfl

/-- A folded instruction has an opcode at its head, which is no `else`. -/
theorem exists_headOpcode?_of_folded {sc : Scope} {f : Form} {t t' : TypeTable} {is : List Instr}
    (h : (folded sc f).run t = .ok (is, t')) :
    ∃ op, f.headOpcode? = some op ∧ op ≠ .elseOp := by
  cases foldedAs_of_run h with
  | plain _ hop _ helse => exact ⟨_, opcode?_of_kind hop, helse⟩
  | cond _ hop hkind | block _ hop hkind =>
    exact ⟨_, opcode?_of_kind hop, (BlockKind.ne_of_ofOpcode? hkind).2⟩

/-- How operands are read: each is a list. -/
inductive OperandsAs (sc : Scope) (t : TypeTable) :
    List Form → List (List Instr) → TypeTable → Prop
  | nil : OperandsAs sc t [] [] t
  | cons {place : Span} {inside rest : List Form} {group : List Instr} {groups : List (List Instr)}
    {s t' : TypeTable} (hgroup : (folded sc (.list place inside)).run t = .ok (group, s))
    (hgroups : (operands sc rest).run s = .ok (groups, t')) :
    OperandsAs sc t (.list place inside :: rest) (group :: groups) t'

/-- Operands that are read are read one after the other. -/
theorem operandsAs_of_run {sc : Scope} {items : List Form} {t t' : TypeTable}
    {groups : List (List Instr)} (h : (operands sc items).run t = .ok (groups, t')) :
    OperandsAs sc t items groups t' := by
  match items with
  | [] =>
    rw [operands] at h
    obtain ⟨rfl, rfl⟩ := Success.of_run_pure h
    exact .nil
  | .atom a :: rest =>
    rw [operands] at h
    cases h
  | .list place inside :: rest =>
    rw [operands] at h
    obtain ⟨group, s, hgroup, h⟩ := Success.of_run_bind h
    obtain ⟨groups', s', hgroups, h⟩ := Success.of_run_bind h
    obtain ⟨rfl, rfl⟩ := Success.of_run_pure h
    exact .cons hgroup hgroups

theorem run_of_operandsAs {sc : Scope} {items : List Form} {t t' : TypeTable}
    {groups : List (List Instr)} (h : OperandsAs sc t items groups t') :
    (operands sc items).run t = .ok (groups, t') := by
  cases h with
  | nil =>
    rw [operands]
    rfl
  | cons hgroup hgroups =>
    rw [operands, Success.run_bind hgroup, Success.run_bind hgroups]
    rfl

/-! ## Folded conditionals -/

/-- How a folded conditional is read after its label and type: its condition up to the `then` form,
and one arm or two. -/
inductive ConditionalAs (sc : Scope) (name : Option String) (sig : ValType) (span : Span)
    (t : TypeTable) : List Form → List Instr → TypeTable → Prop
  | one {f : Form} {body : List Instr} {t' : TypeTable} (hthen : f.isHeadedBy .thenKw = true)
    (hbody : (arm (sc.enter .ifArm name sig) f).run t = .ok (body, t')) :
    ConditionalAs sc name sig span t [f] [.cond name sig body [] span] t'
  | two {f g : Form} {other : Scope} {body elseBody : List Instr} {s t' : TypeTable}
    (hthen : f.isHeadedBy .thenKw = true)
    (hbody : (arm (sc.enter .ifArm name sig) f).run t = .ok (body, s))
    (hword : g.headOpcode? = some .elseOp)
    (hother : (sc.enter .ifArm name sig).enterElse g.span = .ok other)
    (helse : (arm other g).run s = .ok (elseBody, t')) :
    ConditionalAs sc name sig span t [f, g] [.cond name sig body elseBody span] t'
  | condition {f : Form} {rest : List Form} {group others : List Instr} {s t' : TypeTable}
    (hthen : f.isHeadedBy .thenKw = false) (hgroup : (folded sc f).run t = .ok (group, s))
    (hcheck : Operand.checkValue .ifOp group = .ok ())
    (hothers : (conditional sc name sig span rest).run s = .ok (others, t')) :
    ConditionalAs sc name sig span t (f :: rest) (group ++ others) t'

/-- What is read behind the header of a folded conditional is a condition and arms. -/
theorem conditionalAs_of_run {sc : Scope} {name : Option String} {sig : ValType} {span : Span}
    {items : List Form} {t t' : TypeTable} {is : List Instr}
    (h : (conditional sc name sig span items).run t = .ok (is, t')) :
    ConditionalAs sc name sig span t items is t' := by
  match items with
  | [] =>
    rw [conditional] at h
    cases h
  | f :: rest =>
    rw [conditional.eq_def] at h
    dsimp only at h
    split at h
    · next hthen =>
      obtain ⟨body, s, hbody, h⟩ := Success.of_run_bind h
      cases rest with
      | nil =>
        obtain ⟨rfl, rfl⟩ := Success.of_run_pure h
        exact .one hthen hbody
      | cons g rest =>
        dsimp only at h
        split at h
        · next hword =>
          obtain ⟨other, hother, h⟩ := Success.of_run_lift h
          obtain ⟨elseBody, s', helse, h⟩ := Success.of_run_bind h
          obtain ⟨_, hmore, h⟩ := Success.of_run_lift h
          obtain ⟨rfl, rfl⟩ := Success.of_run_pure h
          obtain rfl := eq_nil_of_noMore hmore
          exact .two hthen hbody hword hother helse
        · cases h
    · next hthen =>
      obtain ⟨group, s, hgroup, h⟩ := Success.of_run_bind h
      obtain ⟨_, hcheck, h⟩ := Success.of_run_lift h
      obtain ⟨others, s', hothers, h⟩ := Success.of_run_bind h
      obtain ⟨rfl, rfl⟩ := Success.of_run_pure h
      exact .condition (Bool.eq_false_iff.mpr hthen) hgroup hcheck hothers

/-- A condition with its arms is read behind the header of a folded conditional. -/
theorem run_of_conditionalAs {sc : Scope} {name : Option String} {sig : ValType} {span : Span}
    {items : List Form} {t t' : TypeTable} {is : List Instr}
    (h : ConditionalAs sc name sig span t items is t') :
    (conditional sc name sig span items).run t = .ok (is, t') := by
  cases h with
  | one hthen hbody =>
    rw [conditional.eq_def]
    dsimp only
    rw [if_pos hthen, Success.run_bind hbody]
    rfl
  | two hthen hbody hword hother helse =>
    rw [conditional.eq_def]
    dsimp only
    rw [if_pos hthen, Success.run_bind hbody, if_pos hword, Success.run_lift hother,
      Success.run_bind helse]
    rfl
  | condition hthen hgroup hcheck hothers =>
    rw [conditional.eq_def]
    dsimp only
    rw [if_neg (Bool.eq_false_iff.mp hthen), Success.run_bind hgroup, Success.run_lift hcheck,
      Success.run_bind hothers]
    rfl

/-! ## Arms and whole bodies -/

/-- A whole body is a sequence of which nothing is left. -/
theorem sequence_of_whole {sc : Scope} {items : List Form} {t t' : TypeTable} {is : List Instr}
    (h : (whole sc items).run t = .ok (is, t')) :
    ∃ n, (sequence sc items).run t = .ok ((is, n), t') ∧ items.drop n = [] := by
  rw [whole] at h
  obtain ⟨⟨body, n⟩, s, hbody, h⟩ := Success.of_run_bind h
  obtain ⟨_, hfinish, h⟩ := Success.of_run_lift h
  obtain ⟨rfl, rfl⟩ := Success.of_run_pure h
  exact ⟨n, hbody, eq_nil_of_finish hfinish⟩

/-- A body is a sequence that takes all items. -/
theorem whole_of_sequence {sc : Scope} {items : List Form} {t t' : TypeTable} {is : List Instr}
    {n : Nat} (h : (sequence sc items).run t = .ok ((is, n), t')) (hnil : items.drop n = []) :
    (whole sc items).run t = .ok (is, t') := by
  rw [whole, Success.run_bind h]
  dsimp only
  rw [hnil]
  rfl

/-- What an arm holds is a whole body, which is empty if the arm is no list. -/
theorem arm_eq_whole (sc : Scope) (f : Form) : arm sc f = whole sc f.args := by
  cases f with
  | atom a =>
    rw [arm, args, whole, sequence]
    rfl
  | list place items => rw [arm, args, List.drop_one]

/-! ## Sizes that the readers go down in -/

/-- Items with some of them dropped are smaller than with one in front. -/
theorem two_mul_sizeOf_drop_lt (f : Form) (n : Nat) (items : List Form) :
    2 * sizeOf (items.drop n) + 1 < 2 * sizeOf (f :: items) := by
  have hle := sizeOf_drop_le n items
  rw [List.cons.sizeOf_spec]
  omega

theorem two_mul_sizeOf_head_lt (f : Form) (items : List Form) :
    2 * sizeOf f < 2 * sizeOf (f :: items) := by
  rw [List.cons.sizeOf_spec]
  omega

theorem two_mul_sizeOf_second_lt (f g : Form) (items : List Form) :
    2 * sizeOf g < 2 * sizeOf (f :: g :: items) := by
  rw [List.cons.sizeOf_spec, List.cons.sizeOf_spec]
  omega

theorem two_mul_sizeOf_drop_lt_list (place : Span) (f : Form) (n : Nat) (items : List Form) :
    2 * sizeOf (items.drop n) + 1 < 2 * sizeOf (Form.list place (f :: items)) := by
  have hlt := two_mul_sizeOf_drop_lt f n items
  rw [Form.list.sizeOf_spec]
  omega

/-- What an arm holds is smaller than the arm. -/
theorem two_mul_sizeOf_args_lt (f : Form) : 2 * sizeOf f.args + 1 < 2 * sizeOf f := by
  cases f with
  | atom a =>
    simp only [args, List.nil.sizeOf_spec, Form.atom.sizeOf_spec]
    have hpos : 0 < sizeOf a := by
      obtain ⟨kind, source, place⟩ := a
      rw [Token.mk.sizeOf_spec]
      omega
    omega
  | list place items =>
    have hle := sizeOf_drop_le 1 items
    rw [List.drop_one] at hle
    rw [args, Form.list.sizeOf_spec]
    omega

end Body

end WasmText
